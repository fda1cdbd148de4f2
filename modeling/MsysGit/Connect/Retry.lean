import MsysGit.Connect.HttpAnswer
import MsysGit.Connect.Direct

/-!
# The retry label of `main`

`main` opens a connection and negotiates over it; when `begin_http_relay` returns
`START_RETRY` it closes the connection and begins again at the label `retry`.  What
the peers do is given connection by connection, for all that may ever be opened.

There are two answers that make it try again (`pass_retry`): 302, after which only
the relay is another one, and a 401 or 407 with a Basic challenge while no
authentication is in use, after which Basic is.  The second happens once in a run.
-/

namespace MsysGit.Connect

open MsysGit.Library MsysGit.Library.CString

/-! ### The loop -/

/-- A connection, as the peer behaves on it.  `buf` is what the stack holds where
`begin_http_relay` has its buffer; `negotiated` is whether a SOCKS or telnet negotiation
succeeds, with what it needs before. -/
structure Connection where
  incoming : List Bytes
  broken : Bool
  accepts : List (Option ℕ)
  buf : LineBuffer
  negotiated : Bool

/-- The world a negotiation over the connection starts in. -/
def Connection.world (c : Connection) (g : Globals) : World where
  globals := g
  incoming := c.incoming
  broken := c.broken
  accepts := c.accepts
  sent := []
  trace := []

/-- What one pass from the label `retry` comes to. -/
inductive Pass
  /-- The relaying starts. -/
  | relaying
  /-- `fatal` was called. -/
  | exited
  /-- `goto retry` -/
  | retry (g : Globals)
  /-- The pass stopped for another reason, or is still running. -/
  | stopped (why : Halt)

/-- The `switch` on the method. -/
def negotiate (fuel : ℕ) (g : Globals) (c : Connection) : Pass :=
  match g.relayMethod with
  | .http =>
      match beginHttpRelay fuel c.buf (c.world g) with
      | .halted .fatal _ => .exited
      | .halted why _ => .stopped why
      | .returned ret w =>
          if ret = startError then .exited
          else if ret = startRetry then .retry w.globals
          else .relaying
  | .socks | .telnet => if c.negotiated then .relaying else .exited
  | .undecided | .direct => .relaying

/-- A run of `connect`: its state when the options have been read, and the connections that
`open_connection` returns one after the other, `none` for an error. -/
structure Session where
  inetAddr : Bytes → InAddr
  globals : Globals
  connections : ℕ → Option Connection

namespace Session

variable (s : Session)

/-- `if (check_direct(dest_host)) relay_method = METHOD_DIRECT` -/
def chooseMethod (g : Globals) : Globals :=
  if checkDirect s.inetAddr (initializeDirectAddr s.globals) g.destHost then
    { g with relayMethod := .direct }
  else g

/-- The pass that opens connection `n`. -/
def pass (fuel n : ℕ) (g : Globals) : Pass :=
  match s.connections n with
  | none => .exited
  | some c => negotiate fuel (s.chooseMethod g) c

/-- `Reaches n g`: `main` comes to the label for the `n`-th time after the first, in `g`. -/
inductive Reaches : ℕ → Globals → Prop
  | start : Reaches 0 s.globals
  | again {n fuel : ℕ} {g g' : Globals} : Reaches n g → s.pass fuel n g = .retry g' →
      Reaches (n + 1) g'

/-- The relaying starts or the process ends with an error, after some number of attempts. -/
def Finishes : Prop :=
  ∃ n g fuel, s.Reaches n g ∧ (s.pass fuel n g = .relaying ∨ s.pass fuel n g = .exited)

/-- The HTTP method is used. -/
def UsesHttp : Prop := (s.chooseMethod s.globals).relayMethod = .http

end Session

/-! ### The answers -/

/-- Does the header end with Basic authentication offered?  `found` is whether it was in the
lines before.  A header with a bare challenge is refused; where the connection breaks, the
line it breaks in is not looked at. -/
def offersBasic (what : Bytes) (broken found : Bool) (lines : Bytes) : Bool :=
  if _h : lines = [] then broken && found
  else if broken ∧ newline ∉ (nextLine lines).1 ∧ (nextLine lines).1.length ≠ 1023 then found
  else if bareChallenge what (nextLine lines).1 then false
  else if blankLine (nextLine lines).1 then found
  else offersBasic what broken (found || basicChallenge what (nextLine lines).1)
    (nextLine lines).2
termination_by lines.length
decreasing_by exact LineLoop.nextLine_shorter _h

section Answers

variable {w : World} {E : Halt → World → Prop}

/-- A header that never ends offers nothing. -/
theorem offersBasic_nil (what : Bytes) (found : Bool) :
    offersBasic what false found [] = false := by
  rw [offersBasic, dif_pos rfl, Bool.false_and]

/-- One line of the header, when it is not the one the connection breaks in. -/
theorem offersBasic_line {b : UInt8} {name : Bytes} (upper : isupper b) {broken found : Bool}
    {lines : Bytes}
    (whole : broken → newline ∈ (nextLine lines).1 ∨ (nextLine lines).1.length = 1023) :
    offersBasic (b :: name) broken found lines =
      if bareChallenge (b :: name) (nextLine lines).1 then false
      else if blankLine (nextLine lines).1 then found
      else offersBasic (b :: name) broken (found || basicChallenge (b :: name) (nextLine lines).1)
        (nextLine lines).2 := by
  by_cases empty : lines = []
  · -- The stream has ended: empty lines are read for ever.
    subst empty
    have unbroken : broken = false := by
      by_contra torn
      rcases whole (by simpa using torn) with inside | long
      · cases inside
      · cases long
    have no_end : bareChallenge (b :: name) [] = false := by
      have none : authenticationEnd (b :: name) [] = false := authenticationEnd_nil upper
      rw [authenticationEnd, Bool.or_eq_false_iff] at none
      exact none.2
    have read : nextLine [] = ([], []) := rfl
    have not_blank : blankLine [] = false := rfl
    rw [read, no_end, not_blank, unbroken, offersBasic_nil]
    exact (offersBasic_nil _ _).symm
  · have not_torn : ¬ (broken ∧ newline ∉ (nextLine lines).1 ∧
        (nextLine lines).1.length ≠ 1023) := by
      rintro ⟨torn, none, short⟩
      exact (whole torn).elim none short
    rw [offersBasic, dif_neg empty, if_neg not_torn]

/-- Where the connection breaks, what was found before counts. -/
theorem offersBasic_torn (what : Bytes) {broken : Bool} (found : Bool) {lines : Bytes}
    (torn : broken) (none : newline ∉ (nextLine lines).1)
    (short : (nextLine lines).1.length < 1023) : offersBasic what broken found lines = found := by
  rw [offersBasic]
  by_cases empty : lines = []
  · rw [dif_pos empty, torn, Bool.true_and]
  · rw [dif_neg empty, if_pos ⟨torn, none, Nat.ne_of_lt short⟩]

/-- The loop after 302 changes the relay and asks for a retry. -/
theorem wp_redirect (fuel : ℕ) : ∀ (buf : LineBuffer) (host : Option (Option ℕ)) (w : World),
    (redirect fuel buf host).wp w
      (fun r w' => r = startRetry ∧ w.globals.Redirected w'.globals)
      (fun why _ => why = .running) := by
  induction fuel with
  | zero => exact fun _ _ _ => rfl
  | succ fuel ih =>
      intro buf host w
      refine wp_redirect_round (fun _ _ _ _ moved => ⟨rfl, moved⟩)
        (fun _ _ moved _ => ⟨rfl, moved⟩) fun _ _ buf' host' w' moved _ _ => ?_
      refine Program.wp_mono (ih buf' host' w') ?_ fun _ _ running => running
      rintro r w'' ⟨retry, host₂, gone₂, port₂, changed⟩
      obtain ⟨host₁, gone₁, port₁, same⟩ := moved
      exact ⟨retry, host₂, gone₂, port₂, by rw [changed, same]⟩

/-- How the loop after 401 and 407 ends, and what it leaves. -/
def Authenticates (what : Bytes) (found : Bool) (w : World) (r : ℤ) (w' : World) : Prop :=
  r = startRetry ∧ offersBasic what w.broken found w.stream = true ∧
      w'.globals = { w.globals with proxyAuthType := .basic } ∨
    r = startError ∧ offersBasic what w.broken found w.stream = false

/-- The loop after 401 and 407 asks for a retry when the header offers Basic. -/
theorem wp_findAuthentication {b : UInt8} {name : Bytes} (upper : isupper b) (fuel : ℕ) :
    ∀ (buf : LineBuffer) (found : Bool) (w : World),
      w.globals.proxyAuthType = (if found then .basic else .none) →
      (findAuthentication (b :: name) fuel buf).wp w (Authenticates (b :: name) found w)
        (fun why _ => why = .running) := by
  induction fuel with
  | zero => exact fun _ _ _ _ => rfl
  | succ fuel ih =>
      intro buf found w auth
      -- Leaving the loop, whatever the last line was.
      have leaves : ∀ w' : World, w'.globals = w.globals →
          offersBasic (b :: name) w.broken found w.stream = found →
          Authenticates (b :: name) found w
            (if w.globals.proxyAuthType = .none then startError else startRetry) w' := by
        intro w' same value
        rw [auth]
        cases found with
        | false => exact Or.inr ⟨rfl, value⟩
        | true =>
            refine Or.inl ⟨rfl, value, ?_⟩
            rw [same, ← (show w.globals.proxyAuthType = .basic from auth)]
      refine wp_findAuthentication_round upper (fun torn _ none_left short w' same => ?_)
        (fun whole bare w' _ => ?_) (fun whole bare blank w' same _ => ?_)
        fun whole bare blank buf' w' changed broken rest => ?_
      · exact leaves w' same (offersBasic_torn _ found torn none_left short)
      · exact Or.inr ⟨rfl, by rw [offersBasic_line upper whole, if_pos bare]⟩
      · refine leaves w' same ?_
        rw [offersBasic_line upper whole, bare, if_neg Bool.false_ne_true, if_pos blank]
      · let offered := found || basicChallenge (b :: name) (nextLine w.stream).1
        have value : w'.globals.proxyAuthType = if offered then .basic else .none := by
          rw [changed, auth]
          cases found with
          | false => rfl
          | true => exact ite_self _
        refine Program.wp_mono (ih buf' offered w' value) ?_ fun _ _ running => running
        rintro r w'' ended
        rw [Authenticates, broken, rest, changed] at ended
        rw [Authenticates, offersBasic_line upper whole, bare, blank]
        exact ended

/-- Skipping the header never asks for a retry. -/
theorem wp_skipHeaders (fuel : ℕ) : ∀ (buf : LineBuffer) (w : World),
    (skipHeaders fuel buf).wp w (fun r _ => r ≠ startRetry) (fun why _ => why = .running) := by
  induction fuel with
  | zero => exact fun _ _ => rfl
  | succ fuel ih =>
      intro buf w
      rw [skipHeaders, Program.wp_bind]
      refine wp_lineInput (fun _ b w' _ _ _ _ => ?_) fun _ _ _ b w' _ _ => ?_
      · dsimp only
        rw [if_neg (by decide)]
        split_ifs
        · exact fun same => absurd same (by decide)
        · exact ih b w'
      · exact fun same => absurd same (by decide)

/-! ### What an attempt comes to -/

/-- The status line is read. -/
def StatusRead (w : World) : Prop :=
  w.broken → newline ∈ (nextLine w.stream).1 ∨ (nextLine w.stream).1.length = 1023

/-- The status of the answer. -/
def World.status (w : World) : Option ℤ := statusCode (cstr (nextLine w.stream).1 0)

/-- The answer is a redirection. -/
def Redirects (w : World) : Prop := StatusRead w ∧ w.status = some 302

/-- The answer asks for Basic authentication, and none is in use. -/
def Challenges (w : World) : Prop :=
  StatusRead w ∧ w.globals.proxyAuthType = .none ∧
    ∃ result, w.status = some result ∧ (result = 401 ∨ result = 407) ∧
      offersBasic (authWhat result) w.broken false (nextLine w.stream).2 = true

/-- The ways the reading of an answer ends. -/
def Answered (w : World) (r : ℤ) (w' : World) : Prop :=
  r = startRetry ∧ Redirects w ∧ w.globals.Redirected w'.globals ∨
    r = startRetry ∧ Challenges w ∧
      w'.globals = { w.globals with proxyAuthType := .basic } ∨
    r ≠ startRetry ∧ ¬ Redirects w ∧ ¬ Challenges w

theorem wp_readAnswer (fuel : ℕ) (buf : LineBuffer) (w : World) :
    (readAnswer fuel buf).wp w (Answered w) (fun why _ => why = .running) := by
  have error_ne : startError ≠ startRetry := by decide
  rw [readAnswer, Program.wp_bind]
  refine wp_lineInput (fun read b w₁ line g₁ b₁ s₁ => ?_) fun torn _ none b w₁ short _ => ?_
  · dsimp only
    rw [if_neg (by decide), line]
    cases status : statusCode (cstr (nextLine w.stream).1 0) with
    | none =>
        refine Or.inr (Or.inr ⟨error_ne, fun moved => ?_, ?_⟩)
        · cases status.symm.trans moved.2
        · rintro ⟨-, -, result, found, -⟩
          cases status.symm.trans found
    | some result =>
        -- Any status but the one in question refuses.
        have other {r : ℤ} {w' : World} (value : r ≠ startRetry) (unlike : result ≠ 302)
            (unasked : ¬ Challenges w) : Answered w r w' :=
          Or.inr (Or.inr ⟨value, fun moved =>
            unlike (Option.some.inj (status.symm.trans moved.2)), unasked⟩)
        have unasked (no : result ≠ 401 ∧ result ≠ 407) : ¬ Challenges w := by
          rintro ⟨-, -, asked, found, codes, -⟩
          obtain rfl := Option.some.inj (status.symm.trans found)
          exact codes.elim no.1 no.2
        dsimp only
        by_cases ok : result = 200
        · rw [if_pos ok]
          exact Program.wp_mono (wp_skipHeaders fuel b w₁)
            (fun r w' value => other value (by omega) (unasked (by omega)))
            fun _ _ running => running
        rw [if_neg ok]
        by_cases moved : result = 302
        · rw [if_pos moved]
          refine Program.wp_mono (wp_redirect fuel b none w₁) ?_ fun _ _ running => running
          rintro r w' ⟨retry, changed⟩
          exact Or.inl ⟨retry, ⟨read, moved ▸ status⟩, g₁ ▸ changed⟩
        rw [if_neg moved]
        by_cases asked : result = 401 ∨ result = 407
        · rw [if_pos asked]
          simp only [globals, Program.wp_bind, Program.wp_read]
          by_cases fresh : w₁.globals.proxyAuthType = .none
          · rw [if_neg (not_not.mpr fresh)]
            obtain ⟨first, name, what, upper⟩ := authWhat_upper result
            rw [what]
            refine Program.wp_mono (wp_findAuthentication upper fuel b false w₁ fresh) ?_
              fun _ _ running => running
            rintro r w' (⟨retry, offered, changed⟩ | ⟨value, offered⟩)
            · rw [b₁, s₁, ← what] at offered
              rw [g₁] at fresh changed
              exact Or.inr (Or.inl ⟨retry, ⟨read, fresh, result, status, asked, offered⟩, changed⟩)
            · rw [b₁, s₁, ← what] at offered
              refine other (value ▸ error_ne) moved ?_
              rintro ⟨-, -, result', found, -, offer⟩
              obtain rfl := Option.some.inj (status.symm.trans found)
              exact absurd offer (by simp [offered])
          · rw [if_pos fresh]
            exact other error_ne moved fun challenge => fresh (g₁ ▸ challenge.2.1)
        · rw [if_neg asked]
          exact other error_ne moved (unasked (not_or.mp asked))
  · have unread : ¬ StatusRead w := fun read =>
      (read torn).elim none (Nat.ne_of_lt short)
    exact Or.inr (Or.inr ⟨error_ne, fun moved => unread moved.1, fun asked => unread asked.1⟩)

/-- A retry is asked for: the request is sent, and the answer is one of the two. -/
def AsksRetry (w : World) : Prop := RequestSent w ∧ (Redirects w ∨ Challenges w)

/-- The answer has an end, when the request is sent. -/
def AnswerEnded (w : World) : Prop :=
  RequestSent w → w.broken = true ∨ AnswerEnds w.globals w.stream

/-- The globals with which `main` tries again. -/
def RetriesIn (w : World) (g : Globals) : Prop :=
  Redirects w ∧ w.globals.afterRequest.Redirected g ∨
    Challenges w ∧ g = { w.globals with proxyAuthType := .basic }

/-- **The whole negotiation** returns `START_RETRY` only where a retry is asked for. -/
theorem wp_beginHttpRelay (fuel : ℕ) (buf : LineBuffer) (w : World) :
    (beginHttpRelay fuel buf).wp w
      (fun r w' => r = startRetry ∧ RequestSent w ∧ RetriesIn w w'.globals ∨
        r ≠ startRetry ∧ ¬ AsksRetry w)
      (fun why _ => why = .running ∨ why = .fatal ∧ ¬ AsksRetry w) := by
  rw [beginHttpRelay, Program.wp_bind]
  refine wp_sendRequest (fun sent w₁ g₁ b₁ s₁ => ?_) (fun unsent w₁ => ?_)
    fun unsent w₁ => Or.inr ⟨rfl, fun asks => unsent asks.1⟩
  · rw [if_neg (by decide)]
    have redirects : Redirects w₁ ↔ Redirects w := by
      simp only [Redirects, StatusRead, World.status, b₁, s₁]
    have challenges : Challenges w₁ ↔ Challenges w := by
      simp only [Challenges, StatusRead, World.status, b₁, s₁, g₁,
        Globals.proxyAuthType_afterRequest]
    refine Program.wp_mono (wp_readAnswer fuel buf w₁) ?_ fun _ _ running => Or.inl running
    rintro r w'
      (⟨retry, moved, changed⟩ | ⟨retry, asked, changed⟩ | ⟨value, no, unasked⟩)
    · exact Or.inl ⟨retry, sent, Or.inl ⟨redirects.mp moved, g₁ ▸ changed⟩⟩
    · have fresh := (challenges.mp asked).2.1
      have same : w.globals.afterRequest = w.globals := by
        rw [Globals.afterRequest, if_neg (by rw [fresh]; decide)]
      exact Or.inl ⟨retry, sent, Or.inr ⟨challenges.mp asked, by rw [changed, g₁, same]⟩⟩
    · rw [redirects] at no
      rw [challenges] at unasked
      exact Or.inr ⟨value, fun asks => asks.2.elim no unasked⟩
  · rw [if_pos (by decide)]
    exact Or.inr ⟨by decide, fun asks => unsent asks.1⟩

end Answers

/-! ### What a pass comes to -/

section Negotiate

variable {g g' : Globals} {c : Connection}

/-- **What an attempt comes to**: a retry that the answer asks for, an end without one, or
it is still running. -/
theorem negotiate_http (http : g.relayMethod = .http) (fuel : ℕ) :
    (∃ g', negotiate fuel g c = .retry g' ∧ AnswerEnded (c.world g) ∧
        RequestSent (c.world g) ∧ RetriesIn (c.world g) g') ∨
      ((negotiate fuel g c = .relaying ∨ negotiate fuel g c = .exited) ∧
        AnswerEnded (c.world g) ∧ ¬ AsksRetry (c.world g)) ∨
      negotiate fuel g c = .stopped .running := by
  have known := wp_beginHttpRelay fuel c.buf (c.world g)
  -- An answer without an end is never read to its end.
  have runs : ¬ AnswerEnded (c.world g) →
      (beginHttpRelay fuel c.buf).wp (c.world g) (fun _ _ => False)
        (fun why _ => why = .running) := by
    intro never
    obtain ⟨sent, never⟩ := Classical.not_imp.mp never
    obtain ⟨whole, never⟩ := not_or.mp never
    exact beginHttpRelay_runs fuel sent (Bool.eq_false_iff.mpr whole) never
  rw [negotiate, http]
  dsimp only
  unfold Program.wp at known runs
  cases result : beginHttpRelay fuel c.buf (c.world g) with
  | returned r w' =>
      rw [result] at known runs
      have ended : AnswerEnded (c.world g) := by_contra runs
      dsimp only at known ⊢
      rcases known with ⟨rfl, sent, retries⟩ | ⟨value, unasked⟩
      · refine Or.inl ⟨w'.globals, ?_, ended, sent, retries⟩
        rw [if_neg (by decide), if_pos rfl]
      · refine Or.inr (Or.inl ⟨?_, ended, unasked⟩)
        by_cases refused : r = startError
        · rw [if_pos refused]
          exact Or.inr rfl
        · rw [if_neg refused, if_neg value]
          exact Or.inl rfl
  | halted why w' =>
      rw [result] at known runs
      dsimp only at known ⊢
      rcases known with rfl | ⟨rfl, unasked⟩
      · exact Or.inr (Or.inr rfl)
      · have ended : AnswerEnded (c.world g) := by
          by_contra never
          exact absurd (runs never) nofun
        exact Or.inr (Or.inl ⟨Or.inr rfl, ended, unasked⟩)

/-- Given fuel, an answer with an end is read to its end. -/
theorem exists_negotiate (http : g.relayMethod = .http) (ended : AnswerEnded (c.world g)) :
    ∃ fuel, negotiate fuel g c ≠ .stopped .running := by
  obtain ⟨fuel, terminates⟩ := terminates_of c.buf ended
  have ends := terminates fuel (Nat.le_refl _)
  refine ⟨fuel, ?_⟩
  rw [negotiate, http]
  dsimp only
  unfold Program.wp at ends
  cases result : beginHttpRelay fuel c.buf (c.world g) with
  | returned r w' =>
      dsimp only
      split_ifs
      · nofun
      · nofun
      · nofun
  | halted why w' =>
      rw [result] at ends
      obtain rfl : why = .fatal := ends
      nofun

/-- Only the HTTP negotiation asks for a retry. -/
theorem negotiate_other (other : g.relayMethod ≠ .http) (fuel : ℕ) :
    negotiate fuel g c = .relaying ∨ negotiate fuel g c = .exited := by
  unfold negotiate
  cases method : g.relayMethod with
  | undecided => exact Or.inl rfl
  | direct => exact Or.inl rfl
  | http => exact absurd method other
  | socks =>
      dsimp only
      split_ifs
      · exact Or.inl rfl
      · exact Or.inr rfl
  | telnet =>
      dsimp only
      split_ifs
      · exact Or.inl rfl
      · exact Or.inr rfl

end Negotiate

end MsysGit.Connect
