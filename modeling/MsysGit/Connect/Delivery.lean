import MsysGit.Library.Agreement
import MsysGit.Connect.Socks4
import MsysGit.Connect.TelnetRelay

/-!
# How the bytes arrive does not matter

`recv` gives a negotiation what the network has at hand, and `send` takes what it has
room for.  `line_input` reads byte by byte and `atomic_in` reads until it has what it
asked for, so no negotiation can tell two deliveries of the same bytes apart: it returns
the same value, has sent the same, and leaves the same bytes to the relay loop.

For the SOCKS negotiations the same is true of the pieces in which the packets go out,
because `atomic_out` sends what is left of a packet again.  `sendf`, which the others use,
does not; there both runs have to meet the same answers of `send`.
-/

namespace MsysGit.Connect

open MsysGit.Library MsysGit.Library.CString

/-- Two worlds that differ in how their stream is cut, and in the answers of `send` as far
as `p` allows. -/
structure World.Alike (p : List (Option ℕ) → List (Option ℕ) → Prop) (w w' : World) : Prop where
  globals : w.globals = w'.globals
  stream : w.stream = w'.stream
  broken : w.broken = w'.broken
  accepts : p w.accepts w'.accepts
  sent : w.sent = w'.sent
  trace : w.trace = w'.trace

/-- What remains comparable once the process has ended. -/
structure World.SameEffects (w w' : World) : Prop where
  globals : w.globals = w'.globals
  sent : w.sent = w'.sent
  trace : w.trace = w'.trace

/-- The same answers, or two lists of answers without a failure. -/
def eitherSends (accepts accepts' : List (Option ℕ)) : Prop :=
  accepts = accepts' ∨ none ∉ accepts ∧ none ∉ accepts'

section Parts

variable {p : List (Option ℕ) → List (Option ℕ) → Prop} {α : Type}

theorem World.Alike.effects {w w' : World} (same : w.Alike p w') : w.SameEffects w' :=
  ⟨same.globals, same.sent, same.trace⟩

/-- The program cannot tell deliveries apart. -/
abbrev Indifferent (p : List (Option ℕ) → List (Option ℕ) → Prop) (m : Io α) : Prop :=
  m.Respects (World.Alike p) World.SameEffects

theorem indifferent_halt (why : Halt) : Indifferent p (Program.halt why : Io α) :=
  Program.respects_halt (fun _ _ same => same.effects) why

theorem indifferent_globals : Indifferent p globals :=
  Program.respects_read fun _ _ same => same.globals

theorem indifferent_modifyGlobals (f : Globals → Globals) : Indifferent p (modifyGlobals f) :=
  Program.respects_update fun _ _ same =>
    ⟨congrArg f same.globals, same.stream, same.broken, same.accepts, same.sent, same.trace⟩

theorem indifferent_emit (e : Event) : Indifferent p (emit e) :=
  Program.respects_update fun _ _ same =>
    ⟨same.globals, same.stream, same.broken, same.accepts, same.sent,
      congrArg (· ++ [e]) same.trace⟩

theorem indifferent_inside (cap n : ℕ) : Indifferent p (inside cap n) :=
  Program.Respects.ite (fun _ => Program.respects_pure ()) fun _ => indifferent_halt _

/-! ### Reading -/

/-- A read of one byte finds the next one, however the stream is cut. -/
theorem readChunk_one (chunks : List Bytes) :
    (readChunk 1 chunks).1 = chunks.flatten.take 1 ∧
      (readChunk 1 chunks).2.flatten = chunks.flatten.drop 1 := by
  induction chunks with
  | nil => exact ⟨rfl, rfl⟩
  | cons piece chunks ih =>
      cases piece with
      | nil => exact ih
      | cons b piece => exact ⟨rfl, rfl⟩

theorem indifferent_recv_one : Indifferent p (recv 1) := by
  intro w w' same
  obtain ⟨read, left⟩ := readChunk_one w.incoming
  obtain ⟨read', left'⟩ := readChunk_one w'.incoming
  have stream : w.incoming.flatten = w'.incoming.flatten := same.stream
  refine ⟨?_, same.globals, ?_, same.broken, same.accepts, same.sent, same.trace⟩
  · rw [read, read', stream, same.broken]
  · show (readChunk 1 w.incoming).2.flatten = (readChunk 1 w'.incoming).2.flatten
    rw [left, left', stream]

theorem indifferent_lineInputLoop (size : ℕ) :
    ∀ (dst : ℕ) (buf : LineBuffer), Indifferent p (lineInputLoop size dst buf) := by
  induction size with
  | zero => exact fun _ _ => Program.respects_pure _
  | succ size ih =>
      intro dst buf
      rw [lineInputLoop]
      refine Program.Respects.bind indifferent_recv_one fun got => ?_
      cases got with
      | none => exact Program.respects_pure _
      | some bytes =>
          cases bytes with
          | nil => exact Program.respects_pure _
          | cons c _ =>
              exact Program.Respects.ite (fun _ => Program.respects_pure _) fun _ => ih _ _

theorem indifferent_lineInput (buf : LineBuffer) : Indifferent p (lineInput buf) :=
  indifferent_lineInputLoop 1023 0 buf

/-- How `atomic_in` ends is decided by the stream alone. -/
theorem wp_atomicInLoop_exact (cap fuel : ℕ) : ∀ (off size : ℕ) (w : World), size ≤ fuel →
    (atomicInLoop cap fuel off size).wp w
      (fun bytes w' => (0 < size → off + size ≤ cap) ∧ size ≤ w.stream.length ∧
        bytes = w.stream.take size ∧
        ∃ chunks, w' = { w with incoming := chunks } ∧ chunks.flatten = w.stream.drop size)
      (fun why w' => (∃ chunks, w' = { w with incoming := chunks }) ∧
        (why = .recvOverflow ∧ cap < off + min size w.stream.length ∧
            0 < min size w.stream.length ∨
          why = .fatal ∧ w.stream.length < size ∧
            (off + w.stream.length ≤ cap ∨ w.stream.length = 0))) := by
  induction fuel with
  | zero =>
      intro off size w short
      obtain rfl : size = 0 := Nat.le_zero.mp short
      exact ⟨fun none => absurd none (Nat.lt_irrefl 0), Nat.zero_le _, rfl, w.incoming, rfl, rfl⟩
  | succ fuel ih =>
      intro off size w short
      by_cases none_left : size = 0
      · subst none_left
        exact ⟨fun none => absurd none (Nat.lt_irrefl 0), Nat.zero_le _, rfl, w.incoming, rfl, rfl⟩
      have positive := Nat.pos_of_ne_zero none_left
      rw [atomicInLoop, if_neg none_left, Program.wp_bind]
      refine wp_recv positive (fun empty _ chunks _ => ?_) (fun empty _ chunks => ?_)
        fun b bytes chunks bound whole => ?_
      · rw [empty]
        exact ⟨⟨chunks, rfl⟩, Or.inr ⟨rfl, positive, Or.inr rfl⟩⟩
      · rw [empty]
        exact ⟨⟨chunks, rfl⟩, Or.inr ⟨rfl, positive, Or.inr rfl⟩⟩
      · have some_read : 0 < (b :: bytes).length := Nat.succ_pos _
        have length : w.stream.length = (b :: bytes).length + chunks.flatten.length := by
          rw [← whole, List.length_append]
        dsimp only
        by_cases fits : off + (b :: bytes).length ≤ cap
        · rw [if_pos fits, Program.wp_bind]
          refine Program.wp_mono (ih _ _ { w with incoming := chunks } (by omega)) ?_ ?_
          · rintro rest w' ⟨inside, enough, rfl, chunks', rfl, left⟩
            replace enough : size - (b :: bytes).length ≤ chunks.flatten.length := enough
            refine ⟨fun _ => ?_, by omega, ?_, chunks', rfl, ?_⟩
            · by_cases more : 0 < size - (b :: bytes).length
              · have := inside more
                omega
              · omega
            · show b :: bytes ++ chunks.flatten.take _ = w.stream.take size
              rw [← whole, List.take_append, List.take_of_length_le bound]
            · rw [left, ← whole, List.drop_append, List.drop_of_length_le bound]
              rfl
          · rintro why w' ⟨⟨chunks', rfl⟩, ends⟩
            refine ⟨⟨chunks', rfl⟩, ends.imp ?_ ?_⟩
            · rintro ⟨rfl, out, _⟩
              replace out : cap < off + (b :: bytes).length +
                min (size - (b :: bytes).length) chunks.flatten.length := out
              exact ⟨rfl, by omega, by omega⟩
            · rintro ⟨rfl, dry, room⟩
              replace dry : chunks.flatten.length < size - (b :: bytes).length := dry
              replace room : off + (b :: bytes).length + chunks.flatten.length ≤ cap ∨
                chunks.flatten.length = 0 := room
              exact ⟨rfl, by omega, Or.inl (by omega)⟩
        · rw [if_neg fits]
          exact ⟨⟨chunks, rfl⟩, Or.inl ⟨rfl, by omega, by omega⟩⟩

theorem indifferent_atomicIn (cap off size : ℕ) : Indifferent p (atomicIn cap off size) := by
  intro w w' same
  refine Program.matches_of_wp (wp_atomicInLoop_exact cap size off size w (Nat.le_refl _))
    (wp_atomicInLoop_exact cap size off size w' (Nat.le_refl _)) ?_ ?_ ?_
  · rintro _ _ _ _ ⟨-, -, rfl, chunks, rfl, left⟩ ⟨-, -, rfl, chunks', rfl, left'⟩
    refine ⟨by rw [same.stream], same.globals, ?_, same.broken, same.accepts, same.sent,
      same.trace⟩
    show chunks.flatten = chunks'.flatten
    rw [left, left', same.stream]
  · rintro why _ why' _ ⟨⟨chunks, rfl⟩, ends⟩ ⟨⟨chunks', rfl⟩, ends'⟩
    refine ⟨?_, same.globals, same.sent, same.trace⟩
    rw [← same.stream] at ends'
    rcases ends with ⟨rfl, out, some_left⟩ | ⟨rfl, dry, room⟩
    · rcases ends' with ⟨rfl, -⟩ | ⟨-, dry, room⟩
      · rfl
      · omega
    · rcases ends' with ⟨-, out, some_left⟩ | ⟨rfl, -⟩
      · omega
      · rfl
  · rintro bytes _ why _
    refine ⟨?_, ?_⟩
    · rintro ⟨inside, enough, -⟩ ⟨-, ends⟩
      rw [← same.stream] at ends
      omega
    · rintro ⟨-, ends⟩ ⟨inside, enough, -⟩
      rw [← same.stream] at enough
      omega

end Parts

/-! ### Sending -/

section Sending

theorem indifferent_send (buf : Bytes) : Indifferent Eq (send buf) := by
  intro w w' same
  have answers : w.accepts = w'.accepts := same.accepts
  unfold send
  rw [← answers]
  cases w.accepts with
  | nil =>
      exact ⟨rfl, same.globals, same.stream, same.broken, rfl, congrArg (· ++ buf) same.sent,
        same.trace⟩
  | cons answer rest =>
      cases answer with
      | none => exact ⟨rfl, same.globals, same.stream, same.broken, rfl, same.sent, same.trace⟩
      | some k =>
          exact ⟨rfl, same.globals, same.stream, same.broken, rfl,
            congrArg (· ++ buf.take (k + 1)) same.sent, same.trace⟩

theorem indifferent_sendf (formatted : Bytes) : Indifferent Eq (sendf formatted) := by
  refine Program.Respects.bind (indifferent_send _) fun taken => ?_
  cases taken with
  | none => exact Program.respects_pure _
  | some _ => exact Program.respects_pure _

theorem indifferent_atomicOutLoop (fuel : ℕ) :
    ∀ buf : Bytes, Indifferent Eq (atomicOutLoop fuel buf) := by
  induction fuel with
  | zero => exact fun _ => Program.respects_pure ()
  | succ fuel ih =>
      intro buf
      rw [atomicOutLoop]
      refine Program.Respects.ite (fun _ => Program.respects_pure ()) fun _ => ?_
      refine Program.Respects.bind (indifferent_send buf) fun taken => ?_
      cases taken with
      | none => exact indifferent_halt _
      | some len => exact ih _

/-- A packet goes out whole, whatever the pieces. -/
theorem indifferent_atomicOut (buf : Bytes) : Indifferent eitherSends (atomicOut buf) := by
  refine Program.Respects.bind (indifferent_emit _) fun _ => ?_
  refine Program.Respects.bind (m := atomicOutLoop buf.length buf) ?_ fun _ =>
    Program.respects_pure _
  intro w w' same
  rcases same.accepts with equal | ⟨sends, sends'⟩
  · have again : w.Alike Eq w' :=
      ⟨same.globals, same.stream, same.broken, equal, same.sent, same.trace⟩
    refine (indifferent_atomicOutLoop _ buf w w' again).mono (fun s t after => ?_)
      fun _ _ after => after
    exact ⟨after.globals, after.stream, after.broken, Or.inl after.accepts, after.sent,
      after.trace⟩
  · have runs : ∀ v : World, v.Sends → (atomicOutLoop buf.length buf).wp v
        (fun _ v' => ∃ accepts, none ∉ accepts ∧
          v' = { v with accepts := accepts, sent := v.sent ++ buf }) (fun _ _ => False) := by
      intro v able
      refine wp_atomicOutLoop buf.length buf v (Nat.le_refl _) (fun accepts left => ?_)
        fun fails => absurd able fails
      exact ⟨accepts, left able, rfl⟩
    refine Program.matches_of_wp (runs w sends) (runs w' sends') ?_ ?_ ?_
    · rintro ⟨⟩ _ ⟨⟩ _ ⟨accepts, able, rfl⟩ ⟨accepts', able', rfl⟩
      exact ⟨rfl, same.globals, same.stream, same.broken, Or.inr ⟨able, able'⟩,
        congrArg (· ++ buf) same.sent, same.trace⟩
    · exact fun _ _ _ _ never => never.elim
    · exact fun _ _ _ _ => ⟨fun _ never => never, fun never => never.elim⟩

end Sending

/-! ### The negotiations -/

section Negotiations

variable {p : List (Option ℕ) → List (Option ℕ) → Prop}

theorem indifferent_readReply : Indifferent p readReply := by
  refine Program.Respects.bind (indifferent_atomicIn _ _ _) fun reply => ?_
  refine Program.Respects.ite (fun _ => Program.respects_pure _) fun _ => ?_
  refine Program.Respects.ite (fun _ => ?_) fun _ => ?_
  · exact Program.Respects.bind (indifferent_atomicIn _ _ _) fun _ => Program.respects_pure _
  refine Program.Respects.ite (fun _ => ?_) fun _ => ?_
  · refine Program.Respects.bind (indifferent_atomicIn _ _ _) fun _ => ?_
    exact Program.Respects.bind (indifferent_atomicIn _ _ _) fun _ => Program.respects_pure _
  refine Program.Respects.ite (fun _ => ?_) fun _ => Program.respects_pure _
  exact Program.Respects.bind (indifferent_atomicIn _ _ _) fun _ => Program.respects_pure _

theorem indifferent_socks5DoAuthUserpass : Indifferent eitherSends socks5DoAuthUserpass := by
  refine Program.Respects.bind (indifferent_emit _) fun _ => ?_
  refine Program.Respects.bind indifferent_globals fun g => ?_
  cases g.relayUser with
  | none => exact indifferent_halt _
  | some user =>
      cases g.password with
      | none => exact indifferent_halt _
      | some pass =>
          refine Program.Respects.bind (indifferent_inside _ _) fun _ => ?_
          refine Program.Respects.bind (indifferent_modifyGlobals _) fun _ => ?_
          refine Program.Respects.bind (indifferent_atomicOut _) fun _ => ?_
          refine Program.Respects.bind (indifferent_atomicIn _ _ _) fun _ => ?_
          exact Program.Respects.ite (fun _ => Program.respects_pure _) fun _ =>
            Program.respects_pure _

theorem indifferent_authenticate (m : UInt8) : Indifferent eitherSends (authenticate m) := by
  refine Program.Respects.ite (fun _ => ?_) fun _ => ?_
  · exact Program.Respects.bind (indifferent_emit _) fun _ => Program.respects_pure _
  refine Program.Respects.ite (fun _ => ?_) fun _ => Program.respects_pure _
  exact Program.Respects.bind (indifferent_emit _) fun _ => indifferent_socks5DoAuthUserpass

theorem indifferent_offerMethods : Indifferent eitherSends offerMethods := by
  refine Program.Respects.bind indifferent_globals fun g => ?_
  cases g.offered with
  | none => exact indifferent_halt _
  | some methods =>
      refine Program.Respects.bind (indifferent_inside _ _) fun _ => ?_
      refine Program.Respects.bind (indifferent_atomicOut _) fun _ => ?_
      exact indifferent_atomicIn _ _ _

theorem indifferent_requestConnect : Indifferent eitherSends requestConnect := by
  refine Program.Respects.bind ?_ fun _ => indifferent_readReply
  refine Program.Respects.bind indifferent_globals fun g => ?_
  refine Program.Respects.bind (indifferent_inside _ _) fun _ => ?_
  exact Program.Respects.bind (indifferent_atomicOut _) fun _ => Program.respects_pure _

theorem indifferent_beginSocks5Relay : Indifferent eitherSends beginSocks5Relay := by
  refine Program.Respects.bind indifferent_offerMethods fun answer => ?_
  refine Program.Respects.ite (fun _ => Program.respects_pure _) fun _ => ?_
  refine Program.Respects.bind (indifferent_authenticate _) fun _ => ?_
  exact Program.Respects.ite (fun _ => Program.respects_pure _) fun _ => indifferent_requestConnect

theorem indifferent_beginSocks4Relay : Indifferent eitherSends beginSocks4Relay := by
  refine Program.Respects.bind indifferent_globals fun g => ?_
  cases g.relayUser with
  | none => exact indifferent_halt _
  | some user =>
      refine Program.Respects.bind (indifferent_inside _ _) fun _ => ?_
      refine Program.Respects.bind (indifferent_atomicOut _) fun _ => ?_
      refine Program.Respects.bind (indifferent_atomicIn _ _ _) fun _ => ?_
      exact Program.Respects.ite (fun _ => Program.respects_pure _) fun _ =>
        Program.respects_pure _

theorem indifferent_skipHeaders (fuel : ℕ) :
    ∀ buf : LineBuffer, Indifferent p (skipHeaders fuel buf) := by
  induction fuel with
  | zero => exact fun _ => indifferent_halt _
  | succ fuel ih =>
      intro buf
      refine Program.Respects.bind (indifferent_lineInput _) fun line => ?_
      refine Program.Respects.ite (fun _ => Program.respects_pure _) fun _ => ?_
      exact Program.Respects.ite (fun _ => Program.respects_pure _) fun _ => ih _

theorem indifferent_location (buf : LineBuffer) : Indifferent p (location buf) := by
  unfold location
  dsimp only
  cases (cutToken (cutToken (cutToken buf 0 (text "//")).1 0 (text "/")).1 0 (text ":")).2 with
  | none => exact indifferent_halt _
  | some port =>
      exact Program.Respects.bind (indifferent_modifyGlobals _) fun _ => Program.respects_pure _

theorem indifferent_finishRedirect (buf : LineBuffer) (host : Option (Option ℕ)) :
    Indifferent p (finishRedirect buf host) := by
  cases host with
  | none => exact Program.respects_pure _
  | some _ =>
      exact Program.Respects.bind (indifferent_modifyGlobals _) fun _ => Program.respects_pure _

theorem indifferent_redirect (fuel : ℕ) : ∀ (buf : LineBuffer) (host : Option (Option ℕ)),
    Indifferent p (redirect fuel buf host) := by
  induction fuel with
  | zero => exact fun _ _ => indifferent_halt _
  | succ fuel ih =>
      intro buf host
      refine Program.Respects.bind (indifferent_lineInput _) fun line => ?_
      refine Program.Respects.ite (fun _ => indifferent_finishRedirect _ _) fun _ => ?_
      have after : ∀ next : LineBuffer × Option (Option ℕ), Indifferent p
          (if cstr next.1.cells 0 = crlf then finishRedirect next.1 next.2
            else redirect fuel next.1 next.2) := fun next =>
        Program.Respects.ite (fun _ => indifferent_finishRedirect _ _) fun _ => ih _ _
      refine Program.Respects.ite (fun _ => ?_) fun _ => ?_
      · refine Program.Respects.bind (indifferent_location _) fun found => ?_
        exact Program.Respects.bind (Program.respects_pure _) after
      · exact Program.Respects.bind (Program.respects_pure _) after

theorem indifferent_challenge (buf : LineBuffer) : Indifferent p (challenge buf) := by
  unfold challenge
  dsimp only
  cases (cutToken buf 0 (text " ")).2 with
  | none => exact indifferent_halt _
  | some scheme =>
      refine Program.Respects.ite (fun _ => Program.respects_pure _) fun _ => ?_
      refine Program.Respects.ite (fun _ => ?_) fun _ => Program.respects_pure _
      exact Program.Respects.bind (indifferent_modifyGlobals _) fun _ => Program.respects_pure _

theorem indifferent_finishAuthentication : Indifferent p finishAuthentication := by
  refine Program.Respects.bind indifferent_globals fun g => ?_
  exact Program.Respects.ite (fun _ => Program.respects_pure _) fun _ => Program.respects_pure _

theorem indifferent_findAuthentication (what : Bytes) (fuel : ℕ) :
    ∀ buf : LineBuffer, Indifferent p (findAuthentication what fuel buf) := by
  induction fuel with
  | zero => exact fun _ => indifferent_halt _
  | succ fuel ih =>
      intro buf
      refine Program.Respects.bind (indifferent_lineInput _) fun line => ?_
      refine Program.Respects.ite (fun _ => indifferent_finishAuthentication) fun _ => ?_
      -- Whether or not there is a challenge, the line behind it is looked at.
      refine Program.Respects.ite
        (fun _ => Program.Respects.bind (indifferent_challenge _) fun parsed => ?_)
        fun _ => Program.Respects.bind (Program.respects_pure _) fun parsed => ?_
      all_goals
        cases parsed with
        | none => exact Program.respects_pure _
        | some buf =>
            exact Program.Respects.ite (fun _ => indifferent_finishAuthentication) fun _ => ih _

theorem indifferent_readAnswer (fuel : ℕ) (buf : LineBuffer) :
    Indifferent p (readAnswer fuel buf) := by
  refine Program.Respects.bind (indifferent_lineInput _) fun line => ?_
  refine Program.Respects.ite (fun _ => Program.respects_pure _) fun _ => ?_
  cases statusCode (cstr line.2.cells 0) with
  | none => exact Program.respects_pure _
  | some result =>
      refine Program.Respects.ite (fun _ => indifferent_skipHeaders _ _) fun _ => ?_
      refine Program.Respects.ite (fun _ => indifferent_redirect _ _ _) fun _ => ?_
      refine Program.Respects.ite (fun _ => ?_) fun _ => Program.respects_pure _
      refine Program.Respects.bind indifferent_globals fun g => ?_
      exact Program.Respects.ite (fun _ => Program.respects_pure _) fun _ =>
        indifferent_findAuthentication _ _ _

theorem indifferent_basicAuth : Indifferent Eq basicAuth := by
  refine Program.Respects.bind indifferent_globals fun g => ?_
  cases g.relayUser with
  | none => exact indifferent_halt _
  | some user =>
      cases g.password with
      | none => exact indifferent_halt _
      | some pass =>
          exact Program.Respects.bind (indifferent_modifyGlobals _) fun _ => indifferent_sendf _

theorem indifferent_sendRequest : Indifferent Eq sendRequest := by
  refine Program.Respects.bind indifferent_globals fun g => ?_
  refine Program.Respects.bind (indifferent_sendf _) fun sent => ?_
  refine Program.Respects.ite (fun _ => Program.respects_pure _) fun _ => ?_
  have after : ∀ authorized : ℤ, Indifferent Eq (if authorized < 0 then pure startError
      else do
        let ended ← sendf crlf
        if ended < 0 then pure startError else pure 0 : Io ℤ) := by
    intro authorized
    refine Program.Respects.ite (fun _ => Program.respects_pure _) fun _ => ?_
    refine Program.Respects.bind (indifferent_sendf _) fun ended => ?_
    exact Program.Respects.ite (fun _ => Program.respects_pure _) fun _ => Program.respects_pure _
  refine Program.Respects.ite (fun _ => ?_) fun _ => ?_
  · exact Program.Respects.bind indifferent_basicAuth after
  · exact Program.Respects.bind (Program.respects_pure _) after

theorem indifferent_beginHttpRelay (fuel : ℕ) (buf : LineBuffer) :
    Indifferent Eq (beginHttpRelay fuel buf) := by
  refine Program.Respects.bind indifferent_sendRequest fun sent => ?_
  exact Program.Respects.ite (fun _ => Program.respects_pure _) fun _ => indifferent_readAnswer _ _

theorem indifferent_telnetAnswer (fuel : ℕ) :
    ∀ buf : LineBuffer, Indifferent p (telnetAnswer fuel buf) := by
  induction fuel with
  | zero => exact fun _ => indifferent_halt _
  | succ fuel ih =>
      intro buf
      refine Program.Respects.bind (indifferent_lineInput _) fun line => ?_
      refine Program.Respects.ite (fun _ => Program.respects_pure _) fun _ => ?_
      refine Program.Respects.ite (fun _ => Program.respects_pure _) fun _ => ?_
      exact Program.Respects.ite (fun _ => Program.respects_pure _) fun _ => ih _

theorem indifferent_beginTelnetRelay (telnetCommand : Bytes) (memory : ∀ n, Buffer UInt8 n)
    (fuel : ℕ) (buf : LineBuffer) :
    Indifferent Eq (beginTelnetRelay telnetCommand memory fuel buf) := by
  refine Program.Respects.bind indifferent_globals fun g => ?_
  cases expandHostAndPort telnetCommand g.destHost (portNumber g) (memory _) with
  | none => exact indifferent_halt _
  | some cmd =>
      refine Program.Respects.bind (indifferent_sendf _) fun sent => ?_
      exact Program.Respects.ite (fun _ => Program.respects_pure _) fun _ =>
        indifferent_telnetAnswer _ _

end Negotiations

/-- The four negotiations, with the memory they find. -/
inductive Negotiation
  | socks5
  | socks4
  | http (fuel : ℕ) (buf : LineBuffer)
  | telnet (telnetCommand : Bytes) (memory : ∀ n, Buffer UInt8 n) (fuel : ℕ) (buf : LineBuffer)

namespace Negotiation

/-- The function that `main` calls. -/
def begin : Negotiation → Io ℤ
  | .socks5 => beginSocks5Relay
  | .socks4 => beginSocks4Relay
  | .http fuel buf => beginHttpRelay fuel buf
  | .telnet telnetCommand memory fuel buf => beginTelnetRelay telnetCommand memory fuel buf

/-- Which answers of `send` the negotiation cannot tell apart. -/
def sameAnswers : Negotiation → List (Option ℕ) → List (Option ℕ) → Prop
  | .socks5 | .socks4 => eitherSends
  | .http _ _ | .telnet _ _ _ _ => Eq

/-- **Delivery is invisible.**  Two runs of a negotiation over the same bytes, cut in any two
ways, and with the same answers of `send` (for SOCKS: any two lists of answers without a
failure), return the same value with the same bytes sent and the same bytes still to come, or
stop for the same reason with the same bytes sent. -/
theorem begin_matches (n : Negotiation) {w w' : World} (same : w.Alike n.sameAnswers w') :
    (n.begin w).Matches (World.Alike n.sameAnswers) World.SameEffects (n.begin w') := by
  cases n with
  | socks5 => exact indifferent_beginSocks5Relay w w' same
  | socks4 => exact indifferent_beginSocks4Relay w w' same
  | http fuel buf => exact indifferent_beginHttpRelay fuel buf w w' same
  | telnet telnetCommand memory fuel buf =>
      exact indifferent_beginTelnetRelay telnetCommand memory fuel buf w w' same

/-- A SOCKS4 relay whose answer comes in pieces, to a request that leaves in pieces. -/
def inPieces (incoming : List Bytes) (accepts : List (Option ℕ)) : World :=
  { socks4World ⟨10, 0, 0, 1⟩ "h" with incoming := incoming, accepts := accepts }

theorem begin_matches_inPieces :
    (begin .socks4 (inPieces [[0, 90, 0, 22, 10, 0, 0, 1, 83]] [])).Matches
      (World.Alike (sameAnswers .socks4)) World.SameEffects
      (begin .socks4 (inPieces [[0], [90, 0, 22], [10, 0, 0, 1, 83]] [some 0, some 2])) := by
  refine begin_matches .socks4 ⟨rfl, rfl, rfl, Or.inr ⟨List.not_mem_nil, ?_⟩, rfl, rfl⟩
  decide

end Negotiation

end MsysGit.Connect
