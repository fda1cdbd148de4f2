import MsysGit.Connect.Retry

/-!
# How often `main` tries again

A challenge makes `main` try again once, since from then on authentication is in use.
Nothing is used up by a redirection, so redirections can go on for ever; and an answer
without an end is read for ever (`Connect.HttpAnswer`).  `finishes_iff` says that these
are the only ways not to get to an end: the first connection that is not redirected has
to have an answer with an end, and so has, after a challenge, the first one behind it.
-/

namespace MsysGit.Connect

open MsysGit.Library MsysGit.Library.CString

/-! ### What the answers depend on -/

/-- States in which the same answers have the same effects. -/
structure Globals.Alike (g g' : Globals) : Prop where
  auth : g'.proxyAuthType = g.proxyAuthType
  user : g'.relayUser = g.relayUser
  password : g'.password = none ↔ g.password = none
  method : g'.relayMethod = g.relayMethod
  dest : g'.destHost = g.destHost

namespace Globals

variable {g g' g'' : Globals}

theorem Alike.refl (g : Globals) : Alike g g := ⟨rfl, rfl, Iff.rfl, rfl, rfl⟩

theorem Alike.trans (h : Alike g g') (h' : Alike g' g'') : Alike g g'' where
  auth := h'.auth.trans h.auth
  user := h'.user.trans h.user
  password := h'.password.trans h.password
  method := h'.method.trans h.method
  dest := h'.dest.trans h.dest

/-- An erased password is still there. -/
theorem erasePassword_eq_none (g : Globals) :
    g.erasePassword.password = none ↔ g.password = none := by
  rw [password_erasePassword, password]
  cases chosen : g.determineRelayPassword with
  | none => rfl
  | some name =>
      obtain ⟨value, found⟩ := Option.isSome_iff_exists.mp (isSome_getparam_of_determine chosen)
      simp [found]

/-- Sending the request makes no difference to later answers. -/
theorem alike_afterRequest (g : Globals) : Alike g g.afterRequest := by
  unfold afterRequest
  split_ifs
  · have password := erasePassword_eq_none g
    obtain ⟨getenv, table, same⟩ := g.erasePassword_eq
    rw [same] at password ⊢
    exact ⟨rfl, rfl, password, rfl, rfl⟩
  · exact Alike.refl g

/-- The state after a challenge. -/
def authenticating (g : Globals) : Globals := { g with proxyAuthType := .basic }

theorem Alike.authenticating (h : Alike g g') : Alike g.authenticating g'.authenticating :=
  ⟨rfl, h.user, h.password, h.method, h.dest⟩

end Globals

section Alike

variable {g g' : Globals} (same : g.Alike g') (c : Connection)

include same

theorem Globals.Alike.requestSent : RequestSent (c.world g') ↔ RequestSent (c.world g) := by
  show (_ ∉ c.accepts.take (if g'.proxyAuthType = .basic then 3 else 2) ∧
      (g'.proxyAuthType = .basic → g'.relayUser ≠ none ∧ g'.password ≠ none)) ↔ _
  rw [same.auth, same.user, Ne, Ne, same.password]
  exact Iff.rfl

theorem Globals.Alike.challenges : Challenges (c.world g') ↔ Challenges (c.world g) := by
  show (_ ∧ g'.proxyAuthType = .none ∧ _) ↔ _
  rw [same.auth]
  exact Iff.rfl

theorem Globals.Alike.answerEnded : AnswerEnded (c.world g') ↔ AnswerEnded (c.world g) := by
  have answer : AnswerEnds g' (c.world g').stream ↔ AnswerEnds g (c.world g).stream := by
    unfold AnswerEnds HeaderEnds
    rw [same.auth]
    exact Iff.rfl
  exact imp_congr (same.requestSent c) (or_congr Iff.rfl answer)

end Alike

/-! ### Connections and what they are answered with -/

namespace Session

variable (s : Session)

/-- Connection `n` is answered with a redirection. -/
def Moves (g : Globals) (n : ℕ) : Prop :=
  ∃ c, s.connections n = some c ∧ RequestSent (c.world g) ∧ Redirects (c.world g)

/-- Connection `n` is answered with a challenge. -/
def Asks (g : Globals) (n : ℕ) : Prop :=
  ∃ c, s.connections n = some c ∧ RequestSent (c.world g) ∧ Challenges (c.world g)

/-- The answer on connection `n` has an end, if there is one. -/
def Ends (g : Globals) (n : ℕ) : Prop :=
  ∀ c, s.connections n = some c → AnswerEnded (c.world g)

/-- From connection `start` on there are `n` redirections. -/
def MovesOn (g : Globals) (start n : ℕ) : Prop :=
  ∀ m < n, s.Moves g (start + m) ∧ s.Ends g (start + m)

/-- From connection `start` on there are `n` redirections, and then something else that has
an end. -/
def Settles (g : Globals) (start n : ℕ) : Prop :=
  s.MovesOn g start n ∧ ¬ s.Moves g (start + n) ∧ s.Ends g (start + n)

variable {s} {g g' : Globals}

section Alike

variable (same : g.Alike g') (n : ℕ)

include same

theorem moves_alike : s.Moves g' n ↔ s.Moves g n :=
  exists_congr fun c => and_congr_right fun _ => and_congr (same.requestSent c) Iff.rfl

theorem asks_alike : s.Asks g' n ↔ s.Asks g n :=
  exists_congr fun c => and_congr_right fun _ =>
    and_congr (same.requestSent c) (same.challenges c)

theorem ends_alike : s.Ends g' n ↔ s.Ends g n :=
  forall_congr' fun c => imp_congr_right fun _ => same.answerEnded c

end Alike

/-- The choice of the method depends on the host and the method before. -/
theorem chooseMethod_congr (dest : g'.destHost = g.destHost)
    (method : g'.relayMethod = g.relayMethod) :
    (s.chooseMethod g').relayMethod = (s.chooseMethod g).relayMethod := by
  unfold chooseMethod
  rw [dest]
  split_ifs
  · rfl
  · exact method

theorem chooseMethod_alike (same : g.Alike g') :
    (s.chooseMethod g').relayMethod = (s.chooseMethod g).relayMethod :=
  chooseMethod_congr same.dest same.method

theorem chooseMethod_http (http : (s.chooseMethod g).relayMethod = .http) :
    s.chooseMethod g = g := by
  unfold chooseMethod at http ⊢
  by_cases direct : checkDirect s.inetAddr (initializeDirectAddr s.globals) g.destHost
  · rw [if_pos direct] at http
    cases http
  · rw [if_neg direct]

/-- With authentication in use there are no challenges. -/
theorem not_asks_authenticating (n : ℕ) : ¬ s.Asks g.authenticating n := by
  rintro ⟨c, -, -, -, fresh, -⟩
  cases fresh

/-- An answer is a redirection or a challenge, not both. -/
theorem not_moves_of_asks {n : ℕ} (asks : s.Asks g n) : ¬ s.Moves g n := by
  rintro ⟨c, opened, -, moved⟩
  obtain ⟨c', opened', -, -, -, result, status, codes, -⟩ := asks
  obtain rfl := Option.some.inj (opened.symm.trans opened')
  obtain rfl := Option.some.inj (moved.2.symm.trans status)
  rcases codes with code | code
  · cases code
  · cases code

/-- A pass that is not the last one. -/
theorem not_last {p : Pass} (more : (∃ g, p = .retry g) ∨ ∃ why, p = .stopped why) :
    ¬ (p = .relaying ∨ p = .exited) := by
  rintro (rfl | rfl)
  · rcases more with ⟨g, more⟩ | ⟨why, more⟩
    · cases more
    · cases more
  · rcases more with ⟨g, more⟩ | ⟨why, more⟩
    · cases more
    · cases more

/-- **One pass**: a retry after a redirection or a challenge; or an end without either; or it
is still running. -/
theorem pass_http (http : (s.chooseMethod g).relayMethod = .http) (fuel n : ℕ) :
    (∃ g', s.pass fuel n g = .retry g' ∧ s.Ends g n ∧
        (s.Moves g n ∧ g.Alike g' ∨ s.Asks g n ∧ g.authenticating.Alike g')) ∨
      ((s.pass fuel n g = .relaying ∨ s.pass fuel n g = .exited) ∧ s.Ends g n ∧
        ¬ s.Moves g n ∧ ¬ s.Asks g n) ∨
      s.pass fuel n g = .stopped .running := by
  have method := http
  rw [chooseMethod_http http] at method
  unfold pass
  cases opened : s.connections n with
  | none =>
      refine Or.inr (Or.inl ⟨Or.inr rfl, fun c found => ?_, ?_, ?_⟩)
      · exact absurd (opened.symm.trans found) nofun
      · rintro ⟨c, found, -⟩
        exact absurd (opened.symm.trans found) nofun
      · rintro ⟨c, found, -⟩
        exact absurd (opened.symm.trans found) nofun
  | some c =>
      have same {c' : Connection} (found : s.connections n = some c') : c' = c :=
        Option.some.inj (found.symm.trans opened)
      dsimp only
      rw [chooseMethod_http http]
      rcases negotiate_http method fuel with ⟨g', again, ended, sent, retries⟩ |
        ⟨last, ended, unasked⟩ | running
      · refine Or.inl ⟨g', again, fun c' found => same found ▸ ended, ?_⟩
        rcases retries with ⟨moved, host, gone, port, changed⟩ | ⟨asked, changed⟩
        · refine Or.inl ⟨⟨c, opened, sent, moved⟩, ?_⟩
          rw [changed]
          exact g.alike_afterRequest.trans ⟨rfl, rfl, Iff.rfl, rfl, rfl⟩
        · refine Or.inr ⟨⟨c, opened, sent, asked⟩, ?_⟩
          rw [changed]
          exact Globals.Alike.refl _
      · refine Or.inr (Or.inl ⟨last, fun c' found => same found ▸ ended, ?_, ?_⟩)
        · rintro ⟨c', found, sent, moved⟩
          exact unasked (same found ▸ ⟨sent, Or.inl moved⟩)
        · rintro ⟨c', found, sent, asked⟩
          exact unasked (same found ▸ ⟨sent, Or.inr asked⟩)
      · exact Or.inr (Or.inr running)

/-- Without HTTP, the first pass is the last. -/
theorem pass_other (other : (s.chooseMethod g).relayMethod ≠ .http) (fuel n : ℕ) :
    s.pass fuel n g = .relaying ∨ s.pass fuel n g = .exited := by
  unfold pass
  cases s.connections n with
  | none => exact Or.inr rfl
  | some c => exact negotiate_other other fuel

/-- **What makes `main` go back**: a request sent over HTTP, with one of the two answers. -/
theorem pass_retry {fuel n : ℕ} (again : s.pass fuel n g = .retry g') :
    (s.chooseMethod g).relayMethod = .http ∧ ∃ c, s.connections n = some c ∧
      RequestSent (c.world g) ∧ RetriesIn (c.world g) g' := by
  have http : (s.chooseMethod g).relayMethod = .http := by
    by_contra other
    exact not_last (Or.inl ⟨g', again⟩) (pass_other other fuel n)
  have method := http
  rw [chooseMethod_http http] at method
  unfold pass at again
  cases opened : s.connections n with
  | none =>
      rw [opened] at again
      cases again
  | some c =>
      rw [opened] at again
      dsimp only at again
      rw [chooseMethod_http http] at again
      rcases negotiate_http method fuel with ⟨g₁, result, -, sent, retries⟩ | ⟨last, -⟩ | running
      · obtain rfl := Pass.retry.inj (again.symm.trans result)
        exact ⟨http, c, rfl, sent, retries⟩
      · exact absurd last (not_last (Or.inl ⟨g', again⟩))
      · rw [again] at running
        cases running

/-- Given fuel, a pass whose answer has an end gets there. -/
theorem exists_pass (http : (s.chooseMethod g).relayMethod = .http) {n : ℕ} (ends : s.Ends g n) :
    ∃ fuel, s.pass fuel n g ≠ .stopped .running := by
  have method := http
  rw [chooseMethod_http http] at method
  unfold pass
  cases opened : s.connections n with
  | none => exact ⟨0, nofun⟩
  | some c =>
      rw [chooseMethod_http http]
      exact exists_negotiate method (ends c opened)

/-! ### Whole runs -/

/-- How `main` comes to the label: after redirections only, or after redirections, a
challenge, and redirections. -/
def OnTheWay (s : Session) (n : ℕ) (g : Globals) : Prop :=
  s.MovesOn s.globals 0 n ∧ s.globals.Alike g ∨
    ∃ i k, n = i + 1 + k ∧ s.Settles s.globals 0 i ∧ s.Asks s.globals i ∧
      s.MovesOn s.globals.authenticating (i + 1) k ∧ s.globals.authenticating.Alike g

theorem MovesOn.succ {start n : ℕ} (h : s.MovesOn g start n) (moved : s.Moves g (start + n))
    (ends : s.Ends g (start + n)) : s.MovesOn g start (n + 1) := by
  intro m before
  rcases Nat.lt_succ_iff_lt_or_eq.mp before with earlier | rfl
  · exact h m earlier
  · exact ⟨moved, ends⟩

theorem UsesHttp.authenticating (http : s.UsesHttp) :
    (s.chooseMethod s.globals.authenticating).relayMethod = .http := by
  have same : (s.chooseMethod s.globals.authenticating).relayMethod =
      (s.chooseMethod s.globals).relayMethod := chooseMethod_congr rfl rfl
  exact same.trans http

theorem OnTheWay.http {n : ℕ} (way : s.OnTheWay n g) (http : s.UsesHttp) :
    (s.chooseMethod g).relayMethod = .http := by
  rcases way with ⟨-, same⟩ | ⟨-, -, -, -, -, -, same⟩
  · exact (chooseMethod_alike same).trans http
  · exact (chooseMethod_alike same).trans http.authenticating

/-- **What brings `main` back to its label.** -/
theorem Reaches.onTheWay {n : ℕ} (http : s.UsesHttp) (reached : s.Reaches n g) :
    s.OnTheWay n g := by
  induction reached with
  | start => exact Or.inl ⟨fun m none => absurd none (Nat.not_lt_zero m), Globals.Alike.refl _⟩
  | @again n fuel g g' _ again ih =>
      rcases pass_http (ih.http http) fuel n with ⟨g₁, result, ends, why⟩ | ⟨last, -⟩ | running
      · obtain rfl : g' = g₁ := Pass.retry.inj (again.symm.trans result)
        rcases ih with ⟨moves, same⟩ | ⟨i, k, rfl, settles, asks, moves, same⟩
        · rw [ends_alike same] at ends
          rw [moves_alike same, asks_alike same] at why
          rw [← Nat.zero_add n] at ends why
          rcases why with ⟨moved, alike⟩ | ⟨asked, alike⟩
          · exact Or.inl ⟨moves.succ moved ends, same.trans alike⟩
          · refine Or.inr ⟨n, 0, rfl, ⟨moves, not_moves_of_asks asked, ends⟩, ?_, ?_, ?_⟩
            · rwa [Nat.zero_add] at asked
            · exact fun m none => absurd none (Nat.not_lt_zero m)
            · exact same.authenticating.trans alike
        · rw [ends_alike same] at ends
          rw [moves_alike same, asks_alike same] at why
          rcases why with ⟨moved, alike⟩ | ⟨asked, -⟩
          · exact Or.inr ⟨i, k + 1, rfl, settles, asks, moves.succ moved ends, same.trans alike⟩
          · exact absurd asked (not_asks_authenticating _)
      · exact absurd last (not_last (Or.inl ⟨g', again⟩))
      · rw [again] at running
        cases running

/-- The answers after which the run gets to an end. -/
def Settled (s : Session) : Prop :=
  ∃ n, s.Settles s.globals 0 n ∧
    (s.Asks s.globals n → ∃ k, s.Settles s.globals.authenticating (n + 1) k)

theorem settled_of_finishes (http : s.UsesHttp) (finishes : s.Finishes) : s.Settled := by
  obtain ⟨n, g, fuel, reached, last⟩ := finishes
  have way := reached.onTheWay http
  rcases pass_http (way.http http) fuel n with ⟨g', again, -⟩ | ⟨-, ends, stays, unasked⟩ | running
  · exact absurd last (not_last (Or.inl ⟨g', again⟩))
  · rcases way with ⟨moves, same⟩ | ⟨i, k, rfl, settles, -, moves, same⟩
    · rw [ends_alike same] at ends
      rw [moves_alike same] at stays
      rw [asks_alike same] at unasked
      rw [← Nat.zero_add n] at ends stays
      exact ⟨n, ⟨moves, stays, ends⟩, fun asks => absurd asks unasked⟩
    · rw [ends_alike same] at ends
      rw [moves_alike same] at stays
      exact ⟨i, settles, fun _ => ⟨k, moves, stays, ends⟩⟩
  · exact absurd last (not_last (Or.inr ⟨.running, running⟩))

section Along

variable {g₀ : Globals} (http : (s.chooseMethod g₀).relayMethod = .http)

include http

/-- Redirections bring `main` from one connection to a later one. -/
theorem Reaches.moves {start : ℕ} (n : ℕ) (reached : s.Reaches start g) (same : g₀.Alike g)
    (moves : s.MovesOn g₀ start n) : ∃ g', s.Reaches (start + n) g' ∧ g₀.Alike g' := by
  induction n with
  | zero => exact ⟨g, reached, same⟩
  | succ n ih =>
      obtain ⟨g₁, reached₁, same₁⟩ := ih fun m before => moves m (Nat.lt_succ_of_lt before)
      obtain ⟨moved, ends⟩ := moves n (Nat.lt_succ_self n)
      have http₁ : (s.chooseMethod g₁).relayMethod = .http := (chooseMethod_alike same₁).trans http
      rw [← ends_alike same₁] at ends
      rw [← moves_alike same₁] at moved
      obtain ⟨fuel, stops⟩ := exists_pass http₁ ends
      rcases pass_http http₁ fuel (start + n) with ⟨g₂, again, -, ⟨-, alike⟩ | ⟨asked, -⟩⟩ |
        ⟨-, -, stays, -⟩ | running
      · exact ⟨g₂, reached₁.again again, same₁.trans alike⟩
      · exact absurd moved (not_moves_of_asks asked)
      · exact absurd moved stays
      · exact absurd running stops

/-- Behind the redirections the run ends, or there was a challenge. -/
theorem Reaches.settles {start n : ℕ} (reached : s.Reaches start g) (same : g₀.Alike g)
    (settles : s.Settles g₀ start n) : s.Finishes ∨ s.Asks g₀ (start + n) ∧
      ∃ g', s.Reaches (start + n + 1) g' ∧ g₀.authenticating.Alike g' := by
  obtain ⟨moves, stays, ends⟩ := settles
  obtain ⟨g₁, reached₁, same₁⟩ := reached.moves http n same moves
  have http₁ : (s.chooseMethod g₁).relayMethod = .http := (chooseMethod_alike same₁).trans http
  rw [← ends_alike same₁] at ends
  rw [← moves_alike same₁] at stays
  obtain ⟨fuel, stops⟩ := exists_pass http₁ ends
  rcases pass_http http₁ fuel (start + n) with ⟨g₂, again, -, ⟨moved, -⟩ | ⟨asked, alike⟩⟩ |
    ⟨last, -⟩ | running
  · exact absurd moved stays
  · exact Or.inr ⟨(asks_alike same₁ _).mp asked, g₂, reached₁.again again,
      same₁.authenticating.trans alike⟩
  · exact Or.inl ⟨start + n, g₁, fuel, reached₁, last⟩
  · exact absurd running stops

end Along

/-- **When `main` gets to an end**: with HTTP, exactly when the first connection that is not
redirected has an answer with an end, and so has, if that is a challenge, the first one
behind it that is not redirected. -/
theorem finishes_iff : s.Finishes ↔ (s.UsesHttp → s.Settled) := by
  constructor
  · exact fun finishes http => settled_of_finishes http finishes
  · intro settled
    by_cases http : s.UsesHttp
    · obtain ⟨n, settles, behind⟩ := settled http
      rcases Reaches.start.settles http (Globals.Alike.refl _) settles with done |
        ⟨asks, g₁, reached, same⟩
      · exact done
      · rw [Nat.zero_add] at asks reached
        obtain ⟨k, settles⟩ := behind asks
        rcases reached.settles http.authenticating same settles with done | ⟨asks, -⟩
        · exact done
        · exact absurd asks (not_asks_authenticating _)
    · have last := pass_other http 0 0
      exact ⟨0, s.globals, 0, .start, last⟩

/-- A proxy that redirects every connection. -/
def redirecting : Session where
  inetAddr := fun _ => .none
  globals := { Globals.initial with relayMethod := .http }
  connections := fun _ => some
    { incoming := [text "HTTP/1.0 302 Found" ++ crlf ++ crlf]
      broken := false
      accepts := []
      buf := Buffer.filled 0 1024
      negotiated := false }

/-- Nothing stops `main` when it is redirected for ever. -/
theorem not_finishes_redirecting : ¬ ∀ s : Session, s.Finishes := by
  intro always
  obtain ⟨n, ⟨-, stays, -⟩, -⟩ := settled_of_finishes (s := redirecting) rfl (always _)
  refine stays ⟨_, rfl, ⟨?_, nofun⟩, nofun, ?_⟩
  · show none ∉ List.take _ []
    rw [List.take_nil]
    exact List.not_mem_nil
  · show statusCode (cstr (nextLine (text "HTTP/1.0 302 Found" ++ crlf ++ crlf)).1 0) = some 302
    decide

end Session

end MsysGit.Connect
