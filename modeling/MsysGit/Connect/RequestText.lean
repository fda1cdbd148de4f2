import MsysGit.Connect.Authorization

/-!
# What of a request gets on the wire

`sendf` formats into a buffer of 10240 bytes and calls `send` once; what did not fit into
the buffer, or was not taken by the call, is never sent.  `wire` is what remains of a
sequence of texts then.

`intact_iff` says for which requests and which `send` calls this makes no difference.
-/

namespace MsysGit.Connect

open MsysGit.Library MsysGit.Library.CString

/-! ### The request -/

/-- The texts of the request; there are none without the credentials that are needed. -/
def Globals.request (g : Globals) : Option (List Bytes) :=
  if g.proxyAuthType = .basic then
    match g.relayUser, g.password with
    | some user, some pass => some [connectLine g, authorizationHeader user pass, crlf]
    | _, _ => none
  else some [connectLine g, crlf]

/-! ### Texts sent one after the other -/

/-- What gets on the wire of some texts; `none` where a call fails. -/
def wire : List (Option ℕ) → List Bytes → Option Bytes
  | _, [] => some []
  | accepts, t :: texts =>
      if accepts.head? = some none then none
      else (wire accepts.tail texts).map (t.take (room accepts.head?) ++ ·)

/-- For each text there is room in the buffer, and the call takes it. -/
def TakesWhole : List (Option ℕ) → List Bytes → Prop
  | _, [] => True
  | accepts, t :: texts => t.length ≤ room accepts.head? ∧ TakesWhole accepts.tail texts

theorem wire_cons {accepts : List (Option ℕ)} {t : Bytes} {texts : List Bytes} {s : Bytes} :
    wire accepts (t :: texts) = some s ↔ accepts.head? ≠ some none ∧
      ∃ rest, wire accepts.tail texts = some rest ∧ t.take (room accepts.head?) ++ rest = s := by
  rw [wire]
  split_ifs with failed
  · exact ⟨nofun, fun sent => absurd failed sent.1⟩
  · rw [Option.map_eq_some_iff]
    exact ⟨fun sent => ⟨failed, sent⟩, fun sent => sent.2⟩

/-- Texts are sent to the end unless a call fails. -/
theorem wire_eq_none {accepts : List (Option ℕ)} {texts : List Bytes} :
    wire accepts texts = none ↔ none ∈ accepts.take texts.length := by
  induction texts generalizing accepts with
  | nil => simp [wire]
  | cons t texts ih =>
      have tail : wire accepts.tail texts = none ↔ none ∈ accepts.tail.take texts.length := ih
      rw [wire, List.length_cons, ← not_iff_not, notMem_take_succ, ← tail]
      split_ifs with failed
      · simp [failed]
      · simp [failed]

/-- Nothing is sent twice. -/
theorem length_wire_le {accepts : List (Option ℕ)} {texts : List Bytes} {s : Bytes}
    (sent : wire accepts texts = some s) : s.length ≤ texts.flatten.length := by
  induction texts generalizing accepts s with
  | nil =>
      obtain rfl := Option.some.inj sent
      exact Nat.le_refl 0
  | cons t texts ih =>
      obtain ⟨-, rest, sent', rfl⟩ := wire_cons.mp sent
      rw [List.flatten_cons, List.length_append, List.length_append, List.length_take]
      exact Nat.add_le_add (Nat.min_le_right _ _) (ih sent')

/-- **When the texts are whole on the wire**: exactly when each of them is taken whole. -/
theorem wire_eq_flatten_iff {accepts : List (Option ℕ)} {texts : List Bytes} {s : Bytes}
    (sent : wire accepts texts = some s) : s = texts.flatten ↔ TakesWhole accepts texts := by
  induction texts generalizing accepts s with
  | nil =>
      obtain rfl := Option.some.inj sent
      exact ⟨fun _ => trivial, fun _ => rfl⟩
  | cons t texts ih =>
      obtain ⟨-, rest, sent', rfl⟩ := wire_cons.mp sent
      have behind := length_wire_le sent'
      rw [TakesWhole, ← ih sent', List.flatten_cons]
      constructor
      · intro whole
        have lengths := congrArg List.length whole
        rw [List.length_append, List.length_append, List.length_take] at lengths
        -- Neither part can be longer, so none is shorter.
        have taken : t.length ≤ room accepts.head? := by omega
        rw [List.take_of_length_le taken] at whole
        exact ⟨taken, List.append_cancel_left whole⟩
      · rintro ⟨taken, rfl⟩
        rw [List.take_of_length_le taken]

/-! ### The request on the wire -/

/-- Some texts are sent to the end, or a call fails. -/
def SendsTexts (m : Io ℤ) (w : World) (texts : List Bytes) : Prop :=
  m.wp w
    (fun r w' => r = 0 ∧ (∃ s, wire w.accepts texts = some s ∧ w'.sent = w.sent ++ s) ∨
      r = startError ∧ wire w.accepts texts = none)
    (fun _ _ => False)

section Request

variable {w : World}

theorem sendsTexts_nil : SendsTexts (pure 0) w [] := by
  rw [SendsTexts, Program.wp_pure]
  exact Or.inl ⟨rfl, [], rfl, (List.append_nil _).symm⟩

/-- One text, and what is sent behind it. -/
theorem sendsTexts_cons {m : Io ℤ} {t : Bytes} {texts : List Bytes}
    (behind : ∀ w', w'.accepts = w.accepts.tail → w'.globals = w.globals →
      SendsTexts m w' texts) :
    SendsTexts (do
      let sent ← sendf t
      if sent < 0 then pure startError else m) w (t :: texts) := by
  rw [SendsTexts, Program.wp_bind]
  refine wp_sendf_room (fun failed w' _ => ?_) fun first w' sent accepts same => ?_
  · rw [if_pos (by decide), Program.wp_pure, wire, if_pos failed]
    exact Or.inr ⟨rfl, rfl⟩
  · rw [if_neg (by decide), wire, if_neg first]
    refine Program.wp_mono (behind w' accepts same) ?_ fun _ _ never => never
    rintro r w'' (⟨ok, s, rest, after⟩ | ⟨error, failed⟩)
    · rw [accepts] at rest
      refine Or.inl ⟨ok, t.take (room w.accepts.head?) ++ s, by rw [rest]; rfl, ?_⟩
      rw [after, sent, List.append_assoc]
    · rw [accepts] at failed
      exact Or.inr ⟨error, by rw [failed]; rfl⟩

/-- **The request**: each of its texts is given to `send` once. -/
theorem sendRequest_sendsTexts {texts : List Bytes} (request : w.globals.request = some texts) :
    SendsTexts sendRequest w texts := by
  have empty (w' : World) : SendsTexts (do
      let ended ← sendf crlf
      if ended < 0 then pure startError else pure 0) w' [crlf] :=
    sendsTexts_cons fun _ _ _ => sendsTexts_nil
  rw [SendsTexts, sendRequest, Program.wp_bind]
  simp only [globals, Program.wp_read]
  by_cases basic : w.globals.proxyAuthType = .basic
  · simp only [if_pos basic]
    rw [Globals.request, if_pos basic] at request
    split at request
    · rename_i user pass user_of pass_of
      obtain rfl := Option.some.inj request
      refine sendsTexts_cons fun w₁ _ same => ?_
      rw [SendsTexts, Program.wp_bind]
      simp only [basicAuth, globals, modifyGlobals, Program.wp_bind, Program.wp_read, same,
        user_of, pass_of, Program.wp_update, makeBase64String_eq]
      -- Erasing the password sends nothing.
      have rest := sendsTexts_cons (w := { w₁ with globals := w.globals.erasePassword })
        (t := authorizationHeader user pass) fun w₂ _ _ => empty w₂
      rw [SendsTexts, Program.wp_bind] at rest
      exact rest
    · cases request
  · simp only [if_neg basic]
    rw [Globals.request, if_neg basic] at request
    obtain rfl := Option.some.inj request
    exact sendsTexts_cons fun w₁ _ _ => empty w₁

/-- Without the credentials nothing is read. -/
theorem sendRequest_refuses (missing : w.globals.request = none) :
    sendRequest.wp w (fun r _ => r = startError) (fun why _ => why = .fatal) := by
  rw [sendRequest, Program.wp_bind]
  simp only [globals, Program.wp_read, Program.wp_bind]
  refine wp_sendf_room (fun _ w₁ _ => ?_) fun _ w₁ _ _ same => ?_
  · rw [if_pos (by decide)]
    rfl
  · have basic : w.globals.proxyAuthType = .basic := by
      by_contra other
      rw [Globals.request, if_neg other] at missing
      cases missing
    rw [Globals.request, if_pos basic] at missing
    rw [if_neg (by decide), if_pos basic, Program.wp_bind]
    simp only [basicAuth, globals, Program.wp_bind, Program.wp_read, same]
    cases user : w.globals.relayUser with
    | none => rfl
    | some name =>
        cases pass : w.globals.password with
        | none => rfl
        | some word =>
            rw [user, pass] at missing
            cases missing

end Request

/-- `begin_http_relay` goes on to read the answer, in `w'`. -/
def GoesOn (w w' : World) : Prop := ∃ r, sendRequest w = .returned r w' ∧ 0 ≤ r

/-- What is on the wire when `begin_http_relay` goes on. -/
theorem GoesOn.wire {w w' : World} (on : GoesOn w w') : ∃ texts s,
    w.globals.request = some texts ∧ wire w.accepts texts = some s ∧ w'.sent = w.sent ++ s := by
  obtain ⟨r, sent, ok⟩ := on
  cases request : w.globals.request with
  | none =>
      have refused := sendRequest_refuses request
      rw [Program.wp, sent] at refused
      rw [refused] at ok
      exact absurd ok (by decide)
  | some texts =>
      have sends := sendRequest_sendsTexts request
      rw [SendsTexts, Program.wp, sent] at sends
      rcases sends with ⟨-, s, whole, after⟩ | ⟨error, -⟩
      · exact ⟨texts, s, rfl, whole, after⟩
      · rw [error] at ok
        exact absurd ok (by decide)

/-- It goes on when no call of `send` fails. -/
theorem exists_goesOn {w : World} {texts : List Bytes} {s : Bytes}
    (request : w.globals.request = some texts) (whole : Connect.wire w.accepts texts = some s) :
    ∃ w', GoesOn w w' ∧ w'.sent = w.sent ++ s := by
  have sends := sendRequest_sendsTexts request
  rw [SendsTexts, Program.wp] at sends
  cases ended : sendRequest w with
  | returned r w' =>
      rw [ended, whole] at sends
      rcases sends with ⟨ok, s', same, after⟩ | ⟨-, failed⟩
      · obtain rfl := Option.some.inj same
        exact ⟨w', ⟨r, ended, by omega⟩, after⟩
      · cases failed
  | halted why w' =>
      rw [ended] at sends
      exact sends.elim

/-- Whenever `begin_http_relay` goes on to read the answer, the whole request was sent. -/
def Intact (w : World) : Prop :=
  ∀ w', GoesOn w w' → ∃ texts, w.globals.request = some texts ∧ w'.sent = w.sent ++ texts.flatten

/-- What is sent is the request when it is taken whole. -/
theorem intact_of_wire {w : World} {texts : List Bytes} {s : Bytes}
    (request : w.globals.request = some texts) (sent : Connect.wire w.accepts texts = some s) :
    Intact w ↔ TakesWhole w.accepts texts := by
  rw [← wire_eq_flatten_iff sent]
  constructor
  · intro intact
    obtain ⟨w', on, after⟩ := exists_goesOn request sent
    obtain ⟨texts', request', whole⟩ := intact w' on
    obtain rfl := Option.some.inj (request.symm.trans request')
    exact List.append_cancel_left (after.symm.trans whole)
  · intro whole w' on
    obtain ⟨texts', s', request', sent', after⟩ := on.wire
    obtain rfl := Option.some.inj (request.symm.trans request')
    obtain rfl := Option.some.inj (sent.symm.trans sent')
    exact ⟨texts, request, by rw [after, whole]⟩

/-- **When a request is intact**: exactly when, if no call of `send` fails, each text has room
in the buffer and is taken whole by its call. -/
theorem intact_iff (w : World) :
    Intact w ↔ ∀ texts, w.globals.request = some texts →
      none ∉ w.accepts.take texts.length → TakesWhole w.accepts texts := by
  constructor
  · intro intact texts request able
    obtain ⟨s, sent⟩ := Option.ne_none_iff_exists'.mp (wire_eq_none.not.mpr able)
    exact (intact_of_wire request sent).mp intact
  · intro whole w' on
    obtain ⟨texts, s, request, sent, -⟩ := on.wire
    have able : none ∉ w.accepts.take texts.length := by
      rw [← wire_eq_none, sent]
      nofun
    exact (intact_of_wire request sent).mpr (whole texts request able) w' on

/-- A connection whose first `send` takes ten bytes. -/
def shortSend : World where
  globals := { Globals.initial with destHost := text "example.com", destPort := 22 }
  incoming := []
  broken := false
  accepts := [some 9]
  sent := []
  trace := []

/-- The rest of the first line is missing. -/
theorem not_intact_shortSend :
    (∃ w', GoesOn shortSend w' ∧ w'.sent = text "CONNECT ex" ++ crlf) ∧ ¬ Intact shortSend := by
  have request : shortSend.globals.request =
      some [text "CONNECT example.com:22 HTTP/1.0" ++ crlf, crlf] := by decide
  have sent : Connect.wire shortSend.accepts
      [text "CONNECT example.com:22 HTTP/1.0" ++ crlf, crlf] =
        some (text "CONNECT ex" ++ crlf) := by decide
  refine ⟨exists_goesOn request sent, fun intact => ?_⟩
  have taken := (intact_of_wire request sent).mp intact
  exact absurd taken.1 (by decide)

end MsysGit.Connect
