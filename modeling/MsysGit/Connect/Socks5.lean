import MsysGit.Library.Rfc1928
import MsysGit.Connect.Socket
import Mathlib.Data.List.DropRight

/-!
# SOCKS5 relaying

`begin_socks5_relay` offers authentication methods, follows the one the server
chooses, and asks for a connection to the destination.  It is cut here where it
waits for the server: `offerMethods`, `authenticate`, `sendConnect` and
`readReply`.

Each packet is built in a buffer of 256 bytes (1024 in
`socks5_do_auth_userpass`) without a test of its length; `inside` is the point
where such a store leaves the buffer.

Every part has one `wp` lemma, which says all the ways it can end.  What is
proved about whole negotiations uses only these.
-/

namespace MsysGit.Connect

open MsysGit.Library MsysGit.Library.CString

/-! ### The methods to offer -/

/-- `SOCKS5_AUTH_NOAUTH` and the other method numbers. -/
abbrev authNoauth : UInt8 := 0
abbrev authGssapi : UInt8 := 1
abbrev authUserpass : UInt8 := 2
abbrev authChap : UInt8 := 3
abbrev authReject : UInt8 := 0xFF

/-- `socks5_auth_table` -/
def socks5AuthTable : List (Bytes × UInt8) :=
  [(text "none", authNoauth), (text "gssapi", authGssapi), (text "userpass", authUserpass),
    (text "chap", authChap)]

/-- Space or tab. -/
def isBlank (c : UInt8) : Bool := c = 32 || c = 9

/-- One item of a method list: the string `start` up to offset `stop`.  `none` is
a call of `fatal`.  Of a blank item nothing is left and `end` ends up one before
`start`, so that `strncmp` gets the length `-1`. -/
def socks5AuthParse1 (start : Bytes) (stop : ℕ) : Option UInt8 :=
  let rest := start.dropWhile isBlank
  let item := ((start.take stop).drop (start.length - rest.length)).rdropWhile isBlank
  let len := if item = [] then 2 ^ 32 - 1 else item.length
  (socks5AuthTable.find? fun entry => strncmpEq rest entry.1 len).map Prod.snd

/-- A comma-separated method list, into `free` slots. -/
def socks5AuthParse : Bytes → ℕ → Option (List UInt8)
  | _, 0 => none
  | start, free + 1 =>
      match strchr start 44 with
      | some comma => do
          let auth ← socks5AuthParse1 start (start.length - comma.length)
          let rest ← socks5AuthParse (comma.drop 1) free
          pure (auth :: rest)
      | none =>
          if start = [] then none
          else do
            let auth ← socks5AuthParse1 start start.length
            pure [auth]

/-- `auth_list[0 .. n_auth]`: from `-a`, the parameter `SOCKS5_AUTH`, or the
default. -/
def Globals.offered (g : Globals) : Option (List UInt8) :=
  match g.socks5Auth.or (g.getparam "SOCKS5_AUTH") with
  | some env => socks5AuthParse env 10
  | none => some [authNoauth, authUserpass]

/-! ### The packets -/

/-- The method offer. -/
def offerPacket (methods : List UInt8) : Bytes :=
  5 :: UInt8.ofNat methods.length :: methods

/-- The user/password request. -/
def userpassPacket (user pass : Bytes) : Bytes :=
  1 :: UInt8.ofNat user.length :: user ++ UInt8.ofNat pass.length :: pass

/-- The connect request. -/
def connectPacket (g : Globals) : Bytes :=
  5 :: 1 :: 0 ::
    (if g.destAddr = .any then 3 :: UInt8.ofNat g.destHost.length :: g.destHost
      else 1 :: g.destAddr.bytes) ++
    [(g.destPort >>> 8).toUInt8, (g.destPort &&& 0xFF).toUInt8]

/-! ### The negotiation -/

/-- `n` bytes are stored into a buffer of `cap`. -/
def inside (cap n : ℕ) : Io Unit := if n ≤ cap then pure () else Program.halt .packetOverflow

/-- Offer the methods and read the server's choice. -/
def offerMethods : Io Bytes := do
  let g ← globals
  match g.offered with
  | none => fatal
  | some methods => do
      inside 256 (offerPacket methods).length
      let _ ← atomicOut (offerPacket methods)
      atomicIn 256 0 2

/-- `socks5_do_auth_userpass`.  The `strcpy` of the password stores its
terminator too. -/
def socks5DoAuthUserpass : Io ℤ := do
  emit .userpass
  let g ← globals
  match g.relayUser, g.password with
  | some user, some pass => do
      inside 1024 ((userpassPacket user pass).length + 1)
      modifyGlobals Globals.erasePassword
      let _ ← atomicOut (userpassPacket user pass)
      let answer ← atomicIn 1024 0 2
      if answer.getD 1 0 = 0 then pure 0 else pure (-1)
  | _, _ => fatal

/-- The `switch ( auth_method )`. -/
def authenticate (authMethod : UInt8) : Io ℤ :=
  if authMethod = authNoauth then do
    emit (.method authMethod)
    pure 0
  else if authMethod = authUserpass then do
    emit (.method authMethod)
    socks5DoAuthUserpass
  else pure (-1)

/-- Send the connect request. -/
def sendConnect : Io Unit := do
  let g ← globals
  inside 256 (connectPacket g).length
  let _ ← atomicOut (connectPacket g)

/-- Read the reply to it. -/
def readReply : Io ℤ := do
  let reply ← atomicIn 256 0 4
  if reply.getD 1 0 ≠ 0 then pure (-1)
  else if reply.getD 3 0 = 1 then do
    let _ ← atomicIn 256 4 (4 + 2)
    pure 0
  else if reply.getD 3 0 = 3 then do
    let name ← atomicIn 256 4 1
    let _ ← atomicIn 256 5 ((name.getD 0 0).toNat + 2)
    pure 0
  else if reply.getD 3 0 = 4 then do
    let _ ← atomicIn 256 4 (16 + 2)
    pure 0
  else pure 0

/-- Everything after the authentication. -/
def requestConnect : Io ℤ := do
  sendConnect
  readReply

/-- `begin_socks5_relay` -/
def beginSocks5Relay : Io ℤ := do
  let answer ← offerMethods
  if answer.getD 0 0 ≠ 5 ∨ answer.getD 1 0 = authReject then pure (-1)
  else do
    let authResult ← authenticate (answer.getD 1 0)
    if authResult ≠ 0 then pure (-1) else requestConnect

/-! ### The method list -/

/-- A parsed list holds at least one method and fits its slots. -/
theorem socks5AuthParse_length (free : ℕ) :
    ∀ {start : Bytes} {methods : List UInt8}, socks5AuthParse start free = some methods →
      methods ≠ [] ∧ methods.length ≤ free := by
  induction free with
  | zero =>
      intro start methods parsed
      exact absurd parsed (by simp [socks5AuthParse])
  | succ free ih =>
      intro start methods parsed
      rw [socks5AuthParse] at parsed
      cases comma : strchr start 44 with
      | some suffix =>
          simp only [comma, Option.bind_eq_bind, Option.bind_eq_some_iff, Option.pure_def,
            Option.some.injEq] at parsed
          obtain ⟨auth, _, rest, parsed_rest, rfl⟩ := parsed
          exact ⟨List.cons_ne_nil _ _, Nat.succ_le_succ (ih parsed_rest).2⟩
      | none =>
          simp only [comma] at parsed
          split_ifs at parsed with empty
          simp only [Option.bind_eq_bind, Option.bind_eq_some_iff, Option.pure_def,
            Option.some.injEq] at parsed
          obtain ⟨auth, _, rfl⟩ := parsed
          exact ⟨List.cons_ne_nil _ _, Nat.succ_le_succ (Nat.zero_le _)⟩

theorem offered_length {g : Globals} {methods : List UInt8} (h : g.offered = some methods) :
    methods ≠ [] ∧ methods.length ≤ 10 := by
  unfold Globals.offered at h
  split at h
  · exact socks5AuthParse_length 10 h
  · obtain rfl := Option.some.inj h
    decide

/-! ### How each part ends -/

section Spec

variable {w : World} {E : Halt → World → Prop}

theorem wp_inside {Q : Unit → World → Prop} {cap n : ℕ} (ok : n ≤ cap → Q () w)
    (out : cap < n → E .packetOverflow w) : (inside cap n).wp w Q E := by
  unfold inside
  split_ifs with fits
  · exact ok fits
  · exact out (Nat.lt_of_not_le fits)

/-- The offer itself always fits its buffer. -/
theorem wp_offerMethods {Q : Bytes → World → Prop}
    (refused : w.globals.offered = none → E .fatal w)
    (ok : ∀ methods, w.globals.offered = some methods → ∀ answer w', answer.length = 2 →
      w'.globals = w.globals → Progress w w' answer [.packet (offerPacket methods)] →
      Q answer w')
    (cut : ∀ methods, w.globals.offered = some methods → ∀ w',
      w'.trace = w.trace ++ [.packet (offerPacket methods)] →
      (w.Sends → w.stream.length < 2) → E .fatal w') :
    offerMethods.wp w Q E := by
  simp only [offerMethods, globals, Program.wp_bind, Program.wp_read]
  cases offer : w.globals.offered with
  | none => exact refused offer
  | some methods =>
      have short := (offered_length offer).2
      simp only [Program.wp_bind]
      refine wp_inside (fun _ => ?_) fun out => ?_
      · refine wp_atomicOut (fun w₁ g₁ p₁ => ?_) fun w₁ t₁ fails => ?_
        · refine wp_atomicIn (fun answer w₂ len _ g₂ p₂ => ?_) (fun _ _ out => ?_)
            fun w₂ t₂ dry => ?_
          · exact ok methods offer answer w₂ len (g₂.trans g₁) (p₁.trans p₂)
          · exact absurd out (by decide)
          · refine cut methods offer w₂ (t₂.trans p₁.trace) fun _ => ?_
            rw [← p₁.stream]
            exact dry
        · exact cut methods offer w₁ t₁ fun sends => absurd sends fails
      · simp only [offerPacket, List.length_cons] at out
        omega

/-- `socks5_do_auth_userpass` sends the user name and the password it was given,
or ends the process. -/
theorem wp_socks5DoAuthUserpass {Q : ℤ → World → Prop}
    (missing : w.globals.relayUser = none ∨ w.globals.password = none →
      ∀ w', w'.trace = w.trace ++ [.userpass] → E .fatal w')
    (out : ∀ user pass, w.globals.relayUser = some user → w.globals.password = some pass →
      1024 < user.length + pass.length + 4 → ∀ w', w'.trace = w.trace ++ [.userpass] →
      E .packetOverflow w')
    (ok : ∀ user pass, w.globals.relayUser = some user → w.globals.password = some pass →
      user.length + pass.length + 4 ≤ 1024 → ∀ answer w', answer.length = 2 →
      w'.globals = w.globals.erasePassword →
      Progress w w' answer [.userpass, .packet (userpassPacket user pass)] →
      Q (if answer.getD 1 0 = 0 then 0 else -1) w')
    (cut : ∀ user pass, w.globals.relayUser = some user → w.globals.password = some pass →
      user.length + pass.length + 4 ≤ 1024 → ∀ w',
      w'.trace = w.trace ++ [.userpass, .packet (userpassPacket user pass)] →
      (w.Sends → w.stream.length < 2) → E .fatal w') :
    socks5DoAuthUserpass.wp w Q E := by
  simp only [socks5DoAuthUserpass, emit, globals, Program.wp_bind, Program.wp_update,
    Program.wp_read]
  cases user_of : w.globals.relayUser with
  | none => exact missing (Or.inl user_of) _ rfl
  | some user =>
      cases pass_of : w.globals.password with
      | none => exact missing (Or.inr pass_of) _ rfl
      | some pass =>
          have size : (userpassPacket user pass).length + 1 = user.length + pass.length + 4 := by
            simp only [userpassPacket, List.cons_append, List.length_cons, List.length_append]
            omega
          simp only [Program.wp_bind]
          rw [size]
          refine wp_inside (fun fits => ?_) fun large => out user pass user_of pass_of large _ rfl
          simp only [modifyGlobals, Program.wp_update]
          have started : Progress w { w with
              globals := w.globals.erasePassword, trace := w.trace ++ [.userpass] }
              [] [.userpass] := ⟨rfl, rfl, by simp [packets], id⟩
          refine wp_atomicOut (fun w₁ g₁ p₁ => ?_) fun w₁ t₁ fails => ?_
          · refine wp_atomicIn (fun answer w₂ len _ g₂ p₂ => ?_) (fun _ _ out => ?_)
              fun w₂ t₂ dry => ?_
            · have whole := started.trans (p₁.trans p₂)
              have ends := ok user pass user_of pass_of fits answer w₂ len (g₂.trans g₁) whole
              split_ifs at ends ⊢ with zero
              · exact ends
              · exact ends
            · exact absurd out (by decide)
            · refine cut user pass user_of pass_of fits w₂ ?_ fun _ => ?_
              · rw [t₂, p₁.trace, List.append_assoc]
                rfl
              · exact p₁.stream ▸ dry
          · refine cut user pass user_of pass_of fits w₁ ?_ fun sends => absurd sends fails
            rw [t₁, List.append_assoc]
            rfl

theorem wp_authenticate {Q : ℤ → World → Prop} {m : UInt8}
    (noauth : m = authNoauth → ∀ w', w'.globals = w.globals →
      Progress w w' [] [.method m] → Q 0 w')
    (userpass : m = authUserpass → ∀ w', w'.globals = w.globals →
      Progress w w' [] [.method m] → socks5DoAuthUserpass.wp w' Q E)
    (other : m ≠ authNoauth → m ≠ authUserpass → Q (-1) w) :
    (authenticate m).wp w Q E := by
  have decided : Progress w { w with trace := w.trace ++ [.method m] } [] [.method m] :=
    ⟨rfl, rfl, by simp [packets], id⟩
  unfold authenticate
  split_ifs with zero two
  · exact noauth zero _ rfl decided
  · rw [Program.wp_bind]
    exact userpass two _ rfl decided
  · exact other zero two

theorem wp_sendConnect {Q : Unit → World → Prop}
    (large : 256 < (connectPacket w.globals).length → E .packetOverflow w)
    (ok : (connectPacket w.globals).length ≤ 256 → ∀ w', w'.globals = w.globals →
      Progress w w' [] [.packet (connectPacket w.globals)] → Q () w')
    (cut : (connectPacket w.globals).length ≤ 256 → ∀ w',
      w'.trace = w.trace ++ [.packet (connectPacket w.globals)] → ¬ w.Sends → E .fatal w') :
    sendConnect.wp w Q E := by
  simp only [sendConnect, globals, Program.wp_bind, Program.wp_read]
  refine wp_inside (fun fits => ?_) large
  exact wp_atomicOut (fun w' g p => ok fits w' g p) fun w' t fails => cut fits w' t fails

/-- **The method negotiation.**  However it goes on, the offer was sent and the
server answered with two bytes, or the connection failed before that. -/
theorem wp_beginSocks5Relay {Q : ℤ → World → Prop} {methods : List UInt8}
    (offer : w.globals.offered = some methods)
    (cut : ∀ w', w'.trace = w.trace ++ [.packet (offerPacket methods)] →
      (w.Sends → w.stream.length < 2) → E .fatal w')
    (declined : ∀ v m w', v ≠ 5 ∨ (m ≠ authNoauth ∧ m ≠ authUserpass) →
      Progress w w' [v, m] [.packet (offerPacket methods)] → Q (-1) w')
    (noauth : ∀ w', w'.globals = w.globals →
      Progress w w' [5, authNoauth] [.packet (offerPacket methods), .method authNoauth] →
      requestConnect.wp w' Q E)
    (userpass : ∀ w', w'.globals = w.globals →
      Progress w w' [5, authUserpass] [.packet (offerPacket methods), .method authUserpass] →
      socks5DoAuthUserpass.wp w'
        (fun r w'' => (if r ≠ 0 then pure (-1) else requestConnect : Io ℤ).wp w'' Q E) E) :
    beginSocks5Relay.wp w Q E := by
  rw [beginSocks5Relay, Program.wp_bind]
  refine wp_offerMethods (fun refused => ?_) (fun methods' offer' answer w₁ len g₁ p₁ => ?_)
    fun methods' offer' w₁ t₁ dry => ?_
  · rw [offer] at refused
    cases refused
  · obtain rfl : methods = methods' := Option.some.inj (offer.symm.trans offer')
    obtain ⟨v, m, rfl⟩ := List.length_eq_two.mp len
    simp only [List.getD_cons_zero, List.getD_cons_succ]
    split_ifs with refuses
    · refine declined v m w₁ (refuses.imp_right ?_) p₁
      rintro rfl
      decide
    · obtain ⟨rfl, -⟩ := not_or.mp refuses |>.imp_left not_not.mp
      rw [Program.wp_bind]
      refine wp_authenticate ?_ ?_ ?_
      · rintro rfl w₂ g₂ p₂
        exact noauth w₂ (g₂.trans g₁) (p₁.trans p₂)
      · rintro rfl w₂ g₂ p₂
        exact userpass w₂ (g₂.trans g₁) (p₁.trans p₂)
      · exact fun not_zero not_two => declined 5 m w₁ (Or.inr ⟨not_zero, not_two⟩) p₁
  · obtain rfl : methods = methods' := Option.some.inj (offer.symm.trans offer')
    exact cut w₁ t₁ dry

/-- Reading the reply sends nothing. -/
theorem wp_readReply_trace {Q : ℤ → World → Prop}
    (ok : ∀ r w', w'.trace = w.trace → Q r w')
    (bad : ∀ why w', why ≠ .packetOverflow → w'.trace = w.trace → E why w') :
    readReply.wp w Q E := by
  have reads : ∀ (cap off size : ℕ) (w₁ : World) (R : Bytes → World → Prop), w₁.trace = w.trace →
      (∀ bytes w', w'.trace = w.trace → R bytes w') → (atomicIn cap off size).wp w₁ R E := by
    intro cap off size w₁ R t₁ rest
    refine wp_atomicIn (fun bytes w' _ _ _ p => ?_) (fun w' t _ => ?_) fun w' t _ => ?_
    · exact rest bytes w' (by rw [p.trace, List.append_nil, t₁])
    · exact bad _ w' (by decide) (t.trans t₁)
    · exact bad _ w' (by decide) (t.trans t₁)
  unfold readReply
  rw [Program.wp_bind]
  refine reads _ _ _ w _ rfl fun reply w₁ t₁ => ?_
  split_ifs
  · exact ok _ _ t₁
  · rw [Program.wp_bind]
    exact reads _ _ _ w₁ _ t₁ fun _ w₂ t₂ => ok _ _ t₂
  · rw [Program.wp_bind]
    refine reads _ _ _ w₁ _ t₁ fun name w₂ t₂ => ?_
    rw [Program.wp_bind]
    exact reads _ _ _ w₂ _ t₂ fun _ w₃ t₃ => ok _ _ t₃
  · rw [Program.wp_bind]
    exact reads _ _ _ w₁ _ t₁ fun _ w₂ t₂ => ok _ _ t₂
  · exact ok _ _ t₁

end Spec

end MsysGit.Connect
