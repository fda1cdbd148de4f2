import MsysGit.Library.Socks4
import MsysGit.Connect.Socks5Dialogue

/-!
# SOCKS4 relaying

`begin_socks4_relay` puts a request into a buffer of 256 bytes, without a test of its
length, sends it and reads the reply.  Whether the destination is an address or a host
name is read off `dest_addr`, which is zero for a name; so is the form of the request.
The server reads it off the address in the request (`decode_socks4Packet_iff`).
-/

namespace MsysGit.Connect

open MsysGit.Library MsysGit.Library.CString MsysGit.Library.Socks4

/-! ### The code -/

abbrev socks4RepSucceeded : UInt8 := 90

/-- The request.  The last byte of an address that is zero is replaced by one. -/
def socks4Packet (g : Globals) (user : Bytes) : Bytes :=
  [(4 : UInt8), 1, (g.destPort >>> 8).toUInt8, (g.destPort &&& 0xFF).toUInt8] ++
    (if g.destAddr = .any then [g.destAddr.a, g.destAddr.b, g.destAddr.c, 1]
      else g.destAddr.bytes) ++
    (user ++ 0 ::
      if g.socksVersion = 4 ∧ g.destAddr = .any then g.destHost ++ [0] else [])

/-- `begin_socks4_relay` -/
def beginSocks4Relay : Io ℤ := do
  let g ← globals
  match g.relayUser with
  | none => fatal
  | some user => do
      inside 256 (socks4Packet g user).length
      let _ ← atomicOut (socks4Packet g user)
      let answer ← atomicIn 256 0 8
      if answer.getD 1 0 ≠ socks4RepSucceeded then pure (-1) else pure 0

/-! ### What is asked for -/

/-- The destination is given by the address, or by the name if there is no address. -/
def Globals.ConnectsTo (g : Globals) : Socks4.Destination → Prop
  | .address a b c d => g.destAddr = ⟨a, b, c, d⟩
  | .name host => g.destAddr = .any ∧ g.destHost = host

/-- Every request sent from `w` to `w'` means the destination, the port and the user. -/
def RequestsSent (w w' : World) (dest : Socks4.Destination) : Prop :=
  ∃ events, w'.trace = w.trace ++ events ∧ ∀ packet ∈ packets events, ∃ user,
    w.globals.relayUser = some user ∧ decode packet = some ⟨w.globals.destPort, dest, user⟩

/-- The negotiation stays within its buffer, and sends what means the destination, or nothing. -/
def Socks4Conveys (w : World) (dest : Socks4.Destination) : Prop :=
  beginSocks4Relay.wp w (fun _ w' => RequestsSent w w' dest)
    fun why w' => why ≠ .packetOverflow ∧ RequestsSent w w' dest

/-! ### The condition -/

/-- There is no user name; or the request fits, and an address does not begin with three zeros. -/
def Socks4Encodable (g : Globals) (dest : Socks4.Destination) : Prop :=
  ∀ user, g.relayUser = some user →
    match dest with
    | .address a b c _ => ¬ (a = 0 ∧ b = 0 ∧ c = 0) ∧ user.length + 9 ≤ 256
    | .name host => user.length + host.length + 10 ≤ 256

/-! ### The request -/

section Request

variable {g : Globals} {dest : Socks4.Destination} {user : Bytes}

/-- With an address: the SOCKS4 request for it. -/
theorem socks4Packet_of_address {a b c d : UInt8} (there : g.destAddr = ⟨a, b, c, d⟩)
    (some_address : g.destAddr ≠ .any) :
    socks4Packet g user = header g.destPort a b c d ++ (user ++ [0]) := by
  rw [socks4Packet, if_neg some_address, if_neg fun both => some_address both.2, header,
    ← portBytes_eq, there]
  rfl

/-- Without one: the SOCKS4A request for the name. -/
theorem socks4Packet_of_any (version : g.socksVersion = 4) (none : g.destAddr = .any) :
    socks4Packet g user = header g.destPort 0 0 0 1 ++ (user ++ 0 :: (g.destHost ++ [0])) := by
  rw [socks4Packet, if_pos none, if_pos ⟨version, none⟩, header, ← portBytes_eq, none]
  rfl

theorem length_socks4Packet (version : g.socksVersion = 4) (aims : g.ConnectsTo dest) :
    (socks4Packet g user).length =
      match dest with
      | .address .. => if g.destAddr = .any then user.length + g.destHost.length + 10
          else user.length + 9
      | .name host => user.length + host.length + 10 := by
  have header_length : ∀ a b c d, (header g.destPort a b c d).length = 8 := fun _ _ _ _ => rfl
  have any_length (none : g.destAddr = .any) :
      (socks4Packet g user).length = user.length + g.destHost.length + 10 := by
    rw [socks4Packet_of_any version none]
    simp only [List.length_append, List.length_cons, List.length_nil, header_length]
    omega
  cases dest with
  | address a b c d =>
      dsimp only
      split
      · rename_i none
        exact any_length none
      · rename_i some_address
        rw [socks4Packet_of_address aims some_address]
        simp only [List.length_append, List.length_cons, List.length_nil, header_length]
        omega
  | name host =>
      obtain ⟨none, rfl⟩ := aims
      exact any_length none

/-- **The request is understood** unless it is for an address that begins with three zeros. -/
theorem decode_socks4Packet_iff (version : g.socksVersion = 4) (aims : g.ConnectsTo dest)
    (userString : 0 ∉ user) (hostString : 0 ∉ g.destHost) :
    decode (socks4Packet g user) = some ⟨g.destPort, dest, user⟩ ↔
      match dest with
      | .address a b c _ => ¬ (a = 0 ∧ b = 0 ∧ c = 0)
      | .name _ => True := by
  have named (none : g.destAddr = .any) :
      decode (socks4Packet g user) = some ⟨g.destPort, .name g.destHost, user⟩ := by
    rw [socks4Packet_of_any version none]
    exact decode_encode (r := ⟨g.destPort, .name g.destHost, user⟩) ⟨userString, hostString⟩
  cases dest with
  | name host =>
      obtain ⟨none, rfl⟩ := aims
      exact iff_of_true (named none) trivial
  | address a b c d =>
      dsimp only
      by_cases none : g.destAddr = .any
      · have zeros : (⟨a, b, c, d⟩ : InAddr) = ⟨0, 0, 0, 0⟩ := aims.symm.trans none
        rw [InAddr.mk.injEq] at zeros
        rw [named none]
        refine iff_of_false (by simp) (not_not.mpr ⟨zeros.1, zeros.2.1, zeros.2.2.1⟩)
      · rw [socks4Packet_of_address aims none]
        constructor
        · -- Announced, a name is missing.
          rintro decoded ⟨rfl, rfl, rfl⟩
          have announced : Announces 0 0 0 d := by
            refine ⟨rfl, rfl, rfl, fun zero => none ?_⟩
            rw [zero] at aims
            exact aims
          rw [decode_header userString, if_pos announced] at decoded
          cases decoded
        · intro nonzero
          have silent : ¬ Announces a b c d := fun announced =>
            nonzero ⟨announced.1, announced.2.1, announced.2.2.1⟩
          exact decode_encode (r := ⟨g.destPort, .address a b c d, user⟩) ⟨userString, silent⟩

/-- With a user name, the condition is that the request is understood and fits. -/
theorem socks4Encodable_iff (version : g.socksVersion = 4) (aims : g.ConnectsTo dest)
    (user_of : g.relayUser = some user) (userString : 0 ∉ user) (hostString : 0 ∉ g.destHost) :
    Socks4Encodable g dest ↔
      decode (socks4Packet g user) = some ⟨g.destPort, dest, user⟩ ∧
        (socks4Packet g user).length ≤ 256 := by
  rw [decode_socks4Packet_iff version aims userString hostString,
    length_socks4Packet version aims, Socks4Encodable]
  have only : (∀ user', g.relayUser = some user' → user' = user) := fun user' also =>
    Option.some.inj (also.symm.trans user_of)
  cases dest with
  | address a b c d =>
      dsimp only
      have same : ¬ (a = 0 ∧ b = 0 ∧ c = 0) → g.destAddr ≠ .any := by
        intro nonzero none
        have zeros : (⟨a, b, c, d⟩ : InAddr) = ⟨0, 0, 0, 0⟩ := aims.symm.trans none
        rw [InAddr.mk.injEq] at zeros
        exact nonzero ⟨zeros.1, zeros.2.1, zeros.2.2.1⟩
      constructor
      · intro encodable
        have here := encodable user user_of
        rw [if_neg (same here.1)]
        exact here
      · rintro ⟨nonzero, fits⟩ user' also
        rw [if_neg (same nonzero)] at fits
        exact ⟨nonzero, only user' also ▸ fits⟩
  | name host =>
      dsimp only
      rw [true_and]
      exact ⟨fun encodable => encodable user user_of, fun fits user' also =>
        only user' also ▸ fits⟩

end Request

/-! ### The negotiation -/

/-- How it ends: without a user name before anything is sent, with the buffer overrun, or with the
request handed to `atomic_out`. -/
theorem wp_beginSocks4Relay {w : World} {Q : ℤ → World → Prop} {E : Halt → World → Prop}
    (refused : w.globals.relayUser = none → E .fatal w)
    (large : ∀ user, w.globals.relayUser = some user →
      256 < (socks4Packet w.globals user).length → E .packetOverflow w)
    (ok : ∀ user, w.globals.relayUser = some user →
      (socks4Packet w.globals user).length ≤ 256 →
      ∀ r w', w'.trace = w.trace ++ [.packet (socks4Packet w.globals user)] → Q r w')
    (cut : ∀ user, w.globals.relayUser = some user →
      (socks4Packet w.globals user).length ≤ 256 →
      ∀ w', w'.trace = w.trace ++ [.packet (socks4Packet w.globals user)] → E .fatal w') :
    beginSocks4Relay.wp w Q E := by
  simp only [beginSocks4Relay, globals, Program.wp_bind, Program.wp_read]
  cases user_of : w.globals.relayUser with
  | none => exact refused user_of
  | some user =>
      simp only [Program.wp_bind]
      refine wp_inside (fun fits => ?_) (large user user_of)
      refine wp_atomicOut (fun w₁ g₁ p₁ => ?_) fun w₁ t₁ _ => cut user user_of fits w₁ t₁
      refine wp_atomicIn (fun answer w₂ _ _ g₂ p₂ => ?_) (fun _ _ out => ?_) fun w₂ t₂ _ => ?_
      · have sent := (p₁.trans p₂).trace
        split
        · exact ok user user_of fits _ w₂ sent
        · exact ok user user_of fits _ w₂ sent
      · exact absurd out (by decide)
      · exact cut user user_of fits w₂ (t₂.trans p₁.trace)

/-- With a user name, one request is built, whatever the network does. -/
theorem socks4Conveys_of_user {w : World} {dest : Socks4.Destination} {user : Bytes}
    (user_of : w.globals.relayUser = some user) :
    Socks4Conveys w dest ↔
      decode (socks4Packet w.globals user) = some ⟨w.globals.destPort, dest, user⟩ ∧
        (socks4Packet w.globals user).length ≤ 256 := by
  have only : ∀ user', w.globals.relayUser = some user' → user' = user := fun user' also =>
    Option.some.inj (also.symm.trans user_of)
  have sent : ∀ w' : World, w'.trace = w.trace ++ [.packet (socks4Packet w.globals user)] →
      (RequestsSent w w' dest ↔
        decode (socks4Packet w.globals user) = some ⟨w.globals.destPort, dest, user⟩) := by
    intro w' trace
    constructor
    · rintro ⟨events, same, meant⟩
      obtain rfl := List.append_cancel_left (trace.symm.trans same)
      obtain ⟨user', also, decoded⟩ := meant _ (List.mem_singleton.mpr rfl)
      exact only user' also ▸ decoded
    · intro decoded
      refine ⟨_, trace, fun packet inside => ⟨user, user_of, ?_⟩⟩
      obtain rfl : packet = socks4Packet w.globals user := List.mem_singleton.mp inside
      exact decoded
  rw [Socks4Conveys]
  refine Program.wp_iff_of (wp_beginSocks4Relay ?_ ?_ ?_ ?_)
  · intro none
    cases none.symm.trans user_of
  · intro user' also large
    obtain rfl := only user' also
    exact iff_of_false (fun ok => ok.1 rfl) fun ok => Nat.not_lt.mpr ok.2 large
  · intro user' also fits r w' trace
    obtain rfl := only user' also
    rw [sent w' trace, and_iff_left fits]
  · intro user' also fits w' trace
    obtain rfl := only user' also
    rw [sent w' trace, and_iff_left fits, and_iff_right (by decide)]

/-- Without one, nothing is sent. -/
theorem socks4Conveys_of_none {w : World} (dest : Socks4.Destination)
    (none : w.globals.relayUser = none) : Socks4Conveys w dest := by
  rw [Socks4Conveys]
  refine wp_beginSocks4Relay (fun _ => ?_) ?_ ?_ ?_
  · exact ⟨by decide, [], (List.append_nil _).symm, by simp [packets]⟩
  · intro user user_of
    cases none.symm.trans user_of
  · intro user user_of
    cases none.symm.trans user_of
  · intro user user_of
    cases none.symm.trans user_of

/-- **SOCKS4 requests.**  Whatever the network does, the buffer is not left and every request sent
means the destination, port and user, if and only if the request fits and, for an address, one of
its first three bytes is not zero. -/
theorem socks4Conveys_iff {w : World} {dest : Socks4.Destination}
    (version : w.globals.socksVersion = 4) (aims : w.globals.ConnectsTo dest)
    (userString : ∀ user, w.globals.relayUser = some user → 0 ∉ user)
    (hostString : 0 ∉ w.globals.destHost) :
    Socks4Conveys w dest ↔ Socks4Encodable w.globals dest := by
  cases user_of : w.globals.relayUser with
  | none =>
      refine iff_of_true (socks4Conveys_of_none dest user_of) fun user also => ?_
      cases user_of.symm.trans also
  | some user =>
      rw [socks4Conveys_of_user user_of,
        socks4Encodable_iff version aims user_of (userString user user_of) hostString]

/-- A SOCKS4 relay with the user `u`, for a destination with the port 22. -/
def socks4World (destAddr : InAddr) (destHost : String) : World :=
  .start { Globals.initial with
    relayMethod := .socks
    relayUser := some (text "u")
    destHost := text destHost
    destAddr := destAddr
    destPort := 22
    socksVersion := 4 } []

theorem socks4Conveys_iff_example :
    Socks4Conveys (socks4World .any "git") (.name (text "git")) := by
  have aims : (socks4World .any "git").globals.ConnectsTo (.name (text "git")) :=
    And.intro rfl rfl
  refine (socks4Conveys_iff rfl aims ?_ (by decide)).mpr ?_
  · intro user user_of
    obtain rfl := Option.some.inj user_of
    decide
  · intro user user_of
    obtain rfl := Option.some.inj user_of
    decide

/-- The address 0.0.0.2 announces a host name that is not sent. -/
theorem not_socks4Conveys :
    ¬ ∀ (w : World) (dest : Socks4.Destination), w.globals.socksVersion = 4 →
      w.globals.ConnectsTo dest →
      (∀ user, w.globals.relayUser = some user → 0 ∉ user) → 0 ∉ w.globals.destHost →
      Socks4Conveys w dest := by
  intro all
  have conveys := all (socks4World ⟨0, 0, 0, 2⟩ "0.0.0.2") (.address 0 0 0 2) rfl rfl ?_ (by decide)
  · have decoded := ((socks4Conveys_of_user rfl).mp conveys).1
    revert decoded
    decide
  · intro user user_of
    obtain rfl := Option.some.inj user_of
    decide

end MsysGit.Connect
