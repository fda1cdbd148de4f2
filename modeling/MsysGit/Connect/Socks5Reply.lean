import MsysGit.Connect.Socks5Dialogue

/-!
# A successful SOCKS5 negotiation

What `begin_socks5_relay` makes of a server that accepts: the bytes of its
answers are cut as the network likes and followed by the payload of the tunnel.
Everything is read exactly, and the payload is left, unless a name in the reply
or a packet of the client is too long for its buffer (`arrives_iff`).
-/

namespace MsysGit.Connect

open MsysGit.Library MsysGit.Library.Rfc1928

/-- The server chooses `m`, accepts, and sends `reply` and then `payload`. -/
structure Accepts (w : World) (m : UInt8) (reply : Message) (payload : Bytes) : Prop where
  sends : w.Sends
  offered : ∃ methods, w.globals.offered = some methods
  chosen : m = authNoauth ∨ m = authUserpass
  /-- There is something to authenticate with. -/
  known : m = authUserpass →
    ∃ user pass, w.globals.relayUser = some user ∧ w.globals.password = some pass
  succeeded : reply.code = 0
  stream : ∃ status, w.stream = [5, m] ++ (status ++ (reply.encode ++ payload)) ∧
    (m = authNoauth → status = []) ∧ (m = authUserpass → ∃ version, status = [version, 0])

/-- The negotiation succeeds and leaves exactly the payload. -/
def Arrives (w : World) (payload : Bytes) : Prop :=
  beginSocks5Relay.wp w (fun r w' => r = 0 ∧ w'.stream = payload) (fun _ _ => False)

section Reply

variable {w : World}

/-- **Reading the reply.**  It is read to its end exactly when the name in it, if
there is one, fits behind the five bytes before it. -/
theorem wp_readReply {reply : Message} {payload : Bytes} (succeeded : reply.code = 0)
    (stream : w.stream = reply.encode ++ payload) :
    readReply.wp w
      (fun r w' => (r = 0 ∧ w'.stream = payload) ∧ reply.address.nameLength ≤ 249)
      (fun _ _ => 249 < reply.address.nameLength) := by
  obtain ⟨code, address, port⟩ := reply
  obtain rfl : code = 0 := succeeded
  rw [readReply, Program.wp_bind]
  cases address with
  | ipv4 a b c d =>
      have head : w.stream = [5, 0, 0, 1] ++ ([a, b, c, d] ++ portBytes port ++ payload) := stream
      refine wp_atomicIn_front head rfl (fun _ w₁ _ _ s₁ => ?_)
        fun large => absurd large (by decide)
      rw [if_neg (by decide), if_pos (by decide), Program.wp_bind]
      refine wp_atomicIn_front s₁ rfl (fun _ w₂ _ _ s₂ => ?_) fun large => absurd large (by decide)
      exact ⟨⟨rfl, s₂⟩, Nat.zero_le _⟩
  | domain name short =>
      have head : w.stream = [5, 0, 0, 3] ++ ([UInt8.ofNat name.length] ++
          (name ++ portBytes port ++ payload)) := by
        simpa [Message.encode, Address.encode] using stream
      refine wp_atomicIn_front head rfl (fun _ w₁ _ _ s₁ => ?_)
        fun large => absurd large (by decide)
      rw [if_neg (by decide), if_neg (by decide), if_pos (by decide), Program.wp_bind]
      refine wp_atomicIn_front s₁ rfl (fun _ w₂ _ _ s₂ => ?_) fun large => absurd large (by decide)
      -- The length byte is the length of the name, and two bytes of port follow.
      have length : (name ++ portBytes port).length =
          ((List.getD [UInt8.ofNat name.length] 0 0).toNat + 2) := by
        rw [List.getD_cons_zero, toNat_ofNat_length short, List.length_append]
        rfl
      have size := length
      rw [List.length_append] at size
      change name.length + 2 = _ at size
      rw [Program.wp_bind]
      refine wp_atomicIn_front s₂ length (fun fits w₃ _ _ s₃ => ?_) fun large w₃ => ?_
      · refine ⟨⟨rfl, s₃⟩, ?_⟩
        show name.length ≤ 249
        omega
      · show 249 < name.length
        omega
  | ipv6 octets whole =>
      have head : w.stream = [5, 0, 0, 4] ++ (octets ++ portBytes port ++ payload) := by
        simpa [Message.encode, Address.encode] using stream
      refine wp_atomicIn_front head rfl (fun _ w₁ _ _ s₁ => ?_)
        fun large => absurd large (by decide)
      have length : (octets ++ portBytes port).length = 16 + 2 := by
        rw [List.length_append, whole]
        rfl
      rw [if_neg (by decide), if_neg (by decide), if_neg (by decide), if_pos (by decide),
        Program.wp_bind]
      refine wp_atomicIn_front s₁ length (fun _ w₂ _ _ s₂ => ?_)
        fun large => absurd large (by decide)
      exact ⟨⟨rfl, s₂⟩, Nat.zero_le _⟩

/-- The rest of the negotiation, once the server has accepted. -/
theorem wp_requestConnect_reply {reply : Message} {payload : Bytes} (sends : w.Sends)
    (succeeded : reply.code = 0) (stream : w.stream = reply.encode ++ payload) :
    requestConnect.wp w
      (fun r w' => (r = 0 ∧ w'.stream = payload) ∧ reply.address.nameLength ≤ 249 ∧
        (connectPacket w.globals).length ≤ 256)
      (fun _ _ => ¬ (reply.address.nameLength ≤ 249 ∧ (connectPacket w.globals).length ≤ 256)) := by
  rw [requestConnect, Program.wp_bind]
  refine wp_sendConnect (fun large => ?_) (fun fits w₁ _ p₁ => ?_) fun _ w₁ _ fails => ?_
  · exact fun both => absurd large (Nat.not_lt.mpr both.2)
  · refine Program.wp_mono (wp_readReply succeeded (p₁.stream.trans stream)) ?_ ?_
    · exact fun _ _ ended => ⟨ended.1, ended.2, fits⟩
    · exact fun _ _ long both => absurd long (Nat.not_lt.mpr both.1)
  · exact absurd sends fails

/-- The user/password request and the rest of the negotiation, once the server has
accepted both. -/
theorem wp_userpass_reply {reply : Message} {payload user pass : Bytes} {version : UInt8}
    (sends : w.Sends) (user_of : w.globals.relayUser = some user)
    (pass_of : w.globals.password = some pass) (succeeded : reply.code = 0)
    (stream : w.stream = [version, 0] ++ (reply.encode ++ payload)) :
    (socks5DoAuthUserpass >>= fun r => (if r ≠ 0 then pure (-1) else requestConnect : Io ℤ)).wp w
      (fun r w' => (r = 0 ∧ w'.stream = payload) ∧
        (reply.address.nameLength ≤ 249 ∧ (connectPacket w.globals).length ≤ 256) ∧
        user.length + pass.length + 4 ≤ 1024)
      (fun _ _ => ¬ ((reply.address.nameLength ≤ 249 ∧ (connectPacket w.globals).length ≤ 256) ∧
        user.length + pass.length + 4 ≤ 1024)) := by
  have only : ∀ {user' pass' : Bytes}, w.globals.relayUser = some user' →
      w.globals.password = some pass' → user' = user ∧ pass' = pass := by
    intro user' pass' user_of' pass_of'
    exact ⟨Option.some.inj (user_of'.symm.trans user_of),
      Option.some.inj (pass_of'.symm.trans pass_of)⟩
  rw [Program.wp_bind]
  refine wp_socks5DoAuthUserpass (fun missing _ _ => ?_) (fun user' pass' u' p' large _ _ => ?_)
    (fun user' pass' u' p' fits answer w₁ len g₁ p₁ => ?_) fun user' pass' u' p' fits _ _ dry => ?_
  · rw [user_of, pass_of] at missing
    exact absurd missing (by simp)
  · obtain ⟨rfl, rfl⟩ := only u' p'
    exact fun fits => absurd fits.2 (Nat.not_le.mpr large)
  · obtain ⟨rfl, rfl⟩ := only u' p'
    obtain ⟨rfl, left⟩ := p₁.stream_of_eq stream len
    rw [List.getD_cons_succ, List.getD_cons_zero, if_pos rfl, if_neg (not_not.mpr rfl)]
    have request : connectPacket w₁.globals = connectPacket w.globals := by
      rw [g₁, connectPacket_erasePassword]
    have rest := wp_requestConnect_reply (p₁.sends sends) succeeded left
    rw [request] at rest
    refine Program.wp_mono rest ?_ ?_
    · exact fun _ _ held => ⟨held.1, held.2, fits⟩
    · exact fun _ _ refused held => refused held.1
  · have short := dry sends
    rw [stream] at short
    exact absurd short (by simp)

/-- Everything fits the buffer it is stored in: the name in the reply, the connect
request, and the user/password request where it is asked for. -/
def FitsBuffers (g : Globals) (m : UInt8) (reply : Message) : Prop :=
  (reply.address.nameLength ≤ 249 ∧ (g.destAddr = .any → g.destHost.length ≤ 249)) ∧
    (m = authUserpass → ∀ user pass, g.relayUser = some user → g.password = some pass →
      user.length + pass.length + 4 ≤ 1024)

/-- However the negotiation with an accepting server ends, it ends well exactly
when everything fits. -/
theorem wp_accepted {m : UInt8} {reply : Message} {payload : Bytes}
    (accepts : Accepts w m reply payload) :
    beginSocks5Relay.wp w
      (fun r w' => (r = 0 ∧ w'.stream = payload) ↔ FitsBuffers w.globals m reply)
      (fun _ _ => False ↔ FitsBuffers w.globals m reply) := by
  obtain ⟨sends, ⟨methods, offer⟩, chosen, known, succeeded, status, stream,
    silent, granted⟩ := accepts
  rw [FitsBuffers, ← connectPacket_length_le]
  refine wp_beginSocks5Relay offer (fun _ _ dry => ?_) (fun v m' w₁ other p₁ => ?_)
    (fun w₁ g₁ p₁ => ?_) fun w₁ g₁ p₁ => ?_
  · have short := dry sends
    rw [stream] at short
    exact absurd short (by simp)
  · obtain ⟨rfl, rfl⟩ : v = 5 ∧ m' = m := by simpa using (p₁.stream_of_eq stream rfl).1
    rcases other with not_five | ⟨not_zero, not_two⟩
    · exact absurd rfl not_five
    · exact absurd chosen (not_or.mpr ⟨not_zero, not_two⟩)
  · obtain ⟨answer, left⟩ := p₁.stream_of_eq stream rfl
    obtain rfl : authNoauth = m := by simpa using answer
    rw [silent rfl, List.nil_append] at left
    refine Program.wp_mono (wp_requestConnect_reply (p₁.sends sends) succeeded left) ?_ ?_
    · intro r w₂ held
      rw [g₁] at held
      exact ⟨fun _ => ⟨held.2, nofun⟩, fun _ => held.1⟩
    · intro why w₂ refused
      rw [g₁] at refused
      exact ⟨False.elim, fun fits => refused fits.1⟩
  · obtain ⟨answer, left⟩ := p₁.stream_of_eq stream rfl
    obtain rfl : authUserpass = m := by simpa using answer
    obtain ⟨user, pass, user_of, pass_of⟩ := known rfl
    obtain ⟨version, rfl⟩ := granted rfl
    have credentials : (authUserpass = authUserpass → ∀ user pass,
        w.globals.relayUser = some user → w.globals.password = some pass →
        user.length + pass.length + 4 ≤ 1024) ↔ user.length + pass.length + 4 ≤ 1024 := by
      simp [user_of, pass_of]
    have negotiation := wp_userpass_reply (p₁.sends sends) (g₁ ▸ user_of) (g₁ ▸ pass_of)
      succeeded left
    rw [g₁] at negotiation
    rw [credentials, ← Program.wp_bind]
    refine Program.wp_mono negotiation ?_ ?_
    · exact fun _ _ held => iff_of_true held.1 held.2
    · exact fun _ _ refused => iff_of_false id refused

/-- **When a successful negotiation arrives at its end.** -/
theorem arrives_iff {m : UInt8} {reply : Message} {payload : Bytes}
    (accepts : Accepts w m reply payload) :
    Arrives w payload ↔ FitsBuffers w.globals m reply :=
  Program.wp_iff_of (wp_accepted accepts)

end Reply

/-- A server that accepts without authentication; its answers arrive in two pieces. -/
def World.accepting (reply : Message) (payload : Bytes) (cut : ℕ) : World :=
  let answer := [5, authNoauth] ++ reply.encode ++ payload
  { World.start { Globals.initial with relayMethod := .socks, destHost := text "h" } [] with
    incoming := [answer.take cut, answer.drop cut] }

theorem accepts_accepting (address : Address) (port : UInt16) (payload : Bytes) (cut : ℕ) :
    Accepts (World.accepting ⟨0, address, port⟩ payload cut) authNoauth ⟨0, address, port⟩
      payload where
  sends := List.not_mem_nil
  offered := ⟨[authNoauth, authUserpass], rfl⟩
  chosen := Or.inl rfl
  known := nofun
  succeeded := rfl
  stream := by
    refine ⟨[], ?_, fun _ => rfl, nofun⟩
    simp [World.accepting, World.stream]

/-- A name of two bytes. -/
def Address.shortName : Address := .domain (text "px") (by decide)

/-- A reply with an IPv4 address and one with a name, each cut inside the address. -/
theorem arrives_replies :
    Arrives (World.accepting ⟨0, .ipv4 10 0 0 1, 22⟩ [83, 83, 72] 7) [83, 83, 72] ∧
      Arrives (World.accepting ⟨0, Address.shortName, 22⟩ [83, 83, 72] 8) [83, 83, 72] := by
  rw [arrives_iff (accepts_accepting (.ipv4 10 0 0 1) 22 [83, 83, 72] 7),
    arrives_iff (accepts_accepting Address.shortName 22 [83, 83, 72] 8)]
  exact ⟨⟨⟨by decide, fun _ => by decide⟩, nofun⟩, ⟨⟨by decide, fun _ => by decide⟩, nofun⟩⟩

/-- A name of 250 bytes. -/
def Address.longName : Address :=
  .domain (List.replicate 250 97) (by rw [List.length_replicate]; decide)

/-- Such a name in the reply is stored beyond the end of the buffer. -/
theorem not_arrives_longName :
    ¬ Arrives (World.accepting ⟨0, Address.longName, 22⟩ [] 2) [] := by
  refine (Program.wp_iff_of (wp_accepted (accepts_accepting _ 22 [] 2))).not.mpr fun fits => ?_
  have short : (List.replicate 250 (97 : UInt8)).length ≤ 249 := fits.1.1
  rw [List.length_replicate] at short
  exact absurd short (by decide)

end MsysGit.Connect
