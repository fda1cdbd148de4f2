import MsysGit.Connect.Socks5
import Mathlib.Data.List.Forall2

/-!
# What a SOCKS5 negotiation sends

For every configuration and every behaviour of the server, the events of
`begin_socks5_relay` are a prefix of one `script`, which depends only on the
configuration and on the second byte the server sends (`wp_script`).  Two
questions about the script are settled here.

* **Methods.**  The `switch` looks at the server's choice alone: the list that was
  offered is no longer consulted.  So only an offer of both methods the `switch`
  knows is honoured whatever the server answers (`methodsHonoured_iff`).
* **Packets.**  Length bytes are the lengths modulo 256, and the buffers are not
  checked (`packetsSound_iff`).
-/

namespace MsysGit.Connect

open MsysGit.Library MsysGit.Library.Rfc1928

/-! ### The script -/

/-- All that a negotiation does, when nothing stops it, with a server that chooses
the method `m`. -/
def script (g : Globals) (methods : List UInt8) (m : UInt8) : List Event :=
  .packet (offerPacket methods) ::
    if m = authNoauth then [.method m, .packet (connectPacket g)]
    else if m = authUserpass then
      .method m :: .userpass ::
        match g.relayUser, g.password with
        | some user, some pass =>
            [.packet (userpassPacket user pass), .packet (connectPacket g)]
        | _, _ => []
    else []

theorem script_userpass {g : Globals} (methods : List UInt8) {user pass : Bytes}
    (user_of : g.relayUser = some user) (pass_of : g.password = some pass) :
    script g methods authUserpass =
      ([.packet (offerPacket methods), .method authUserpass] ++
        [.userpass, .packet (userpassPacket user pass)]) ++ [.packet (connectPacket g)] := by
  rw [script, if_neg (by decide), if_pos rfl, user_of, pass_of]
  rfl

/-- Some packet is larger than the buffer it is built in. -/
def Oversized (g : Globals) : Prop :=
  256 < (connectPacket g).length ∨
    ∃ user pass, g.relayUser = some user ∧ g.password = some pass ∧
      1024 < user.length + pass.length + 4

/-- Erasing the password leaves the destination alone. -/
theorem connectPacket_erasePassword (g : Globals) :
    connectPacket g.erasePassword = connectPacket g := by
  obtain ⟨getenv, table, same⟩ := g.erasePassword_eq
  rw [same]
  rfl

theorem connectPacket_length (g : Globals) :
    (connectPacket g).length = if g.destAddr = .any then g.destHost.length + 7 else 10 := by
  unfold connectPacket
  split_ifs
  · simp
  · rfl

/-- When the connect request fits its buffer. -/
theorem connectPacket_length_le (g : Globals) :
    (connectPacket g).length ≤ 256 ↔ (g.destAddr = .any → g.destHost.length ≤ 249) := by
  rw [connectPacket_length]
  split_ifs with any
  · simp only [any, forall_const]
    omega
  · simp [any]

section Trace

variable {w : World} {E : Halt → World → Prop}

theorem wp_requestConnect {Q : ℤ → World → Prop}
    (large : 256 < (connectPacket w.globals).length → E .packetOverflow w)
    (ok : (connectPacket w.globals).length ≤ 256 → ∀ r w',
      w'.trace = w.trace ++ [.packet (connectPacket w.globals)] → Q r w')
    (bad : (connectPacket w.globals).length ≤ 256 → ∀ why w', why ≠ .packetOverflow →
      w'.trace = w.trace ++ [.packet (connectPacket w.globals)] → E why w') :
    requestConnect.wp w Q E := by
  rw [requestConnect, Program.wp_bind]
  refine wp_sendConnect large (fun fits w₁ _ p₁ => ?_)
    fun fits w₁ t₁ _ => bad fits _ w₁ (by decide) t₁
  exact wp_readReply_trace (fun r w₂ t₂ => ok fits r w₂ (t₂.trans p₁.trace))
    fun why w₂ small t₂ => bad fits why w₂ small (t₂.trans p₁.trace)

/-- A negotiation that started in `w` has gone through these events. -/
structure Follows (w : World) (methods : List UInt8) (events : List Event) : Prop where
  started : .packet (offerPacket methods) ∈ events
  part : events <+: script w.globals methods (w.stream.getD 1 0)
  chosen : w.Sends → 2 ≤ w.stream.length → w.stream.getD 0 0 = 5 →
    w.stream.getD 1 0 = authNoauth ∨ w.stream.getD 1 0 = authUserpass →
    .method (w.stream.getD 1 0) ∈ events

theorem Follows.of_trace {methods : List UInt8} {m : UInt8} {events events' : List Event}
    (fresh : w.trace = []) (choice : w.stream.getD 1 0 = m) (trace : events = w.trace ++ events')
    (all : [.packet (offerPacket methods), .method m] ⊆ events')
    (part : events' <+: script w.globals methods m) : Follows w methods events := by
  subst choice trace
  rw [fresh, List.nil_append]
  exact ⟨all (by simp), part, fun _ _ _ _ => all (by simp)⟩

/-- What follows the choice of user/password authentication. -/
theorem wp_script_userpass {methods : List UInt8} {w₁ : World} (fresh : w.trace = [])
    (g₁ : w₁.globals = w.globals)
    (p₁ : Progress w w₁ [5, authUserpass] [.packet (offerPacket methods), .method authUserpass]) :
    (socks5DoAuthUserpass >>= fun r => (if r ≠ 0 then pure (-1) else requestConnect : Io ℤ)).wp w₁
      (fun _ w' => Follows w methods w'.trace)
      (fun why w' => Follows w methods w'.trace ∧
        (why = .packetOverflow → Oversized w.globals)) := by
  have choice : w.stream.getD 1 0 = authUserpass := by rw [← p₁.stream]; rfl
  have asks : [.packet (offerPacket methods), .method authUserpass, .userpass] <+:
      script w.globals methods authUserpass := ⟨_, rfl⟩
  rw [Program.wp_bind]
  refine wp_socks5DoAuthUserpass (fun _ w₂ t₂ => ?_)
    (fun user pass user_of pass_of large w₂ t₂ => ?_)
    (fun user pass user_of pass_of _ answer w₂ _ g₂ p₂ => ?_)
    fun user pass user_of pass_of _ w₂ t₂ _ => ?_
  · rw [p₁.trace, List.append_assoc] at t₂
    exact ⟨.of_trace fresh choice t₂ (by simp) asks, nofun⟩
  · rw [p₁.trace, List.append_assoc] at t₂
    rw [g₁] at user_of pass_of
    exact ⟨.of_trace fresh choice t₂ (by simp) asks,
      fun _ => Or.inr ⟨user, pass, user_of, pass_of, large⟩⟩
  · rw [g₁] at user_of pass_of
    have all := script_userpass methods user_of pass_of
    have t₂ := p₂.trace
    rw [p₁.trace, List.append_assoc] at t₂
    have part : Follows w methods w₂.trace :=
      .of_trace fresh choice t₂ (by simp) (all ▸ List.prefix_append _ _)
    have request : connectPacket w₂.globals = connectPacket w.globals := by
      rw [g₂, g₁, connectPacket_erasePassword]
    by_cases granted : answer.getD 1 0 = 0
    · rw [if_pos granted, if_neg (not_not.mpr rfl)]
      refine wp_requestConnect (fun large => ⟨part, fun _ => Or.inl (request ▸ large)⟩)
        (fun _ r w₃ t₃ => ?_) fun _ why w₃ small t₃ => ⟨?_, fun large => absurd large small⟩
      all_goals
        rw [t₂, request, List.append_assoc, ← all] at t₃
        exact .of_trace fresh choice t₃ (by simp [all]) (List.prefix_refl _)
    · -- The server refuses the credentials, and nothing more is sent.
      rw [if_neg granted, if_pos (by decide)]
      exact part
  · rw [p₁.trace, List.append_assoc] at t₂
    rw [g₁] at user_of pass_of
    have all := script_userpass methods user_of pass_of
    exact ⟨.of_trace fresh choice t₂ (by simp) (all ▸ List.prefix_append _ _), nofun⟩

/-- **Every negotiation follows the script**, starting with the offer, and stores
outside a packet buffer only where a packet is too large. -/
theorem wp_script {methods : List UInt8} (fresh : w.trace = [])
    (offer : w.globals.offered = some methods) :
    beginSocks5Relay.wp w (fun _ w' => Follows w methods w'.trace)
      (fun why w' => Follows w methods w'.trace ∧
        (why = .packetOverflow → Oversized w.globals)) := by
  refine wp_beginSocks5Relay offer (fun w₁ t₁ dry => ⟨?_, nofun⟩) (fun v m w₁ other p₁ => ?_)
    (fun w₁ g₁ p₁ => ?_) fun w₁ g₁ p₁ => ?_
  · rw [t₁, fresh]
    exact ⟨by simp, ⟨_, rfl⟩, fun sends long => absurd (dry sends) (Nat.not_lt.mpr long)⟩
  · -- The answer is refused, so it is none of those after which the method is used.
    rw [p₁.trace, fresh]
    refine ⟨by simp, ⟨_, rfl⟩, fun _ _ five two => ?_⟩
    rw [← p₁.stream] at five two
    rcases other with not_five | ⟨not_zero, not_two⟩
    · exact absurd five not_five
    · exact absurd two (not_or.mpr ⟨not_zero, not_two⟩)
  · have choice : w.stream.getD 1 0 = authNoauth := by rw [← p₁.stream]; rfl
    have all : script w.globals methods authNoauth =
        [.packet (offerPacket methods), .method authNoauth] ++
          [.packet (connectPacket w.globals)] := rfl
    have decided : Follows w methods w₁.trace :=
      .of_trace fresh choice p₁.trace (by simp) (all ▸ List.prefix_append _ _)
    refine wp_requestConnect (fun large => ⟨decided, fun _ => Or.inl (g₁ ▸ large)⟩)
      (fun _ r w₂ t₂ => ?_) fun _ why w₂ small t₂ => ⟨?_, fun large => absurd large small⟩
    all_goals
      rw [p₁.trace, g₁, List.append_assoc, ← all] at t₂
      exact .of_trace fresh choice t₂ (all ▸ List.subset_append_left _ _) (List.prefix_refl _)
  · rw [← Program.wp_bind]
    exact wp_script_userpass fresh g₁ p₁

/-- A method list that cannot be parsed ends the process before anything is sent. -/
theorem wp_beginSocks5Relay_of_refused {Q : ℤ → World → Prop}
    (refused : w.globals.offered = none) (h : E .fatal w) : beginSocks5Relay.wp w Q E := by
  rw [beginSocks5Relay, Program.wp_bind]
  refine wp_offerMethods (fun _ => h) (fun methods offer => ?_) fun methods offer => ?_
  all_goals
    rw [refused] at offer
    cases offer

end Trace

/-! ### Methods -/

/-- What happened agrees with the methods that were offered. -/
structure Honours (methods : List UInt8) (events : List Event) : Prop where
  /-- The negotiation goes on only with a method that was offered. -/
  method : ∀ m, .method m ∈ events → m ∈ methods
  userpass : .userpass ∈ events → authUserpass ∈ methods
  /-- Packets that start with 1 are those of the user/password subnegotiation. -/
  credentials : ∀ packet, .packet packet ∈ events → packet.head? = some 1 →
    authUserpass ∈ methods

/-- Whatever the server does, with this configuration only offered methods are
used. -/
def MethodsHonoured (g : Globals) : Prop :=
  ∀ (w : World) (methods : List UInt8), w.globals = g → w.trace = [] →
    g.offered = some methods →
    beginSocks5Relay.wp w (fun _ w' => Honours methods w'.trace)
      (fun _ w' => Honours methods w'.trace)

/-- Every step of the script belongs to the method it was chosen for. -/
theorem honours_script {g : Globals} {methods : List UInt8} {m : UInt8}
    (noauth : authNoauth ∈ methods) (userpass : authUserpass ∈ methods) :
    Honours methods (script g methods m) where
  method m' used := by
    unfold script at used
    split_ifs at used with zero two
    · have : m' = m := by simpa using used
      rwa [this, zero]
    · have : m' = m := by
        split at used
        · simpa using used
        · simpa using used
      rwa [this, two]
    · simp at used
  userpass _ := userpass
  credentials _ _ _ := userpass

/-- **The offered list binds the negotiation exactly when it holds both methods
of the `switch`**; a list that leaves one out does not keep the server from
choosing it. -/
theorem methodsHonoured_iff (g : Globals) :
    MethodsHonoured g ↔
      ∀ methods, g.offered = some methods → authNoauth ∈ methods ∧ authUserpass ∈ methods := by
  constructor
  · intro honoured methods offer
    have used : ∀ m, m = authNoauth ∨ m = authUserpass → m ∈ methods := by
      intro m known
      have stream : (World.start g [5, m]).stream = [5, m] := rfl
      have sends : (World.start g [5, m]).Sends := List.not_mem_nil
      refine Program.wp_elim (honoured (World.start g [5, m]) methods rfl rfl offer)
        (wp_script rfl offer) (fun _ w' honours follows => ?_) fun _ w' honours follows => ?_
      · exact honours.method m (follows.chosen sends (Nat.le_refl 2) rfl known)
      · exact honours.method m (follows.1.chosen sends (Nat.le_refl 2) rfl known)
    exact ⟨used _ (Or.inl rfl), used _ (Or.inr rfl)⟩
  · rintro both w methods rfl fresh offer
    obtain ⟨noauth, userpass⟩ := both methods offer
    have honours : ∀ events, Follows w methods events → Honours methods events :=
      fun events follows => ⟨fun m used => (honours_script noauth userpass).method m
        (follows.part.subset used), fun _ => userpass, fun _ _ _ => userpass⟩
    exact Program.wp_mono (wp_script fresh offer) (fun _ w' => honours w'.trace)
      fun _ w' follows => honours w'.trace follows.1

/-- With `-a none` on the command line, a server that answers "user/password"
is sent the user name and the password. -/
theorem methodsHonoured_not_none :
    ¬ MethodsHonoured { Globals.initial with
      relayMethod := .socks, relayUser := some (text "u"), readpass := some (text "p"),
      socks5Auth := some (text "none") } := by
  intro honoured
  have ended : Honours [authNoauth] [.packet [5, 1, 0], .method 2, .userpass,
      .packet [1, 1, 117, 1, 112]] :=
    honoured (World.start _ [5, 2]) [authNoauth] rfl rfl (by decide)
  exact absurd (ended.userpass (by decide)) (by decide)

/-! ### Packets -/

/-- The packets of a dialogue. -/
inductive Stage
  | offer | credentials | connect
  deriving DecidableEq

/-- The destination, as an address field names it. -/
def Globals.Destination (g : Globals) : Address → Prop
  | .ipv4 a b c d => g.destAddr = ⟨a, b, c, d⟩ ∧ g.destAddr ≠ .any
  | .domain name _ => g.destAddr = .any ∧ name = g.destHost
  | .ipv6 _ _ => False

/-- A packet decodes to what the configuration says at this stage. -/
def Conveys (g : Globals) : Stage → Bytes → Prop
  | .offer, packet => ∃ methods, decodeOffer packet = some methods ∧ g.offered = some methods
  | .credentials, packet => ∃ c, Credentials.decode packet = some c ∧
      g.relayUser = some c.user ∧ g.password = some c.passwd
  | .connect, packet => ∃ m, Message.decode packet = some m ∧
      m.code = 1 ∧ g.Destination m.address ∧ m.port = g.destPort

/-- The packets sent are the start of a dialogue that conveys the configuration. -/
def Dialogue (g : Globals) (sent : List Bytes) : Prop :=
  ∃ stages : List Stage,
    (stages <+: [.offer, .connect] ∨ stages <+: [.offer, .credentials, .connect]) ∧
    List.Forall₂ (Conveys g) stages sent

/-- The layouts have room for the destination and the credentials. -/
structure Encodable (g : Globals) : Prop where
  host : g.destAddr = .any → g.destHost.length ≤ 255
  credentials : ∀ user pass, g.relayUser = some user → g.password = some pass →
    (1 ≤ user.length ∧ user.length ≤ 255) ∧ (1 ≤ pass.length ∧ pass.length ≤ 255)

/-- Whatever the server does: what is sent conveys the configuration, nothing is
sent of a configuration that cannot be encoded, and no packet outgrows its
buffer. -/
def PacketsSound (g : Globals) : Prop :=
  ∀ w : World, w.globals = g → w.trace = [] →
    beginSocks5Relay.wp w
      (fun _ w' => Dialogue g (packets w'.trace) ∧ (¬ Encodable g → packets w'.trace = []))
      (fun why w' => (Dialogue g (packets w'.trace) ∧
        (¬ Encodable g → packets w'.trace = [])) ∧ why ≠ .packetOverflow)

theorem conveys_offer {g : Globals} {methods : List UInt8} (offer : g.offered = some methods) :
    Conveys g .offer (offerPacket methods) := by
  obtain ⟨some_method, short⟩ := offered_length offer
  exact ⟨methods, decodeOffer_encodeOffer some_method (by omega), offer⟩

theorem conveys_credentials {g : Globals} {user pass : Bytes} (encodable : Encodable g)
    (user_of : g.relayUser = some user) (pass_of : g.password = some pass) :
    Conveys g .credentials (userpassPacket user pass) := by
  obtain ⟨user_length, pass_length⟩ := encodable.credentials user pass user_of pass_of
  let c : Credentials := ⟨user, pass, user_length, pass_length⟩
  exact ⟨c, c.decode_encode, user_of, pass_of⟩

/-- `PUT_BYTE ( dest_port>>8 )`, `PUT_BYTE ( dest_port&0xFF )` -/
theorem portBytes_eq (port : UInt16) :
    [(port >>> 8).toUInt8, (port &&& 0xFF).toUInt8] = portBytes port := by
  have low : ∀ n : ℕ, n &&& 255 = n % 256 := fun n => Nat.and_two_pow_sub_one_eq_mod n 8
  have high : (port >>> 8).toUInt8 = UInt8.ofNat (port.toNat / 256) := by
    apply UInt8.toNat_inj.mp
    simp [Nat.shiftRight_eq_div_pow]
  have rest : (port &&& 0xFF).toUInt8 = UInt8.ofNat (port.toNat % 256) := by
    apply UInt8.toNat_inj.mp
    simp [low]
  rw [high, rest, portBytes]

theorem conveys_connect {g : Globals} (encodable : Encodable g) :
    Conveys g .connect (connectPacket g) := by
  by_cases any : g.destAddr = .any
  · let m : Message := ⟨1, .domain g.destHost (encodable.host any), g.destPort⟩
    have same : connectPacket g = m.encode := by
      rw [connectPacket, if_pos any, portBytes_eq]
      rfl
    exact ⟨m, same ▸ m.decode_encode, rfl, ⟨any, rfl⟩, rfl⟩
  · let addr := g.destAddr
    let m : Message := ⟨1, .ipv4 addr.a addr.b addr.c addr.d, g.destPort⟩
    have same : connectPacket g = m.encode := by
      rw [connectPacket, if_neg any, portBytes_eq]
      rfl
    exact ⟨m, same ▸ m.decode_encode, rfl, ⟨rfl, any⟩, rfl⟩

/-- The start of a dialogue is a dialogue. -/
theorem dialogue_of_isPrefix {g : Globals} {sent sent' : List Bytes} (h : Dialogue g sent')
    (part : sent <+: sent') : Dialogue g sent := by
  obtain ⟨stages, shape, conveys⟩ := h
  refine ⟨stages.take sent.length, ?_, ?_⟩
  · have shorter := List.take_prefix sent.length stages
    exact shape.imp shorter.trans shorter.trans
  · rw [List.prefix_iff_eq_take.mp part, List.length_take_of_le part.length_le]
    exact List.forall₂_take sent.length conveys

/-- **The script conveys the configuration** when it can be encoded. -/
theorem dialogue_script {g : Globals} {methods : List UInt8} (m : UInt8)
    (offer : g.offered = some methods) (encodable : Encodable g) :
    Dialogue g (packets (script g methods m)) := by
  have first := conveys_offer offer
  have last := conveys_connect encodable
  unfold script
  split_ifs
  · exact ⟨[.offer, .connect], Or.inl (List.prefix_refl _), .cons first (.cons last .nil)⟩
  · cases user_of : g.relayUser with
    | none =>
        exact ⟨[.offer], Or.inl ⟨[.connect], rfl⟩, .cons first .nil⟩
    | some user =>
        cases pass_of : g.password with
        | none => exact ⟨[.offer], Or.inl ⟨[.connect], rfl⟩, .cons first .nil⟩
        | some pass =>
            exact ⟨[.offer, .credentials, .connect], Or.inr (List.prefix_refl _),
              .cons first (.cons (conveys_credentials encodable user_of pass_of)
                (.cons last .nil))⟩
  · exact ⟨[.offer], Or.inl ⟨[.connect], rfl⟩, .cons first .nil⟩

/-- The connect request is built even where it does not fit its buffer. -/
theorem wp_packetOverflow {g : Globals} {methods : List UInt8} (offer : g.offered = some methods)
    (large : 256 < (connectPacket g).length) :
    beginSocks5Relay.wp (World.start g [5, authNoauth]) (fun _ _ => False)
      (fun why _ => why = .packetOverflow) := by
  have sends : (World.start g [5, authNoauth]).Sends := List.not_mem_nil
  have stream : (World.start g [5, authNoauth]).stream = [5, authNoauth] ++ [] := rfl
  refine wp_beginSocks5Relay offer (fun _ _ dry => ?_) (fun v m w' other p => ?_)
    (fun w' same p => ?_) fun w' _ p => ?_
  · exact absurd (dry sends) (by rw [stream]; decide)
  · obtain ⟨rfl, rfl⟩ :=
      List.cons.inj (p.stream_of_eq stream rfl).1 |>.imp_right List.head_eq_of_cons_eq
    exact absurd other (by decide)
  · obtain rfl : w'.globals = g := same
    exact wp_requestConnect (fun _ => rfl) (fun fits => absurd large (Nat.not_lt.mpr fits))
      fun fits => absurd large (Nat.not_lt.mpr fits)
  · exact absurd (p.stream_of_eq stream rfl).1 (by decide)

theorem not_packetsSound_of_large {g : Globals} {methods : List UInt8}
    (offer : g.offered = some methods) (large : 256 < (connectPacket g).length) :
    ¬ PacketsSound g := fun sound =>
  Program.wp_elim (sound (World.start g [5, authNoauth]) rfl rfl) (wp_packetOverflow offer large)
    (fun _ _ _ never => never) fun _ _ held overflow => held.2 overflow

/-- **Exactly which configurations are sent soundly**: those whose method list
ends the process, and those with a host name of at most 249 bytes (or an
address) and with names and passwords of 1 to 255 bytes. -/
theorem packetsSound_iff (g : Globals) :
    PacketsSound g ↔ g.offered = none ∨
      ((g.destAddr = .any → g.destHost.length ≤ 249) ∧
        ∀ user pass, g.relayUser = some user → g.password = some pass →
          (1 ≤ user.length ∧ user.length ≤ 255) ∧ (1 ≤ pass.length ∧ pass.length ≤ 255)) := by
  constructor
  · intro sound
    cases offer : g.offered with
    | none => exact Or.inl rfl
    | some methods =>
        have run := sound (World.start g [5, authNoauth]) rfl rfl
        have encodable : Encodable g := by
          by_contra refused
          have sent : ∀ events, Follows (World.start g [5, authNoauth]) methods events →
              packets events ≠ [] := by
            intro events follows empty
            have mem : offerPacket methods ∈ packets events :=
              List.mem_filterMap.mpr ⟨_, follows.started, rfl⟩
            rw [empty] at mem
            cases mem
          exact Program.wp_elim run (wp_script rfl offer)
            (fun _ w' held follows => sent w'.trace follows (held.2 refused))
            fun _ w' held follows => sent w'.trace follows.1 (held.1.2 refused)
        refine Or.inr ⟨(connectPacket_length_le g).mp ?_, encodable.credentials⟩
        by_contra long
        exact not_packetsSound_of_large offer (Nat.lt_of_not_le long) sound
  · rintro cond w rfl fresh
    rcases offer : w.globals.offered with _ | methods
    · refine wp_beginSocks5Relay_of_refused offer ?_
      rw [fresh]
      exact ⟨⟨⟨[], Or.inl List.nil_prefix, .nil⟩, fun _ => rfl⟩, by decide⟩
    · obtain ⟨host, credentials⟩ := cond.resolve_left (by simp [offer])
      have encodable : Encodable w.globals := ⟨fun any => by have := host any; omega, credentials⟩
      have sound : ∀ events, Follows w methods events →
          Dialogue w.globals (packets events) ∧ (¬ Encodable w.globals → packets events = []) := by
        refine fun events follows => ⟨?_, absurd encodable⟩
        exact dialogue_of_isPrefix (dialogue_script _ offer encodable) (follows.part.filterMap _)
      refine Program.wp_mono (wp_script fresh offer) (fun _ w' follows => sound _ follows)
        fun why w' follows => ⟨sound _ follows.1, fun overflow => ?_⟩
      rcases follows.2 overflow with large | ⟨user, pass, user_of, pass_of, large⟩
      · exact absurd large (Nat.not_lt.mpr ((connectPacket_length_le _).mpr host))
      · have := credentials user pass user_of pass_of
        omega

/-- The request for a host name of 250 bytes is stored beyond its buffer. -/
theorem packetsSound_not_long_host :
    ¬ PacketsSound { Globals.initial with
      relayMethod := .socks, destHost := List.replicate 250 97, destPort := 22 } := by
  refine not_packetsSound_of_large (show _ = some [authNoauth, authUserpass] from rfl) ?_
  refine Nat.lt_of_not_le ((connectPacket_length_le _).not.mpr fun short => ?_)
  have length := short rfl
  rw [List.length_replicate] at length
  exact absurd length (by decide)

end MsysGit.Connect
