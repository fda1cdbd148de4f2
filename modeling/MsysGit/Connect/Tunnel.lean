import MsysGit.Connect.Delivery
import MsysGit.Connect.HttpResponse
import MsysGit.Connect.RepeaterClosing
import MsysGit.Connect.Socks5Reply

/-!
# From the negotiation to the end of the relaying

`main` hands the socket from the negotiation to `do_repeater`, with nothing in between: what
the negotiation has not read, the loop reads, and what the loop sends goes out behind the
request.  Here the loop of `Connect/Repeater` runs over the `World` of the negotiation, which
answers its system calls on the remote socket; the local side and `select` stay free.

The relay's answer has a grammar for each method (`Opens`).  What follows it is the payload,
and the local side gets the payload and nothing else.
-/

namespace MsysGit.Connect

open MsysGit.Library MsysGit.Library.CString MsysGit.Connect.Repeater

/-! ### The loop over the connection -/

/-- The relay loop with the connection that it runs over. -/
structure Tunnel where
  world : World
  relay : State

namespace Tunnel

/-- What a system call on the remote socket leaves of the connection; `none` if the
connection does not answer so.  After a read of nothing the loop asks for `ECONNRESET`. -/
def network (s : State) (a : Answer) (w : World) : Option World :=
  match s.pc with
  | .recvRemote =>
      if s.remoteReady && s.rbufLen < bufSize then
        match recv (bufSize - s.rbufLen) w with
        | .returned none w' => if a = .reset ∨ a = .failed then some w' else none
        | .returned (some []) w' => if a = .closed then some w' else none
        | .returned (some (b :: bytes)) w' => if a = .data (b :: bytes) then some w' else none
        | .halted _ _ => none
      else some w
  | .flushRemote =>
      if 0 < s.lbufLen then
        match send (s.lbuf.front s.lbufLen) w with
        | .returned none w' => if a = .failed then some w' else none
        | .returned (some len) w' => if a = .took len then some w' else none
        | .halted _ _ => none
      else some w
  | _ => some w

/-- One step of the loop, with the connection answering. -/
def step (cfg : Config) (x : Tunnel) (a : Answer) : Option Tunnel :=
  (Repeater.step cfg x.relay a).bind fun t => (network x.relay a x.world).map fun w => ⟨w, t⟩

/-- The step function as a transition relation. -/
def Step (cfg : Config) (x : Tunnel) (a : Answer) (y : Tunnel) : Prop := step cfg x a = some y

/-- Where `main` enters the loop. -/
def enter (w : World) (lbuf rbuf : Buffer UInt8 bufSize) : Tunnel := ⟨w, initial lbuf rbuf⟩

theorem Step.relay {cfg : Config} {x y : Tunnel} {a : Answer} (taken : Step cfg x a y) :
    Repeater.Step cfg x.relay a y.relay := by
  obtain ⟨t, stepped, joined⟩ := Option.bind_eq_some_iff.mp taken
  obtain ⟨w, -, rfl⟩ := Option.map_eq_some_iff.mp joined
  exact stepped

theorem Step.network {cfg : Config} {x y : Tunnel} {a : Answer} (taken : Step cfg x a y) :
    network x.relay a x.world = some y.world := by
  obtain ⟨t, -, joined⟩ := Option.bind_eq_some_iff.mp taken
  obtain ⟨w, answered, rfl⟩ := Option.map_eq_some_iff.mp joined
  exact answered

/-- A run of the loop over a connection is a run of the loop. -/
theorem relay_run {cfg : Config} {C : State → Answer → Prop} {x y : Tunnel}
    (run : RunOf (Step cfg) (fun x a => C x.relay a) x y) :
    RunOf (Repeater.Step cfg) C x.relay y.relay :=
  run.map Tunnel.relay (fun _ _ _ taken => taken.relay) fun _ _ cond => cond

/-! ### What the system calls do -/

theorem recv_eq (n : ℕ) (w : World) :
    recv n w = .returned
      (if (readChunk n w.incoming).1 = [] ∧ w.broken then none
        else some (readChunk n w.incoming).1)
      { w with incoming := (readChunk n w.incoming).2 } := rfl

/-- Where the loop reads from the remote socket: there is nothing left, and it is told so,
or it is given the front of the stream. -/
theorem network_recv {s : State} {a : Answer} {w w' : World} (at_ : s.pc = .recvRemote)
    (ready : (s.remoteReady && decide (s.rbufLen < bufSize)) = true)
    (answered : network s a w = some w') :
    w'.sent = w.sent ∧ ((w.stream = [] ∧ w'.stream = [] ∧
        (a = .closed ∨ a = .reset ∨ a = .failed)) ∨
      ∃ b bytes, a = .data (b :: bytes) ∧ b :: bytes ++ w'.stream = w.stream) := by
  have room : 0 < bufSize - s.rbufLen := by
    rw [Bool.and_eq_true, decide_eq_true_iff] at ready
    omega
  have whole := readChunk_append (bufSize - s.rbufLen) w.incoming
  have empty := readChunk_eq_nil room w.incoming
  simp only [network, at_, ready, if_true, recv_eq] at answered
  cases read : (readChunk (bufSize - s.rbufLen) w.incoming).1 with
  | nil =>
      rw [read, List.nil_append] at whole
      have ended : w.stream = [] := empty.mp read
      cases torn : w.broken with
      | true =>
          simp only [read, torn, and_self, if_true] at answered
          split at answered
          · rename_i which
            cases answered
            exact ⟨rfl, Or.inl ⟨ended, whole.trans ended, Or.inr which⟩⟩
          · cases answered
      | false =>
          simp only [read, torn, and_false, if_false, Bool.false_eq_true] at answered
          split at answered
          · rename_i which
            cases answered
            exact ⟨rfl, Or.inl ⟨ended, whole.trans ended, Or.inl which⟩⟩
          · cases answered
  | cons b bytes =>
      rw [read] at whole
      simp only [read, reduceCtorEq, false_and, if_false] at answered
      split at answered
      · rename_i which
        cases answered
        exact ⟨rfl, Or.inr ⟨b, bytes, which, whole⟩⟩
      · cases answered

/-- Where the loop sends to the remote socket: the call fails, or a front of the send buffer
goes out. -/
theorem network_send {s : State} {a : Answer} {w w' : World} (at_ : s.pc = .flushRemote)
    (some_left : 0 < s.lbufLen) (answered : network s a w = some w') :
    w'.stream = w.stream ∧ ((a = .failed ∧ w'.sent = w.sent) ∨
      ∃ len, a = .took len ∧ w'.sent = w.sent ++ s.lbuf.front len) := by
  have front_min (k : ℕ) : s.lbuf.front (min k (s.lbuf.front s.lbufLen).length) =
      (s.lbuf.front s.lbufLen).take k := by
    rw [Buffer.front, Buffer.front, List.length_take, List.take_take, ← min_assoc,
      ← List.take_eq_take_min]
  simp only [network, at_, some_left, if_true, send] at answered
  cases answers : w.accepts with
  | nil =>
      simp only [answers] at answered
      split at answered
      · rename_i which
        cases answered
        refine ⟨rfl, Or.inr ⟨_, which, congrArg (w.sent ++ ·) ?_⟩⟩
        show s.lbuf.front s.lbufLen = s.lbuf.front (s.lbuf.front s.lbufLen).length
        have all := front_min (s.lbuf.front s.lbufLen).length
        rw [min_self, List.take_length] at all
        exact all.symm
      · cases answered
  | cons answer rest =>
      cases answer with
      | none =>
          simp only [answers] at answered
          split at answered
          · rename_i which
            cases answered
            exact ⟨rfl, Or.inl ⟨which, rfl⟩⟩
          · cases answered
      | some k =>
          simp only [answers] at answered
          split at answered
          · rename_i which
            cases answered
            exact ⟨rfl, Or.inr ⟨_, which, congrArg (w.sent ++ ·) (front_min (k + 1)).symm⟩⟩
          · cases answered

/-! ### The joint -/

/-- What was received and what is still to come make up the stream the loop began with; what
the connection has sent is what it had sent then and what the loop has sent; and the loop
notes that the remote has closed only at the end of the stream. -/
structure Joined (w₀ : World) (x : Tunnel) : Prop where
  received : x.relay.received ++ x.world.stream = w₀.stream
  sent : x.world.sent = w₀.sent ++ x.relay.sent
  ended : x.relay.closeReason = .closedByRemote → x.world.stream = []

theorem joined_enter (w : World) (lbuf rbuf : Buffer UInt8 bufSize) :
    Joined w (enter w lbuf rbuf) where
  received := rfl
  sent := (List.append_nil _).symm
  ended := nofun

theorem Joined.recvRemote {w₀ : World} {x y : Tunnel} {a : Answer} (inv : Joined w₀ x)
    (at_ : x.relay.pc = .recvRemote) (taken : Repeater.recvRemote x.relay a = some y.relay)
    (answered : Tunnel.network x.relay a x.world = some y.world) : Joined w₀ y := by
  by_cases ready : (x.relay.remoteReady && decide (x.relay.rbufLen < bufSize)) = true
  · obtain ⟨sent, read⟩ := network_recv at_ ready answered
    simp only [Repeater.recvRemote, ready, if_true] at taken
    rcases read with ⟨before, after, which⟩ | ⟨b, bytes, rfl, whole⟩
    · have same : x.relay.received ++ y.world.stream = w₀.stream := by
        rw [after, ← before]
        exact inv.received
      rcases which with rfl | rfl | rfl
      · have reached := Option.some.inj taken
        exact ⟨by rw [← reached]; exact same, by rw [sent, inv.sent, ← reached], fun _ => after⟩
      · have reached := Option.some.inj taken
        exact ⟨by rw [← reached]; exact same, by rw [sent, inv.sent, ← reached], fun _ => after⟩
      · have reached := Option.some.inj taken
        exact ⟨by rw [← reached]; exact same, by rw [sent, inv.sent, ← reached], fun _ => after⟩
    · simp only at taken
      split at taken
      · have reached := Option.some.inj taken
        refine ⟨?_, by rw [sent, inv.sent, ← reached], fun closed => ?_⟩
        · rw [← reached, ← inv.received, ← whole]
          exact List.append_assoc _ _ _
        · -- After the end of the stream nothing more is read.
          rw [← reached] at closed
          rw [inv.ended closed] at whole
          cases whole
      · cases taken
  · have idle : y.world = x.world := by
      simp only [Tunnel.network, at_, ready, if_false, Bool.false_eq_true] at answered
      exact (Option.some.inj answered).symm
    simp only [Repeater.recvRemote, ready, if_false, Bool.false_eq_true] at taken
    split at taken
    · have reached := Option.some.inj taken
      exact ⟨by rw [idle, ← reached]; exact inv.received, by rw [idle, inv.sent, ← reached],
        by rw [idle, ← reached]; exact inv.ended⟩
    · cases taken

theorem Joined.flushRemote {w₀ : World} {x y : Tunnel} {a : Answer} (inv : Joined w₀ x)
    (at_ : x.relay.pc = .flushRemote) (taken : Repeater.flushRemote x.relay a = some y.relay)
    (answered : Tunnel.network x.relay a x.world = some y.world) : Joined w₀ y := by
  by_cases some_left : 0 < x.relay.lbufLen
  · obtain ⟨stream, sent⟩ := network_send at_ some_left answered
    simp only [Repeater.flushRemote, some_left, if_true] at taken
    rcases sent with ⟨rfl, same⟩ | ⟨len, rfl, more⟩
    · have reached := Option.some.inj taken
      exact ⟨by rw [stream, ← reached]; exact inv.received, by rw [same, inv.sent, ← reached],
        by rw [stream, ← reached]; exact inv.ended⟩
    · simp only at taken
      split at taken
      · have reached := Option.some.inj taken
        refine ⟨by rw [stream, ← reached]; exact inv.received, ?_,
          by rw [stream, ← reached]; exact inv.ended⟩
        rw [more, inv.sent, ← reached]
        exact List.append_assoc _ _ _
      · cases taken
  · have idle : y.world = x.world := by
      simp only [Tunnel.network, at_, some_left, if_false] at answered
      exact (Option.some.inj answered).symm
    simp only [Repeater.flushRemote, some_left, if_false] at taken
    split at taken
    · have reached := Option.some.inj taken
      exact ⟨by rw [idle, ← reached]; exact inv.received, by rw [idle, inv.sent, ← reached],
        by rw [idle, ← reached]; exact inv.ended⟩
    · cases taken

/-- A step that makes no call on the remote socket. -/
theorem Joined.quiet {w₀ : World} {x y : Tunnel} (inv : Joined w₀ x) (idle : y.world = x.world)
    (received : y.relay.received = x.relay.received) (sent : y.relay.sent = x.relay.sent)
    (reason : y.relay.closeReason = .closedByRemote → x.relay.closeReason = .closedByRemote) :
    Joined w₀ y where
  received := by
    rw [received, idle]
    exact inv.received
  sent := by rw [idle, inv.sent, sent]
  ended := by
    intro closed
    rw [idle]
    exact inv.ended (reason closed)

/-- **The step lemma.**  Every step keeps the loop and its connection joined. -/
theorem step_joined {cfg : Config} {w₀ : World} {x y : Tunnel} {a : Answer} (inv : Joined w₀ x)
    (taken : Step cfg x a y) : Joined w₀ y := by
  have answered := taken.network
  have stepped : Repeater.step cfg x.relay a = some y.relay := taken.relay
  unfold Repeater.step at stepped
  cases at_ : x.relay.pc with
  | top =>
      simp only [at_] at stepped
      have idle : y.world = x.world := by
        simp only [network, at_] at answered
        exact (Option.some.inj answered).symm
      rcases select_inv stepped with ⟨reached, -⟩ | reached | ⟨_, _, -, reached⟩
      · exact inv.quiet idle (by rw [reached]) (by rw [reached]) (by rw [reached]; exact id)
      · exact inv.quiet idle (by rw [reached]) (by rw [reached]) (by rw [reached]; exact id)
      · exact inv.quiet idle (by rw [reached]) (by rw [reached]) (by rw [reached]; exact id)
  | recvRemote =>
      simp only [at_] at stepped
      exact inv.recvRemote at_ stepped answered
  | readLocal =>
      simp only [at_] at stepped
      have idle : y.world = x.world := by
        simp only [network, at_] at answered
        exact (Option.some.inj answered).symm
      rcases readLocal_inv stepped with reached | ⟨-, -, reached⟩ | reached | reached |
        ⟨_, -, -, reached⟩
      · exact inv.quiet idle (by rw [reached]) (by rw [reached]) (by rw [reached]; exact id)
      · exact inv.quiet idle (by rw [reached]) (by rw [reached]) (by rw [reached]; exact nofun)
      · exact inv.quiet idle (by rw [reached]) (by rw [reached]) (by rw [reached]; exact nofun)
      · exact inv.quiet idle (by rw [reached]) (by rw [reached]) (by rw [reached]; exact id)
      · exact inv.quiet idle (by rw [reached]) (by rw [reached]) (by rw [reached]; exact id)
  | flushRemote =>
      simp only [at_] at stepped
      exact inv.flushRemote at_ stepped answered
  | flushLocal =>
      simp only [at_] at stepped
      have idle : y.world = x.world := by
        simp only [network, at_] at answered
        exact (Option.some.inj answered).symm
      rcases flushLocal_inv stepped with ⟨-, reached⟩ | reached | ⟨_, -, -, reached⟩
      · exact inv.quiet idle (by rw [reached]) (by rw [reached]) (by rw [reached]; exact id)
      · exact inv.quiet idle (by rw [reached]) (by rw [reached]) (by rw [reached]; exact id)
      · exact inv.quiet idle (by rw [reached]) (by rw [reached]) (by rw [reached]; exact id)
  | holdCheck =>
      simp only [at_] at stepped
      have idle : y.world = x.world := by
        simp only [network, at_] at answered
        exact (Option.some.inj answered).symm
      rcases holdCheck_inv stepped with ⟨-, -, reached⟩ | reached
      · exact inv.quiet idle (by rw [reached]) (by rw [reached]) (by rw [reached]; exact id)
      · exact inv.quiet idle (by rw [reached]) (by rw [reached]) (by rw [reached]; exact id)
  | returned reason =>
      simp only [at_, reduceCtorEq] at stepped
  | exited =>
      simp only [at_, reduceCtorEq] at stepped

/-- What a tunnel owes its two ends: the local side has got a prefix of the payload, and behind
the request a prefix of the local input has been sent; and when one side has closed, all of
what was meant for the other. -/
structure Delivers (request payload : Bytes) (x : Tunnel) : Prop where
  written : x.relay.written <+: payload
  sent : ∃ input, input <+: x.relay.readLocal ∧ x.world.sent = request ++ input
  closedByRemote : x.relay.pc = .returned .closedByRemote → x.relay.written = payload
  closedByLocal : x.relay.pc = .returned .closedByLocal →
    x.world.sent = request ++ x.relay.readLocal

/-- The runs of the loop over a connection whose last pass takes everything. -/
abbrev Run (cfg : Config) (x y : Tunnel) : Prop :=
  RunOf (Step cfg) (fun x a => TailTaken cfg x.relay a) x y

/-- At the end of the stream, all of it is written. -/
theorem written_of_closedByRemote {cfg : Config} {w₀ : World} {x : Tunnel} (joined : Joined w₀ x)
    (tail : TailInvariant cfg x.relay) (left : x.relay.pc = .returned .closedByRemote) :
    x.relay.written = w₀.stream := by
  rcases tail.returned _ left with error | ⟨reason, -⟩
  · cases error
  · have empty : x.relay.rbufLen = 0 := tail.flushed (by rw [left]; rfl) reason
    have whole := joined.received
    rw [joined.ended reason, List.append_nil] at whole
    exact (tail.remotePending.written_eq empty).trans whole

/-- At the end of the local input, all of it is sent. -/
theorem sent_of_closedByLocal {cfg : Config} {s : State} (tail : TailInvariant cfg s)
    (left : s.pc = .returned .closedByLocal) : s.sent = s.readLocal := by
  rcases tail.returned _ left with error | ⟨reason, ended⟩
  · cases error
  · have empty : s.lbufLen = 0 :=
      tail.drained (by rw [left]; nofun) (by rw [left]; nofun) ⟨reason, Or.inl ended⟩
    exact tail.localPending.sent_eq empty

/-- **The run lemma.**  Whatever the negotiation has left, such a run delivers. -/
theorem delivers_of_run {cfg : Config} {w₀ : World} {lbuf rbuf : Buffer UInt8 bufSize}
    {x : Tunnel} (run : Run cfg (enter w₀ lbuf rbuf) x) : Delivers w₀.sent w₀.stream x := by
  have joined : Joined w₀ x :=
    run.invariant (Joined w₀) (joined_enter w₀ lbuf rbuf)
      fun _ _ _ inv _ taken => step_joined inv taken
  have tail : TailInvariant cfg x.relay :=
    (relay_run run).invariant (TailInvariant cfg) (initial_tailInvariant cfg lbuf rbuf)
      fun _ _ _ inv clean taken => step_tailInvariant inv clean taken
  have received : x.relay.received <+: w₀.stream := ⟨_, joined.received⟩
  refine ⟨?_, ?_, fun left => ?_, fun left => ?_⟩
  · exact List.IsPrefix.trans ⟨_, tail.remotePending.pending.symm⟩ received
  · exact ⟨x.relay.sent, ⟨_, tail.localPending.pending.symm⟩, joined.sent⟩
  · exact written_of_closedByRemote joined tail left
  · rw [joined.sent, sent_of_closedByLocal tail left]

end Tunnel

/-! ### The answers of the relays -/

/-- `main` goes on to the relay loop with this value. -/
def Negotiation.goesOn : Negotiation → ℤ → Prop
  | .socks5, r | .socks4, r | .telnet _ _ _ _, r => ¬ r < 0
  | .http _ _, r => r = startOk

/-- The relay lets the client through, with an answer that fits the client's buffers, and
`payload` follows its answer. -/
inductive Opens : Negotiation → World → Bytes → Prop
  /-- A method without or with a password, and a reply of success. -/
  | socks5 {w : World} {payload : Bytes} {m : UInt8} {reply : Rfc1928.Message}
      (accepts : Accepts w m reply payload) (fits : FitsBuffers w.globals m reply) :
      Opens .socks5 w payload
  /-- Eight bytes, of which the second one says that the request is granted. -/
  | socks4 {w : World} {payload user : Bytes} {version : UInt8} {details : Bytes} (sends : w.Sends)
      (user_of : w.globals.relayUser = some user)
      (fits : (socks4Packet w.globals user).length ≤ 256) (six : details.length = 6)
      (stream : w.stream = version :: socks4RepSucceeded :: details ++ payload) :
      Opens .socks4 w payload
  /-- A response with status 200. -/
  | http {w : World} {payload : Bytes} {fuel : ℕ} {buf : LineBuffer} (r : Response) (fits : r.Fits)
      (sent : RequestSent w) (enough : w.stream.length < fuel)
      (stream : w.stream = r.bytes ++ payload) : Opens (.http fuel buf) w payload
  /-- Lines up to the first one that says that the destination is connected. -/
  | telnet {w : World} {payload telnetCommand : Bytes} {memory : ∀ n, Buffer UInt8 n} {fuel : ℕ}
      {buf : LineBuffer} (clean : 0 ∉ telnetCommand) (clean_host : 0 ∉ w.globals.destHost)
      (writable : Writable telnetCommand w.globals) (agrees : Agrees w)
      (enough : w.stream.length < fuel) (connected : Connected w payload) :
      Opens (.telnet telnetCommand memory fuel buf) w payload

theorem wp_beginSocks4Relay_granted {w : World} {payload user : Bytes} {version : UInt8}
    {details : Bytes} (sends : w.Sends) (user_of : w.globals.relayUser = some user)
    (fits : (socks4Packet w.globals user).length ≤ 256) (six : details.length = 6)
    (stream : w.stream = version :: socks4RepSucceeded :: details ++ payload) :
    beginSocks4Relay.wp w (fun r w' => r = 0 ∧ w'.stream = payload) (fun _ _ => False) := by
  simp only [beginSocks4Relay, globals, Program.wp_bind, Program.wp_read, user_of]
  refine wp_inside (fun _ => ?_) fun large => absurd fits (Nat.not_le_of_lt large)
  refine wp_atomicOut (fun w₁ _ p₁ => ?_) fun _ _ fails => absurd sends fails
  have front : w₁.stream = (version :: socks4RepSucceeded :: details) ++ payload := by
    rw [← stream, ← p₁.stream]
    rfl
  refine wp_atomicIn_front front (by simp [six]) (fun _ w₂ _ _ left => ?_) fun out => ?_
  · exact ⟨rfl, left⟩
  · exact absurd out (by decide)

/-- The negotiation goes on to the loop, with exactly the payload left. -/
theorem Opens.begins {n : Negotiation} {w : World} {payload : Bytes} (opens : Opens n w payload) :
    ∃ r w₀, n.begin w = .returned r w₀ ∧ n.goesOn r ∧ w₀.stream = payload := by
  cases opens with
  | socks5 accepts fits =>
      have arrives : Arrives w payload := (Program.wp_iff_of (wp_accepted accepts)).mpr fits
      obtain ⟨r, w₀, ended, rfl, left⟩ := Program.exists_returned arrives
      exact ⟨0, w₀, ended, Int.lt_irrefl 0, left⟩
  | socks4 sends user_of fits six stream =>
      obtain ⟨r, w₀, ended, rfl, left⟩ := Program.exists_returned
        (wp_beginSocks4Relay_granted sends user_of fits six stream)
      exact ⟨0, w₀, ended, Int.lt_irrefl 0, left⟩
  | http r fits sent enough stream =>
      rename_i fuel buf
      have connects : (beginHttpRelay fuel buf).wp w
          (fun x w' => x = startOk ∧ w'.stream = payload) (fun _ _ => False) :=
        (Program.wp_iff_of (wp_beginHttpRelay_response enough sent stream)).mpr fits
      obtain ⟨x, w₀, ended, ok, left⟩ := Program.exists_returned connects
      exact ⟨x, w₀, ended, ok, left⟩
  | telnet clean clean_host writable agrees enough connected =>
      rename_i telnetCommand memory fuel buf
      obtain ⟨r, w₀, ended, told⟩ := Program.exists_returned
        (agrees.tells clean clean_host writable memory fuel buf enough)
      have ok := told.1.mpr ⟨payload, connected⟩
      obtain ⟨line, first, -⟩ := told.2 ok
      obtain ⟨line', first', -⟩ := connected
      rw [first, Option.some.injEq, Prod.mk.injEq] at first'
      exact ⟨r, w₀, ended, by rw [ok]; exact Int.lt_irrefl 0, first'.2⟩

/-- A SOCKS4 relay that grants the request, in pieces, and the first bytes of the payload. -/
def World.granting : World :=
  { socks4World ⟨10, 0, 0, 1⟩ "h" with incoming := [[0, 90, 0], [22, 10, 0, 0, 1, 83], [83, 72]] }

end MsysGit.Connect
