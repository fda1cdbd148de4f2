import MsysGit.Connect.Tunnel

/-!
# One connection, one client after the other

With `-P` and `-L`, the end of a local client does not end the relaying.  `do_repeater`
closes the local socket and returns, and `main` waits at its port for the next client
and enters the loop again, over the same connection.  The two buffers are variables of
`do_repeater`: each client starts with empty ones, and what is left in them at its end is
gone.

`accept_connection` opens a listening socket each time and never closes it; `listening`
counts them.  While it waits it watches `stdin`, and gives up when `getchar` returns 0 or
less.
-/

namespace MsysGit.Connect.HeldSessions

open MsysGit.Library MsysGit.Connect.Repeater

/-! ### The code -/

/-- Where `main` stands. -/
inductive Stage
  /-- In `do_repeater`. -/
  | relaying (relay : State)
  /-- `accept_connection` is called. -/
  | opening
  /-- In its loop around `select`. -/
  | waiting
  /-- Before `accept`. -/
  | accepting
  /-- `main` has returned 0; this is how the last loop ended. -/
  | finished (relay : State)
  /-- The process has ended otherwise. -/
  | exited

/-- What one client has exchanged. -/
structure Client where
  readLocal : List UInt8
  sent : List UInt8
  received : List UInt8
  written : List UInt8

/-- The client of a loop, from the histories of the four descriptors. -/
def Client.of (s : State) : Client := ⟨s.readLocal, s.sent, s.received, s.written⟩

/-- What happens next, as far as it is not decided. -/
inductive Happening
  /-- A step of `do_repeater`. -/
  | relay (a : Answer)
  /-- What `main` does behind `do_repeater`. -/
  | behind
  /-- `socket`, `bind` and `listen` succeed, or one of them fails. -/
  | opened (ok : Bool)
  | selectFailed
  /-- `select` returns, or times out: what `getchar` finds if `stdin` is ready (`none` is the end
  of the file), and whether a client is there. -/
  | ready (stdin : Option (Option UInt8)) (client : Bool)
  /-- `accept` succeeds; the stack holds these bytes. -/
  | accepted (lbuf rbuf : Buffer UInt8 bufSize)
  | acceptFailed

/-- The state of `main` from the label `do_repeater` on. -/
structure Main where
  stage : Stage
  world : World
  /-- The clients that have ended. -/
  past : List Client
  listening : ℕ

/-- `getchar() <= 0` -/
def givesUp (stdin : Option (Option UInt8)) : Bool :=
  match stdin with
  | none => false
  | some none => true
  | some (some c) => c = 0

/-- What `main` does when `do_repeater` has returned. -/
def behind (cfg : Config) (x : Main) (s : State) : Option Main :=
  match s.pc with
  | .returned reason =>
      if cfg.localSocket ∧ reason = .closedByLocal ∧ cfg.holdSession then
        some { x with stage := .opening, past := x.past ++ [.of s] }
      else some { x with stage := .finished s }
  | _ => none

/-- `accept_connection` -/
def acceptConnection (x : Main) (h : Happening) : Option Main :=
  match x.stage, h with
  | .opening, .opened true => some { x with stage := .waiting, listening := x.listening + 1 }
  | .opening, .opened false => some { x with stage := .exited }
  | .waiting, .selectFailed => some { x with stage := .exited }
  | .waiting, .ready stdin client =>
      some { x with
        stage := if givesUp stdin then .exited else if client then .accepting else .waiting }
  | .accepting, .accepted lbuf rbuf => some { x with stage := .relaying (initial lbuf rbuf) }
  | .accepting, .acceptFailed => some { x with stage := .exited }
  | _, _ => none

/-- One step of `main`. -/
def step (cfg : Config) (x : Main) (h : Happening) : Option Main :=
  match x.stage with
  | .relaying s =>
      match h with
      | .relay a => (Tunnel.step cfg ⟨x.world, s⟩ a).map fun y =>
          { x with stage := .relaying y.relay, world := y.world }
      | .behind => behind cfg x s
      | _ => none
  | _ => acceptConnection x h

/-- The step function as a transition relation. -/
def Step (cfg : Config) (x : Main) (h : Happening) (y : Main) : Prop := step cfg x h = some y

/-- The first client has been accepted, and the negotiation has left `w`. -/
def start (w : World) (lbuf rbuf : Buffer UInt8 bufSize) : Main where
  stage := .relaying (initial lbuf rbuf)
  world := w
  past := []
  listening := 1

/-- The last pass for each client takes everything. -/
def TailsTaken (cfg : Config) (x : Main) (h : Happening) : Prop :=
  match x.stage, h with
  | .relaying s, .relay a => TailTaken cfg s a
  | _, _ => True

instance (cfg : Config) (x : Main) (h : Happening) : Decidable (TailsTaken cfg x h) := by
  unfold TailsTaken
  split <;> infer_instance

/-! ### What is kept -/

/-- What a client that has ended has left: everything it sent has gone out, and of what was
received for it at most a buffer is lost. -/
structure Client.Settled (c : Client) : Prop where
  sent : c.sent = c.readLocal
  lost : ∃ lost, c.received = c.written ++ lost ∧ lost.length ≤ bufSize

/-- The connection as the current loop found it, or as it is between two loops: the clients so
far have sent their inputs one after the other, and have received the front of the stream. -/
structure Handed (w₀ : World) (past : List Client) (w : World) : Prop where
  sent : w.sent = w₀.sent ++ (past.map Client.readLocal).flatten
  stream : (past.map Client.received).flatten ++ w.stream = w₀.stream
  settled : ∀ c ∈ past, c.Settled

/-- A loop in its session. -/
structure Relays (cfg : Config) (w₀ : World) (x : Main) (s : State) : Prop where
  handed : ∃ w, Handed w₀ x.past w ∧ Tunnel.Joined w ⟨x.world, s⟩
  tail : TailInvariant cfg s
  /-- The remote socket has not been half-closed. -/
  whole : s.remoteShut = false
  listening : x.listening = x.past.length + 1

/-- The invariant of `main`. -/
def Kept (cfg : Config) (w₀ : World) (x : Main) : Prop :=
  match x.stage with
  | .relaying s | .finished s => Relays cfg w₀ x s
  | .opening => Handed w₀ x.past x.world ∧ x.listening = x.past.length
  | .waiting | .accepting => Handed w₀ x.past x.world ∧ x.listening = x.past.length + 1
  | .exited => Handed w₀ x.past x.world ∧
      (x.listening = x.past.length ∨ x.listening = x.past.length + 1)

theorem kept_start (cfg : Config) (w₀ : World) (lbuf rbuf : Buffer UInt8 bufSize) :
    Kept cfg w₀ (start w₀ lbuf rbuf) where
  handed := by
    refine ⟨w₀, ⟨(List.append_nil _).symm, rfl, fun c none => ?_⟩, Tunnel.joined_enter _ _ _⟩
    exact absurd none List.not_mem_nil
  tail := initial_tailInvariant cfg lbuf rbuf
  whole := rfl
  listening := rfl

/-- With `-P` no step half-closes the remote socket. -/
theorem step_whole {cfg : Config} {s t : State} {a : Answer} (held : cfg.holdSession = true)
    (whole : s.remoteShut = false) (taken : Repeater.Step cfg s a t) : t.remoteShut = false := by
  unfold Repeater.Step Repeater.step at taken
  split at taken
  · rcases select_inv taken with ⟨rfl, -⟩ | rfl | ⟨_, _, -, rfl⟩ <;> exact whole
  · rcases recvRemote_inv taken with rfl | rfl | rfl | ⟨_, -, rfl⟩ <;> exact whole
  · rcases readLocal_inv taken with rfl | ⟨-, -, rfl⟩ | rfl | rfl | ⟨_, -, -, rfl⟩
    · exact whole
    · show (s.remoteShut || !cfg.holdSession) = false
      rw [whole, held]
      rfl
    · exact whole
    · exact whole
    · exact whole
  · rcases flushRemote_inv taken with ⟨-, rfl⟩ | rfl | ⟨_, -, -, rfl⟩ <;> exact whole
  · rcases flushLocal_inv taken with ⟨-, rfl⟩ | rfl | ⟨_, -, -, rfl⟩ <;> exact whole
  · rcases holdCheck_inv taken with ⟨-, -, rfl⟩ | rfl <;> exact whole
  · cases taken
  · cases taken

/-- A step of the loop stays in its session. -/
theorem Relays.step {cfg : Config} {w₀ : World} {x : Main} {s : State} {a : Answer} {y : Tunnel}
    (held : cfg.holdSession = true) (inv : Relays cfg w₀ x s) (clean : TailTaken cfg s a)
    (taken : Tunnel.Step cfg ⟨x.world, s⟩ a y) :
    Relays cfg w₀ { x with stage := .relaying y.relay, world := y.world } y.relay where
  handed := by
    obtain ⟨w, handed, joined⟩ := inv.handed
    exact ⟨w, handed, Tunnel.step_joined joined taken⟩
  tail := step_tailInvariant inv.tail clean taken.relay
  whole := step_whole held inv.whole taken.relay
  listening := inv.listening

/-- When a client has ended, the connection is handed on. -/
theorem Relays.hand {cfg : Config} {w₀ : World} {x : Main} {s : State}
    (inv : Relays cfg w₀ x s) (left : s.pc = .returned .closedByLocal) :
    Handed w₀ (x.past ++ [.of s]) x.world := by
  obtain ⟨w, handed, joined⟩ := inv.handed
  have sent : s.sent = s.readLocal := Tunnel.sent_of_closedByLocal inv.tail left
  have world_sent : x.world.sent = w.sent ++ s.sent := joined.sent
  have stream : s.received ++ x.world.stream = w.stream := joined.received
  refine ⟨?_, ?_, fun c inside => ?_⟩
  · rw [world_sent, handed.sent, sent, List.map_append, List.flatten_append, List.append_assoc]
    simp [Client.of]
  · rw [← handed.stream, ← stream, List.map_append, List.flatten_append]
    simp [Client.of]
  · rcases List.mem_append.mp inside with before | last
    · exact handed.settled c before
    · obtain rfl := List.mem_singleton.mp last
      refine ⟨sent, s.rbuf.front s.rbufLen, inv.tail.remotePending.pending, ?_⟩
      rw [Buffer.front, List.length_take]
      exact le_trans (Nat.min_le_left _ _) inv.tail.remotePending.fits

/-- **The step lemma.** -/
theorem step_kept {cfg : Config} {w₀ : World} {x y : Main} {h : Happening}
    (held : cfg.holdSession = true) (inv : Kept cfg w₀ x) (clean : TailsTaken cfg x h)
    (taken : Step cfg x h y) : Kept cfg w₀ y := by
  unfold Step step at taken
  unfold Kept at inv
  split at taken
  · rename_i s at_
    rw [at_] at inv
    split at taken
    · obtain ⟨z, stepped, rfl⟩ := Option.map_eq_some_iff.mp taken
      rename_i a
      have clean : TailTaken cfg s a := by simpa only [TailsTaken, at_] using clean
      exact inv.step held clean stepped
    · unfold behind at taken
      split at taken
      · rename_i reason left
        split at taken
        · rename_i again
          obtain ⟨-, rfl, -⟩ := again
          cases taken
          refine ⟨inv.hand left, ?_⟩
          show x.listening = (x.past ++ [Client.of s]).length
          rw [inv.listening, List.length_append, List.length_singleton]
        · cases taken
          exact ⟨inv.handed, inv.tail, inv.whole, inv.listening⟩
      · cases taken
    · cases taken
  · unfold acceptConnection at taken
    split at taken
    · rename_i at_
      rw [at_] at inv
      cases taken
      exact ⟨inv.1, congrArg (· + 1) inv.2⟩
    · rename_i at_
      rw [at_] at inv
      cases taken
      exact ⟨inv.1, Or.inl inv.2⟩
    · rename_i at_
      rw [at_] at inv
      cases taken
      exact ⟨inv.1, Or.inr inv.2⟩
    · rename_i stdin client at_
      rw [at_] at inv
      cases taken
      unfold Kept
      dsimp only
      cases givesUp stdin with
      | true => exact ⟨inv.1, Or.inr inv.2⟩
      | false =>
          cases client with
          | true => exact inv
          | false => exact inv
    · rename_i lbuf rbuf at_
      rw [at_] at inv
      cases taken
      exact ⟨⟨x.world, inv.1, Tunnel.joined_enter _ _ _⟩, initial_tailInvariant cfg lbuf rbuf, rfl,
        inv.2⟩
    · rename_i at_
      rw [at_] at inv
      cases taken
      exact ⟨inv.1, Or.inr inv.2⟩
    · cases taken

/-! ### The clients and the connection -/

/-- The client that is being served, or was served last. -/
def Main.current (x : Main) : Client :=
  match x.stage with
  | .relaying s | .finished s => .of s
  | _ => ⟨[], [], [], []⟩

/-- What the clients of a held connection can rely on. -/
structure Main.Serves (w₀ : World) (x : Main) : Prop where
  /-- Behind the request, the inputs of the clients so far, and a prefix of the current one's. -/
  sent : x.world.sent =
    w₀.sent ++ (x.past.map Client.readLocal).flatten ++ x.current.sent
  inputs : x.current.sent <+: x.current.readLocal
  /-- The clients share the stream out among them, in order. -/
  stream : (x.past.map Client.received).flatten ++ x.current.received ++ x.world.stream = w₀.stream
  /-- A client gets what has arrived for it, but for a last buffer. -/
  written : ∀ c ∈ x.past ++ [x.current], ∃ lost, c.received = c.written ++ lost ∧
    lost.length ≤ bufSize
  /-- The connection stays open for writing. -/
  whole : ∀ s, x.stage = .relaying s → s.remoteShut = false
  /-- Each client has cost a socket. -/
  listening : x.past.length ≤ x.listening

theorem Relays.serves {cfg : Config} {w₀ : World} {x : Main} {s : State}
    (inv : Relays cfg w₀ x s) (current : x.current = .of s)
    (only : ∀ t, x.stage = .relaying t → t = s) : x.Serves w₀ := by
  obtain ⟨w, handed, joined⟩ := inv.handed
  have world_sent : x.world.sent = w.sent ++ s.sent := joined.sent
  have stream : s.received ++ x.world.stream = w.stream := joined.received
  refine ⟨?_, ?_, ?_, fun c inside => ?_, fun t at_ => ?_, ?_⟩
  · rw [current, world_sent, handed.sent]
    rfl
  · rw [current]
    exact ⟨_, inv.tail.localPending.pending.symm⟩
  · rw [current, ← handed.stream, ← stream]
    exact List.append_assoc _ _ _
  · rcases List.mem_append.mp inside with before | last
    · exact (handed.settled c before).lost
    · rw [List.mem_singleton.mp last, current]
      refine ⟨s.rbuf.front s.rbufLen, inv.tail.remotePending.pending, ?_⟩
      rw [Buffer.front, List.length_take]
      exact le_trans (Nat.min_le_left _ _) inv.tail.remotePending.fits
  · rw [only t at_]
    exact inv.whole
  · rw [inv.listening]
    exact Nat.le_succ _

theorem Handed.serves {w₀ : World} {x : Main} (handed : Handed w₀ x.past x.world)
    (current : x.current = ⟨[], [], [], []⟩) (idle : ∀ s, x.stage ≠ .relaying s)
    (listening : x.past.length ≤ x.listening) : x.Serves w₀ := by
  refine ⟨?_, ?_, ?_, fun c inside => ?_, fun s at_ => absurd at_ (idle s), listening⟩
  · rw [current, handed.sent]
    exact (List.append_nil _).symm
  · rw [current]
  · rw [current, ← handed.stream]
    exact congrArg (· ++ x.world.stream) (List.append_nil _)
  · rcases List.mem_append.mp inside with before | last
    · exact (handed.settled c before).lost
    · rw [List.mem_singleton.mp last, current]
      exact ⟨[], rfl, Nat.zero_le _⟩

/-- **A held connection serves its clients.**  With `-P`, in every state of every run in which
each client's last pass takes everything, the relay has got the inputs of all clients one
after the other, each client has got what arrived in its time but for at most a buffer, and
the connection has not been half-closed. -/
theorem serves_of_run {cfg : Config} (held : cfg.holdSession = true) {w₀ : World}
    {lbuf rbuf : Buffer UInt8 bufSize} {x : Main}
    (run : RunOf (Step cfg) (TailsTaken cfg) (start w₀ lbuf rbuf) x) : x.Serves w₀ := by
  have inv : Kept cfg w₀ x :=
    run.invariant (Kept cfg w₀) (kept_start cfg w₀ lbuf rbuf)
      fun _ _ _ inv clean taken => step_kept held inv clean taken
  unfold Kept at inv
  cases at_ : x.stage with
  | relaying s =>
      rw [at_] at inv
      refine Relays.serves inv (by rw [Main.current, at_]) fun t same => ?_
      rw [at_] at same
      exact (Stage.relaying.inj same).symm
  | finished s =>
      rw [at_] at inv
      refine Relays.serves inv (by rw [Main.current, at_]) fun t same => ?_
      rw [at_] at same
      cases same
  | opening =>
      rw [at_] at inv
      exact inv.1.serves (by rw [Main.current, at_]) (by rw [at_]; exact fun _ => Stage.noConfusion)
        inv.2.ge
  | waiting =>
      rw [at_] at inv
      exact inv.1.serves (by rw [Main.current, at_]) (by rw [at_]; exact fun _ => Stage.noConfusion)
        (by rw [inv.2]; exact Nat.le_succ _)
  | accepting =>
      rw [at_] at inv
      exact inv.1.serves (by rw [Main.current, at_]) (by rw [at_]; exact fun _ => Stage.noConfusion)
        (by rw [inv.2]; exact Nat.le_succ _)
  | exited =>
      rw [at_] at inv
      exact inv.1.serves (by rw [Main.current, at_]) (by rw [at_]; exact fun _ => Stage.noConfusion)
        (inv.2.elim (fun same => same.ge) fun more => by rw [more]; exact Nat.le_succ _)

/-- A client sends two bytes and ends; what the server says reaches the next one. -/
def secondClient : List Happening :=
  [.relay (.selected false true false), .relay .skip, .relay (.data [1, 2]), .relay (.took 2),
   .relay .skip, .relay .skip, .relay (.selected false true false), .relay .skip,
   .relay .closed, .relay .skip, .relay .skip, .relay .skip, .behind, .opened true,
   .ready (some (some 10)) false, .ready none true,
   .accepted (Buffer.filled 0 bufSize) (Buffer.filled 0 bufSize),
   .relay (.selected true false false), .relay (.data [83, 83, 72]), .relay .skip, .relay .skip,
   .relay (.took 3)]

theorem serves_secondClient :
    ∃ x : Main, x.past.length = 1 ∧ x.current.written = [83, 83, 72] ∧ x.world.sent = [1, 2] ∧
      x.Serves (.start .initial [83, 83, 72]) := by
  let cfg : Config := ⟨true, true, false⟩
  let begun := start (.start .initial [83, 83, 72]) (Buffer.filled 0 bufSize)
    (Buffer.filled 0 bufSize)
  obtain ⟨x, performed, past, written, sent⟩ :
      ∃ x, perform (step cfg) (TailsTaken cfg) begun secondClient = some x ∧
        x.past.length = 1 ∧ x.current.written = [83, 83, 72] ∧ x.world.sent = [1, 2] :=
    ⟨_, rfl, rfl, rfl, rfl⟩
  exact ⟨x, past, written, sent, serves_of_run rfl (RunOf.of_perform _ RunOf.refl performed)⟩

end MsysGit.Connect.HeldSessions
