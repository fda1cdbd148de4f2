import MsysGit.Library.ChunkedStream
import MsysGit.Library.Program
import MsysGit.Connect.Globals

/-!
# Sockets, and the input and output routines of `connect`

The relay negotiations of `connect.c` are straight-line programs over one
connected socket.  They are written here as `Program`s over a `World`: the global
variables, the network, and a record of what was done.

* The network delivers `incoming` in pieces of its own choice, then closes the
  connection, or breaks it (`broken`).
* Each `send` takes as many bytes as `accepts` says, or fails.
* `fatal` ends the process.  A store outside the buffer it is meant for is
  undefined behaviour; the model stops there.

`World.trace` lists the packets handed to `atomic_out` and the decisions of the
SOCKS5 negotiation, in order; the code has no such variable.
-/

namespace MsysGit.Connect

open MsysGit.Library

/-- What a negotiation has done so far. -/
inductive Event
  /-- `atomic_out` is called with this packet. -/
  | packet (bytes : Bytes)
  /-- The SOCKS5 negotiation goes on with this authentication method. -/
  | method (m : UInt8)
  /-- `socks5_do_auth_userpass` is called. -/
  | userpass
  deriving DecidableEq

/-- The state a negotiation runs in. -/
structure World where
  globals : Globals
  /-- The pieces the network will deliver. -/
  incoming : List Bytes
  /-- After the last piece `recv` fails, instead of reporting end of stream. -/
  broken : Bool
  /-- How the next `send` calls fare: `none` fails, `some k` takes at most `k + 1`
  bytes.  Calls beyond the list take everything. -/
  accepts : List (Option ℕ)
  sent : Bytes
  trace : List Event

/-- A connection over which the server sends `bytes` and then closes. -/
def World.start (g : Globals) (bytes : Bytes) : World where
  globals := g
  incoming := [bytes]
  broken := false
  accepts := []
  sent := []
  trace := []

namespace World

/-- The bytes the peer has yet to deliver. -/
def stream (w : World) : Bytes := w.incoming.flatten

/-- No `send` fails. -/
def Sends (w : World) : Prop := none ∉ w.accepts

end World

/-- The packets among some events, in order. -/
def packets (events : List Event) : List Bytes :=
  events.filterMap fun
    | .packet bytes => some bytes
    | _ => none

/-- From `w` to `w'` the bytes `taken` were read, `events` happened, and the
packets among them are on the wire. -/
structure Progress (w w' : World) (taken : Bytes) (events : List Event) : Prop where
  stream : taken ++ w'.stream = w.stream
  trace : w'.trace = w.trace ++ events
  sent : w'.sent = w.sent ++ (packets events).flatten
  sends : w.Sends → w'.Sends

namespace Progress

variable {w w' w'' : World} {taken taken' : Bytes} {events events' : List Event}

theorem trans (h : Progress w w' taken events) (h' : Progress w' w'' taken' events') :
    Progress w w'' (taken ++ taken') (events ++ events') where
  stream := by rw [List.append_assoc, h'.stream, h.stream]
  trace := by rw [h'.trace, h.trace, List.append_assoc]
  sent := by
    rw [h'.sent, h.sent, List.append_assoc]
    simp [packets]
  sends := h'.sends ∘ h.sends

/-- What is left of a stream whose front is known. -/
theorem stream_of_eq {front rest : Bytes} (h : Progress w w' taken events)
    (split : w.stream = front ++ rest) (len : taken.length = front.length) :
    taken = front ∧ w'.stream = rest :=
  List.append_inj (h.stream.trans split) len

end Progress

/-- Why a negotiation stopped without returning. -/
inductive Halt
  /-- `fatal` was called. -/
  | fatal
  /-- A packet was built beyond the end of its buffer. -/
  | packetOverflow
  /-- `atomic_in` stored beyond the end of its buffer. -/
  | recvOverflow
  /-- A null pointer was followed. -/
  | nullPointer
  /-- The fuel of a loop ran out: the loop is still running. -/
  | running
  deriving DecidableEq

/-- A computation over the world. -/
abbrev Io := Program World Halt

/-- `fatal`: report and leave the process. -/
def fatal {α : Type} : Io α := Program.halt .fatal

/-- Record an event. -/
def emit (e : Event) : Io Unit := Program.update fun w => { w with trace := w.trace ++ [e] }

/-- Read the global variables. -/
def globals : Io Globals := Program.read World.globals

/-- Change the global variables. -/
def modifyGlobals (f : Globals → Globals) : Io Unit :=
  Program.update fun w => { w with globals := f w.globals }

/-! ### `send`, `recv` and the loops around them -/

/-- `send`: the number of bytes taken, `none` for `SOCKET_ERROR`. -/
def send (buf : Bytes) : Io (Option ℕ) := fun w =>
  match w.accepts with
  | [] => .returned (some buf.length) { w with sent := w.sent ++ buf }
  | none :: rest => .returned none { w with accepts := rest }
  | some k :: rest =>
      .returned (some (min (k + 1) buf.length))
        { w with accepts := rest, sent := w.sent ++ buf.take (k + 1) }

/-- `recv` of at most `size` bytes: `some []` is end of stream, `none` is
`SOCKET_ERROR`. -/
def recv (size : ℕ) : Io (Option Bytes) := fun w =>
  let (bytes, rest) := readChunk size w.incoming
  .returned (if bytes = [] ∧ w.broken then none else some bytes) { w with incoming := rest }

/-- The loop of `atomic_out`; `fuel` is the number of bytes still to send. -/
def atomicOutLoop : ℕ → Bytes → Io Unit
  | 0, _ => pure ()
  | fuel + 1, buf =>
      if buf = [] then pure ()
      else do
        match ← send buf with
        | none => fatal
        | some len => atomicOutLoop fuel (buf.drop len)

/-- Send a whole packet. -/
def atomicOut (buf : Bytes) : Io ℕ := do
  emit (.packet buf)
  atomicOutLoop buf.length buf
  pure buf.length

/-- The loop of `atomic_in`: `size` bytes still to read, to be stored from
offset `off` of a buffer of `cap` bytes. -/
def atomicInLoop (cap : ℕ) : ℕ → ℕ → ℕ → Io Bytes
  | 0, _, _ => pure []
  | fuel + 1, off, size =>
      if size = 0 then pure []
      else do
        match ← recv size with
        | none => fatal
        | some [] => fatal
        | some (b :: bytes) =>
            let len := (b :: bytes).length
            -- The source does not compare with the size of the buffer.
            if off + len ≤ cap then do
              let rest ← atomicInLoop cap fuel (off + len) (size - len)
              pure (b :: bytes ++ rest)
            else Program.halt .recvOverflow

/-- Read exactly `size` bytes into a buffer of `cap` bytes, from offset `off` on;
the result is what was stored. -/
def atomicIn (cap off size : ℕ) : Io Bytes := atomicInLoop cap size off size

/-! ### What they do -/

section Spec

variable {w : World} {E : Halt → World → Prop}

/-- `send` fails, or takes some of the bytes it is given. -/
theorem wp_send {Q : Option ℕ → World → Prop} {buf : Bytes}
    (failed : w.accepts.head? = some none → Q none { w with accepts := w.accepts.tail })
    (took : w.accepts.head? ≠ some none → ∀ len, (buf ≠ [] → 0 < len) → len ≤ buf.length →
      Q (some len) { w with accepts := w.accepts.tail, sent := w.sent ++ buf.take len }) :
    (send buf).wp w Q E := by
  cases answers : w.accepts with
  | nil =>
      have got : send buf w = .returned (some buf.length)
          { w with accepts := w.accepts.tail, sent := w.sent ++ buf.take buf.length } := by
        simp [send, answers]
      exact Program.wp_of_returned got
        (took (by simp [answers]) _ List.length_pos_iff.mpr (Nat.le_refl _))
  | cons answer rest =>
      cases answer with
      | none =>
          have got : send buf w = .returned none { w with accepts := w.accepts.tail } := by
            simp [send, answers]
          exact Program.wp_of_returned got (failed (by simp [answers]))
      | some k =>
          have got : send buf w = .returned (some (min (k + 1) buf.length))
              { w with
                accepts := w.accepts.tail
                sent := w.sent ++ buf.take (min (k + 1) buf.length) } := by
            simp [send, answers, ← List.take_eq_take_min]
          refine Program.wp_of_returned got (took (by simp [answers]) _ (fun some_left => ?_)
            (Nat.min_le_right _ _))
          have := List.length_pos_iff.mpr some_left
          omega

theorem sends_iff {w : World} : w.Sends ↔ w.accepts.head? ≠ some none ∧ none ∉ w.accepts.tail := by
  unfold World.Sends
  cases w.accepts with
  | nil => simp
  | cons answer rest => simp [eq_comm]

/-- Sending puts exactly the remaining bytes on the wire, or ends the process. -/
theorem wp_atomicOutLoop {Q : Unit → World → Prop} (fuel : ℕ) :
    ∀ (buf : Bytes) (w : World), buf.length ≤ fuel →
      (∀ accepts, (w.Sends → none ∉ accepts) →
        Q () { w with accepts := accepts, sent := w.sent ++ buf }) →
      (¬ w.Sends → ∀ accepts sent, E .fatal { w with accepts := accepts, sent := sent }) →
      (atomicOutLoop fuel buf).wp w Q E := by
  induction fuel with
  | zero =>
      intro buf w short ok _
      obtain rfl : buf = [] := List.length_eq_zero_iff.mp (Nat.le_zero.mp short)
      simpa [atomicOutLoop] using ok w.accepts fun sends => sends
  | succ fuel ih =>
      intro buf w short ok bad
      by_cases empty : buf = []
      · subst empty
        simpa [atomicOutLoop] using ok w.accepts fun sends => sends
      · rw [atomicOutLoop, if_neg empty, Program.wp_bind]
        refine wp_send (fun failed => ?_) fun takes len positive le => ?_
        · exact bad (fun sends => (sends_iff.mp sends).1 failed) w.accepts.tail w.sent
        · have shorter : (buf.drop len).length ≤ fuel := by
            have := positive empty
            rw [List.length_drop]
            omega
          refine ih _ _ shorter (fun accepts sends => ?_) fun fails accepts sent => ?_
          · have whole := ok accepts fun able => sends (sends_iff.mp able).2
            simpa [List.append_assoc] using whole
          · exact bad (fun able => fails (sends_iff.mp able).2) accepts sent

/-- **Sending a packet.**  `atomic_out` returns only once the whole packet is on
the wire, and ends the process only when a `send` failed. -/
theorem wp_atomicOut {Q : ℕ → World → Prop} {buf : Bytes}
    (ok : ∀ w', w'.globals = w.globals → Progress w w' [] [.packet buf] → Q buf.length w')
    (bad : ∀ w', w'.trace = w.trace ++ [.packet buf] → ¬ w.Sends → E .fatal w') :
    (atomicOut buf).wp w Q E := by
  simp only [atomicOut, emit, Program.wp_bind, Program.wp_update, Program.wp_pure]
  refine wp_atomicOutLoop buf.length buf _ (Nat.le_refl _) (fun accepts sends => ?_)
    fun fails accepts sent => ?_
  · exact ok _ rfl ⟨rfl, rfl, by simp [packets], sends⟩
  · exact bad _ rfl fails

/-- `recv` takes a piece off the front of the stream.  At its end there is nothing, or
an error when the connection is torn. -/
theorem wp_recv {Q : Option Bytes → World → Prop} {size : ℕ} (positive : 0 < size)
    (ended : w.stream = [] → w.broken = false → ∀ chunks, chunks.flatten = [] →
      Q (some []) { w with incoming := chunks })
    (failed : w.stream = [] → w.broken = true → ∀ chunks, Q none { w with incoming := chunks })
    (piece : ∀ b bytes chunks, (b :: bytes).length ≤ size →
      b :: bytes ++ chunks.flatten = w.stream →
      Q (some (b :: bytes)) { w with incoming := chunks }) :
    (recv size).wp w Q E := by
  have whole := readChunk_append size w.incoming
  have bound := readChunk_length_le size w.incoming
  have ends := readChunk_eq_nil positive w.incoming
  cases read : (readChunk size w.incoming).1 with
  | nil =>
      have empty : w.stream = [] := ends.mp read
      rw [read, List.nil_append] at whole
      cases torn : w.broken with
      | false =>
          have got : recv size w = .returned (some [])
              { w with incoming := (readChunk size w.incoming).2 } := by
            simp [recv, read, torn]
          exact Program.wp_of_returned got (ended empty torn _ (whole.trans empty))
      | true =>
          have got : recv size w = .returned none
              { w with incoming := (readChunk size w.incoming).2 } := by
            simp [recv, read, torn]
          exact Program.wp_of_returned got (failed empty torn _)
  | cons b bytes =>
      have got : recv size w = .returned (some (b :: bytes))
          { w with incoming := (readChunk size w.incoming).2 } := by
        simp [recv, read]
      rw [read] at whole bound
      exact Program.wp_of_returned got (piece b bytes _ bound whole)

theorem wp_atomicInLoop (cap fuel : ℕ) :
    ∀ (Q : Bytes → World → Prop) (off size : ℕ) (w : World), size ≤ fuel →
      (∀ bytes chunks, bytes.length = size → bytes ++ chunks.flatten = w.stream →
        (0 < size → off + size ≤ cap) → Q bytes { w with incoming := chunks }) →
      (∀ chunks, cap < off + size → E .recvOverflow { w with incoming := chunks }) →
      (∀ chunks, w.stream.length < size → E .fatal { w with incoming := chunks }) →
      (atomicInLoop cap fuel off size).wp w Q E := by
  induction fuel with
  | zero =>
      intro Q off size w short ok _ _
      obtain rfl : size = 0 := Nat.le_zero.mp short
      exact ok [] w.incoming rfl rfl (by omega)
  | succ fuel ih =>
      intro Q off size w short ok out dry
      by_cases none_left : size = 0
      · subst none_left
        exact ok [] w.incoming rfl rfl (by omega)
      have positive := Nat.pos_of_ne_zero none_left
      rw [atomicInLoop, if_neg none_left, Program.wp_bind]
      -- The end of the stream is fatal here, like an error.
      refine wp_recv positive (fun empty _ chunks _ => ?_) (fun empty _ chunks => ?_)
        fun b bytes chunks bound whole => ?_
      · exact dry chunks (by rw [empty]; exact positive)
      · exact dry chunks (by rw [empty]; exact positive)
      · dsimp only
        by_cases inside : off + (b :: bytes).length ≤ cap
        · rw [if_pos inside, Program.wp_bind]
          have some_read : 0 < (b :: bytes).length := Nat.succ_pos _
          refine ih _ _ _ _ (by omega) ?_ ?_ ?_
          · intro rest chunks' len split fits
            refine ok (b :: bytes ++ rest) chunks' ?_ ?_ fun _ => ?_
            · rw [List.length_append, len, Nat.add_sub_cancel' bound]
            · rw [List.append_assoc, split]
              exact whole
            · by_cases more : 0 < size - (b :: bytes).length
              · have := fits more
                omega
              · omega
          · exact fun chunks' out_of => out chunks' (by omega)
          · intro chunks' short_of
            refine dry chunks' ?_
            rw [← whole, List.length_append]
            replace short_of : chunks.flatten.length < size - (b :: bytes).length := short_of
            omega
        · rw [if_neg inside]
          exact out _ (by omega)

/-- **Reading a fixed number of bytes.**  `atomic_in` returns the next `size`
bytes of the stream, stores outside the buffer, or finds the stream too short. -/
theorem wp_atomicIn {Q : Bytes → World → Prop} {cap off size : ℕ}
    (ok : ∀ bytes w', bytes.length = size → (0 < size → off + size ≤ cap) →
      w'.globals = w.globals → Progress w w' bytes [] → Q bytes w')
    (out : ∀ w', w'.trace = w.trace → cap < off + size → E .recvOverflow w')
    (dry : ∀ w', w'.trace = w.trace → w.stream.length < size → E .fatal w') :
    (atomicIn cap off size).wp w Q E := by
  refine wp_atomicInLoop cap size Q off size w (Nat.le_refl _)
    (fun bytes chunks len split fits => ?_)
    (fun chunks => out _ rfl) fun chunks => dry _ rfl
  exact ok bytes _ len fits rfl ⟨split, by simp, by simp [packets], id⟩

/-- Reading when the next bytes of the stream are known. -/
theorem wp_atomicIn_front {Q : Bytes → World → Prop} {cap off size : ℕ} {front rest : Bytes}
    (stream : w.stream = front ++ rest) (whole : front.length = size)
    (ok : (0 < size → off + size ≤ cap) → ∀ w', w'.globals = w.globals →
      Progress w w' front [] → w'.stream = rest → Q front w')
    (out : cap < off + size → ∀ w', E .recvOverflow w') : (atomicIn cap off size).wp w Q E := by
  refine wp_atomicIn (fun bytes w' len fits same p => ?_) (fun w' _ large => out large w')
    fun w' _ dry => ?_
  · obtain ⟨rfl, left⟩ := p.stream_of_eq stream (len.trans whole.symm)
    exact ok fits w' same p left
  · rw [stream, List.length_append] at dry
    omega

end Spec

end MsysGit.Connect
