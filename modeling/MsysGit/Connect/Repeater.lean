import MsysGit.Library.Buffer
import MsysGit.Library.Transition
import Mathlib.Data.List.Infix

/-!
# The relay loop of `connect`

`do_repeater` copies bytes both ways between the local side (standard handles or
an accepted socket) and the remote socket.  One pass of its loop is a `select`
followed by four guarded system calls:

* `remote => local`: `recv` behind the bytes already in `rbuf`;
* `local => remote`: `recv`/`read` behind the bytes already in `lbuf`;
* flush `lbuf` to the socket with one `send`, flush `rbuf` to the local output
  with one `send`/`write`, each followed by a compaction of what is left.

The loop is a state machine with one state per program point, so that "at every
moment" means every reachable state and not only the ends of passes.  The
operating system is the environment: each step consumes one `Answer`, and
`step` refuses an answer the system call cannot give (more bytes than were
asked for, an empty read that is not an end of stream).

`received`, `written`, `readLocal`, `sent` and `remoteShut` record what has
crossed the four descriptors; the code has no such variables.

## The two compactions

After a short `send` to the socket the rest of `lbuf` is always moved to the
front.  After a short write to the local output it is moved only when the
number of bytes *written* is less than the number of bytes *left*
(`if ( len < rbuf_len )`), so a write of at least half the buffer, but not all
of it, leaves the bytes already written at the front.
-/

namespace MsysGit.Connect.Repeater

open MsysGit.Library

/-- `sizeof(lbuf)` and `sizeof(rbuf)`. -/
abbrev bufSize : ℕ := 1024

/-- What the command line and the platform decide before the loop starts. -/
structure Config where
  /-- `local_type == LOCAL_SOCKET` -/
  localSocket : Bool
  /-- `f_hold_session` -/
  holdSession : Bool
  /-- compiled with `_WIN32` -/
  win32 : Bool
  deriving DecidableEq

/-- `REASON_UNK` and the other values of `close_reason`. -/
inductive Reason
  | unk | error | closedByLocal | closedByRemote
  deriving DecidableEq

/-- Where the loop stands.  `exited` is a call of `fatal`. -/
inductive Pc
  | top | recvRemote | readLocal | flushRemote | flushLocal | holdCheck
  | returned (reason : Reason) | exited
  deriving DecidableEq

/-- What the system calls of one step answer. -/
inductive Answer
  /-- `select` succeeded: the descriptors found readable, and `stdindatalen`. -/
  | selected (remoteIn localIn stdin : Bool)
  | selectFailed
  /-- `recv` or `read` returned 0. -/
  | closed
  /-- `recv` returned -1 with `ECONNRESET`. -/
  | reset
  /-- The call returned -1. -/
  | failed
  /-- `recv` or `read` stored these bytes. -/
  | data (bytes : List UInt8)
  /-- `send` or `write` accepted this many bytes. -/
  | took (n : ℕ)
  /-- No system call is made. -/
  | skip
  deriving DecidableEq

/-- The variables of `do_repeater`, with the history of the four descriptors. -/
structure State where
  pc : Pc
  lbuf : Buffer UInt8 bufSize
  lbufLen : ℕ
  fLocal : Bool
  rbuf : Buffer UInt8 bufSize
  rbufLen : ℕ
  fRemote : Bool
  closeReason : Reason
  /-- `FD_ISSET(local_in, &ifds)` after `select`. -/
  localReady : Bool
  /-- `FD_ISSET(remote, &ifds)` after `select`. -/
  remoteReady : Bool
  received : List UInt8
  written : List UInt8
  readLocal : List UInt8
  sent : List UInt8
  /-- `shutdown(remote, 1)` has been called. -/
  remoteShut : Bool

/-- The loop is entered with empty buffers of arbitrary content. -/
def initial (lbuf rbuf : Buffer UInt8 bufSize) : State where
  pc := .top
  lbuf := lbuf
  lbufLen := 0
  fLocal := true
  rbuf := rbuf
  rbufLen := 0
  fRemote := true
  closeReason := .unk
  localReady := false
  remoteReady := false
  received := []
  written := []
  readLocal := []
  sent := []
  remoteShut := false

/-- The loop test, and the `select` of one pass. -/
def select (cfg : Config) (s : State) : Answer → Option State
  | .skip =>
      if s.fLocal || s.fRemote then none
      else some { s with pc := .returned s.closeReason }
  | .selectFailed =>
      if s.fLocal || s.fRemote then some { s with pc := .returned .error } else none
  | .selected remoteIn localIn stdin =>
      if s.fLocal || s.fRemote then
        -- Winsock cannot select on a standard handle: there the descriptor is
        -- left out of the set and faked from `stdindatalen` afterwards.
        let fake := cfg.win32 && !cfg.localSocket
        some { s with
          pc := .recvRemote
          remoteReady := remoteIn && (s.fRemote && s.rbufLen < bufSize)
          localReady := (localIn && (s.fLocal && s.lbufLen < bufSize && !fake))
            || (fake && s.fLocal && stdin) }
      else none
  | _ => none

/-- `remote => local`. -/
def recvRemote (s : State) (a : Answer) : Option State :=
  if s.remoteReady && s.rbufLen < bufSize then
    match a with
    | .closed | .reset =>
        some { s with
          pc := .readLocal, closeReason := .closedByRemote, fRemote := false, fLocal := false }
    | .failed => some { s with pc := .exited }
    | .data bytes =>
        if bytes ≠ [] ∧ s.rbufLen + bytes.length ≤ bufSize then
          some { s with
            pc := .readLocal
            rbuf := s.rbuf.store s.rbufLen bytes
            rbufLen := s.rbufLen + bytes.length
            received := s.received ++ bytes }
        else none
    | _ => none
  else if a = .skip then some { s with pc := .readLocal } else none

/-- `local => remote`. -/
def readLocal (cfg : Config) (s : State) (a : Answer) : Option State :=
  if s.localReady && s.lbufLen < bufSize then
    match a with
    | .closed =>
        some { s with
          pc := .flushRemote
          remoteShut := s.remoteShut || !cfg.holdSession
          fLocal := false
          closeReason := .closedByLocal }
    | .failed =>
        if cfg.holdSession then
          some { s with pc := .flushRemote, fLocal := false, closeReason := .closedByLocal }
        else some { s with pc := .exited }
    | .data bytes =>
        if bytes ≠ [] ∧ s.lbufLen + bytes.length ≤ bufSize then
          some { s with
            pc := .flushRemote
            lbuf := s.lbuf.store s.lbufLen bytes
            lbufLen := s.lbufLen + bytes.length
            readLocal := s.readLocal ++ bytes }
        else none
    | _ => none
  else if a = .skip then some { s with pc := .flushRemote } else none

/-- Flush data in buffer to socket. -/
def flushRemote (s : State) (a : Answer) : Option State :=
  if 0 < s.lbufLen then
    match a with
    | .failed => some { s with pc := .exited }
    | .took len =>
        if len ≤ s.lbufLen then
          let left := s.lbufLen - len
          some { s with
            pc := .flushLocal
            lbufLen := left
            lbuf := if 0 < len ∧ 0 < left then s.lbuf.memcpy 0 len left else s.lbuf
            sent := s.sent ++ s.lbuf.front len }
        else none
    | _ => none
  else if a = .skip then some { s with pc := .flushLocal } else none

/-- Flush data in buffer to local output. -/
def flushLocal (s : State) (a : Answer) : Option State :=
  if 0 < s.rbufLen then
    match a with
    | .failed => some { s with pc := .exited }
    | .took len =>
        if len ≤ s.rbufLen then
          let left := s.rbufLen - len
          some { s with
            pc := .holdCheck
            rbufLen := left
            -- The test is `len < rbuf_len`, with `rbuf_len` already reduced.
            rbuf := if len < left then s.rbuf.memcpy 0 len left else s.rbuf
            written := s.written ++ s.rbuf.front len }
        else none
    | _ => none
  else if a = .skip then some { s with pc := .holdCheck } else none

/-- The end of a pass: with `-P` an ended local side leaves the loop. -/
def holdCheck (cfg : Config) (s : State) : Answer → Option State
  | .skip =>
      if !s.fLocal && cfg.holdSession then
        some { s with pc := .returned s.closeReason, fRemote := false }
      else some { s with pc := .top }
  | _ => none

/-- One step of `do_repeater`. -/
def step (cfg : Config) (s : State) (a : Answer) : Option State :=
  match s.pc with
  | .top => select cfg s a
  | .recvRemote => recvRemote s a
  | .readLocal => readLocal cfg s a
  | .flushRemote => flushRemote s a
  | .flushLocal => flushLocal s a
  | .holdCheck => holdCheck cfg s a
  | .returned _ => none
  | .exited => none

/-- The step function as a transition relation. -/
def Step (cfg : Config) (s : State) (a : Answer) (t : State) : Prop :=
  step cfg s a = some t

/-! ## What each step can do

One inversion lemma for each program point; the invariants below and those of
the local half are read off these. -/

theorem select_inv {cfg : Config} {s t : State} {a : Answer} (taken : select cfg s a = some t) :
    (t = { s with pc := .returned s.closeReason } ∧ s.fLocal = false ∧ s.fRemote = false) ∨
      t = { s with pc := .returned .error } ∨
      ∃ remoteReady localReady : Bool, (s.fLocal = false → localReady = false) ∧
        t = { s with pc := .recvRemote, remoteReady := remoteReady, localReady := localReady } := by
  unfold select at taken
  split at taken
  · split at taken
    · cases taken
    · rename_i ended
      cases taken
      rw [Bool.or_eq_true, not_or, Bool.not_eq_true, Bool.not_eq_true] at ended
      exact Or.inl ⟨rfl, ended.1, ended.2⟩
  · split at taken
    · cases taken
      exact Or.inr (Or.inl rfl)
    · cases taken
  · split at taken
    · cases taken
      refine Or.inr (Or.inr ⟨_, _, fun ended => ?_, rfl⟩)
      simp [ended]
    · cases taken
  · cases taken

theorem recvRemote_inv {s t : State} {a : Answer} (taken : recvRemote s a = some t) :
    t = { s with pc := .readLocal } ∨
      t = { s with
        pc := .readLocal, closeReason := .closedByRemote, fRemote := false, fLocal := false } ∨
      t = { s with pc := .exited } ∨
      ∃ bytes : List UInt8, s.rbufLen + bytes.length ≤ bufSize ∧
        t = { s with
          pc := .readLocal
          rbuf := s.rbuf.store s.rbufLen bytes
          rbufLen := s.rbufLen + bytes.length
          received := s.received ++ bytes } := by
  unfold recvRemote at taken
  split at taken
  · split at taken
    · cases taken
      exact Or.inr (Or.inl rfl)
    · cases taken
      exact Or.inr (Or.inl rfl)
    · cases taken
      exact Or.inr (Or.inr (Or.inl rfl))
    · split at taken
      · rename_i bytes allowed
        cases taken
        exact Or.inr (Or.inr (Or.inr ⟨bytes, allowed.2, rfl⟩))
      · cases taken
    · cases taken
  · split at taken
    · cases taken
      exact Or.inl rfl
    · cases taken

theorem readLocal_inv {cfg : Config} {s t : State} {a : Answer}
    (taken : readLocal cfg s a = some t) :
    t = { s with pc := .flushRemote } ∨
      (a = .closed ∧ s.localReady = true ∧
        t = { s with
          pc := .flushRemote
          remoteShut := s.remoteShut || !cfg.holdSession
          fLocal := false
          closeReason := .closedByLocal }) ∨
      t = { s with pc := .flushRemote, fLocal := false, closeReason := .closedByLocal } ∨
      t = { s with pc := .exited } ∨
      ∃ bytes : List UInt8, s.localReady = true ∧ s.lbufLen + bytes.length ≤ bufSize ∧
        t = { s with
          pc := .flushRemote
          lbuf := s.lbuf.store s.lbufLen bytes
          lbufLen := s.lbufLen + bytes.length
          readLocal := s.readLocal ++ bytes } := by
  unfold readLocal at taken
  split at taken
  · rename_i ready
    rw [Bool.and_eq_true] at ready
    split at taken
    · cases taken
      exact Or.inr (Or.inl ⟨rfl, ready.1, rfl⟩)
    · split at taken
      · cases taken
        exact Or.inr (Or.inr (Or.inl rfl))
      · cases taken
        exact Or.inr (Or.inr (Or.inr (Or.inl rfl)))
    · split at taken
      · rename_i bytes allowed
        cases taken
        exact Or.inr (Or.inr (Or.inr (Or.inr ⟨bytes, ready.1, allowed.2, rfl⟩)))
      · cases taken
    · cases taken
  · split at taken
    · cases taken
      exact Or.inl rfl
    · cases taken

theorem flushRemote_inv {s t : State} {a : Answer} (taken : flushRemote s a = some t) :
    (s.lbufLen = 0 ∧ t = { s with pc := .flushLocal }) ∨
      t = { s with pc := .exited } ∨
      ∃ len : ℕ, a = .took len ∧ len ≤ s.lbufLen ∧
        t = { s with
          pc := .flushLocal
          lbufLen := s.lbufLen - len
          lbuf := if 0 < len ∧ 0 < s.lbufLen - len then
            s.lbuf.memcpy 0 len (s.lbufLen - len) else s.lbuf
          sent := s.sent ++ s.lbuf.front len } := by
  unfold flushRemote at taken
  split at taken
  · split at taken
    · cases taken
      exact Or.inr (Or.inl rfl)
    · split at taken
      · rename_i len allowed
        cases taken
        exact Or.inr (Or.inr ⟨len, rfl, allowed, rfl⟩)
      · cases taken
    · cases taken
  · rename_i empty
    split at taken
    · cases taken
      exact Or.inl ⟨Nat.eq_zero_of_not_pos empty, rfl⟩
    · cases taken

theorem flushLocal_inv {s t : State} {a : Answer} (taken : flushLocal s a = some t) :
    (s.rbufLen = 0 ∧ t = { s with pc := .holdCheck }) ∨
      t = { s with pc := .exited } ∨
      ∃ len : ℕ, a = .took len ∧ len ≤ s.rbufLen ∧
        t = { s with
          pc := .holdCheck
          rbufLen := s.rbufLen - len
          rbuf := if len < s.rbufLen - len then
            s.rbuf.memcpy 0 len (s.rbufLen - len) else s.rbuf
          written := s.written ++ s.rbuf.front len } := by
  unfold flushLocal at taken
  split at taken
  · split at taken
    · cases taken
      exact Or.inr (Or.inl rfl)
    · split at taken
      · rename_i len allowed
        cases taken
        exact Or.inr (Or.inr ⟨len, rfl, allowed, rfl⟩)
      · cases taken
    · cases taken
  · rename_i empty
    split at taken
    · cases taken
      exact Or.inl ⟨Nat.eq_zero_of_not_pos empty, rfl⟩
    · cases taken

theorem holdCheck_inv {cfg : Config} {s t : State} {a : Answer}
    (taken : holdCheck cfg s a = some t) :
    (s.fLocal = false ∧ cfg.holdSession = true ∧
        t = { s with pc := .returned s.closeReason, fRemote := false }) ∨
      t = { s with pc := .top } := by
  unfold holdCheck at taken
  split at taken
  · split at taken
    · rename_i held
      rw [Bool.and_eq_true, Bool.not_eq_true'] at held
      cases taken
      exact Or.inl ⟨held.1, held.2, rfl⟩
    · cases taken
      exact Or.inr rfl
  · cases taken

/-! ## The remote half of the state

Only `recvRemote` and `flushLocal` touch the receive buffer and its history;
every other step leaves the four components below alone. -/

/-- The receive buffer together with the history of its two descriptors. -/
structure RemoteHalf where
  rbuf : Buffer UInt8 bufSize
  rbufLen : ℕ
  received : List UInt8
  written : List UInt8

/-- The remote half of a state. -/
def State.remoteHalf (s : State) : RemoteHalf :=
  ⟨s.rbuf, s.rbufLen, s.received, s.written⟩

theorem select_remoteHalf {cfg : Config} {s t : State} {a : Answer}
    (taken : select cfg s a = some t) : t.remoteHalf = s.remoteHalf := by
  rcases select_inv taken with ⟨rfl, -⟩ | rfl | ⟨_, _, -, rfl⟩ <;> rfl

theorem readLocal_remoteHalf {cfg : Config} {s t : State} {a : Answer}
    (taken : readLocal cfg s a = some t) : t.remoteHalf = s.remoteHalf := by
  rcases readLocal_inv taken with rfl | ⟨-, -, rfl⟩ | rfl | rfl | ⟨_, -, -, rfl⟩ <;> rfl

theorem flushRemote_remoteHalf {s t : State} {a : Answer}
    (taken : flushRemote s a = some t) : t.remoteHalf = s.remoteHalf := by
  rcases flushRemote_inv taken with ⟨-, rfl⟩ | rfl | ⟨_, -, -, rfl⟩ <;> rfl

theorem holdCheck_remoteHalf {cfg : Config} {s t : State} {a : Answer}
    (taken : holdCheck cfg s a = some t) : t.remoteHalf = s.remoteHalf := by
  rcases holdCheck_inv taken with ⟨-, -, rfl⟩ | rfl <;> rfl

/-- What `recvRemote` does to the remote half: nothing, or it appends the bytes
received to the buffer and to the history. -/
theorem recvRemote_cases {s t : State} {a : Answer} (taken : recvRemote s a = some t) :
    t.remoteHalf = s.remoteHalf ∨
      ∃ bytes : List UInt8, s.rbufLen + bytes.length ≤ bufSize ∧
        t.remoteHalf = ⟨s.rbuf.store s.rbufLen bytes, s.rbufLen + bytes.length,
          s.received ++ bytes, s.written⟩ := by
  rcases recvRemote_inv taken with rfl | rfl | rfl | ⟨bytes, fits, rfl⟩
  · exact Or.inl rfl
  · exact Or.inl rfl
  · exact Or.inl rfl
  · exact Or.inr ⟨bytes, fits, rfl⟩

/-- What `flushLocal` does to the remote half: nothing, or it hands `len` bytes
of the front to the local output and keeps the rest — moved to the front only
when `len` is less than what is left. -/
theorem flushLocal_cases {s t : State} {a : Answer} (taken : flushLocal s a = some t) :
    t.remoteHalf = s.remoteHalf ∨
      ∃ len : ℕ, a = .took len ∧ len ≤ s.rbufLen ∧
        t.remoteHalf = ⟨if len < s.rbufLen - len then
            s.rbuf.memcpy 0 len (s.rbufLen - len) else s.rbuf,
          s.rbufLen - len, s.received, s.written ++ s.rbuf.front len⟩ := by
  rcases flushLocal_inv taken with ⟨-, rfl⟩ | rfl | ⟨len, answer, allowed, rfl⟩
  · exact Or.inl rfl
  · exact Or.inl rfl
  · exact Or.inr ⟨len, answer, allowed, rfl⟩

/-! ## Nothing lost, repeated or substituted -/

/-- **The write takes the whole receive buffer or less than half of it.**  This
is the condition, on the state before the step and the amount the local output
accepts, under which the compaction test of `do_repeater` does no harm. -/
def WholeOrLessThanHalf (s : State) : Answer → Prop
  | .took len => s.pc = .flushLocal → len = s.rbufLen ∨ len + len < s.rbufLen
  | _ => True

instance (s : State) : ∀ a : Answer, Decidable (WholeOrLessThanHalf s a)
  | .took len => inferInstanceAs (Decidable (s.pc = .flushLocal → _ ∨ len + len < s.rbufLen))
  | .selected _ _ _ | .selectFailed | .closed | .reset | .failed | .data _ | .skip =>
      .isTrue trivial

/-- The receive buffer holds exactly what has been received and not written. -/
structure RemoteHalf.Pending (h : RemoteHalf) : Prop where
  fits : h.rbufLen ≤ bufSize
  pending : h.received = h.written ++ h.rbuf.front h.rbufLen

/-- Receiving keeps the buffer equal to what is pending. -/
theorem RemoteHalf.Pending.recv {h : RemoteHalf} (inv : h.Pending) (bytes : List UInt8)
    (fits : h.rbufLen + bytes.length ≤ bufSize) :
    RemoteHalf.Pending ⟨h.rbuf.store h.rbufLen bytes, h.rbufLen + bytes.length,
      h.received ++ bytes, h.written⟩ where
  fits := fits
  pending := by
    show h.received ++ bytes = h.written ++ (h.rbuf.store h.rbufLen bytes).front _
    rw [Buffer.front_store _ _ _ fits, inv.pending, List.append_assoc]

/-- Writing keeps the buffer equal to what is pending, as long as the write is
not of the damaging size. -/
theorem RemoteHalf.Pending.write {h : RemoteHalf} (inv : h.Pending) {len : ℕ}
    (allowed : len ≤ h.rbufLen) (clean : len = h.rbufLen ∨ len + len < h.rbufLen) :
    RemoteHalf.Pending ⟨if len < h.rbufLen - len then
        h.rbuf.memcpy 0 len (h.rbufLen - len) else h.rbuf,
      h.rbufLen - len, h.received, h.written ++ h.rbuf.front len⟩ where
  fits := le_trans (Nat.sub_le _ _) inv.fits
  pending := by
    rw [inv.pending, ← h.rbuf.front_append_drop allowed, ← List.append_assoc]
    congr 1
    rcases clean with all | less
    · subst all
      simp [Buffer.front]
    · rw [if_pos (by omega), Buffer.front_memcpy _ _ _ (by have := inv.fits; omega),
        Nat.add_sub_cancel' allowed]

theorem RemoteHalf.Pending.written_eq {h : RemoteHalf} (inv : h.Pending) (empty : h.rbufLen = 0) :
    h.written = h.received := by
  rw [inv.pending, empty]
  exact (List.append_nil h.written).symm

/-- **The step lemma.**  A step that is not a damaging write keeps the receive
buffer equal to what is pending. -/
theorem step_pending {cfg : Config} {s t : State} {a : Answer}
    (inv : s.remoteHalf.Pending) (clean : WholeOrLessThanHalf s a) (taken : Step cfg s a t) :
    t.remoteHalf.Pending := by
  unfold Step step at taken
  cases at_ : s.pc with
  | top =>
      rw [at_] at taken
      rw [select_remoteHalf taken]
      exact inv
  | recvRemote =>
      rw [at_] at taken
      rcases recvRemote_cases taken with same | ⟨bytes, fits, after⟩
      · rw [same]
        exact inv
      · rw [after]
        exact inv.recv bytes fits
  | readLocal =>
      rw [at_] at taken
      rw [readLocal_remoteHalf taken]
      exact inv
  | flushRemote =>
      rw [at_] at taken
      rw [flushRemote_remoteHalf taken]
      exact inv
  | flushLocal =>
      rw [at_] at taken
      rcases flushLocal_cases taken with same | ⟨len, answer, allowed, after⟩
      · rw [same]
        exact inv
      · rw [after]
        rw [answer] at clean
        exact inv.write allowed (clean at_)
  | holdCheck =>
      rw [at_] at taken
      rw [holdCheck_remoteHalf taken]
      exact inv
  | returned reason =>
      rw [at_] at taken
      cases taken
  | exited =>
      rw [at_] at taken
      cases taken

theorem initial_pending (lbuf rbuf : Buffer UInt8 bufSize) :
    (initial lbuf rbuf).remoteHalf.Pending where
  fits := Nat.zero_le _
  pending := rfl

/-- The receive buffer is what is pending, in every state of a run without
damaging writes. -/
theorem run_pending {cfg : Config} {lbuf rbuf : Buffer UInt8 bufSize} {s : State}
    (run : RunOf (Step cfg) WholeOrLessThanHalf (initial lbuf rbuf) s) :
    s.remoteHalf.Pending :=
  run.invariant (fun s => s.remoteHalf.Pending) (initial_pending lbuf rbuf)
    fun _ _ _ inv clean taken => step_pending inv clean taken

/-- **What reaches the local output is a prefix of what the remote sent**, at
every moment of a run in which each write takes the whole receive buffer or
less than half of it. -/
theorem written_prefix_received {cfg : Config} {lbuf rbuf : Buffer UInt8 bufSize} {s : State}
    (run : RunOf (Step cfg) WholeOrLessThanHalf (initial lbuf rbuf) s) :
    s.written <+: s.received :=
  ⟨s.rbuf.front s.rbufLen, (run_pending run).pending.symm⟩

/-- Three bytes arrive and the local output takes one of them, which is less
than half. -/
def oneByteOfThree : List Answer :=
  [.selected true false false, .data [7, 8, 9], .skip, .skip, .took 1]

theorem written_prefix_received_three :
    ∃ s : State, s.written = [7] ∧ s.received = [7, 8, 9] ∧ s.written <+: s.received := by
  let cfg : Config := ⟨false, false, true⟩
  let start := initial (Buffer.filled 0 bufSize) (Buffer.filled 0 bufSize)
  obtain ⟨s, performed, written, received⟩ :
      ∃ s, perform (step cfg) WholeOrLessThanHalf start oneByteOfThree = some s ∧
        s.written = [7] ∧ s.received = [7, 8, 9] :=
    ⟨_, rfl, rfl, rfl⟩
  exact ⟨s, written, received,
    written_prefix_received (RunOf.of_perform _ RunOf.refl performed)⟩

/-! ### The damaging write -/

/-- Two bytes arrive and the local output takes them one at a time. -/
def twoSingleByteWrites : List Answer :=
  [.selected true false false, .data [1, 2], .skip, .skip, .took 1, .skip,
   .selected false false false, .skip, .skip, .skip, .took 1]

/-- The first byte is written twice and the second one never. -/
theorem written_not_prefix_received :
    ¬ ∀ (cfg : Config) (lbuf rbuf : Buffer UInt8 bufSize) (s : State),
      RunOf (Step cfg) (fun _ _ => True) (initial lbuf rbuf) s → s.written <+: s.received := by
  intro always
  let cfg : Config := ⟨true, false, false⟩
  let start := initial (Buffer.filled 0 bufSize) (Buffer.filled 0 bufSize)
  obtain ⟨s, performed, written, received⟩ :
      ∃ s, perform (step cfg) (fun _ _ => True) start twoSingleByteWrites = some s ∧
        s.written = [1, 1] ∧ s.received = [1, 2] :=
    ⟨_, rfl, rfl, rfl⟩
  have holds := always cfg _ _ s (RunOf.of_perform _ RunOf.refl performed)
  rw [written, received] at holds
  exact absurd holds (by decide)

end MsysGit.Connect.Repeater
