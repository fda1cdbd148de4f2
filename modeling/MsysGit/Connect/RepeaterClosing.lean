import MsysGit.Connect.Repeater

/-!
# How the relay loop of `connect` closes

The local half of `do_repeater` mirrors the remote half, with a compaction that
is always right: whatever `send` accepts, the bytes sent and the bytes still in
`lbuf` make up what was read.  What goes wrong is the order of effects around an
end of input:

* `shutdown(remote, 1)` is called where the end of the local input is *seen*,
  before the flush of the same pass, whatever `lbuf` still holds;
* the loop test looks at the two read flags only, so the pass in which the last
  flag falls makes one `send` and one `write` of the remaining bytes and does
  not come back for what they leave.

Both results are stated for runs whose steps stay clear of exactly that.
-/

namespace MsysGit.Connect.Repeater

open MsysGit.Library

/-! ### The local half of the state -/

/-- The send buffer together with the history of its two descriptors. -/
structure LocalHalf where
  lbuf : Buffer UInt8 bufSize
  lbufLen : ℕ
  readLocal : List UInt8
  sent : List UInt8

/-- The local half of a state. -/
def State.localHalf (s : State) : LocalHalf :=
  ⟨s.lbuf, s.lbufLen, s.readLocal, s.sent⟩

/-- The send buffer holds exactly what has been read and not sent. -/
structure LocalHalf.Pending (h : LocalHalf) : Prop where
  fits : h.lbufLen ≤ bufSize
  pending : h.readLocal = h.sent ++ h.lbuf.front h.lbufLen

/-- Reading keeps the buffer equal to what is pending. -/
theorem LocalHalf.Pending.read {h : LocalHalf} (inv : h.Pending) (bytes : List UInt8)
    (fits : h.lbufLen + bytes.length ≤ bufSize) :
    LocalHalf.Pending ⟨h.lbuf.store h.lbufLen bytes, h.lbufLen + bytes.length,
      h.readLocal ++ bytes, h.sent⟩ where
  fits := fits
  pending := by
    show h.readLocal ++ bytes = h.sent ++ (h.lbuf.store h.lbufLen bytes).front _
    rw [Buffer.front_store _ _ _ fits, inv.pending, List.append_assoc]

/-- Sending keeps the buffer equal to what is pending, whatever is accepted. -/
theorem LocalHalf.Pending.send {h : LocalHalf} (inv : h.Pending) {len : ℕ}
    (allowed : len ≤ h.lbufLen) :
    LocalHalf.Pending ⟨if 0 < len ∧ 0 < h.lbufLen - len then
        h.lbuf.memcpy 0 len (h.lbufLen - len) else h.lbuf,
      h.lbufLen - len, h.readLocal, h.sent ++ h.lbuf.front len⟩ where
  fits := le_trans (Nat.sub_le _ _) inv.fits
  pending := by
    rw [inv.pending, ← h.lbuf.front_append_drop allowed, ← List.append_assoc]
    congr 1
    by_cases moved : 0 < len ∧ 0 < h.lbufLen - len
    · rw [if_pos moved, Buffer.front_memcpy _ _ _ (by have := inv.fits; omega),
        Nat.add_sub_cancel' allowed]
    · rw [if_neg moved]
      rcases Nat.eq_zero_or_pos len with none | some
      · subst none
        rfl
      · -- Nothing is left, so nothing had to be moved.
        have all : len = h.lbufLen := by omega
        subst all
        simp [Buffer.front]

theorem LocalHalf.Pending.sent_eq {h : LocalHalf} (inv : h.Pending) (empty : h.lbufLen = 0) :
    h.sent = h.readLocal := by
  rw [inv.pending, empty]
  exact (List.append_nil h.sent).symm

/-- **The step lemma of the local half**, for every step without exception. -/
theorem step_localHalf_pending {cfg : Config} {s t : State} {a : Answer}
    (inv : s.localHalf.Pending) (taken : Step cfg s a t) : t.localHalf.Pending := by
  unfold Step step at taken
  cases at_ : s.pc with
  | top =>
      rw [at_] at taken
      rcases select_inv taken with ⟨rfl, -⟩ | rfl | ⟨_, _, -, rfl⟩ <;> exact inv
  | recvRemote =>
      rw [at_] at taken
      rcases recvRemote_inv taken with rfl | rfl | rfl | ⟨_, -, rfl⟩ <;> exact inv
  | readLocal =>
      rw [at_] at taken
      rcases readLocal_inv taken with rfl | ⟨-, -, rfl⟩ | rfl | rfl | ⟨bytes, -, fits, rfl⟩
      · exact inv
      · exact inv
      · exact inv
      · exact inv
      · exact inv.read bytes fits
  | flushRemote =>
      rw [at_] at taken
      rcases flushRemote_inv taken with ⟨-, rfl⟩ | rfl | ⟨len, -, allowed, rfl⟩
      · exact inv
      · exact inv
      · exact inv.send allowed
  | flushLocal =>
      rw [at_] at taken
      rcases flushLocal_inv taken with ⟨-, rfl⟩ | rfl | ⟨_, -, -, rfl⟩ <;> exact inv
  | holdCheck =>
      rw [at_] at taken
      rcases holdCheck_inv taken with ⟨-, -, rfl⟩ | rfl <;> exact inv
  | returned reason =>
      rw [at_] at taken
      cases taken
  | exited =>
      rw [at_] at taken
      cases taken

theorem initial_localHalf_pending (lbuf rbuf : Buffer UInt8 bufSize) :
    (initial lbuf rbuf).localHalf.Pending where
  fits := Nat.zero_le _
  pending := rfl

/-! ### The half-close -/

/-- **The end of the local input is seen with the send buffer empty**, where it
makes the loop half-close the remote socket.  With `-P` the loop does not. -/
def HalfCloseWithNothingPending (cfg : Config) (s : State) : Answer → Prop
  | .closed => s.pc = .readLocal → cfg.holdSession = false → s.lbufLen = 0
  | _ => True

instance (cfg : Config) (s : State) : ∀ a : Answer, Decidable (HalfCloseWithNothingPending cfg s a)
  | .closed => inferInstanceAs (Decidable (s.pc = .readLocal → cfg.holdSession = false → _))
  | .selected _ _ _ | .selectFailed | .reset | .failed | .data _ | .took _ | .skip =>
      .isTrue trivial

/-- After the half-close nothing is pending and nothing more will be read. -/
structure HalfClosed (s : State) : Prop where
  ended : s.fLocal = false
  quiet : s.pc = .recvRemote ∨ s.pc = .readLocal → s.localReady = false
  empty : s.lbufLen = 0

/-- Once half-closed, every step leaves it so. -/
theorem step_halfClosed {cfg : Config} {s t : State} {a : Answer} (before : HalfClosed s)
    (taken : Step cfg s a t) : HalfClosed t := by
  unfold Step step at taken
  cases at_ : s.pc with
  | top =>
      rw [at_] at taken
      rcases select_inv taken with ⟨rfl, -⟩ | rfl | ⟨_, _, unready, rfl⟩
      · exact ⟨before.ended, nofun, before.empty⟩
      · exact ⟨before.ended, nofun, before.empty⟩
      · exact ⟨before.ended, fun _ => unready before.ended, before.empty⟩
  | recvRemote =>
      rw [at_] at taken
      have unready := before.quiet (Or.inl at_)
      rcases recvRemote_inv taken with rfl | rfl | rfl | ⟨_, -, rfl⟩
      · exact ⟨before.ended, fun _ => unready, before.empty⟩
      · exact ⟨rfl, fun _ => unready, before.empty⟩
      · exact ⟨before.ended, nofun, before.empty⟩
      · exact ⟨before.ended, fun _ => unready, before.empty⟩
  | readLocal =>
      rw [at_] at taken
      rcases readLocal_inv taken with rfl | ⟨-, -, rfl⟩ | rfl | rfl | ⟨bytes, ready, -, rfl⟩
      · exact ⟨before.ended, nofun, before.empty⟩
      · exact ⟨rfl, nofun, before.empty⟩
      · exact ⟨rfl, nofun, before.empty⟩
      · exact ⟨before.ended, nofun, before.empty⟩
      · have unready := before.quiet (Or.inr at_)
        rw [ready] at unready
        cases unready
  | flushRemote =>
      rw [at_] at taken
      rcases flushRemote_inv taken with ⟨-, rfl⟩ | rfl | ⟨len, -, allowed, rfl⟩
      · exact ⟨before.ended, nofun, before.empty⟩
      · exact ⟨before.ended, nofun, before.empty⟩
      · refine ⟨before.ended, nofun, ?_⟩
        show s.lbufLen - len = 0
        rw [before.empty, Nat.zero_sub]
  | flushLocal =>
      rw [at_] at taken
      rcases flushLocal_inv taken with ⟨-, rfl⟩ | rfl | ⟨_, -, -, rfl⟩ <;>
        exact ⟨before.ended, nofun, before.empty⟩
  | holdCheck =>
      rw [at_] at taken
      rcases holdCheck_inv taken with ⟨-, -, rfl⟩ | rfl <;>
        exact ⟨before.ended, nofun, before.empty⟩
  | returned reason =>
      rw [at_] at taken
      cases taken
  | exited =>
      rw [at_] at taken
      cases taken

/-- The half-close is made by one step only, where the local input ends. -/
theorem step_remoteShut {cfg : Config} {s t : State} {a : Answer}
    (clean : HalfCloseWithNothingPending cfg s a) (taken : Step cfg s a t)
    (shut : t.remoteShut = true) : s.remoteShut = true ∨ HalfClosed t := by
  unfold Step step at taken
  cases at_ : s.pc with
  | top =>
      rw [at_] at taken
      rcases select_inv taken with ⟨rfl, -⟩ | rfl | ⟨_, _, -, rfl⟩ <;> exact Or.inl shut
  | recvRemote =>
      rw [at_] at taken
      rcases recvRemote_inv taken with rfl | rfl | rfl | ⟨_, -, rfl⟩ <;> exact Or.inl shut
  | readLocal =>
      rw [at_] at taken
      rcases readLocal_inv taken with rfl | ⟨rfl, -, rfl⟩ | rfl | rfl | ⟨bytes, -, -, rfl⟩
      · exact Or.inl shut
      · rcases Bool.or_eq_true_iff.mp shut with earlier | now
        · exact Or.inl earlier
        · exact Or.inr ⟨rfl, nofun, clean at_ (by simpa using now)⟩
      · exact Or.inl shut
      · exact Or.inl shut
      · exact Or.inl shut
  | flushRemote =>
      rw [at_] at taken
      rcases flushRemote_inv taken with ⟨-, rfl⟩ | rfl | ⟨_, -, -, rfl⟩ <;> exact Or.inl shut
  | flushLocal =>
      rw [at_] at taken
      rcases flushLocal_inv taken with ⟨-, rfl⟩ | rfl | ⟨_, -, -, rfl⟩ <;> exact Or.inl shut
  | holdCheck =>
      rw [at_] at taken
      rcases holdCheck_inv taken with ⟨-, -, rfl⟩ | rfl <;> exact Or.inl shut
  | returned reason =>
      rw [at_] at taken
      cases taken
  | exited =>
      rw [at_] at taken
      cases taken

/-- What a run that stays clear of the early half-close preserves. -/
structure ShutInvariant (s : State) : Prop where
  pending : s.localHalf.Pending
  shut : s.remoteShut = true → HalfClosed s

theorem step_shutInvariant {cfg : Config} {s t : State} {a : Answer} (inv : ShutInvariant s)
    (clean : HalfCloseWithNothingPending cfg s a) (taken : Step cfg s a t) :
    ShutInvariant t where
  pending := step_localHalf_pending inv.pending taken
  shut := by
    intro shut
    rcases step_remoteShut clean taken shut with earlier | closed
    · exact step_halfClosed (inv.shut earlier) taken
    · exact closed

/-- What `do_repeater` promises about its local side at one moment: nothing but
a prefix of the input has been sent, and once the remote socket is half-closed
the whole of it. -/
def SentInOrderAndComplete (s : State) : Prop :=
  s.sent <+: s.readLocal ∧ (s.remoteShut = true → s.sent = s.readLocal)

/-- **The remote socket is half-closed only after everything was sent**, in every
state of a run in which the end of the local input is seen with an empty send
buffer; what has been sent is a prefix of what was read in every run. -/
theorem sent_before_half_close {cfg : Config} {lbuf rbuf : Buffer UInt8 bufSize} {s : State}
    (run : RunOf (Step cfg) (HalfCloseWithNothingPending cfg) (initial lbuf rbuf) s) :
    SentInOrderAndComplete s := by
  have inv : ShutInvariant s :=
    run.invariant ShutInvariant ⟨initial_localHalf_pending lbuf rbuf, nofun⟩
      fun _ _ _ inv clean taken => step_shutInvariant inv clean taken
  exact ⟨⟨s.lbuf.front s.lbufLen, inv.pending.pending.symm⟩,
    fun shut => inv.pending.sent_eq (inv.shut shut).empty⟩

/-- Three bytes are read and sent in two pieces before the input ends. -/
def endAfterTwoSends : List Answer :=
  [.selected false true false, .skip, .data [7, 8, 9], .took 1, .skip, .skip,
   .selected false false false, .skip, .skip, .took 2, .skip, .skip,
   .selected false true false, .skip, .closed]

theorem sent_before_half_close_three :
    ∃ s : State, s.sent = [7, 8, 9] ∧ s.remoteShut = true ∧ SentInOrderAndComplete s := by
  let cfg : Config := ⟨true, false, false⟩
  let start := initial (Buffer.filled 0 bufSize) (Buffer.filled 0 bufSize)
  obtain ⟨s, performed, sent, shut⟩ :
      ∃ s, perform (step cfg) (HalfCloseWithNothingPending cfg) start endAfterTwoSends = some s ∧
        s.sent = [7, 8, 9] ∧ s.remoteShut = true :=
    ⟨_, rfl, rfl, rfl⟩
  exact ⟨s, sent, shut,
    sent_before_half_close (RunOf.of_perform _ RunOf.refl performed)⟩

/-- Two bytes are read, one is accepted, and the input ends. -/
def endAfterShortSend : List Answer :=
  [.selected false true false, .skip, .data [1, 2], .took 1, .skip, .skip,
   .selected false true false, .skip, .closed]

/-- The remote socket is half-closed while the second byte is still unsent. -/
theorem half_close_before_sent :
    ¬ ∀ (cfg : Config) (lbuf rbuf : Buffer UInt8 bufSize) (s : State),
      RunOf (Step cfg) (fun _ _ => True) (initial lbuf rbuf) s → SentInOrderAndComplete s := by
  intro always
  let cfg : Config := ⟨true, false, false⟩
  let start := initial (Buffer.filled 0 bufSize) (Buffer.filled 0 bufSize)
  obtain ⟨s, performed, sent, input, shut⟩ :
      ∃ s, perform (step cfg) (fun _ _ => True) start endAfterShortSend = some s ∧
        s.sent = [1] ∧ s.readLocal = [1, 2] ∧ s.remoteShut = true :=
    ⟨_, rfl, rfl, rfl, rfl⟩
  have whole := (always cfg _ _ s (RunOf.of_perform _ RunOf.refl performed)).2 shut
  rw [sent, input] at whole
  exact absurd whole (by decide)

/-! ### The tail of a stream -/

/-- **The last pass takes everything.**  A write to the local output is of a
clean size, and whole once the remote has closed; a `send` is whole when the
local input has ended and this pass is the last one, because of `-P` or because
the remote has closed as well. -/
def TailTaken (cfg : Config) (s : State) : Answer → Prop
  | .took len =>
      (s.pc = .flushLocal → (len = s.rbufLen ∨ len + len < s.rbufLen) ∧
        (s.closeReason = .closedByRemote → len = s.rbufLen)) ∧
      (s.pc = .flushRemote → s.closeReason = .closedByLocal →
        (s.fRemote = false ∨ cfg.holdSession = true) → len = s.lbufLen)
  | _ => True

instance (cfg : Config) (s : State) : ∀ a : Answer, Decidable (TailTaken cfg s a)
  | .took len => inferInstanceAs (Decidable ((s.pc = .flushLocal →
      (len = s.rbufLen ∨ len + len < s.rbufLen) ∧
        (s.closeReason = .closedByRemote → len = s.rbufLen)) ∧
      (s.pc = .flushRemote → s.closeReason = .closedByLocal →
        (s.fRemote = false ∨ cfg.holdSession = true) → len = s.lbufLen)))
  | .selected _ _ _ | .selectFailed | .closed | .reset | .failed | .data _ | .skip =>
      .isTrue trivial

/-- The runs without lost tail are among those without damaging writes. -/
theorem TailTaken.wholeOrLessThanHalf {cfg : Config} {s : State} {a : Answer}
    (clean : TailTaken cfg s a) : WholeOrLessThanHalf s a := by
  cases a with
  | took len => exact fun at_ => (clean.1 at_).1
  | selected | selectFailed | closed | reset | failed | data | skip => trivial

/-- The program points behind the flush to the local output. -/
def Pc.afterFlush : Pc → Bool
  | .holdCheck | .top | .returned _ => true
  | .recvRemote | .readLocal | .flushRemote | .flushLocal | .exited => false

/-- After the pass in which the remote closed, nothing is left to write. -/
def Flushed (s : State) : Prop :=
  s.pc.afterFlush = true → s.closeReason = .closedByRemote → s.rbufLen = 0

/-- The local input has ended and the pass under way, or just made, is the last. -/
def LastPass (cfg : Config) (s : State) : Prop :=
  s.closeReason = .closedByLocal ∧ (s.fRemote = false ∨ cfg.holdSession = true)

/-- Except between its read and its `send`, a last pass has nothing to send. -/
def Drained (cfg : Config) (s : State) : Prop :=
  s.pc ≠ .flushRemote → s.pc ≠ .exited → LastPass cfg s → s.lbufLen = 0

/-- The loop is left with `REASON_ERROR` or with the reason noted last, and no
more reads from the socket. -/
theorem step_returned {cfg : Config} {s t : State} {a : Answer} (taken : Step cfg s a t)
    {reason : Reason} (left : t.pc = .returned reason) :
    reason = .error ∨ (t.closeReason = reason ∧ t.fRemote = false) := by
  unfold Step step at taken
  cases at_ : s.pc with
  | top =>
      rw [at_] at taken
      rcases select_inv taken with ⟨rfl, -, ended⟩ | rfl | ⟨_, _, -, rfl⟩
      · cases left
        exact Or.inr ⟨rfl, ended⟩
      · cases left
        exact Or.inl rfl
      · cases left
  | recvRemote =>
      rw [at_] at taken
      rcases recvRemote_inv taken with rfl | rfl | rfl | ⟨_, -, rfl⟩ <;> cases left
  | readLocal =>
      rw [at_] at taken
      rcases readLocal_inv taken with rfl | ⟨-, -, rfl⟩ | rfl | rfl | ⟨_, -, -, rfl⟩ <;>
        cases left
  | flushRemote =>
      rw [at_] at taken
      rcases flushRemote_inv taken with ⟨-, rfl⟩ | rfl | ⟨_, -, -, rfl⟩ <;> cases left
  | flushLocal =>
      rw [at_] at taken
      rcases flushLocal_inv taken with ⟨-, rfl⟩ | rfl | ⟨_, -, -, rfl⟩ <;> cases left
  | holdCheck =>
      rw [at_] at taken
      rcases holdCheck_inv taken with ⟨-, -, rfl⟩ | rfl
      · cases left
        exact Or.inr ⟨rfl, rfl⟩
      · cases left
  | returned reason =>
      rw [at_] at taken
      cases taken
  | exited =>
      rw [at_] at taken
      cases taken

theorem step_flushed {cfg : Config} {s t : State} {a : Answer} (inv : Flushed s)
    (clean : TailTaken cfg s a) (taken : Step cfg s a t) : Flushed t := by
  unfold Step step at taken
  cases at_ : s.pc with
  | top =>
      rw [at_] at taken
      have before : s.closeReason = .closedByRemote → s.rbufLen = 0 :=
        inv (by rw [at_]; rfl)
      rcases select_inv taken with ⟨rfl, -⟩ | rfl | ⟨_, _, -, rfl⟩
      · exact fun _ => before
      · exact fun _ => before
      · exact nofun
  | recvRemote =>
      rw [at_] at taken
      rcases recvRemote_inv taken with rfl | rfl | rfl | ⟨_, -, rfl⟩ <;> exact nofun
  | readLocal =>
      rw [at_] at taken
      rcases readLocal_inv taken with rfl | ⟨-, -, rfl⟩ | rfl | rfl | ⟨_, -, -, rfl⟩ <;>
        exact nofun
  | flushRemote =>
      rw [at_] at taken
      rcases flushRemote_inv taken with ⟨-, rfl⟩ | rfl | ⟨_, -, -, rfl⟩ <;> exact nofun
  | flushLocal =>
      rw [at_] at taken
      rcases flushLocal_inv taken with ⟨empty, rfl⟩ | rfl | ⟨len, rfl, -, rfl⟩
      · exact fun _ _ => empty
      · exact nofun
      · intro _ closed
        show s.rbufLen - len = 0
        rw [(clean.1 at_).2 closed, Nat.sub_self]
  | holdCheck =>
      rw [at_] at taken
      have before : s.closeReason = .closedByRemote → s.rbufLen = 0 :=
        inv (by rw [at_]; rfl)
      rcases holdCheck_inv taken with ⟨-, -, rfl⟩ | rfl <;> exact fun _ => before
  | returned reason =>
      rw [at_] at taken
      cases taken
  | exited =>
      rw [at_] at taken
      cases taken

theorem step_drained {cfg : Config} {s t : State} {a : Answer} (inv : Drained cfg s)
    (clean : TailTaken cfg s a) (taken : Step cfg s a t) : Drained cfg t := by
  unfold Step step at taken
  cases at_ : s.pc with
  | top =>
      rw [at_] at taken
      have before : LastPass cfg s → s.lbufLen = 0 :=
        inv (by rw [at_]; nofun) (by rw [at_]; nofun)
      rcases select_inv taken with ⟨rfl, -⟩ | rfl | ⟨_, _, -, rfl⟩ <;> exact fun _ _ => before
  | recvRemote =>
      rw [at_] at taken
      have before : LastPass cfg s → s.lbufLen = 0 :=
        inv (by rw [at_]; nofun) (by rw [at_]; nofun)
      rcases recvRemote_inv taken with rfl | rfl | rfl | ⟨_, -, rfl⟩
      · exact fun _ _ => before
      · -- The reason noted is now that the remote closed.
        exact fun _ _ last => absurd last.1 nofun
      · exact fun _ stays => absurd rfl stays
      · exact fun _ _ => before
  | readLocal =>
      rw [at_] at taken
      rcases readLocal_inv taken with rfl | ⟨-, -, rfl⟩ | rfl | rfl | ⟨_, -, -, rfl⟩
      · exact fun away => absurd rfl away
      · exact fun away => absurd rfl away
      · exact fun away => absurd rfl away
      · exact fun _ stays => absurd rfl stays
      · exact fun away => absurd rfl away
  | flushRemote =>
      rw [at_] at taken
      rcases flushRemote_inv taken with ⟨empty, rfl⟩ | rfl | ⟨len, rfl, -, rfl⟩
      · exact fun _ _ _ => empty
      · exact fun _ stays => absurd rfl stays
      · intro _ _ last
        show s.lbufLen - len = 0
        rw [clean.2 at_ last.1 last.2, Nat.sub_self]
  | flushLocal =>
      rw [at_] at taken
      have before : LastPass cfg s → s.lbufLen = 0 :=
        inv (by rw [at_]; nofun) (by rw [at_]; nofun)
      rcases flushLocal_inv taken with ⟨-, rfl⟩ | rfl | ⟨_, -, -, rfl⟩ <;> exact fun _ _ => before
  | holdCheck =>
      rw [at_] at taken
      have before : LastPass cfg s → s.lbufLen = 0 :=
        inv (by rw [at_]; nofun) (by rw [at_]; nofun)
      rcases holdCheck_inv taken with ⟨-, held, rfl⟩ | rfl
      · exact fun _ _ last => before ⟨last.1, Or.inr held⟩
      · exact fun _ _ => before
  | returned reason =>
      rw [at_] at taken
      cases taken
  | exited =>
      rw [at_] at taken
      cases taken

/-- What a run whose last pass takes everything preserves. -/
structure TailInvariant (cfg : Config) (s : State) : Prop where
  remotePending : s.remoteHalf.Pending
  localPending : s.localHalf.Pending
  flushed : Flushed s
  drained : Drained cfg s
  returned : ∀ reason, s.pc = .returned reason →
    reason = .error ∨ (s.closeReason = reason ∧ s.fRemote = false)

theorem initial_tailInvariant (cfg : Config) (lbuf rbuf : Buffer UInt8 bufSize) :
    TailInvariant cfg (initial lbuf rbuf) where
  remotePending := initial_pending lbuf rbuf
  localPending := initial_localHalf_pending lbuf rbuf
  flushed := fun _ _ => rfl
  drained := fun _ _ _ => rfl
  returned := nofun

theorem step_tailInvariant {cfg : Config} {s t : State} {a : Answer} (inv : TailInvariant cfg s)
    (clean : TailTaken cfg s a) (taken : Step cfg s a t) : TailInvariant cfg t where
  remotePending := step_pending inv.remotePending clean.wholeOrLessThanHalf taken
  localPending := step_localHalf_pending inv.localPending taken
  flushed := step_flushed inv.flushed clean taken
  drained := step_drained inv.drained clean taken
  returned := fun _ left => step_returned taken left

/-- What the value `do_repeater` returns says about the two streams. -/
def TailDelivered (s : State) : Prop :=
  (s.pc = .returned .closedByRemote → s.written = s.received) ∧
    (s.pc = .returned .closedByLocal → s.sent = s.readLocal)

/-- **No tail is lost**: in every run whose last pass takes everything, the loop
returns "closed by remote" with all that was received written, and "closed by
local" with all that was read sent. -/
theorem tail_delivered {cfg : Config} {lbuf rbuf : Buffer UInt8 bufSize} {s : State}
    (run : RunOf (Step cfg) (TailTaken cfg) (initial lbuf rbuf) s) : TailDelivered s := by
  have inv : TailInvariant cfg s :=
    run.invariant (TailInvariant cfg) (initial_tailInvariant cfg lbuf rbuf)
      fun _ _ _ inv clean taken => step_tailInvariant inv clean taken
  constructor
  · intro left
    rcases inv.returned _ left with error | ⟨reason, -⟩
    · cases error
    · have empty : s.rbufLen = 0 := inv.flushed (by rw [left]; rfl) reason
      exact inv.remotePending.written_eq empty
  · intro left
    rcases inv.returned _ left with error | ⟨reason, ended⟩
    · cases error
    · have empty : s.lbufLen = 0 :=
        inv.drained (by rw [left]; nofun) (by rw [left]; nofun) ⟨reason, Or.inl ended⟩
      exact inv.localPending.sent_eq empty

/-- Three bytes arrive; the remote closes while two of them are still pending,
and the last pass writes both. -/
def closeAfterWholeWrite : List Answer :=
  [.selected true false false, .data [7, 8, 9], .skip, .skip, .took 1, .skip,
   .selected true false false, .closed, .skip, .skip, .took 2, .skip, .skip]

theorem tail_delivered_three :
    ∃ s : State, s.pc = .returned .closedByRemote ∧ s.received = [7, 8, 9] ∧
      TailDelivered s := by
  let cfg : Config := ⟨true, false, false⟩
  let start := initial (Buffer.filled 0 bufSize) (Buffer.filled 0 bufSize)
  obtain ⟨s, performed, left, received⟩ :
      ∃ s, perform (step cfg) (TailTaken cfg) start closeAfterWholeWrite = some s ∧
        s.pc = .returned .closedByRemote ∧ s.received = [7, 8, 9] :=
    ⟨_, rfl, rfl, rfl⟩
  exact ⟨s, left, received, tail_delivered (RunOf.of_perform _ RunOf.refl performed)⟩

/-- The same close, with a last write that takes one byte of the two. -/
def closeAfterShortWrite : List Answer :=
  [.selected true false false, .data [7, 8, 9], .skip, .skip, .took 1, .skip,
   .selected true false false, .closed, .skip, .skip, .took 1, .skip, .skip]

/-- The loop returns "closed by remote" with the last byte unwritten. -/
theorem tail_not_delivered :
    ¬ ∀ (cfg : Config) (lbuf rbuf : Buffer UInt8 bufSize) (s : State),
      RunOf (Step cfg) (fun _ _ => True) (initial lbuf rbuf) s → TailDelivered s := by
  intro always
  let cfg : Config := ⟨true, false, false⟩
  let start := initial (Buffer.filled 0 bufSize) (Buffer.filled 0 bufSize)
  obtain ⟨s, performed, left, received, written⟩ :
      ∃ s, perform (step cfg) (fun _ _ => True) start closeAfterShortWrite = some s ∧
        s.pc = .returned .closedByRemote ∧ s.received = [7, 8, 9] ∧ s.written = [7, 8] :=
    ⟨_, rfl, rfl, rfl, rfl⟩
  have whole := (always cfg _ _ s (RunOf.of_perform _ RunOf.refl performed)).1 left
  rw [written, received] at whole
  exact absurd whole (by decide)

end MsysGit.Connect.Repeater
