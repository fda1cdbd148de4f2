/-!
# Straight-line programs that may halt, and their weakest preconditions

`Program σ ε α` is a deterministic computation over a state `σ` that returns a
value of `α` or halts with a reason in `ε`; either way the final state is kept,
so that what happened before a halt can be talked about.

`wp m s Q E` says how `m` started in `s` ends: returning a value and a state in
`Q`, or halted with a reason and a state in `E`.  It is a total-correctness
statement — every `Program` ends — and it is exact, so `wp` is also the way to
prove that a program ends badly.  `wp_bind` splits a program at its first
statement; each primitive has its own `wp` equation, and each subroutine its own
lemma ending in `wp`, which its callers apply without unfolding it.
-/

namespace MsysGit.Library

universe u

/-- How a program ends. -/
inductive Ending (σ ε α : Type u)
  | returned (a : α) (s : σ)
  | halted (why : ε) (s : σ)

/-- A computation over the state `σ` that may halt with a reason in `ε`. -/
def Program (σ ε α : Type u) : Type u := σ → Ending σ ε α

namespace Program

variable {σ ε α β : Type u}

instance : Monad (Program σ ε) where
  pure a := fun s => .returned a s
  bind m f := fun s =>
    match m s with
    | .returned a s' => f a s'
    | .halted why s' => .halted why s'

/-- Stop with a reason. -/
def halt (why : ε) : Program σ ε α := fun s => .halted why s

/-- Read the state. -/
def read (f : σ → α) : Program σ ε α := fun s => .returned (f s) s

/-- Change the state. -/
def update (f : σ → σ) : Program σ ε PUnit := fun s => .returned .unit (f s)

/-- The program `m`, started in `s`, ends in `Q` or halts in `E`. -/
def wp (m : Program σ ε α) (s : σ) (Q : α → σ → Prop) (E : ε → σ → Prop) : Prop :=
  match m s with
  | .returned a s' => Q a s'
  | .halted why s' => E why s'

variable {m : Program σ ε α} {f : α → Program σ ε β} {s s' : σ}
variable {Q Q' : α → σ → Prop} {R : β → σ → Prop} {E E' : ε → σ → Prop}

@[simp] theorem wp_pure (a : α) : wp (pure a : Program σ ε α) s Q E ↔ Q a s := Iff.rfl

@[simp] theorem wp_halt (why : ε) : wp (halt why : Program σ ε α) s Q E ↔ E why s := Iff.rfl

@[simp] theorem wp_read (g : σ → α) : wp (read g : Program σ ε α) s Q E ↔ Q (g s) s := Iff.rfl

@[simp] theorem wp_update (g : σ → σ) (Q : PUnit → σ → Prop) :
    wp (update g : Program σ ε PUnit) s Q E ↔ Q .unit (g s) := Iff.rfl

/-- **Sequencing.**  The postcondition of the first statement is the
precondition of the rest. -/
@[simp] theorem wp_bind :
    wp (m >>= f) s R E ↔ wp m s (fun a s' => wp (f a) s' R E) E := by
  unfold wp
  show (match (match m s with
    | .returned a s' => f a s'
    | .halted why s' => .halted why s' : Ending σ ε β) with
    | .returned a s' => R a s'
    | .halted why s' => E why s') ↔ _
  cases m s with
  | returned a s' => exact Iff.rfl
  | halted why s' => exact Iff.rfl

/-- **Consequence.**  Both postconditions may be weakened. -/
theorem wp_mono (h : wp m s Q E) (ok : ∀ a s', Q a s' → Q' a s')
    (bad : ∀ why s', E why s' → E' why s') : wp m s Q' E' := by
  unfold wp at h ⊢
  cases ended : m s with
  | returned a s' =>
      rw [ended] at h
      exact ok a s' h
  | halted why s' =>
      rw [ended] at h
      exact bad why s' h

/-- A known ending decides the `wp`. -/
theorem wp_of_returned {a : α} (ended : m s = .returned a s') (h : Q a s') : wp m s Q E := by
  unfold wp
  rw [ended]
  exact h

/-- A program that does not halt returns. -/
theorem exists_returned (h : wp m s Q fun _ _ => False) :
    ∃ a s', m s = .returned a s' ∧ Q a s' := by
  unfold wp at h
  cases ended : m s with
  | returned a s' =>
      rw [ended] at h
      exact ⟨a, s', rfl, h⟩
  | halted why s' =>
      rw [ended] at h
      exact h.elim

/-- Behind a statement that returns, the rest runs. -/
theorem bind_of_returned {a : α} (ended : m s = .returned a s') : (m >>= f) s = f a s' := by
  show (match m s with
    | .returned a s' => f a s'
    | .halted why s' => .halted why s' : Ending σ ε β) = _
  rw [ended]

/-- Behind a statement that halts, nothing runs. -/
theorem bind_of_halted {why : ε} (ended : m s = .halted why s') :
    (m >>= f) s = .halted why s' := by
  show (match m s with
    | .returned a s' => f a s'
    | .halted why s' => .halted why s' : Ending σ ε β) = _
  rw [ended]

/-- **Exact endings.**  If at whichever end the postcondition there amounts to
`c`, then so does the `wp`. -/
theorem wp_iff_of {c : Prop}
    (h : wp m s (fun a s' => Q a s' ↔ c) (fun why s' => E why s' ↔ c)) : wp m s Q E ↔ c := by
  unfold wp at h ⊢
  cases ended : m s with
  | returned a s' =>
      rw [ended] at h
      exact h
  | halted why s' =>
      rw [ended] at h
      exact h

/-- Two `wp`s of one run describe the same ending. -/
theorem wp_elim {P : Prop} (h : wp m s Q E) (h' : wp m s Q' E')
    (ok : ∀ a s', Q a s' → Q' a s' → P) (bad : ∀ why s', E why s' → E' why s' → P) : P := by
  unfold wp at h h'
  cases ended : m s with
  | returned a s' =>
      rw [ended] at h h'
      exact ok a s' h h'
  | halted why s' =>
      rw [ended] at h h'
      exact bad why s' h h'

section Within

variable {τ : Type u} (get : τ → σ) (put : σ → τ → τ)

/-- A program over a part of a state, as a program over the whole. -/
def within (m : Program σ ε α) : Program τ ε α := fun t =>
  match m (get t) with
  | .returned a s => .returned a (put s t)
  | .halted why s => .halted why (put s t)

/-- **A part of the state.**  The rest is as it was. -/
@[simp] theorem wp_within {t : τ} {Q : α → τ → Prop} {E : ε → τ → Prop} :
    wp (within get put m) t Q E ↔
      wp m (get t) (fun a s => Q a (put s t)) fun why s => E why (put s t) := by
  unfold wp within
  cases m (get t) with
  | returned a s => exact Iff.rfl
  | halted why s => exact Iff.rfl

end Within

end Program

/-- Of two computations that may fail: behind a result there is a value of the first, and the
second one run on it. -/
theorem bind_ok {α β ε : Type} {x : Except ε α} {f : α → Except ε β} {y : β}
    (bound : (x >>= f) = .ok y) : ∃ a, x = .ok a ∧ f a = .ok y := by
  cases x with
  | error e => cases bound
  | ok a => exact ⟨a, rfl, bound⟩

theorem bind_eq_ok_iff {α β ε : Type} {x : Except ε α} {f : α → Except ε β} {y : β} :
    (x >>= f) = .ok y ↔ ∃ a, x = .ok a ∧ f a = .ok y := by
  refine ⟨bind_ok, ?_⟩
  rintro ⟨a, rfl, result⟩
  exact result

end MsysGit.Library
