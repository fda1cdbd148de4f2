import Mathlib.Data.List.Basic

/-!
# Conditioned runs of labelled transition systems

A transition system is a relation `step s e t`: in state `s` the label `e` (an
answer of the environment, an operation, a choice) may lead to state `t`.

`RunOf step C s t` is a run from `s` to `t` all of whose steps meet the side
condition `C`, read in the state *before* the step.  The condition is what
separates "every run" (`C` always true) from "every run whose steps stay clear
of a known defect"; both are then instances of one induction rule,
`RunOf.invariant`.
-/

namespace MsysGit.Library

universe u v

variable {σ : Type u} {ε : Type v}

/-- A run from `s` to `t` each of whose steps meets `C` where it is taken. -/
inductive RunOf (step : σ → ε → σ → Prop) (C : σ → ε → Prop) (s : σ) : σ → Prop
  | refl : RunOf step C s s
  | tail {t t' : σ} {e : ε} : RunOf step C s t → C t e → step t e t' →
      RunOf step C s t'

namespace RunOf

variable {step : σ → ε → σ → Prop} {C : σ → ε → Prop} {s t : σ}

/-- **The invariant rule.**  What holds initially and is preserved by every
step that meets the side condition holds in every state such a run reaches. -/
theorem invariant (I : σ → Prop) (init : I s)
    (preserved : ∀ t e t', I t → C t e → step t e t' → I t')
    (run : RunOf step C s t) : I t := by
  induction run with
  | refl => exact init
  | tail _ cond taken inductionHypothesis =>
      exact preserved _ _ _ inductionHypothesis cond taken

/-- **Projection.**  A run of a larger system is a run of a part of it, if each step is one
of the part. -/
theorem map {τ : Type*} {step' : τ → ε → τ → Prop} {C' : τ → ε → Prop} (f : σ → τ)
    (steps : ∀ t e t', step t e t' → step' (f t) e (f t')) (meets : ∀ t e, C t e → C' (f t) e)
    (run : RunOf step C s t) : RunOf step' C' (f s) (f t) := by
  induction run with
  | refl => exact RunOf.refl
  | tail _ cond taken inductionHypothesis =>
      exact inductionHypothesis.tail (meets _ _ cond) (steps _ _ _ taken)

end RunOf

/-- The invariant rule for a list of labels that are all performed. -/
theorem foldlM_invariant {step : σ → ε → Option σ} (I : σ → Prop) {es : List ε}
    (preserved : ∀ s e t, I s → step s e = some t → I t) {s t : σ} (init : I s)
    (performed : es.foldlM step s = some t) : I t := by
  induction es generalizing s with
  | nil =>
      cases performed
      exact init
  | cons e es ih =>
      rw [List.foldlM_cons, Option.bind_eq_bind, Option.bind_eq_some_iff] at performed
      obtain ⟨u, taken, rest⟩ := performed
      exact ih (preserved s e u init taken) rest

/-! ### Runs of a partial step function -/

section Perform

variable (step : σ → ε → Option σ) (C : σ → ε → Prop) [∀ s e, Decidable (C s e)]

/-- Perform `step` on a list of labels; `none` when one of them is refused or
does not meet the side condition. -/
def perform (s : σ) : List ε → Option σ
  | [] => some s
  | e :: es => if C s e then (step s e).bind fun t => perform t es else none

variable {step C}

/-- Performing a list of labels is a run, so a run can be computed. -/
theorem RunOf.of_perform {s₀ : σ} (es : List ε) :
    ∀ {s t : σ}, RunOf (fun s e t => step s e = some t) C s₀ s →
      perform step C s es = some t →
      RunOf (fun s e t => step s e = some t) C s₀ t := by
  induction es with
  | nil =>
      intro s t run performed
      cases performed
      exact run
  | cons e es ih =>
      intro s t run performed
      rw [perform] at performed
      split at performed
      · rename_i cond
        rw [Option.bind_eq_some_iff] at performed
        obtain ⟨u, taken, rest⟩ := performed
        exact ih (run.tail cond taken) rest
      · cases performed

end Perform

end MsysGit.Library
