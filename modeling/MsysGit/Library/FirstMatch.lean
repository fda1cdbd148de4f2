import Mathlib.Data.List.Basic
import Mathlib.Tactic.Common

/-!
# Rule lists whose first matching rule decides

A list of rules is read from its beginning.  The first rule that applies decides: a
positive one grants, any other refuses, and where no rule applies nothing is granted.

`Grants` is that verdict and `grants_iff` says it with the rules before and after the
deciding one.  `grants_widened_iff` compares two readings of one list, where the second
lets some rules apply that the first never applies: they agree exactly when the first
such rule the second reading comes to decides as the rest of the list would.
-/

namespace MsysGit.Library

universe u v

variable {α : Type u} {β : Type v}

/-- The first rule that applies is a positive one. -/
def Grants (applies positive : α → Prop) : List α → Prop
  | [] => False
  | rule :: rules =>
      applies rule ∧ positive rule ∨ ¬ applies rule ∧ Grants applies positive rules

section Verdict

variable {applies positive : α → Prop} {rule : α} {rules : List α}

theorem grants_of_applies (here : applies rule) :
    Grants applies positive (rule :: rules) ↔ positive rule := by
  simp [Grants, here]

theorem grants_of_not_applies (other : ¬ applies rule) :
    Grants applies positive (rule :: rules) ↔ Grants applies positive rules := by
  simp [Grants, other]

/-- **The verdict** is that of a positive rule with no other that applies before it. -/
theorem grants_iff : Grants applies positive rules ↔
    ∃ before rule after, rules = before ++ rule :: after ∧
      (∀ earlier ∈ before, ¬ applies earlier) ∧ applies rule ∧ positive rule := by
  induction rules with
  | nil => simp [Grants]
  | cons first rules ih =>
      by_cases here : applies first
      · rw [grants_of_applies here]
        constructor
        · intro granted
          exact ⟨[], first, rules, rfl, nofun, here, granted⟩
        · rintro ⟨before, rule, after, split, none, -, granted⟩
          cases before with
          | nil =>
              obtain ⟨rfl, -⟩ := List.cons.inj split
              exact granted
          | cons earlier before =>
              obtain ⟨rfl, -⟩ := List.cons.inj split
              exact absurd here (none first List.mem_cons_self)
      · rw [grants_of_not_applies here, ih]
        constructor
        · rintro ⟨before, rule, after, rfl, none, rest⟩
          exact ⟨first :: before, rule, after, rfl, List.forall_mem_cons.mpr ⟨here, none⟩, rest⟩
        · rintro ⟨before, rule, after, split, none, applied, granted⟩
          cases before with
          | nil =>
              obtain ⟨rfl, -⟩ := List.cons.inj split
              exact absurd applied here
          | cons earlier before =>
              obtain ⟨-, rfl⟩ := List.cons.inj split
              exact ⟨before, rule, after, rfl,
                fun earlier inside => none earlier (List.mem_cons_of_mem _ inside),
                applied, granted⟩

/-- Rules read through a translation. -/
theorem grants_map (f : β → α) (rules : List β) : Grants applies positive (rules.map f) ↔
    Grants (fun rule => applies (f rule)) (fun rule => positive (f rule)) rules := by
  induction rules with
  | nil => exact Iff.rfl
  | cons rule rules ih =>
      show (_ ∨ _ ∧ _) ↔ (_ ∨ _ ∧ _)
      rw [ih]

end Verdict

section Widened

variable {applies extra positive : α → Prop}

/-- The first of the extra rules that is reached decides as the rules after it. -/
def ExtraAgrees (applies extra positive : α → Prop) (rules : List α) : Prop :=
  ∀ before rule after, rules = before ++ rule :: after →
    (∀ earlier ∈ before, ¬ applies earlier ∧ ¬ extra earlier) → extra rule →
      (Grants applies positive after ↔ positive rule)

theorem extraAgrees_cons {first : α} {rules : List α} :
    ExtraAgrees applies extra positive (first :: rules) ↔
      (extra first → (Grants applies positive rules ↔ positive first)) ∧
      (¬ applies first → ¬ extra first → ExtraAgrees applies extra positive rules) := by
  constructor
  · intro agrees
    refine ⟨fun here => agrees [] first rules rfl nofun here, ?_⟩
    intro other unlike before rule after split none
    exact agrees (first :: before) rule after (by rw [split]; rfl)
      (List.forall_mem_cons.mpr ⟨⟨other, unlike⟩, none⟩)
  · rintro ⟨here, later⟩ before rule after split none reached
    cases before with
    | nil =>
        obtain ⟨rfl, rfl⟩ := List.cons.inj split
        exact here reached
    | cons earlier before =>
        obtain ⟨rfl, rfl⟩ := List.cons.inj split
        obtain ⟨⟨other, unlike⟩, none⟩ := List.forall_mem_cons.mp none
        exact later other unlike before rule after rfl none reached

/-- **Letting extra rules apply leaves the verdict as it is** exactly when the first extra
rule that is reached decides as the rules after it. -/
theorem grants_widened_iff (rules : List α) (apart : ∀ rule, extra rule → ¬ applies rule) :
    (Grants (fun rule => applies rule ∨ extra rule) positive rules ↔
      Grants applies positive rules) ↔ ExtraAgrees applies extra positive rules := by
  induction rules with
  | nil => simp [Grants, ExtraAgrees]
  | cons rule rules ih =>
      rw [extraAgrees_cons]
      by_cases here : applies rule
      · have unlike : ¬ extra rule := fun reached => apart rule reached here
        simp [Grants, here, unlike]
      · by_cases reached : extra rule
        · have widened : Grants (fun rule => applies rule ∨ extra rule) positive (rule :: rules) ↔
              positive rule := grants_of_applies (Or.inr reached)
          rw [widened, grants_of_not_applies here]
          exact ⟨fun same => ⟨fun _ => same.symm, fun _ other => absurd reached other⟩,
            fun agrees => (agrees.1 reached).symm⟩
        · have neither : ¬ (applies rule ∨ extra rule) := not_or.mpr ⟨here, reached⟩
          have widened := @grants_of_not_applies _ (fun rule => applies rule ∨ extra rule) positive
            rule rules neither
          rw [widened, grants_of_not_applies here, ih]
          simp [here, reached]

end Widened

end MsysGit.Library
