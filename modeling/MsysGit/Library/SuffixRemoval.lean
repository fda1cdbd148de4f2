import Mathlib.Data.List.Infix
import Mathlib.Tactic.Common

/-!
# Taking the shortest suffix of a kind off a text

`removeSuffix` is what the shell's `${text%pattern}` does: of the suffixes that fit the pattern
the shortest one is removed; a text without such a suffix is left as it is.
-/

namespace MsysGit.Library

universe u

variable {α : Type u}

/-- What is in front of the shortest suffix that fits. -/
def frontOf (fits : List α → Bool) : List α → Option (List α)
  | [] => if fits [] then some [] else none
  | c :: s =>
      match frontOf fits s with
      | some front => some (c :: front)
      | none => if fits (c :: s) then some [] else none

def removeSuffix (fits : List α → Bool) (s : List α) : List α := (frontOf fits s).getD s

variable {fits : List α → Bool} {s front t : List α}

theorem frontOf_eq_none_iff : frontOf fits s = none ↔ ∀ t, t <:+ s → fits t = false := by
  induction s with
  | nil => simp [frontOf]
  | cons c s ih =>
      rw [frontOf]
      cases found : frontOf fits s with
      | some front =>
          refine iff_of_false nofun fun none => ?_
          rw [ih.mpr fun t suffix => none t (suffix.trans (List.suffix_cons c s))] at found
          cases found
      | none =>
          have shorter := ih.mp found
          by_cases here : fits (c :: s) = true
          · refine iff_of_false (by simp [here]) fun none => ?_
            exact absurd here (Bool.eq_false_iff.mp (none _ (List.suffix_refl _)))
          · refine iff_of_true (by simp [here]) fun t suffix => ?_
            rcases List.suffix_cons_iff.mp suffix with rfl | suffix
            · exact Bool.eq_false_iff.mpr here
            · exact shorter t suffix

/-- The suffix that is removed fits, and no shorter one does. -/
theorem exists_of_frontOf (found : frontOf fits s = some front) :
    ∃ t, s = front ++ t ∧ fits t = true ∧ ∀ u, u <:+ t → fits u = true → u = t := by
  induction s generalizing front with
  | nil =>
      rw [frontOf] at found
      split_ifs at found with here
      cases found
      exact ⟨[], rfl, here, fun u suffix _ => List.suffix_nil.mp suffix⟩
  | cons c s ih =>
      rw [frontOf] at found
      cases shorter : frontOf fits s with
      | some front' =>
          rw [shorter] at found
          cases found
          obtain ⟨t, rfl, rest⟩ := ih shorter
          exact ⟨t, rfl, rest⟩
      | none =>
          rw [shorter] at found
          dsimp only at found
          split_ifs at found with here
          cases found
          refine ⟨c :: s, rfl, here, fun u suffix fits_u => ?_⟩
          rcases List.suffix_cons_iff.mp suffix with same | suffix
          · exact same
          · have none := frontOf_eq_none_iff.mp shorter u suffix
            rw [fits_u] at none
            cases none

/-- **What is removed** is the suffix that fits and has no shorter one in it. -/
theorem removeSuffix_append (here : fits t = true) (shortest : ∀ u, u <:+ t → fits u = true → u = t)
    (front : List α) : removeSuffix fits (front ++ t) = front := by
  unfold removeSuffix
  cases found : frontOf fits (front ++ t) with
  | none =>
      have none := frontOf_eq_none_iff.mp found t (List.suffix_append front t)
      rw [here] at none
      cases none
  | some front' =>
      obtain ⟨t', split, here', shortest'⟩ := exists_of_frontOf found
      have same : t = t' := by
        have one : t <:+ front ++ t := List.suffix_append front t
        have other : t' <:+ front ++ t := split ▸ List.suffix_append front' t'
        rcases List.suffix_or_suffix_of_suffix one other with inside | inside
        · exact shortest' t inside here
        · exact (shortest t' inside here').symm
      subst same
      exact (List.append_cancel_right split).symm

/-- A text without such a suffix stays. -/
theorem removeSuffix_eq_self (none : ∀ t, t <:+ s → fits t = false) : removeSuffix fits s = s := by
  rw [removeSuffix, frontOf_eq_none_iff.mpr none, Option.getD_none]

/-- What is left is a part at the front. -/
theorem prefix_of_removeSuffix (fits : List α → Bool) (s : List α) : removeSuffix fits s <+: s := by
  unfold removeSuffix
  cases found : frontOf fits s with
  | none => exact List.prefix_refl s
  | some front =>
      obtain ⟨t, split, -⟩ := exists_of_frontOf found
      exact ⟨t, split.symm⟩

/-- Nothing else stays, if what is removed is never empty. -/
theorem removeSuffix_eq_self_iff (letters : fits [] = false) :
    removeSuffix fits s = s ↔ ∀ t, t <:+ s → fits t = false := by
  refine ⟨fun same => ?_, removeSuffix_eq_self⟩
  rw [← frontOf_eq_none_iff]
  cases found : frontOf fits s with
  | none => rfl
  | some front =>
      obtain ⟨t, split, here, -⟩ := exists_of_frontOf found
      rw [removeSuffix, found, Option.getD_some] at same
      have empty : t = [] := List.self_eq_append_right.mp (same.trans split)
      rw [empty, letters] at here
      cases here

end MsysGit.Library
