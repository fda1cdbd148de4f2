import Mathlib.Order.Bounds.Basic
import Mathlib.Tactic.Common

/-!
# Counting up to the first number that will do

`firstFrom` tries one number after the other.  With enough fuel it finds the least one that
will do, and no other (`exists_firstFrom_iff`).
-/

namespace MsysGit.Library

/-- The first of the numbers from `i` on that will do. -/
def firstFrom (good : ℕ → Bool) : ℕ → ℕ → Option ℕ
  | 0, _ => none
  | fuel + 1, i => if good i then some i else firstFrom good fuel (i + 1)

variable {good : ℕ → Bool} {fuel i j : ℕ}

theorem firstFrom_of_good (here : good i = true) : firstFrom good (fuel + 1) i = some i := by
  rw [firstFrom, if_pos here]

theorem firstFrom_of_not (other : good i = false) :
    firstFrom good (fuel + 1) i = firstFrom good fuel (i + 1) := by
  rw [firstFrom, other, if_neg Bool.false_ne_true]

theorem firstFrom_eq_some_iff :
    firstFrom good fuel i = some j ↔
      i ≤ j ∧ j < i + fuel ∧ good j = true ∧ ∀ k, i ≤ k → k < j → good k = false := by
  induction fuel generalizing i with
  | zero =>
      refine iff_of_false nofun ?_
      rintro ⟨above, below, -⟩
      omega
  | succ fuel ih =>
      rw [firstFrom]
      by_cases here : good i = true
      · rw [if_pos here]
        constructor
        · intro found
          cases found
          exact ⟨le_rfl, by omega, here, fun k above below => absurd below (by omega)⟩
        · rintro ⟨above, -, -, none⟩
          by_contra other
          have earlier : i < j := lt_of_le_of_ne above fun same => other (congrArg some same)
          exact absurd here (Bool.eq_false_iff.mp (none i le_rfl earlier))
      · rw [if_neg here, ih]
        constructor
        · rintro ⟨above, below, found, none⟩
          refine ⟨by omega, by omega, found, fun k later earlier => ?_⟩
          rcases Nat.eq_or_lt_of_le later with same | later
          · exact same ▸ Bool.eq_false_iff.mpr here
          · exact none k later earlier
        · rintro ⟨above, below, found, none⟩
          have later : i ≠ j := fun same => here (same ▸ found)
          exact ⟨by omega, by omega, found, fun k behind => none k (by omega)⟩

theorem firstFrom_eq_none_iff :
    firstFrom good fuel i = none ↔ ∀ k, i ≤ k → k < i + fuel → good k = false := by
  induction fuel generalizing i with
  | zero => exact ⟨fun _ k above below => absurd below (by omega), fun _ => rfl⟩
  | succ fuel ih =>
      cases here : good i with
      | true =>
          rw [firstFrom_of_good here]
          exact iff_of_false nofun fun none => by simp [none i le_rfl (by omega)] at here
      | false =>
          rw [firstFrom_of_not here, ih]
          refine ⟨fun none k above below => ?_, fun none k above below =>
            none k (by omega) (by omega)⟩
          rcases Nat.eq_or_lt_of_le above with rfl | later
          · exact here
          · exact none k later (by omega)

/-- **The search finds the least number that will do.** -/
theorem exists_firstFrom_iff :
    (∃ fuel, firstFrom good fuel 0 = some j) ↔ IsLeast {i | good i = true} j := by
  constructor
  · rintro ⟨fuel, found⟩
    obtain ⟨-, -, here, none⟩ := firstFrom_eq_some_iff.mp found
    refine ⟨here, fun k good_k => ?_⟩
    by_contra earlier
    exact absurd good_k (Bool.eq_false_iff.mp (none k (Nat.zero_le k) (Nat.not_le.mp earlier)))
  · rintro ⟨here, least⟩
    refine ⟨j + 1, firstFrom_eq_some_iff.mpr ⟨Nat.zero_le j, by omega, here, fun k _ below => ?_⟩⟩
    rw [Bool.eq_false_iff]
    exact fun good_k => absurd (least good_k) (Nat.not_le.mpr below)

end MsysGit.Library
