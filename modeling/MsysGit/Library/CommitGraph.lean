import Mathlib.Data.List.Nodup
import Mathlib.Data.List.Pairwise
import Mathlib.Data.List.Range
import Mathlib.Logic.Relation
import Mathlib.Tactic.Common

/-!
# Commit graphs

Commits are numbered in the order in which they come into being, so the parents of
a commit have smaller numbers (`Older`).  `Reaches parents c d` says that `d` is `c`
or one of its ancestors.

A range is listed with descendants before ancestors (`IsListing`).  There are many
such listings: whatever commit is not an ancestor of another can come before it
(`exists_listing`).
-/

namespace MsysGit.Library

variable {parents : ℕ → List ℕ}

/-- `d` is `c` or an ancestor of `c`. -/
def Reaches (parents : ℕ → List ℕ) : ℕ → ℕ → Prop :=
  Relation.ReflTransGen fun c p => p ∈ parents c

/-- Parents come before their children. -/
def Older (parents : ℕ → List ℕ) : Prop := ∀ c, ∀ p ∈ parents c, p < c

theorem Reaches.refl (c : ℕ) : Reaches parents c c := Relation.ReflTransGen.refl

theorem Reaches.trans {c d e : ℕ} (first : Reaches parents c d) (second : Reaches parents d e) :
    Reaches parents c e :=
  Relation.ReflTransGen.trans first second

theorem Reaches.of_parent {c p d : ℕ} (parent : p ∈ parents c) (rest : Reaches parents p d) :
    Reaches parents c d :=
  Relation.ReflTransGen.head parent rest

theorem Reaches.le (older : Older parents) {c d : ℕ} (reaches : Reaches parents c d) : d ≤ c := by
  induction reaches with
  | refl => exact Nat.le_refl c
  | tail _ parent ih => exact Nat.le_trans (Nat.le_of_lt (older _ _ parent)) ih

/-- What is closed under parents cannot be left. -/
theorem Reaches.closed {P : ℕ → Prop} (closed : ∀ c, P c → ∀ p ∈ parents c, P p) {c d : ℕ}
    (start : P c) (reaches : Reaches parents c d) : P d := by
  induction reaches with
  | refl => exact start
  | tail _ parent ih => exact closed _ ih _ parent

/-- Commits that are added later change nothing for the earlier ones. -/
theorem reaches_congr {parents' : ℕ → List ℕ} {n : ℕ} (older : Older parents)
    (same : ∀ c < n, parents' c = parents c) {c d : ℕ} (early : c < n) :
    Reaches parents' c d ↔ Reaches parents c d := by
  constructor
  · intro reaches
    have both : Reaches parents c d ∧ d < n := by
      induction reaches with
      | refl => exact ⟨Reaches.refl c, early⟩
      | tail _ parent ih =>
          rw [same _ ih.2] at parent
          exact ⟨Relation.ReflTransGen.tail ih.1 parent, Nat.lt_trans (older _ _ parent) ih.2⟩
    exact both.1
  · intro reaches
    have both : Reaches parents' c d ∧ d < n := by
      induction reaches with
      | refl => exact ⟨Reaches.refl c, early⟩
      | tail _ parent ih =>
          have later := older _ _ parent
          rw [← same _ ih.2] at parent
          exact ⟨Relation.ReflTransGen.tail ih.1 parent, Nat.lt_trans later ih.2⟩
    exact both.1

/-! ### Deciding ancestry -/

/-- Search for `d` among `c` and its ancestors, down to a given depth. -/
def reachesWithin (parents : ℕ → List ℕ) : ℕ → ℕ → ℕ → Bool
  | 0, c, d => c = d
  | depth + 1, c, d => c = d || (parents c).any fun p => reachesWithin parents depth p d

theorem reaches_of_reachesWithin {depth c d : ℕ} (found : reachesWithin parents depth c d = true) :
    Reaches parents c d := by
  induction depth generalizing c with
  | zero =>
      obtain rfl : c = d := of_decide_eq_true found
      exact Reaches.refl c
  | succ depth ih =>
      rw [reachesWithin, Bool.or_eq_true, decide_eq_true_eq, List.any_eq_true] at found
      rcases found with rfl | ⟨p, parent, found⟩
      · exact Reaches.refl c
      · exact Reaches.of_parent parent (ih found)

/-- No chain of ancestors is longer than the number of its first commit. -/
theorem reachesWithin_iff (older : Older parents) {depth c d : ℕ} (deep : c ≤ depth) :
    reachesWithin parents depth c d = true ↔ Reaches parents c d := by
  refine ⟨reaches_of_reachesWithin, fun reaches => ?_⟩
  induction depth generalizing c with
  | zero =>
      obtain rfl := Nat.le_zero.mp deep
      have same : d = 0 := Nat.le_zero.mp (reaches.le older)
      exact decide_eq_true same.symm
  | succ depth ih =>
      rw [reachesWithin, Bool.or_eq_true, decide_eq_true_eq, List.any_eq_true]
      rcases Relation.ReflTransGen.cases_head reaches with same | ⟨p, parent, rest⟩
      · exact Or.inl same
      · have earlier := older c p parent
        exact Or.inr ⟨p, parent, ih (by omega) rest⟩

/-! ### Ranges -/

/-- `base..head`: what `head` reaches and `base` does not. -/
def InRange (parents : ℕ → List ℕ) (base head c : ℕ) : Prop :=
  Reaches parents head c ∧ ¬ Reaches parents base c

/-- A listing of a range, with descendants before their ancestors. -/
structure IsListing (parents : ℕ → List ℕ) (base head : ℕ) (listing : List ℕ) : Prop where
  nodup : listing.Nodup
  mem_iff : ∀ c, c ∈ listing ↔ InRange parents base head c
  descendants_first : listing.Pairwise fun c d => ¬ Reaches parents d c

/-- `head ^base ^base ..`: what `head` reaches and none of the bases does. -/
def Outside (parents : ℕ → List ℕ) (bases : List ℕ) (head c : ℕ) : Prop :=
  Reaches parents head c ∧ ∀ base ∈ bases, ¬ Reaches parents base c

/-- A listing of what is outside some bases, with descendants before their ancestors. -/
structure ListsOutside (parents : ℕ → List ℕ) (bases : List ℕ) (head : ℕ) (listing : List ℕ) :
    Prop where
  nodup : listing.Nodup
  mem_iff : ∀ c, c ∈ listing ↔ Outside parents bases head c
  descendants_first : listing.Pairwise fun c d => ¬ Reaches parents d c

open Classical in
/-- The commits up to `head` with a property, the latest first. -/
noncomputable def latestFirst (head : ℕ) (P : ℕ → Prop) : List ℕ :=
  (List.range (head + 1)).reverse.filter fun c => decide (P c)

theorem mem_latestFirst {head c : ℕ} {P : ℕ → Prop} :
    c ∈ latestFirst head P ↔ c ≤ head ∧ P c := by
  rw [latestFirst, List.mem_filter, List.mem_reverse, List.mem_range, Nat.lt_succ_iff]
  simp

theorem latestFirst_decreasing (head : ℕ) (P : ℕ → Prop) :
    (latestFirst head P).Pairwise (· > ·) :=
  (List.pairwise_reverse.mpr List.pairwise_lt_range).filter _

/-- **Freedom of the order**: any commit of a range can be listed before all those of
which it is not an ancestor, except its own descendants.  Here `c` and its descendants
come first. -/
theorem exists_listing (older : Older parents) (base head c : ℕ) :
    ∃ first rest, IsListing parents base head (first ++ rest) ∧
      (∀ d, d ∈ first ↔ InRange parents base head d ∧ Reaches parents d c) := by
  let first := latestFirst head fun d => InRange parents base head d ∧ Reaches parents d c
  let rest := latestFirst head fun d => InRange parents base head d ∧ ¬ Reaches parents d c
  have within : ∀ {d}, InRange parents base head d → d ≤ head := fun range => range.1.le older
  have in_first : ∀ d, d ∈ first ↔ InRange parents base head d ∧ Reaches parents d c := by
    intro d
    rw [mem_latestFirst]
    exact ⟨fun both => both.2, fun both => ⟨within both.1, both⟩⟩
  have in_rest : ∀ d, d ∈ rest ↔ InRange parents base head d ∧ ¬ Reaches parents d c := by
    intro d
    rw [mem_latestFirst]
    exact ⟨fun both => both.2, fun both => ⟨within both.1, both⟩⟩
  have ordered : ∀ {l : List ℕ}, l.Pairwise (· > ·) → l.Pairwise fun d e => ¬ Reaches parents e d :=
    fun decreasing => decreasing.imp fun later reaches => absurd (reaches.le older) (by omega)
  have distinct : ∀ {l : List ℕ}, l.Pairwise (· > ·) → l.Nodup :=
    fun decreasing => decreasing.imp fun later => Nat.ne_of_gt later
  refine ⟨first, rest, ⟨?_, ?_, ?_⟩, in_first⟩
  · rw [List.nodup_append]
    refine ⟨distinct (latestFirst_decreasing _ _), distinct (latestFirst_decreasing _ _), ?_⟩
    rintro d early _ late rfl
    exact ((in_rest d).mp late).2 ((in_first d).mp early).2
  · intro d
    rw [List.mem_append, in_first, in_rest]
    by_cases reaches : Reaches parents d c
    · simp [reaches]
    · simp [reaches]
  · rw [List.pairwise_append]
    refine ⟨ordered (latestFirst_decreasing _ _), ordered (latestFirst_decreasing _ _), ?_⟩
    intro d early e late reaches
    exact ((in_rest e).mp late).2 (reaches.trans ((in_first d).mp early).2)

end MsysGit.Library
