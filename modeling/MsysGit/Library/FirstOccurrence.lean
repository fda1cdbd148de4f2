import Mathlib.Data.List.TakeWhile
import Mathlib.Tactic.Common

/-!
# What is in front of the first occurrence

`takeWhile (· ≠ c)` and `dropWhile (· ≠ c)` cut a list at the first `c`: at the byte that ends a
C string, at the separator behind a name, at the character that begins a comment.
-/

namespace MsysGit.Library

universe u

variable {α : Type u} [DecidableEq α] {c : α} {s : List α}

theorem forall_ne_of_notMem (absent : c ∉ s) : ∀ d ∈ s, decide (d ≠ c) = true := fun _ inside =>
  decide_eq_true fun same => absent (same ▸ inside)

theorem takeWhile_ne_of_notMem (absent : c ∉ s) : s.takeWhile (· ≠ c) = s :=
  List.takeWhile_eq_self_iff.mpr (forall_ne_of_notMem absent)

theorem notMem_takeWhile_ne (c : α) (s : List α) : c ∉ s.takeWhile (· ≠ c) := fun inside => by
  simpa using List.mem_takeWhile_imp inside

theorem head?_dropWhile_ne {d : α} (first : d ∈ (s.dropWhile (· ≠ c)).head?) : d = c := by
  have ended := List.head?_dropWhile_not (fun d => decide (d ≠ c)) s
  rw [Option.mem_def.mp first] at ended
  simpa using ended

theorem takeWhile_ne_append (absent : c ∉ s) (t : List α) :
    (s ++ t).takeWhile (· ≠ c) = s ++ t.takeWhile (· ≠ c) :=
  List.takeWhile_append_of_pos (forall_ne_of_notMem absent)

theorem dropWhile_ne_append (absent : c ∉ s) (t : List α) :
    (s ++ t).dropWhile (· ≠ c) = t.dropWhile (· ≠ c) :=
  List.dropWhile_append_of_pos (forall_ne_of_notMem absent)

theorem takeWhile_ne_append_cons (absent : c ∉ s) (t : List α) :
    (s ++ c :: t).takeWhile (· ≠ c) = s := by
  rw [takeWhile_ne_append absent, List.takeWhile_cons_of_neg (by simp), List.append_nil]

theorem dropWhile_ne_append_cons (absent : c ∉ s) (t : List α) :
    (s ++ c :: t).dropWhile (· ≠ c) = c :: t := by
  rw [dropWhile_ne_append absent, List.dropWhile_cons_of_neg (by simp)]

omit [DecidableEq α] in
/-- A list is also cut at the last occurrence. -/
theorem exists_last (inside : c ∈ s) : ∃ before rest, s = before ++ c :: rest ∧ c ∉ rest := by
  obtain ⟨rest, before, split, last⟩ := List.eq_append_cons_of_mem (List.mem_reverse.mpr inside)
  refine ⟨before.reverse, rest.reverse, ?_, by rwa [List.mem_reverse]⟩
  rw [← List.reverse_reverse s, split]
  simp

end MsysGit.Library
