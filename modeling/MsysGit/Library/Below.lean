import Mathlib.Data.List.Infix
import Mathlib.Tactic.Common

/-!
# Paths below a directory

A path is a directory or lies below it when it begins with the directory and a
separator.  The separator keeps out what merely begins with the directory's name
(`not_below_sibling`).  `fold` takes characters that differ only in spelling to the
same value.
-/

namespace MsysGit.Library

universe u v

variable {α : Type u} {β : Type v} [DecidableEq α] (fold : α → β) (sep : α)

/-- The directory with a separator behind it; a root has one already. -/
def withSep (dir : List α) : List α := if dir.getLast? = some sep then dir else dir ++ [sep]

/-- The path is the directory or below it, in whatever spelling. -/
def Below (dir path : List α) : Prop := (withSep sep dir).map fold <+: (path ++ [sep]).map fold

instance [DecidableEq β] (dir path : List α) : Decidable (Below fold sep dir path) :=
  inferInstanceAs (Decidable (_ <+: _))

variable {fold sep} {dir path rest : List α}

theorem withSep_begins (sep : α) (dir : List α) : withSep sep dir <+: dir ++ [sep] := by
  unfold withSep
  split
  · exact List.prefix_append dir [sep]
  · exact List.prefix_rfl

/-- What begins with the directory as it is spelled lies below it. -/
theorem below_of_begins (begins : (dir ++ [sep]) <+: (path ++ [sep])) : Below fold sep dir path :=
  ((withSep_begins sep dir).trans begins).map fold

theorem below_append (fold : α → β) (sep : α) (dir rest : List α) :
    Below fold sep dir (dir ++ sep :: rest) := by
  apply below_of_begins
  exact ⟨rest ++ [sep], by simp⟩

/-- A neighbour whose name begins with the directory's is not below it. -/
theorem not_below_sibling {c : α} (no_root : dir.getLast? ≠ some sep) (other : fold c ≠ fold sep) :
    ¬ Below fold sep dir (dir ++ c :: rest) := by
  intro below
  rw [Below, withSep, if_neg no_root] at below
  have tails : [fold sep] <+: fold c :: (rest ++ [sep]).map fold := by
    have split := below
    rw [List.map_append, List.append_assoc, List.map_append] at split
    exact (List.prefix_append_right_inj _).mp split
  exact other (List.cons_prefix_cons.mp tails).1.symm

end MsysGit.Library
