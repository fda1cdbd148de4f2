import Mathlib.Data.List.DropRight

/-!
# Trimmed texts

A text is trimmed when neither its first nor its last character is a blank.  `trim`
takes the blanks off both ends: it is the only trimmed text that differs from the given
one by blanks around it.
-/

namespace MsysGit.Library

universe u

variable {α : Type u} (blank : α → Bool)

def trim (s : List α) : List α := (s.dropWhile blank).rdropWhile blank

/-- No blank at either end. -/
def Trimmed (s : List α) : Prop :=
  (∀ c ∈ s.head?, blank c = false) ∧ ∀ c ∈ s.getLast?, blank c = false

variable {blank}

theorem dropWhile_of_head {s : List α} (start : ∀ c ∈ s.head?, blank c = false) :
    s.dropWhile blank = s := by
  cases s with
  | nil => rfl
  | cons c s =>
      rw [List.dropWhile_cons, start c rfl]
      rfl

theorem rdropWhile_of_getLast {s : List α} (stop : ∀ c ∈ s.getLast?, blank c = false) :
    s.rdropWhile blank = s := by
  rw [List.rdropWhile, dropWhile_of_head, List.reverse_reverse]
  rwa [List.head?_reverse]

theorem rdropWhile_append_blanks {s blanks : List α} (all : ∀ c ∈ blanks, blank c = true) :
    (s ++ blanks).rdropWhile blank = s.rdropWhile blank := by
  rw [List.rdropWhile, List.reverse_append, List.dropWhile_append_of_pos, List.rdropWhile]
  intro c inside
  exact all c (List.mem_reverse.mp inside)

/-- A text is its trimmed end and the blanks behind it. -/
theorem exists_rdropWhile (blank : α → Bool) (s : List α) :
    ∃ blanks, (∀ c ∈ blanks, blank c = true) ∧ s = s.rdropWhile blank ++ blanks := by
  refine ⟨(s.reverse.takeWhile blank).reverse, ?_, ?_⟩
  · intro c inside
    exact List.mem_takeWhile_imp (List.mem_reverse.mp inside)
  · rw [List.rdropWhile, ← List.reverse_append, List.takeWhile_append_dropWhile,
      List.reverse_reverse]

theorem blank_getLast_rdropWhile (s : List α) :
    ∀ c ∈ (s.rdropWhile blank).getLast?, blank c = false := by
  intro c last
  rw [List.rdropWhile, List.getLast?_reverse] at last
  have ended := List.head?_dropWhile_not blank s.reverse
  rw [Option.mem_def] at last
  rw [last] at ended
  exact ended

/-- The blanks around a trimmed text are what `trim` takes off. -/
theorem trim_append {before s behind : List α} (trimmed : Trimmed blank s)
    (front : ∀ c ∈ before, blank c = true) (back : ∀ c ∈ behind, blank c = true) :
    trim blank (before ++ s ++ behind) = s := by
  rw [trim, List.append_assoc, List.dropWhile_append_of_pos front]
  by_cases empty : s = []
  · subst empty
    have gone : behind.dropWhile blank = [] := List.dropWhile_eq_nil_iff.mpr back
    rw [List.nil_append, gone]
    rfl
  · have start : ∀ c ∈ (s ++ behind).head?, blank c = false := by
      intro c first
      rw [List.head?_append_of_ne_nil s empty] at first
      exact trimmed.1 c first
    rw [dropWhile_of_head start, rdropWhile_append_blanks back, rdropWhile_of_getLast trimmed.2]

theorem exists_trim (blank : α → Bool) (s : List α) :
    ∃ before behind, (∀ c ∈ before, blank c = true) ∧ (∀ c ∈ behind, blank c = true) ∧
      s = before ++ trim blank s ++ behind := by
  obtain ⟨behind, back, split⟩ := exists_rdropWhile blank (s.dropWhile blank)
  refine ⟨s.takeWhile blank, behind, fun c => List.mem_takeWhile_imp, back, ?_⟩
  rw [trim, List.append_assoc, ← split, List.takeWhile_append_dropWhile]

/-- Nothing is left of a text of blanks, and of no other. -/
theorem trim_eq_nil_iff {s : List α} : trim blank s = [] ↔ ∀ c ∈ s, blank c = true := by
  constructor
  · intro empty
    obtain ⟨before, behind, front, back, split⟩ := exists_trim blank s
    rw [empty, List.append_nil] at split
    intro c inside
    rw [split, List.mem_append] at inside
    exact inside.elim (front c) (back c)
  · intro all
    rw [trim, List.dropWhile_eq_nil_iff.mpr all]
    rfl

theorem trimmed_trim (s : List α) : Trimmed blank (trim blank s) := by
  refine ⟨fun c first => ?_, blank_getLast_rdropWhile _⟩
  -- The first character is the first that is left of the blanks in front.
  have begins : trim blank s <+: s.dropWhile blank := List.rdropWhile_prefix blank _
  obtain ⟨rest, split⟩ := begins
  have start := List.head?_dropWhile_not blank s
  have first' : (s.dropWhile blank).head? = some c := by
    rw [← split, List.head?_append, Option.mem_def.mp first]
    rfl
  rw [first'] at start
  exact start

end MsysGit.Library
