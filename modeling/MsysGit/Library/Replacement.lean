import Mathlib.Data.List.Basic
import Mathlib.Data.List.Flatten
import Mathlib.Tactic.Common

/-!
# Replacing every occurrence of a text

`replaceAll` goes through a text from the left and replaces the occurrences of a pattern that
do not overlap.  A text that is made of tokens is handled one token at a time
(`replaceAll_flatMap`): a token that is the pattern is replaced, and a token in which no
occurrence begins is kept.
-/

namespace MsysGit.Library

universe u v

variable {α : Type u} [DecidableEq α]

/-- The loop of `replaceAll`, with the number of letters of an occurrence that are still to be
skipped. -/
def replaceFrom (pattern value : List α) : ℕ → List α → List α
  | _, [] => []
  | skip + 1, _ :: s => replaceFrom pattern value skip s
  | 0, c :: s =>
      if pattern <+: c :: s then value ++ replaceFrom pattern value (pattern.length - 1) s
      else c :: replaceFrom pattern value 0 s

/-- Replace every occurrence of a pattern. -/
def replaceAll (pattern value s : List α) : List α := replaceFrom pattern value 0 s

variable {pattern value : List α}

theorem replaceFrom_length_append (t s : List α) :
    replaceFrom pattern value t.length (t ++ s) = replaceAll pattern value s := by
  induction t with
  | nil => rfl
  | cons _ t ih => exact ih

@[simp] theorem replaceAll_nil : replaceAll pattern value [] = [] := rfl

/-- A letter at which no occurrence begins is kept. -/
theorem replaceAll_cons {c : α} {s : List α} (none : ¬ pattern <+: c :: s) :
    replaceAll pattern value (c :: s) = c :: replaceAll pattern value s := by
  show (if pattern <+: c :: s then _ else _) = _
  rw [if_neg none]
  rfl

/-- An occurrence is replaced. -/
theorem replaceAll_append (s : List α) (some_letter : pattern ≠ []) :
    replaceAll pattern value (pattern ++ s) = value ++ replaceAll pattern value s := by
  obtain ⟨c, t, rfl⟩ := List.exists_cons_of_ne_nil some_letter
  show (if c :: t <+: c :: t ++ s then _ else _) = _
  rw [if_pos (List.prefix_append (c :: t) s)]
  exact congrArg _ (replaceFrom_length_append t s)

/-- Letters with which the pattern does not begin are kept. -/
theorem replaceAll_append_of_notMem {first : α} {t : List α} (begins : pattern.head? = some first)
    (free : first ∉ t) (s : List α) :
    replaceAll pattern value (t ++ s) = t ++ replaceAll pattern value s := by
  induction t with
  | nil => rfl
  | cons c t ih =>
      rw [List.mem_cons, not_or] at free
      have none : ¬ pattern <+: c :: (t ++ s) := by
        rintro ⟨more, same⟩
        obtain ⟨p, rest, rfl⟩ : ∃ p rest, pattern = p :: rest := by
          cases pattern with
          | nil => cases begins
          | cons p rest => exact ⟨p, rest, rfl⟩
        rw [List.cons_append, List.cons.injEq] at same
        exact free.1 ((Option.some.inj begins).symm.trans same.1)
      rw [List.cons_append, replaceAll_cons none, ih free.2, List.cons_append]

/-- **Token by token**: what happens at each token decides what happens to the text. -/
theorem replaceAll_flatMap {β : Type v} {f g : β → List α}
    (each : ∀ b s, replaceAll pattern value (f b ++ s) = g b ++ replaceAll pattern value s)
    (tokens : List β) :
    replaceAll pattern value (tokens.flatMap f) = tokens.flatMap g := by
  induction tokens with
  | nil => rfl
  | cons b tokens ih => rw [List.flatMap_cons, List.flatMap_cons, each, ih]

/-- How often a pattern occurs. -/
def occurrences (pattern : List α) : List α → ℕ
  | [] => 0
  | c :: s => (if pattern <+: c :: s then 1 else 0) + occurrences pattern s

theorem occurrences_le_append (front s : List α) :
    occurrences pattern s ≤ occurrences pattern (front ++ s) := by
  induction front with
  | nil => exact Nat.le_refl _
  | cons c front ih => exact Nat.le_trans ih (Nat.le_add_left _ _)

/-- Where nothing begins in front, everything in front is kept. -/
theorem replaceAll_append_of_occurrences {front s : List α}
    (none : occurrences pattern (front ++ s) = occurrences pattern s) :
    replaceAll pattern value (front ++ s) = front ++ replaceAll pattern value s := by
  induction front with
  | nil => rfl
  | cons c front ih =>
      have fewer := @occurrences_le_append _ _ pattern front s
      rw [List.cons_append, occurrences] at none
      have not_here : ¬ pattern <+: c :: (front ++ s) := by
        intro here
        rw [if_pos here] at none
        omega
      rw [if_neg not_here, Nat.zero_add] at none
      rw [List.cons_append, replaceAll_cons not_here, ih none, List.cons_append]

end MsysGit.Library
