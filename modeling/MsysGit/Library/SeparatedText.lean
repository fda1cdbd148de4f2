import Mathlib.Data.List.Basic
import Mathlib.Data.List.Induction
import Mathlib.Tactic.Common
import MsysGit.Library.FirstOccurrence

/-!
# Texts made of separated entries

A text such as `a;b;;c` is read as the list of its non-empty entries and written
by joining entries with the separator.  Reading what was written gives the entries
back (`entries_join`).

`merge` is the usual loop that writes: it appends one entry after the other,
skips the empty ones and puts a separator in front of all but the first.
-/

namespace MsysGit.Library

universe u

variable {α : Type u}

/-- Entries with separators between them. -/
def join (sep : α) (parts : List (List α)) : List α := [sep].intercalate parts

/-- Entries with a separator after each. -/
def terminated (sep : α) (parts : List (List α)) : List α := (parts.map (· ++ [sep])).flatten

/-- Append an entry to a text, unless it is empty. -/
def mergeOne (sep : α) (s part : List α) : List α :=
  if part = [] then s else if s = [] then part else s ++ sep :: part

/-- The loop that writes entries one after the other. -/
def merge (sep : α) (parts : List (List α)) : List α := parts.foldl (mergeOne sep) []

variable {sep : α}

@[simp] theorem join_singleton (part : List α) : join sep [part] = part := by
  simp [join]

theorem join_cons {first : List α} {others : List (List α)} (some_other : others ≠ []) :
    join sep (first :: others) = first ++ sep :: join sep others := by
  obtain ⟨next, others, rfl⟩ := List.exists_cons_of_ne_nil some_other
  simp [join, List.intercalate_cons_cons]

theorem join_ne_nil {parts : List (List α)} (nonempty : ∀ part ∈ parts, part ≠ [])
    (some_part : parts ≠ []) : join sep parts ≠ [] := by
  obtain ⟨part, others, rfl⟩ := List.exists_cons_of_ne_nil some_part
  have here := nonempty part List.mem_cons_self
  by_cases more : others = []
  · subst more
    rwa [join_singleton]
  · rw [join_cons more]
    exact List.append_ne_nil_of_left_ne_nil here _

theorem join_append {front others : List (List α)} (some_front : front ≠ [])
    (some_other : others ≠ []) :
    join sep (front ++ others) = join sep front ++ sep :: join sep others := by
  induction front with
  | nil => exact absurd rfl some_front
  | cons first front ih =>
      by_cases more : front = []
      · subst more
        rw [List.singleton_append, join_cons some_other, join_singleton]
      · rw [List.cons_append, join_cons (List.append_ne_nil_of_left_ne_nil more others),
          join_cons more, ih more, List.append_assoc, List.cons_append]

/-- What is in front of the first text. -/
theorem join_append_head (g first : List α) (others : List (List α)) :
    join sep ((g ++ first) :: others) = g ++ join sep (first :: others) := by
  by_cases more : others = []
  · subst more
    rw [join_singleton, join_singleton]
  · rw [join_cons more, join_cons more, List.append_assoc]

theorem infix_join {part : List α} {parts : List (List α)} (inside : part ∈ parts) :
    part <:+: join sep parts := by
  induction parts with
  | nil => exact absurd inside List.not_mem_nil
  | cons first parts ih =>
      by_cases more : parts = []
      · subst more
        simp [List.mem_singleton.mp inside]
      · rw [join_cons more]
        rcases List.mem_cons.mp inside with rfl | inside
        · exact (List.prefix_append _ _).isInfix
        · exact (ih inside).trans ((List.suffix_cons _ _).isInfix.trans
            (List.suffix_append _ _).isInfix)

theorem mem_join {c : α} {parts : List (List α)} (inside : c ∈ join sep parts) :
    c = sep ∨ ∃ part ∈ parts, c ∈ part := by
  induction parts with
  | nil => exact absurd inside List.not_mem_nil
  | cons first parts ih =>
      by_cases more : parts = []
      · subst more
        exact Or.inr ⟨first, List.mem_cons_self, by simpa [join] using inside⟩
      · rw [join_cons more, List.mem_append, List.mem_cons] at inside
        rcases inside with inside | same | inside
        · exact Or.inr ⟨first, List.mem_cons_self, inside⟩
        · exact Or.inl same
        · exact (ih inside).imp_right fun ⟨part, member, inside⟩ =>
            ⟨part, List.mem_cons_of_mem _ member, inside⟩

theorem notMem_join {c : α} {parts : List (List α)} (other : c ≠ sep)
    (clean : ∀ part ∈ parts, c ∉ part) : c ∉ join sep parts := fun inside => by
  rcases mem_join inside with rfl | ⟨part, member, inside⟩
  · exact other rfl
  · exact clean part member inside

/-- A last entry is appended with a separator in front of it. -/
theorem join_append_singleton (parts : List (List α)) (part : List α) (some_part : parts ≠ []) :
    join sep (parts ++ [part]) = join sep parts ++ sep :: part := by
  rw [join_append some_part (List.cons_ne_nil _ _), join_singleton]

theorem terminated_cons (part : List α) (parts : List (List α)) :
    terminated sep (part :: parts) = part ++ sep :: terminated sep parts := by
  simp [terminated]

theorem length_le_terminated (parts : List (List α)) :
    parts.length ≤ (terminated sep parts).length := by
  induction parts with
  | nil => exact Nat.zero_le _
  | cons part parts ih =>
      rw [terminated_cons, List.length_append, List.length_cons, List.length_cons]
      omega

/-- A separator at the end terminates the last entry. -/
theorem join_append_sep {parts : List (List α)} (some_part : parts ≠ []) :
    join sep parts ++ [sep] = terminated sep parts := by
  induction parts with
  | nil => exact absurd rfl some_part
  | cons first others ih =>
      by_cases more : others = []
      · subst more
        simp [join, terminated]
      · rw [terminated_cons, ← ih more, join_cons more, List.append_assoc, List.cons_append]

/-- The loop writes the non-empty entries, joined. -/
theorem merge_eq_join (parts : List (List α)) :
    merge sep parts = join sep (parts.filter (· ≠ [])) := by
  induction parts using List.reverseRecOn with
  | nil => rfl
  | append_singleton parts part ih =>
      rw [merge, List.foldl_append, List.foldl_cons, List.foldl_nil, ← merge, ih,
        List.filter_append, mergeOne]
      by_cases empty : part = []
      · rw [if_pos empty, List.filter_cons_of_neg (by simp [empty]), List.filter_nil,
          List.append_nil]
      · rw [if_neg empty, List.filter_cons_of_pos (by simp [empty]), List.filter_nil]
        by_cases none : parts.filter (· ≠ []) = []
        · rw [none]
          simp [join]
        · have nonempty : ∀ p ∈ parts.filter (· ≠ []), p ≠ [] := fun p inside => by
            simpa using (List.mem_filter.mp inside).2
          rw [if_neg (join_ne_nil nonempty none), join_append_singleton _ _ none]

/-! ### Reading -/

/-- What separates the parts of a text is in none of them. -/
theorem forall_of_mem_splitOnP {separates : α → Bool} {s part : List α}
    (inside : part ∈ s.splitOnP separates) : ∀ c ∈ part, separates c = false := by
  induction s generalizing part with
  | nil =>
      rw [List.splitOnP_nil, List.mem_singleton] at inside
      rw [inside]
      exact fun c member => absurd member List.not_mem_nil
  | cons c s ih =>
      rw [List.splitOnP_cons_eq_if_modifyHead] at inside
      split at inside
      · rcases List.mem_cons.mp inside with rfl | inside
        · exact fun c member => absurd member List.not_mem_nil
        · exact ih inside
      · rename_i other
        obtain ⟨first, others, whole⟩ := List.exists_cons_of_ne_nil
          (List.splitOnP_ne_nil separates s)
        rw [whole] at inside ih
        rcases List.mem_cons.mp inside with rfl | inside
        · exact List.forall_mem_cons.mpr ⟨Bool.eq_false_iff.mpr other, ih List.mem_cons_self⟩
        · exact ih (List.mem_cons_of_mem _ inside)

variable [DecidableEq α]

/-- The non-empty entries of a text, in order. -/
def entries (sep : α) (s : List α) : List (List α) := (s.splitOn sep).filter (· ≠ [])

theorem ne_nil_of_mem_entries {s part : List α} (inside : part ∈ entries sep s) : part ≠ [] := by
  simpa using (List.mem_filter.mp inside).2

theorem join_entries_eq_nil {s : List α} : join sep (entries sep s) = [] ↔ entries sep s = [] := by
  constructor
  · intro empty
    by_contra some_entry
    exact join_ne_nil (fun _ => ne_nil_of_mem_entries) some_entry empty
  · intro none
    rw [none]
    rfl

/-- The parts of a split text do not contain the separator. -/
theorem notMem_of_mem_splitOn {s part : List α} (inside : part ∈ s.splitOn sep) : sep ∉ part := by
  rw [List.splitOn_eq_splitOnP] at inside
  intro member
  have other := forall_of_mem_splitOnP inside sep member
  rw [beq_self_eq_true] at other
  cases other

/-- The part before the first separator, and those behind it. -/
theorem splitOn_of_mem {s : List α} (inside : sep ∈ s) :
    s.splitOn sep = s.takeWhile (· ≠ sep) :: (s.dropWhile (· ≠ sep)).tail.splitOn sep := by
  obtain ⟨before, after, rfl, none⟩ := List.eq_append_cons_of_mem inside
  rw [List.splitOn_append_cons_self_of_not_mem none, takeWhile_ne_append_cons none,
    dropWhile_ne_append_cons none, List.tail_cons]

theorem notMem_of_mem_entries {s part : List α} (inside : part ∈ entries sep s) : sep ∉ part :=
  notMem_of_mem_splitOn (List.mem_of_mem_filter inside)

/-- A text with a separator at the end is its parts, each terminated. -/
theorem terminated_splitOn (s : List α) : terminated sep (s.splitOn sep) = s ++ [sep] := by
  rw [← join_append_sep (List.splitOn_ne_nil sep s), join, List.intercalate_splitOn]

/-- The last part is empty if the text is, or if it ends with a separator. -/
theorem getLast?_splitOn (s : List α) :
    (s.splitOn sep).getLast? = some [] ↔ s = [] ∨ s.getLast? = some sep := by
  by_cases inside : sep ∈ s
  · obtain ⟨behind, front, split, free⟩ :=
      List.eq_append_cons_of_mem (List.mem_reverse.mpr inside)
    have whole : s = front.reverse ++ sep :: behind.reverse := by
      rw [← List.reverse_reverse s, split]
      simp
    have free' : sep ∉ behind.reverse := fun mem => free (List.mem_reverse.mp mem)
    rw [whole, List.splitOn_append_cons_self, List.splitOn_eq_singleton free',
      List.getLast?_append_of_ne_nil _ (List.cons_ne_nil _ _),
      List.getLast?_append_of_ne_nil _ (List.cons_ne_nil _ _)]
    rcases behind with _ | ⟨c, behind⟩
    · simp
    · have other : c ≠ sep := fun same => free (same ▸ List.mem_cons_self)
      simp [List.getLast?_cons, other]
  · rw [List.splitOn_eq_singleton inside]
    have last : s.getLast? ≠ some sep := fun same => inside (List.mem_of_mem_getLast? same)
    simp [last]

/-- **Reading back what was joined.** -/
theorem entries_join {parts : List (List α)} (nonempty : ∀ part ∈ parts, part ≠ [])
    (clean : ∀ part ∈ parts, sep ∉ part) : entries sep (join sep parts) = parts := by
  by_cases none : parts = []
  · subst none
    rfl
  · rw [entries, join, List.splitOn_intercalate sep clean none, List.filter_eq_self]
    intro part inside
    exact decide_eq_true (nonempty part inside)

/-- Two lists of entries without separators in them are joined to different texts. -/
theorem join_inj {xs ys : List (List α)} (clean_xs : ∀ x ∈ xs, sep ∉ x)
    (clean_ys : ∀ y ∈ ys, sep ∉ y) (some_x : xs ≠ []) (some_y : ys ≠ []) :
    join sep xs = join sep ys ↔ xs = ys := by
  refine ⟨fun same => ?_, congrArg _⟩
  rw [← List.splitOn_intercalate sep clean_xs some_x, ← join, same, join,
    List.splitOn_intercalate sep clean_ys some_y]

/-- A text without entries has an empty part. -/
theorem mem_splitOn_of_no_entry {s : List α} (none : entries sep s = []) :
    [] ∈ s.splitOn sep := by
  obtain ⟨part, parts, split⟩ := List.exists_cons_of_ne_nil (List.splitOn_ne_nil sep s)
  rw [entries, split, List.filter_eq_nil_iff] at none
  have empty : part = [] := by simpa using none part List.mem_cons_self
  rw [split, empty]
  exact List.mem_cons_self

/-- **The normal form**: joining the entries of a text gives the text back exactly when
none of its parts is empty. -/
theorem join_entries_eq_self_iff {s : List α} (some_entry : entries sep s ≠ []) :
    join sep (entries sep s) = s ↔ [] ∉ s.splitOn sep := by
  constructor
  · intro same
    have parts : s.splitOn sep = entries sep s := by
      have clean : ∀ part ∈ entries sep s, sep ∉ part := fun _ => notMem_of_mem_entries
      have split := List.splitOn_intercalate sep clean some_entry
      rw [← join, same] at split
      exact split
    rw [parts]
    exact fun inside => ne_nil_of_mem_entries inside rfl
  · intro none_empty
    have all : entries sep s = s.splitOn sep := by
      rw [entries, List.filter_eq_self]
      intro part inside
      refine decide_eq_true ?_
      rintro rfl
      exact none_empty inside
    rw [all, join, List.intercalate_splitOn]

end MsysGit.Library
