import Mathlib.Data.List.Basic
import Mathlib.Tactic.Common
import MsysGit.Library.SeparatedText

/-!
# Words between blanks

`pieces` cuts a text at each blank, `words` keeps what is not empty.  The pieces of texts that
are joined with a blank are the pieces of the texts (`pieces_join`).

A text of single words and single blanks is the one that its words give when they are joined
(`join_words_eq_self_iff`).
-/

namespace MsysGit.Library

universe u

variable {α : Type u} {blank : α → Bool} {sep : α} {s t w : List α}

/-- No blank in it. -/
def Solid (blank : α → Bool) (s : List α) : Prop := ∀ c ∈ s, blank c = false

theorem solid_of_all (all : (s.all fun c => !blank c) = true) : Solid blank s := fun c inside => by
  simpa using List.all_eq_true.mp all c inside

theorem solid_append (solid : Solid blank s) (solid' : Solid blank t) : Solid blank (s ++ t) :=
  List.forall_mem_append.mpr ⟨solid, solid'⟩

/-- What is between the blanks; some of it may be empty. -/
def pieces (blank : α → Bool) (s : List α) : List (List α) := s.splitOnP blank

theorem pieces_ne_nil (blank : α → Bool) (s : List α) : pieces blank s ≠ [] :=
  List.splitOnP_ne_nil blank s

theorem pieces_of_solid (solid : Solid blank s) : pieces blank s = [s] :=
  List.splitOnP_eq_singleton solid

theorem pieces_cons_blank {c : α} (gap : blank c = true) (s : List α) :
    pieces blank (c :: s) = [] :: pieces blank s := by
  rw [pieces, List.splitOnP_cons_eq_if_modifyHead, if_pos gap, pieces]

theorem pieces_cons_solid {c : α} (letter : blank c = false) (s : List α) :
    pieces blank (c :: s) = (pieces blank s).modifyHead (List.cons c) := by
  rw [pieces, List.splitOnP_cons_eq_if_modifyHead, if_neg (Bool.eq_false_iff.mp letter), pieces]

/-- Without a blank between them, the last piece goes on with what follows. -/
theorem pieces_append {before : List (List α)} {q : List α}
    (split : pieces blank s = before ++ [q]) (t : List α) :
    pieces blank (s ++ t) = before ++ pieces blank (q ++ t) := by
  induction s generalizing before q with
  | nil =>
      have single : before ++ [q] = [] ++ [[]] := split.symm
      obtain ⟨rfl, last⟩ := List.append_inj' single rfl
      rw [(List.cons.inj last).1]
      rfl
  | cons c s ih =>
      cases gap : blank c with
      | true =>
          rw [pieces_cons_blank gap] at split
          rw [List.cons_append, pieces_cons_blank gap]
          cases before with
          | nil => exact absurd (List.cons.inj split).2 (pieces_ne_nil blank s)
          | cons p before =>
              obtain ⟨rfl, rest⟩ := List.cons.inj split
              exact congrArg (List.cons []) (ih rest)
      | false =>
          rw [pieces_cons_solid gap] at split
          rw [List.cons_append, pieces_cons_solid gap]
          obtain ⟨p, others, whole⟩ := List.exists_cons_of_ne_nil (pieces_ne_nil blank s)
          rw [whole, List.modifyHead_cons] at split
          cases before with
          | nil =>
              obtain ⟨rfl, rfl⟩ := List.cons.inj split
              rw [@ih [] p whole, List.nil_append, List.nil_append, List.cons_append,
                pieces_cons_solid gap]
          | cons p' before =>
              obtain ⟨rfl, rest⟩ := List.cons.inj split
              rw [@ih (p :: before) q (whole.trans (congrArg (List.cons p) rest))]
              rfl

theorem pieces_solid_append (solid : Solid blank s) (t : List α) :
    pieces blank (s ++ t) = (pieces blank t).modifyHead (s ++ ·) := by
  induction s with
  | nil =>
      obtain ⟨p, others, whole⟩ := List.exists_cons_of_ne_nil (pieces_ne_nil blank t)
      rw [List.nil_append, whole]
      rfl
  | cons c s ih =>
      obtain ⟨letter, solid⟩ := List.forall_mem_cons.mp solid
      rw [List.cons_append, pieces_cons_solid letter, ih solid]
      obtain ⟨p, others, whole⟩ := List.exists_cons_of_ne_nil (pieces_ne_nil blank t)
      rw [whole]
      rfl

/-- There is no blank in a piece. -/
theorem solid_of_mem_pieces (inside : w ∈ pieces blank s) : Solid blank w :=
  forall_of_mem_splitOnP inside

theorem prefix_of_pieces {p : List α} {others : List (List α)}
    (split : pieces blank s = p :: others) : p <+: s := by
  induction s generalizing p others with
  | nil =>
      rw [pieces, List.splitOnP_nil] at split
      exact (List.cons.inj split).1 ▸ List.prefix_refl []
  | cons c s ih =>
      cases gap : blank c with
      | true =>
          rw [pieces_cons_blank gap] at split
          exact (List.cons.inj split).1 ▸ List.nil_prefix
      | false =>
          obtain ⟨p', others', whole⟩ := List.exists_cons_of_ne_nil (pieces_ne_nil blank s)
          rw [pieces_cons_solid gap, whole, List.modifyHead_cons] at split
          obtain ⟨rfl, -⟩ := List.cons.inj split
          exact (List.prefix_cons_inj c).mpr (ih whole)

/-- A piece of a text is a part of it. -/
theorem infix_of_mem_pieces (inside : w ∈ pieces blank s) : w <:+: s := by
  induction s with
  | nil =>
      rw [pieces, List.splitOnP_nil] at inside
      exact List.mem_singleton.mp inside ▸ List.infix_refl []
  | cons c s ih =>
      obtain ⟨p, others, whole⟩ := List.exists_cons_of_ne_nil (pieces_ne_nil blank (c :: s))
      rw [whole] at inside
      rcases List.mem_cons.mp inside with rfl | inside
      · exact (prefix_of_pieces whole).isInfix
      · refine (ih ?_).trans (List.suffix_cons c s).isInfix
        cases gap : blank c with
        | true =>
            rw [pieces_cons_blank gap] at whole
            rw [(List.cons.inj whole).2]
            exact inside
        | false =>
            obtain ⟨p', others', behind⟩ := List.exists_cons_of_ne_nil (pieces_ne_nil blank s)
            rw [pieces_cons_solid gap, behind, List.modifyHead_cons] at whole
            rw [behind, (List.cons.inj whole).2]
            exact List.mem_cons_of_mem _ inside

/-- What has no blank in it is found in one of the pieces. -/
theorem exists_piece_of_infix (solid : Solid blank t) (found : t <:+: s) :
    ∃ p ∈ pieces blank s, t <:+: p := by
  obtain ⟨a, b, rfl⟩ := found
  rw [List.append_assoc]
  obtain ⟨before, q, split⟩ : ∃ before q, pieces blank a = before ++ [q] :=
    ⟨_, _, (List.dropLast_concat_getLast (pieces_ne_nil blank a)).symm⟩
  have solid_q : Solid blank q := solid_of_mem_pieces (split ▸ List.mem_append_right _ (by simp))
  obtain ⟨p, others, whole⟩ := List.exists_cons_of_ne_nil (pieces_ne_nil blank b)
  refine ⟨q ++ (t ++ p), ?_, ⟨q, p, List.append_assoc ..⟩⟩
  rw [pieces_append split, pieces_solid_append solid_q, pieces_solid_append solid, whole]
  exact List.mem_append_right _ List.mem_cons_self

/-- **Pieces of joined texts.** -/
theorem pieces_join (gap : blank sep = true) {parts : List (List α)} (some_part : parts ≠ []) :
    pieces blank (join sep parts) = parts.flatMap (pieces blank) := by
  induction parts with
  | nil => exact absurd rfl some_part
  | cons first parts ih =>
      by_cases more : parts = []
      · subst more
        simp [join]
      · rw [join_cons more, pieces, List.splitOnP_append_cons _ _ gap, List.flatMap_cons, ← ih more]
        rfl

/-! ### Words -/

/-- The pieces that are not empty. -/
def words (blank : α → Bool) (s : List α) : List (List α) := (pieces blank s).filter (· ≠ [])

theorem ne_nil_of_mem_words (inside : w ∈ words blank s) : w ≠ [] := by
  simpa using (List.mem_filter.mp inside).2

theorem solid_of_mem_words (inside : w ∈ words blank s) : Solid blank w :=
  solid_of_mem_pieces (List.mem_of_mem_filter inside)

theorem words_of_solid (solid : Solid blank w) (letters : w ≠ []) : words blank w = [w] := by
  rw [words, pieces_of_solid solid]
  simp [letters]

theorem words_of_pieces {front : List α} {others : List (List α)}
    (split : pieces blank s = front :: others) (letters : front ≠ []) :
    words blank s = front :: others.filter (· ≠ []) := by
  rw [words, split, List.filter_cons_of_pos (by simp [letters])]

theorem words_solid_append_ne_nil (solid : Solid blank s) (letters : s ≠ []) (t : List α) :
    words blank (s ++ t) ≠ [] := by
  obtain ⟨front, others, split⟩ := List.exists_cons_of_ne_nil (pieces_ne_nil blank t)
  have split' : pieces blank (s ++ t) = (s ++ front) :: others := by
    rw [pieces_solid_append solid, split, List.modifyHead_cons]
  rw [words_of_pieces split' (List.append_ne_nil_of_left_ne_nil letters front)]
  exact List.cons_ne_nil _ _

theorem filter_flatMap_pieces (parts : List (List α)) :
    (parts.flatMap (pieces blank)).filter (· ≠ []) = parts.flatMap (words blank) :=
  List.filter_flatMap ..

/-- Words of joined texts. -/
theorem words_join (gap : blank sep = true) (parts : List (List α)) :
    words blank (join sep parts) = parts.flatMap (words blank) := by
  by_cases none : parts = []
  · subst none
    rfl
  · rw [words, pieces_join gap none, filter_flatMap_pieces]

theorem pieces_eq_splitOn [DecidableEq α] (gap : blank sep = true)
    (only : ∀ c ∈ s, blank c = true → c = sep) : pieces blank s = s.splitOn sep := by
  induction s with
  | nil => rfl
  | cons c s ih =>
      obtain ⟨here, there⟩ := List.forall_mem_cons.mp only
      rw [List.splitOn_cons_eq_if_modifyHead, ← ih there]
      cases letter : blank c with
      | true =>
          rw [here letter, if_pos (beq_self_eq_true sep), pieces_cons_blank gap]
      | false =>
          have other : c ≠ sep := by
            rintro rfl
            rw [gap] at letter
            cases letter
          rw [if_neg (by simpa using other), pieces_cons_solid letter]

/-- **Single blanks**: a text is its words, joined, if it has no other blanks than the separator,
and none of them at an end or beside another one. -/
theorem join_words_eq_self_iff [DecidableEq α] (gap : blank sep = true)
    (some_word : words blank s ≠ []) :
    join sep (words blank s) = s ↔
      (∀ c ∈ s, blank c = true → c = sep) ∧ [] ∉ s.splitOn sep := by
  constructor
  · intro same
    constructor
    · intro c inside letter
      rw [← same] at inside
      rcases mem_join inside with rfl | ⟨w, member, inside⟩
      · rfl
      · rw [solid_of_mem_words member c inside] at letter
        cases letter
    · have clean : ∀ w ∈ words blank s, sep ∉ w := fun w member inside => by
        have visible := solid_of_mem_words member sep inside
        rw [gap] at visible
        cases visible
      rw [← same, join, List.splitOn_intercalate sep clean some_word]
      exact fun empty => ne_nil_of_mem_words empty rfl
  · rintro ⟨only, none_empty⟩
    have all : words blank s = s.splitOn sep := by
      rw [words, pieces_eq_splitOn gap only, List.filter_eq_self]
      intro part inside
      refine decide_eq_true ?_
      rintro rfl
      exact none_empty inside
    rw [all, join, List.intercalate_splitOn]

end MsysGit.Library
