import Mathlib.Data.List.Basic
import Mathlib.Tactic.Common
import MsysGit.Library.WordSplitting

/-!
# Expanding the words of a list of entries

`expandWords f` replaces each word of a text by texts and joins what comes out with single
blanks.  A text is at the same time a list of entries between separators; a word that reaches
from one entry into the next stays.  Then the entries are expanded one by one
(`expandWords_join`): all but the words at the ends of an entry that others follow (`inner`),
and all but the word at the front of the last one (`outer`).

Where texts are expanded, some of the entries are left out, and the rest is expanded again, the
entries that are wanted come out if and only if expanding them alone leaves them as they are
(`expandEntries_filter_iff`).
-/

namespace MsysGit.Library

universe u

variable {α : Type u} {blank : α → Bool} {sep colon : α} {f : List α → List (List α)}
variable {e g front q : List α} {mid others es : List (List α)}

variable (blank sep f) in
/-- Each word replaced by texts, single blanks between them. -/
def expandWords (s : List α) : List α := join sep ((words blank s).flatMap f)

variable (f) in
/-- All but the last piece. -/
def expandBut : List (List α) → List (List α)
  | [] => []
  | [q] => [q]
  | p :: next :: others => (if p = [] then [] else f p) ++ expandBut (next :: others)

variable (blank sep f) in
/-- An entry that others follow. -/
def inner (e : List α) : List α :=
  match pieces blank e with
  | [] => []
  | front :: others => join sep (front :: expandBut f others)

variable (blank sep f) in
/-- The last entry. -/
def outer (e : List α) : List α :=
  match pieces blank e with
  | [] => []
  | front :: others => join sep (front :: (others.filter (· ≠ [])).flatMap f)

variable (blank sep f) in
def expandEntries : List (List α) → List (List α)
  | [] => []
  | [e] => [outer blank sep f e]
  | e :: next :: es => inner blank sep f e :: expandEntries (next :: es)

/-! ### Pieces of an entry -/

theorem expandBut_concat (mid : List (List α)) (q : List α) :
    expandBut f (mid ++ [q]) = (mid.filter (· ≠ [])).flatMap f ++ [q] := by
  induction mid with
  | nil => rfl
  | cons p mid ih =>
      have some_next : mid ++ [q] ≠ [] := List.concat_ne_nil q mid
      obtain ⟨next, others, whole⟩ := List.exists_cons_of_ne_nil some_next
      rw [List.cons_append, whole, expandBut, ← whole, ih]
      by_cases empty : p = []
      · rw [if_pos empty, List.filter_cons_of_neg (by simp [empty]), List.nil_append]
      · rw [if_neg empty, List.filter_cons_of_pos (by simp [empty]), List.flatMap_cons,
          List.append_assoc]

theorem inner_of_solid (solid : Solid blank e) : inner blank sep f e = e := by
  rw [inner, pieces_of_solid solid]
  simp [expandBut, join]

theorem inner_of_pieces (split : pieces blank e = front :: (mid ++ [q])) :
    inner blank sep f e = join sep (front :: ((mid.filter (· ≠ [])).flatMap f ++ [q])) := by
  rw [inner, split]
  exact congrArg (fun rest => join sep (front :: rest)) (expandBut_concat mid q)

theorem outer_of_pieces (split : pieces blank e = front :: others) :
    outer blank sep f e = join sep (front :: (others.filter (· ≠ [])).flatMap f) := by
  rw [outer, split]

/-- There is no blank in an entry, or there are a first and a last piece. -/
theorem solid_or_pieces (blank : α → Bool) (e : List α) :
    Solid blank e ∨ ∃ front mid q, pieces blank e = front :: (mid ++ [q]) := by
  by_cases solid : Solid blank e
  · exact Or.inl solid
  · obtain ⟨c, inside, gap⟩ : ∃ c ∈ e, blank c = true := by simpa [Solid] using solid
    obtain ⟨a, b, rfl⟩ := List.append_of_mem inside
    have split : pieces blank (a ++ c :: b) = pieces blank a ++ pieces blank b :=
      List.splitOnP_append_cons a b gap
    obtain ⟨front, others, first⟩ := List.exists_cons_of_ne_nil (pieces_ne_nil blank a)
    refine Or.inr ⟨front, others ++ (pieces blank b).dropLast,
      (pieces blank b).getLast (pieces_ne_nil blank b), ?_⟩
    rw [split, first, List.append_assoc, List.dropLast_concat_getLast, List.cons_append]

theorem solid_front (split : pieces blank e = front :: others) : Solid blank front :=
  solid_of_mem_pieces (split ▸ List.mem_cons_self)

theorem solid_last (split : pieces blank e = front :: (mid ++ [q])) : Solid blank q :=
  solid_of_mem_pieces (split ▸ List.mem_cons_of_mem _ (List.mem_append_right _ (by simp)))

/-! ### Entry by entry -/

theorem expandEntries_ne_nil (some_entry : es ≠ []) : expandEntries blank sep f es ≠ [] := by
  match es with
  | [] => exact absurd rfl some_entry
  | [e] => exact List.cons_ne_nil _ _
  | e :: next :: es => exact List.cons_ne_nil _ _

@[simp] theorem length_expandEntries (es : List (List α)) :
    (expandEntries blank sep f es).length = es.length := by
  induction es with
  | nil => rfl
  | cons e es ih =>
      cases es with
      | nil => rfl
      | cons next es => exact congrArg Nat.succ ih

section Front

variable (solid : Solid blank g) (front_word : ∀ p, f (g ++ p) = [g ++ p]) (letters : g ≠ [])

include solid front_word letters

/-- The last entry, behind a word that stays. -/
theorem expandWords_last (e : List α) :
    expandWords blank sep f (g ++ e) = g ++ outer blank sep f e := by
  obtain ⟨front, others, split⟩ := List.exists_cons_of_ne_nil (pieces_ne_nil blank e)
  have split' : pieces blank (g ++ e) = (g ++ front) :: others := by
    rw [pieces_solid_append solid, split, List.modifyHead_cons]
  have some_letter : g ++ front ≠ [] := List.append_ne_nil_of_left_ne_nil letters front
  rw [expandWords, words_of_pieces split' some_letter, List.flatMap_cons, front_word,
    List.singleton_append, join_append_head, outer_of_pieces split]

/-- An entry with blanks, and what is behind it. -/
theorem expandWords_pieces (split : pieces blank e = front :: (mid ++ [q])) {t : List α}
    (some_text : (words blank (q ++ t)).flatMap f ≠ []) :
    expandWords blank sep f (g ++ (e ++ t)) =
      g ++ (join sep (front :: (mid.filter (· ≠ [])).flatMap f) ++
        sep :: expandWords blank sep f (q ++ t)) := by
  have split' : pieces blank (g ++ (e ++ t)) =
      (g ++ front) :: (mid ++ pieces blank (q ++ t)) := by
    rw [pieces_solid_append solid, @pieces_append _ _ _ (front :: mid) _ split]
    rfl
  have some_letter : g ++ front ≠ [] := List.append_ne_nil_of_left_ne_nil letters front
  rw [expandWords, words_of_pieces split' some_letter, List.filter_append, List.flatMap_cons,
    List.flatMap_append, front_word, List.singleton_append, ← List.cons_append, ← words,
    join_append (List.cons_ne_nil _ _) some_text, join_append_head, List.append_assoc, expandWords]

end Front

/-- **Entry by entry**: what a text becomes, if no word across a separator is replaced. -/
theorem expandWords_join (visible : blank colon = false)
    (across : ∀ w, colon ∈ w → f w = [w]) (some_entry : es ≠ []) (solid : Solid blank g)
    (begins : colon ∈ g) :
    expandWords blank sep f (g ++ join colon es) =
      g ++ join colon (expandEntries blank sep f es) := by
  induction es generalizing g with
  | nil => exact absurd rfl some_entry
  | cons e es ih =>
      have front_word : ∀ p, f (g ++ p) = [g ++ p] := fun p =>
        across _ (List.mem_append_left p begins)
      have letters : g ≠ [] := List.ne_nil_of_mem begins
      have visible' : Solid blank [colon] := List.forall_mem_singleton.mpr visible
      cases es with
      | nil =>
          rw [join_singleton, expandWords_last solid front_word letters, expandEntries,
            join_singleton]
      | cons next es =>
          have rest := List.cons_ne_nil next es
          rw [join_cons rest, expandEntries, join_cons (expandEntries_ne_nil rest)]
          rcases solid_or_pieces blank e with whole | ⟨front, mid, q, split⟩
          · -- no blank: the entry and the separator join what is in front of them
            have step := ih rest (solid_append solid (solid_append whole visible'))
              (List.mem_append_right _ (List.mem_append_right _ (List.mem_singleton_self colon)))
            rw [inner_of_solid whole]
            simpa using step
          · have step := ih rest (solid_append (solid_last split) visible')
              (List.mem_append_right _ (List.mem_singleton_self colon))
            rw [List.append_assoc, List.singleton_append] at step
            have some_text : (words blank (q ++ colon :: join colon (next :: es))).flatMap f
                ≠ [] := by
              intro none
              rw [expandWords, none] at step
              have long := congrArg List.length step
              simp [join] at long
            have one : inner blank sep f e = _ := inner_of_pieces split
            rw [← List.cons_append,
              join_append (List.cons_ne_nil _ _) (List.cons_ne_nil _ _), join_singleton] at one
            rw [expandWords_pieces solid front_word letters split some_text, step, one]
            simp only [List.append_assoc, List.cons_append, List.nil_append]

/-! ### Texts that stay as they are -/

theorem length_le_flatMap {β : Type u} {k : β → List β} {l : List β} (some : ∀ a ∈ l, k a ≠ []) :
    l.length ≤ (l.flatMap k).length := by
  induction l with
  | nil => exact Nat.zero_le _
  | cons a l ih =>
      obtain ⟨here, there⟩ := List.forall_mem_cons.mp some
      have first := List.length_pos_iff.mpr here
      have others := ih there
      rw [List.flatMap_cons, List.length_append, List.length_cons]
      omega

/-- If a list comes out again, each of its elements does. -/
theorem eq_singleton_of_flatMap {β : Type u} {k : β → List β} {l : List β}
    (some : ∀ a ∈ l, k a ≠ []) (same : l.flatMap k = l) : ∀ a ∈ l, k a = [a] := by
  induction l with
  | nil => exact fun a inside => absurd inside List.not_mem_nil
  | cons a l ih =>
      obtain ⟨here, there⟩ := List.forall_mem_cons.mp some
      have first := List.length_pos_iff.mpr here
      have others := length_le_flatMap there
      have whole := congrArg List.length same
      rw [List.flatMap_cons, List.length_append, List.length_cons] at whole
      have one : (k a).length = [a].length := by rw [List.length_singleton]; omega
      rw [List.flatMap_cons, ← List.singleton_append] at same
      obtain ⟨head, tail⟩ := List.append_inj same one
      exact List.forall_mem_cons.mpr ⟨head, ih there tail⟩

variable (blank f) in
/-- The words that come out of a word. -/
def yield (w : List α) : List (List α) := (f w).flatMap (words blank)

variable (blank) in
/-- Words: not empty, and without blanks. -/
def AreWords (ws : List (List α)) : Prop := ∀ w ∈ ws, w ≠ [] ∧ Solid blank w

variable (blank f) in
/-- Something is left of each word, and a word that comes back was not replaced. -/
structure Steady : Prop where
  some_word : ∀ w, w ≠ [] → Solid blank w → yield blank f w ≠ []
  steady : ∀ w, w ≠ [] → Solid blank w → (yield blank f w).flatMap (yield blank f) = [w] →
    f w = [w]

variable {ws : List (List α)}

theorem areWords_words (s : List α) : AreWords blank (words blank s) := fun _ inside =>
  ⟨ne_nil_of_mem_words inside, solid_of_mem_words inside⟩

theorem areWords_filter (solid : ∀ p ∈ others, Solid blank p) :
    AreWords blank (others.filter (· ≠ [])) := fun p inside => by
  obtain ⟨member, letters⟩ := List.mem_filter.mp inside
  exact ⟨by simpa using letters, solid p member⟩

theorem areWords_yield (ws : List (List α)) : AreWords blank (ws.flatMap (yield blank f)) := by
  intro w inside
  obtain ⟨v, -, inside⟩ := List.mem_flatMap.mp inside
  obtain ⟨text, -, inside⟩ := List.mem_flatMap.mp inside
  exact areWords_words text w inside

theorem flatMap_eq_self {k : List α → List (List α)} (all : ∀ w ∈ ws, k w = [w]) :
    ws.flatMap k = ws := by
  induction ws with
  | nil => rfl
  | cons w ws ih =>
      obtain ⟨here, there⟩ := List.forall_mem_cons.mp all
      rw [List.flatMap_cons, here, ih there, List.singleton_append]

theorem flatMap_words (areWords : AreWords blank ws) : ws.flatMap (words blank) = ws :=
  flatMap_eq_self fun w inside => words_of_solid (areWords w inside).2 (areWords w inside).1

/-- Words that are not replaced come out as they are. -/
theorem flatMap_yield (areWords : AreWords blank ws) (fixed : ∀ w ∈ ws, f w = [w]) :
    ws.flatMap (yield blank f) = ws := by
  unfold yield
  rw [← List.flatMap_assoc, flatMap_eq_self fixed, flatMap_words areWords]

namespace Steady

variable (steady : Steady blank f)

include steady

theorem some_flatMap {w : List α} (letters : w ≠ []) (solid : Solid blank w) :
    (yield blank f w).flatMap (yield blank f) ≠ [] := by
  obtain ⟨v, others, one⟩ := List.exists_cons_of_ne_nil (steady.some_word w letters solid)
  have isWord : v ≠ [] ∧ Solid blank v :=
    areWords_yield [w] v (by rw [List.flatMap_singleton, one]; exact List.mem_cons_self)
  rw [one, List.flatMap_cons]
  exact List.append_ne_nil_of_left_ne_nil (steady.some_word v isWord.1 isWord.2) _

/-- Words that come back after two turns were not replaced. -/
theorem fixed_of_twice (areWords : AreWords blank ws)
    (same : (ws.flatMap (yield blank f)).flatMap (yield blank f) = ws) : ∀ w ∈ ws, f w = [w] := by
  rw [List.flatMap_assoc] at same
  have each := eq_singleton_of_flatMap (fun w inside =>
    steady.some_flatMap (areWords w inside).1 (areWords w inside).2) same
  exact fun w inside => steady.steady w (areWords w inside).1 (areWords w inside).2 (each w inside)

/-- So do those that come back at once. -/
theorem fixed_of_once (areWords : AreWords blank ws) (same : ws.flatMap (yield blank f) = ws) :
    ∀ w ∈ ws, f w = [w] :=
  steady.fixed_of_twice areWords (by rw [same, same])

end Steady

/-! ### Entries that stay as they are -/

theorem flatMap_flatMap_words (ws : List (List α)) :
    (ws.flatMap f).flatMap (words blank) = ws.flatMap (yield blank f) := List.flatMap_assoc

theorem areWords_behind (split : pieces blank e = front :: others) :
    AreWords blank (others.filter (· ≠ [])) :=
  areWords_filter fun _ inside => solid_of_mem_pieces (split ▸ List.mem_cons_of_mem _ inside)

theorem areWords_mid (split : pieces blank e = front :: (mid ++ [q])) :
    AreWords blank (mid.filter (· ≠ [])) :=
  areWords_filter fun _ inside =>
    solid_of_mem_pieces (split ▸ List.mem_cons_of_mem _ (List.mem_append_left _ inside))

theorem pieces_outer (gap : blank sep = true) (split : pieces blank e = front :: others) :
    pieces blank (outer blank sep f e) =
      front :: ((others.filter (· ≠ [])).flatMap f).flatMap (pieces blank) := by
  rw [outer_of_pieces split, pieces_join gap (List.cons_ne_nil _ _), List.flatMap_cons,
    pieces_of_solid (solid_front split), List.singleton_append]

theorem pieces_inner (gap : blank sep = true) (split : pieces blank e = front :: (mid ++ [q])) :
    pieces blank (inner blank sep f e) =
      front :: (((mid.filter (· ≠ [])).flatMap f).flatMap (pieces blank) ++ [q]) := by
  rw [inner_of_pieces split, pieces_join gap (List.cons_ne_nil _ _), List.flatMap_cons,
    List.flatMap_append, pieces_of_solid (solid_front split), List.flatMap_singleton,
    pieces_of_solid (solid_last split), List.singleton_append]

/-- A text that goes on in what replaces a piece. -/
theorem exists_text_of_infix {t p : List α} {ps : List (List α)} (letters : t ≠ [])
    (kept : ∀ w, t <:+: w → ∃ v ∈ f w, t <:+: v) (member : p ∈ ps) (inside : t <:+: p) :
    ∃ v ∈ (ps.filter (· ≠ [])).flatMap f, t <:+: v := by
  obtain ⟨v, comes, inside_v⟩ := kept p inside
  have some_letter : p ≠ [] := by
    rintro rfl
    exact letters (List.infix_nil.mp inside)
  have word : p ∈ ps.filter (· ≠ []) := List.mem_filter.mpr ⟨member, by simpa using some_letter⟩
  exact ⟨v, List.mem_flatMap.mpr ⟨p, word, comes⟩, inside_v⟩

/-- What is in every text that replaces a word is in the entry afterwards. -/
theorem infix_inner {t : List α} (solid : Solid blank t) (letters : t ≠ [])
    (kept : ∀ w, t <:+: w → ∃ v ∈ f w, t <:+: v) (inside : t <:+: e) :
    t <:+: inner blank sep f e := by
  rcases solid_or_pieces blank e with whole | ⟨front, mid, q, split⟩
  · rwa [inner_of_solid whole]
  · obtain ⟨p, member, inside⟩ := exists_piece_of_infix solid inside
    rw [inner_of_pieces split]
    rw [split, List.mem_cons, List.mem_append, List.mem_singleton] at member
    rcases member with rfl | member | rfl
    · exact inside.trans (infix_join List.mem_cons_self)
    · obtain ⟨v, comes, inside_v⟩ := exists_text_of_infix letters kept member inside
      exact inside_v.trans (infix_join (List.mem_cons_of_mem _ (List.mem_append_left _ comes)))
    · exact inside.trans (infix_join (List.mem_cons_of_mem _ (by simp)))

theorem infix_outer {t : List α} (solid : Solid blank t) (letters : t ≠ [])
    (kept : ∀ w, t <:+: w → ∃ v ∈ f w, t <:+: v) (inside : t <:+: e) :
    t <:+: outer blank sep f e := by
  obtain ⟨front, others, split⟩ := List.exists_cons_of_ne_nil (pieces_ne_nil blank e)
  obtain ⟨p, member, inside⟩ := exists_piece_of_infix solid inside
  rw [outer_of_pieces split]
  rw [split, List.mem_cons] at member
  rcases member with rfl | member
  · exact inside.trans (infix_join List.mem_cons_self)
  · obtain ⟨v, comes, inside_v⟩ := exists_text_of_infix letters kept member inside
    exact inside_v.trans (infix_join (List.mem_cons_of_mem _ comes))

section Absent

variable {c : α} (other : c ≠ sep) (clean_text : ∀ w, c ∉ w → ∀ v ∈ f w, c ∉ v)

theorem notMem_piece {p : List α} (clean : c ∉ e) (member : p ∈ pieces blank e) : c ∉ p :=
  fun inside => clean ((infix_of_mem_pieces member).subset inside)

include clean_text in
theorem notMem_texts {ps : List (List α)} (clean : ∀ p ∈ ps, c ∉ p) :
    ∀ v ∈ (ps.filter (· ≠ [])).flatMap f, c ∉ v := by
  intro v member
  obtain ⟨p, member, comes⟩ := List.mem_flatMap.mp member
  exact clean_text p (clean p (List.mem_of_mem_filter member)) v comes

include other clean_text

theorem notMem_outer (clean : c ∉ e) : c ∉ outer blank sep f e := by
  obtain ⟨front, others, split⟩ := List.exists_cons_of_ne_nil (pieces_ne_nil blank e)
  have pieces_clean : ∀ p ∈ front :: others, c ∉ p := fun p member =>
    notMem_piece clean (split ▸ member)
  obtain ⟨clean_front, clean_others⟩ := List.forall_mem_cons.mp pieces_clean
  rw [outer_of_pieces split]
  exact notMem_join other
    (List.forall_mem_cons.mpr ⟨clean_front, notMem_texts clean_text clean_others⟩)

theorem notMem_inner (clean : c ∉ e) : c ∉ inner blank sep f e := by
  rcases solid_or_pieces blank e with solid | ⟨front, mid, q, split⟩
  · rwa [inner_of_solid solid]
  · have pieces_clean : ∀ p ∈ front :: (mid ++ [q]), c ∉ p := fun p member =>
      notMem_piece clean (split ▸ member)
    obtain ⟨clean_front, clean_others⟩ := List.forall_mem_cons.mp pieces_clean
    obtain ⟨clean_mid, clean_last⟩ := List.forall_mem_append.mp clean_others
    rw [inner_of_pieces split]
    exact notMem_join other (List.forall_mem_cons.mpr ⟨clean_front,
      List.forall_mem_append.mpr ⟨notMem_texts clean_text clean_mid, clean_last⟩⟩)

/-- What is in no entry and in no text that replaces a word is in no entry afterwards. -/
theorem notMem_expandEntries (clean : ∀ e ∈ es, c ∉ e) :
    ∀ e ∈ expandEntries blank sep f es, c ∉ e := by
  induction es with
  | nil => exact clean
  | cons e es ih =>
      obtain ⟨here, there⟩ := List.forall_mem_cons.mp clean
      cases es with
      | nil =>
          exact List.forall_mem_singleton.mpr (notMem_outer other clean_text here)
      | cons next es =>
          exact List.forall_mem_cons.mpr ⟨notMem_inner other clean_text here, ih there⟩

end Absent

variable (steady : Steady blank f) (gap : blank sep = true)

include steady gap

theorem outer_of_outer_outer (same : outer blank sep f (outer blank sep f e) = e) :
    outer blank sep f e = e := by
  obtain ⟨front, others, split⟩ := List.exists_cons_of_ne_nil (pieces_ne_nil blank e)
  have once : pieces blank (outer blank sep f e) = _ := pieces_outer gap split
  have twice : pieces blank (outer blank sep f (outer blank sep f e)) = _ := pieces_outer gap once
  have areWords := areWords_behind split
  rw [same, split, filter_flatMap_pieces, flatMap_flatMap_words] at twice
  have back := congrArg (List.filter (· ≠ [])) (List.cons.inj twice).2
  rw [filter_flatMap_pieces, flatMap_flatMap_words] at back
  have fixed := steady.fixed_of_twice areWords back.symm
  calc outer blank sep f e
      = outer blank sep f (outer blank sep f e) := by
        rw [outer_of_pieces once, filter_flatMap_pieces, flatMap_flatMap_words,
          flatMap_yield areWords fixed, outer_of_pieces split]
    _ = e := same

theorem inner_of_inner_inner (same : inner blank sep f (inner blank sep f e) = e) :
    inner blank sep f e = e := by
  rcases solid_or_pieces blank e with solid | ⟨front, mid, q, split⟩
  · exact inner_of_solid solid
  · have once : pieces blank (inner blank sep f e) = _ := pieces_inner gap split
    have twice : pieces blank (inner blank sep f (inner blank sep f e)) = _ :=
      pieces_inner gap once
    have areWords := areWords_mid split
    rw [same, split, filter_flatMap_pieces, flatMap_flatMap_words] at twice
    have back := congrArg (List.filter (· ≠ []))
      (List.append_cancel_right (List.cons.inj twice).2)
    rw [filter_flatMap_pieces, flatMap_flatMap_words] at back
    have fixed := steady.fixed_of_twice areWords back.symm
    calc inner blank sep f e
        = inner blank sep f (inner blank sep f e) := by
          rw [inner_of_pieces once, filter_flatMap_pieces, flatMap_flatMap_words,
            flatMap_yield areWords fixed, inner_of_pieces split]
      _ = e := same

/-- An entry that becomes the last one. -/
theorem outer_of_outer_inner (same : outer blank sep f (inner blank sep f e) = e) :
    outer blank sep f e = e := by
  rcases solid_or_pieces blank e with solid | ⟨front, mid, q, split⟩
  · rwa [inner_of_solid solid] at same
  · have once : pieces blank (inner blank sep f e) = _ := pieces_inner gap split
    have twice : pieces blank (outer blank sep f (inner blank sep f e)) = _ :=
      pieces_outer gap once
    have areWords := areWords_behind split
    have areMid := areWords_mid split
    rw [List.filter_append] at areWords
    have areLast : AreWords blank ([q].filter (· ≠ [])) := fun w inside =>
      areWords w (List.mem_append_right _ inside)
    rw [same, split, List.filter_append, filter_flatMap_pieces, flatMap_flatMap_words] at twice
    have back := congrArg (List.filter (· ≠ [])) (List.cons.inj twice).2
    rw [filter_flatMap_pieces, flatMap_flatMap_words, List.filter_append,
      List.flatMap_append] at back
    have long := congrArg List.length back
    have long_mid := length_le_flatMap fun w inside =>
      steady.some_flatMap (areMid w inside).1 (areMid w inside).2
    have long_last := length_le_flatMap fun w inside =>
      steady.some_word w (areLast w inside).1 (areLast w inside).2
    rw [← List.flatMap_assoc] at long_mid
    rw [List.length_append, List.length_append] at long
    obtain ⟨back_mid, back_last⟩ := List.append_inj back (by omega)
    have fixed_mid := steady.fixed_of_twice areMid back_mid.symm
    have fixed_last := steady.fixed_of_once areLast back_last.symm
    calc outer blank sep f e
        = outer blank sep f (inner blank sep f e) := by
          rw [outer_of_pieces once, List.filter_append, filter_flatMap_pieces,
            flatMap_flatMap_words, flatMap_yield areMid fixed_mid, outer_of_pieces split,
            List.filter_append]
      _ = e := same

theorem inner_of_outer (same : outer blank sep f e = e) : inner blank sep f e = e := by
  rcases solid_or_pieces blank e with solid | ⟨front, mid, q, split⟩
  · exact inner_of_solid solid
  · have once : pieces blank (outer blank sep f e) = _ := pieces_outer gap split
    have areWords := areWords_behind split
    rw [same, split] at once
    have back := congrArg (List.filter (· ≠ [])) (List.cons.inj once).2
    rw [filter_flatMap_pieces, flatMap_flatMap_words] at back
    have fixed := steady.fixed_of_once areWords back.symm
    have all := (List.cons.inj once).2
    rw [flatMap_eq_self fixed, flatMap_eq_self fun w inside =>
      pieces_of_solid (areWords w inside).2] at all
    -- no piece is empty, so the last one is a word
    rw [← all] at fixed
    have letters : mid.filter (· ≠ []) = mid := List.filter_eq_self.mpr fun p inside => by
      have member : p ∈ (mid ++ [q]).filter (· ≠ []) := all ▸ List.mem_append_left _ inside
      exact (List.mem_filter.mp member).2
    calc inner blank sep f e
        = join sep (front :: (mid ++ [q])) := by
          rw [inner_of_pieces split, letters,
            flatMap_eq_self fun w inside => fixed w (List.mem_append_left _ inside)]
      _ = outer blank sep f e := by
          rw [outer_of_pieces split, ← all, flatMap_eq_self fixed]
      _ = e := same

/-! ### Entries that are left out -/

omit steady gap

variable {keep : List α → Bool}

variable (blank sep f keep) in
/-- What is left out is left out after it was expanded, too. -/
structure Drops : Prop where
  of_inner : ∀ e, keep e = false → keep (inner blank sep f e) = false
  of_outer : ∀ e, keep e = false → keep (outer blank sep f e) = false

theorem length_filter_cons_le (e : List α) (es : List (List α)) :
    ((e :: es).filter keep).length ≤ (es.filter keep).length + 1 := by
  rw [List.filter_cons]
  split
  · exact Nat.le_of_eq (List.length_cons ..)
  · exact Nat.le_succ _

/-- No entry comes back. -/
theorem Drops.length_le (drops : Drops blank sep f keep) (es : List (List α)) :
    ((expandEntries blank sep f es).filter keep).length ≤ (es.filter keep).length := by
  induction es with
  | nil => exact Nat.le_refl 0
  | cons e es ih =>
      cases es with
      | nil =>
          rw [expandEntries]
          cases kept : keep e with
          | false => simp [drops.of_outer e kept]
          | true => simpa [kept] using List.length_filter_le keep [outer blank sep f e]
      | cons next es =>
          rw [expandEntries]
          cases kept : keep e with
          | false =>
              rw [List.filter_cons_of_neg (by simp [drops.of_inner e kept]),
                List.filter_cons_of_neg (by simp [kept])]
              exact ih
          | true =>
              rw [List.filter_cons_of_pos kept, List.length_cons]
              exact Nat.le_trans (length_filter_cons_le _ _) (Nat.succ_le_succ ih)

include steady gap

/-- If what is wanted stays when it is expanded, it is what is left of everything that was
expanded. -/
theorem Drops.filter_expandEntries (drops : Drops blank sep f keep)
    (same : expandEntries blank sep f (es.filter keep) = es.filter keep) :
    (expandEntries blank sep f es).filter keep = es.filter keep := by
  induction es with
  | nil => rfl
  | cons e es ih =>
      cases es with
      | nil =>
          rw [expandEntries]
          cases kept : keep e with
          | false => simp [kept, drops.of_outer e kept]
          | true =>
              rw [List.filter_cons_of_pos kept, List.filter_nil, expandEntries] at same
              rw [same]
      | cons next es =>
          rw [expandEntries]
          cases kept : keep e with
          | false =>
              have kept' := drops.of_inner e kept
              rw [List.filter_cons_of_neg (Bool.eq_false_iff.mp kept)] at same ⊢
              rw [List.filter_cons_of_neg (Bool.eq_false_iff.mp kept')]
              exact ih same
          | true =>
              rw [List.filter_cons_of_pos kept] at same ⊢
              rcases whole : (next :: es).filter keep with _ | ⟨k, ks⟩
              · -- the last entry that is wanted, and others behind it
                rw [whole, expandEntries] at same
                have stays := inner_of_outer steady gap (List.cons.inj same).1
                rw [whole] at ih
                rw [stays, List.filter_cons_of_pos kept, ih rfl]
              · rw [whole, expandEntries] at same
                obtain ⟨stays, others⟩ := List.cons.inj same
                rw [whole] at ih
                rw [stays, List.filter_cons_of_pos kept, ih others]

/-- If what is wanted comes back after two turns, expanding it leaves it as it is. -/
theorem Drops.expandEntries_filter (drops : Drops blank sep f keep)
    (same : expandEntries blank sep f ((expandEntries blank sep f es).filter keep) =
      es.filter keep) :
    expandEntries blank sep f (es.filter keep) = es.filter keep := by
  have long := congrArg List.length same
  rw [length_expandEntries] at long
  induction es with
  | nil => rfl
  | cons e es ih =>
      cases es with
      | nil =>
          cases kept : keep e with
          | false => simp [kept, expandEntries]
          | true =>
              rw [expandEntries, List.filter_cons_of_pos kept, List.filter_nil] at same long
              have kept' : keep (outer blank sep f e) = true := by
                by_contra lost
                simp [lost] at long
              rw [List.filter_cons_of_pos kept', List.filter_nil, expandEntries] at same
              rw [List.filter_cons_of_pos kept, List.filter_nil, expandEntries,
                outer_of_outer_outer steady gap (List.cons.inj same).1]
      | cons next es =>
          rw [expandEntries] at same long
          cases kept : keep e with
          | false =>
              have skip := List.filter_cons_of_neg (l := next :: es) (Bool.eq_false_iff.mp kept)
              have skip' := List.filter_cons_of_neg (l := expandEntries blank sep f (next :: es))
                (Bool.eq_false_iff.mp (drops.of_inner e kept))
              rw [skip, skip'] at same long
              rw [skip]
              exact ih same long
          | true =>
              rw [List.filter_cons_of_pos kept] at same long ⊢
              have fewer := drops.length_le (next :: es)
              have kept' : keep (inner blank sep f e) = true := by
                by_contra lost
                rw [List.filter_cons_of_neg lost, List.length_cons] at long
                omega
              rw [List.filter_cons_of_pos kept'] at same long
              rw [List.length_cons, List.length_cons, Nat.succ_inj] at long
              rcases left : (expandEntries blank sep f (next :: es)).filter keep with _ | ⟨k, ks⟩
              · rw [left] at same long
                have none := List.length_eq_zero_iff.mp long.symm
                rw [none, expandEntries] at same ⊢
                rw [outer_of_outer_inner steady gap (List.cons.inj same).1]
              · rw [left, expandEntries] at same
                obtain ⟨stays, others⟩ := List.cons.inj same
                rw [← left] at others
                have step := ih others long
                have some_other : (next :: es).filter keep ≠ [] := by
                  intro none
                  rw [left, none] at long
                  cases long
                obtain ⟨k', ks', whole⟩ := List.exists_cons_of_ne_nil some_other
                rw [whole] at step ⊢
                rw [expandEntries, inner_of_inner_inner steady gap stays, step]

/-- **What comes out is what is wanted** if and only if expanding that leaves it as it is. -/
theorem expandEntries_filter_iff (drops : Drops blank sep f keep) :
    expandEntries blank sep f ((expandEntries blank sep f es).filter keep) = es.filter keep ↔
      expandEntries blank sep f (es.filter keep) = es.filter keep := by
  refine ⟨drops.expandEntries_filter steady gap, fun same => ?_⟩
  rw [drops.filter_expandEntries steady gap same, same]

/-- **A text stays** if there are single blanks between its words, and none of them is
replaced. -/
theorem expandWords_eq_self_iff {s : List α} :
    expandWords blank sep f s = s ↔
      join sep (words blank s) = s ∧ ∀ w ∈ words blank s, f w = [w] := by
  constructor
  · intro same
    have back := congrArg (words blank) same
    rw [expandWords, words_join gap, flatMap_flatMap_words] at back
    have fixed := steady.fixed_of_once (areWords_words s) back
    rw [expandWords, flatMap_eq_self fixed] at same
    exact ⟨same, fixed⟩
  · rintro ⟨same, fixed⟩
    rw [expandWords, flatMap_eq_self fixed, same]

end MsysGit.Library
