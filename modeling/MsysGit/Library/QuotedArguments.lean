import Mathlib.Data.List.TakeWhile
import Mathlib.Data.Nat.Notation
import Mathlib.Tactic.Common
import MsysGit.Library.FirstOccurrence

/-!
# Command lines and their arguments

The documented rules by which a Windows command line becomes a list of arguments.
Arguments are separated by spaces and tabs outside quotes.  A quote begins or ends a
quoted part, unless an odd number of backslashes stands before it; backslashes are
only special in front of a quote.

A `Reader` is what is known after a part of the text.  The module answers one question
in general: when a front part of a text is cut off at a blank, are the arguments of
the rest the last arguments of the whole text?  They are when the front part has the
right number of arguments (`arguments_cut`), and otherwise only by accident, when
nothing visible is left to read (`of_arguments_cut`).

Two invariants carry the second direction.  How many visible characters there are in
the arguments does not depend on the quotes (`ink_run`).  What stands before the first
visible character is settled once it is read (`lead_run`), so that two readers, of
which one is inside quotes and the other is not, must disagree as soon as there is
something visible (`Opposite.lead_finish`).
-/

namespace MsysGit.Library

/-- The separators. -/
def isBlank (c : Char) : Bool := c = ' ' || c = '\t'

theorem ne_slash_of_isBlank {c : Char} (blank : isBlank c = true) : c ≠ '\\' := by
  rintro rfl
  exact absurd blank (by decide)

theorem ne_quote_of_isBlank {c : Char} (blank : isBlank c = true) : c ≠ '"' := by
  rintro rfl
  exact absurd blank (by decide)

/-- What is known after a part of a command line. -/
structure Reader where
  /-- Inside quotes. -/
  quoted : Bool
  /-- The number of backslashes just read. -/
  slashes : ℕ
  /-- The argument being read, without those backslashes. -/
  current : Option (List Char)
  done : List (List Char)

namespace Reader

/-- Nothing is read yet. -/
def start : Reader where
  quoted := false
  slashes := 0
  current := none
  done := []

variable (r : Reader)

/-- The argument being read, if no quote follows. -/
def text : List Char := r.current.getD [] ++ List.replicate r.slashes '\\'

/-- The arguments, if the text ends here. -/
def finish : List (List Char) :=
  if r.current = none ∧ r.slashes = 0 then r.done else r.done ++ [r.text]

/-- One more character. -/
def step (c : Char) : Reader :=
  if c = '\\' then { r with slashes := r.slashes + 1 }
  else if c = '"' then
    let text := r.current.getD [] ++ List.replicate (r.slashes / 2) '\\'
    if r.slashes % 2 = 1 then { r with slashes := 0, current := some (text ++ ['"']) }
    else { r with quoted := !r.quoted, slashes := 0, current := some text }
  else if isBlank c && !r.quoted then
    { r with slashes := 0, current := none, done := r.finish }
  else { r with slashes := 0, current := some (r.text ++ [c]) }

/-- More of the text. -/
def run (s : List Char) : Reader := s.foldl step r

end Reader

/-- The arguments in a text. -/
def arguments (s : List Char) : List (List Char) := (Reader.start.run s).finish

/-- The program's name: in quotes, or up to the first blank. -/
def programName : List Char → List Char
  | '"' :: s => s.takeWhile (· ≠ '"')
  | s => s.takeWhile fun c => !isBlank c

/-- What follows the program's name. -/
def afterProgram : List Char → List Char
  | '"' :: s => (s.dropWhile (· ≠ '"')).tail
  | s => s.dropWhile fun c => !isBlank c

/-- The program's name and the arguments. -/
def commandLineToArgvW (s : List Char) : List (List Char) :=
  programName s :: arguments (afterProgram s)

/-- A text that is empty or begins with a blank: what is before it ends there. -/
def Separate (s : List Char) : Prop := ∀ c ∈ s.head?, isBlank c = true

theorem separate_cons {c : Char} {s : List Char} (blank : isBlank c = true) : Separate (c :: s) :=
  fun _ first => Option.some.inj first ▸ blank

theorem forall_visible_of_all {s : List Char} (all : s.all (fun c => !isBlank c) = true) :
    ∀ c ∈ s, isBlank c = false := fun c mem => by
  have visible := List.all_eq_true.mp all c mem
  exact Bool.not_eq_eq_eq_not.mp visible

/-! ### One character -/

namespace Reader

variable {r : Reader} {c : Char} {s t : List Char}

theorem step_slash : r.step '\\' = { r with slashes := r.slashes + 1 } := rfl

theorem step_quote_odd (odd : r.slashes % 2 = 1) :
    r.step '"' = { r with
      slashes := 0
      current := some (r.current.getD [] ++ List.replicate (r.slashes / 2) '\\' ++ ['"']) } := by
  rw [step, if_neg (by decide), if_pos rfl]
  exact if_pos odd

theorem step_quote_even (even : r.slashes % 2 ≠ 1) :
    r.step '"' = { r with
      quoted := !r.quoted
      slashes := 0
      current := some (r.current.getD [] ++ List.replicate (r.slashes / 2) '\\') } := by
  rw [step, if_neg (by decide), if_pos rfl]
  exact if_neg even

theorem step_bare_quote (no_slash : r.slashes = 0) :
    r.step '"' = { r with quoted := !r.quoted, current := some (r.current.getD []) } := by
  rw [step_quote_even (by rw [no_slash]; decide), no_slash]
  simp

theorem step_blank (blank : isBlank c = true) (outside : r.quoted = false) :
    r.step c = { r with slashes := 0, current := none, done := r.finish } := by
  rw [step, if_neg (ne_slash_of_isBlank blank), if_neg (ne_quote_of_isBlank blank), blank, outside]
  rfl

theorem step_other (not_slash : c ≠ '\\') (not_quote : c ≠ '"')
    (inside : isBlank c = true → r.quoted = true) :
    r.step c = { r with slashes := 0, current := some (r.text ++ [c]) } := by
  have kept : ¬(isBlank c && !r.quoted) = true := by
    intro blank
    simp only [Bool.and_eq_true, Bool.not_eq_true'] at blank
    exact absurd (inside blank.1) (by rw [blank.2]; decide)
  rw [step, if_neg not_slash, if_neg not_quote, if_neg kept]

/-- **What a character does.**  It is a backslash, a quote that is escaped or not, a
separator, or any other character. -/
theorem step_cases (P : Char → Reader → Prop)
    (slash : P '\\' { r with slashes := r.slashes + 1 })
    (quote_odd : r.slashes % 2 = 1 → P '"' { r with
      slashes := 0
      current := some (r.current.getD [] ++ List.replicate (r.slashes / 2) '\\' ++ ['"']) })
    (quote_even : r.slashes % 2 ≠ 1 → P '"' { r with
      quoted := !r.quoted
      slashes := 0
      current := some (r.current.getD [] ++ List.replicate (r.slashes / 2) '\\') })
    (blank : ∀ c, isBlank c = true → r.quoted = false →
      P c { r with slashes := 0, current := none, done := r.finish })
    (other : ∀ c, c ≠ '\\' → c ≠ '"' → (isBlank c = true → r.quoted = true) →
      P c { r with slashes := 0, current := some (r.text ++ [c]) }) (c : Char) :
    P c (r.step c) := by
  by_cases is_slash : c = '\\'
  · subst is_slash
    exact slash
  by_cases is_quote : c = '"'
  · subst is_quote
    by_cases odd : r.slashes % 2 = 1
    · rw [step_quote_odd odd]
      exact quote_odd odd
    · rw [step_quote_even odd]
      exact quote_even odd
  by_cases separator : isBlank c = true ∧ r.quoted = false
  · rw [step_blank separator.1 separator.2]
    exact blank c separator.1 separator.2
  · have inside : isBlank c = true → r.quoted = true := by
      intro is_blank
      by_contra outside
      exact separator ⟨is_blank, Bool.eq_false_iff.mpr outside⟩
    rw [step_other is_slash is_quote inside]
    exact other c is_slash is_quote inside

theorem run_cons : r.run (c :: s) = (r.step c).run s := rfl

theorem run_append : r.run (s ++ t) = (r.run s).run t := List.foldl_append

/-! ### Reading in parts -/

theorem finish_of_current {arg : List Char} (reading : r.current = some arg) :
    r.finish = r.done ++ [r.text] := by
  rw [finish, if_neg]
  rw [reading]
  simp

/-- The text of an argument that does not end in backslashes. -/
theorem text_mk (quoted : Bool) (arg : List Char) (done : List (List Char)) :
    (Reader.mk quoted 0 (some arg) done).text = arg := List.append_nil arg

theorem text_of_no_slash (no_slash : r.slashes = 0) : r.text = r.current.getD [] := by
  rw [text, no_slash, List.replicate_zero, List.append_nil]

theorem text_of_nothing (nothing : r.current = none ∧ r.slashes = 0) : r.text = [] := by
  rw [text, nothing.1, nothing.2]
  rfl

theorem finish_of_text (something : r.text ≠ []) : r.finish = r.done ++ [r.text] :=
  if_neg fun nothing => something (text_of_nothing nothing)

/-- A reader that has more arguments behind it. -/
def behind (r : Reader) (earlier : List (List Char)) : Reader :=
  { r with done := earlier ++ r.done }

theorem finish_behind (earlier : List (List Char)) :
    (r.behind earlier).finish = earlier ++ r.finish := by
  by_cases nothing : r.current = none ∧ r.slashes = 0
  · rw [finish, finish, if_pos nothing]
    exact if_pos nothing
  · rw [finish, finish, if_neg nothing, ← List.append_assoc]
    exact if_neg nothing

theorem step_behind (earlier : List (List Char)) :
    (r.behind earlier).step c = (r.step c).behind earlier := by
  refine step_cases (fun c after => (r.behind earlier).step c = after.behind earlier)
    ?_ ?_ ?_ ?_ ?_ c
  · rfl
  · exact fun odd => step_quote_odd odd
  · exact fun even => step_quote_even even
  · intro c blank outside
    rw [step_blank (r := r.behind earlier) blank outside, finish_behind]
    rfl
  · exact fun c not_slash not_quote inside => step_other not_slash not_quote inside

theorem run_behind (earlier : List (List Char)) :
    (r.behind earlier).run s = (r.run s).behind earlier := by
  induction s generalizing r with
  | nil => rfl
  | cons c s ih => rw [run_cons, step_behind, ih, run_cons]

/-- **A blank outside quotes** ends what was read, and reading begins anew. -/
theorem finish_run_blank (outside : r.quoted = false) (blank : isBlank c = true) :
    (r.run (c :: s)).finish = r.finish ++ arguments s := by
  have begun : r.step c = start.behind r.finish := by
    rw [step_blank blank outside]
    simp [behind, start, outside]
  rw [run_cons, begun, run_behind, finish_behind, arguments]

end Reader

open Reader

theorem arguments_blank {c : Char} (s : List Char) (blank : isBlank c = true) :
    arguments (c :: s) = arguments s :=
  finish_run_blank (r := start) rfl blank

/-- **Texts side by side.**  If the first ends outside quotes and the second begins
with a blank, their arguments are those of the one and then those of the other. -/
theorem arguments_append {s t : List Char} (outside : (start.run s).quoted = false)
    (separate : Separate t) : arguments (s ++ t) = arguments s ++ arguments t := by
  cases t with
  | nil => rw [List.append_nil, show arguments [] = [] from rfl, List.append_nil]
  | cons c t =>
      have blank : isBlank c = true := separate c rfl
      rw [arguments, run_append, finish_run_blank outside blank, arguments_blank t blank]
      rfl

/-! ### What is visible -/

/-- The number of visible characters. -/
def ink (args : List (List Char)) : ℕ := args.flatten.countP fun c => !isBlank c

theorem ink_append (args more : List (List Char)) : ink (args ++ more) = ink args + ink more := by
  rw [ink, List.flatten_append, List.countP_append, ink, ink]

theorem ink_singleton_append (s t : List Char) : ink [s ++ t] = ink [s] + ink [t] := by
  simp [ink, List.countP_append]

theorem ink_slashes (k : ℕ) : ink [List.replicate k '\\'] = k := by
  simp [ink, List.countP_replicate, isBlank]

theorem ink_eq_zero {args : List (List Char)} :
    ink args = 0 ↔ ∀ arg ∈ args, ∀ c ∈ arg, isBlank c = true := by
  rw [ink, List.countP_eq_zero, List.forall_mem_flatten]
  simp

/-- The visible characters that a text adds when it is read after some backslashes.
Quotes make no difference to it. -/
def inkAfter : ℕ → List Char → ℕ
  | k, [] => k
  | k, c :: s =>
      if c = '\\' then inkAfter (k + 1) s
      else if c = '"' then k / 2 + k % 2 + inkAfter 0 s
      else k + (if isBlank c then 0 else 1) + inkAfter 0 s

theorem inkAfter_quote (k : ℕ) (s : List Char) :
    inkAfter k ('"' :: s) = k / 2 + k % 2 + inkAfter 0 s := by
  rw [inkAfter, if_neg (by decide), if_pos rfl]

theorem inkAfter_other {c : Char} {k : ℕ} {s : List Char} (not_slash : c ≠ '\\')
    (not_quote : c ≠ '"') :
    inkAfter k (c :: s) = k + (if isBlank c then 0 else 1) + inkAfter 0 s := by
  rw [inkAfter, if_neg not_slash, if_neg not_quote]

namespace Reader

variable {r : Reader} {c : Char} {s t : List Char}

/-- The visible characters so far, without the backslashes just read. -/
def inkSoFar (r : Reader) : ℕ := ink r.done + ink [r.current.getD []]

theorem ink_text : ink [r.text] = ink [r.current.getD []] + r.slashes := by
  rw [text, ink_singleton_append, ink_slashes]

theorem ink_finish : ink r.finish = r.inkSoFar + r.slashes := by
  by_cases nothing : r.current = none ∧ r.slashes = 0
  · rw [finish, if_pos nothing, inkSoFar, nothing.1, nothing.2]
    rfl
  · rw [finish, if_neg nothing, ink_append, ink_text, inkSoFar, Nat.add_assoc]

/-- One character adds what `inkAfter` says of it. -/
theorem ink_step (s : List Char) :
    (r.step c).inkSoFar + inkAfter (r.step c).slashes s
      = r.inkSoFar + inkAfter r.slashes (c :: s) := by
  refine step_cases (fun c after => after.inkSoFar + inkAfter after.slashes s
    = r.inkSoFar + inkAfter r.slashes (c :: s)) ?_ ?_ ?_ ?_ ?_ c
  · rfl
  · intro odd
    have escaped : ink [['"']] = 1 := rfl
    rw [inkAfter_quote, odd]
    simp only [inkSoFar, Option.getD_some, ink_singleton_append, ink_slashes, escaped]
    omega
  · intro even
    rw [inkAfter_quote, Nat.mod_two_ne_one.mp even]
    simp only [inkSoFar, Option.getD_some, ink_singleton_append, ink_slashes]
    omega
  · intro c blank outside
    have empty : ink [[]] = 0 := rfl
    rw [inkAfter_other (ne_slash_of_isBlank blank) (ne_quote_of_isBlank blank), if_pos blank]
    simp only [inkSoFar, Option.getD_none, ink_finish, empty]
    omega
  · intro c not_slash not_quote inside
    have new : ink [[c]] = if isBlank c then 0 else 1 := by
      simp [ink, List.countP_cons]
      split <;> simp_all
    rw [inkAfter_other not_slash not_quote]
    simp only [inkSoFar, Option.getD_some, ink_singleton_append, ink_text, new]
    omega

/-- **The visible characters** of all arguments are counted without looking at quotes. -/
theorem ink_run : ink (r.run s).finish = r.inkSoFar + inkAfter r.slashes s := by
  induction s generalizing r with
  | nil => exact ink_finish
  | cons c s ih => rw [run_cons, ih, ink_step]

end Reader

/-! ### What stands before the first visible character -/

/-- The blanks in front of the first visible character, if there is one. -/
def margin : List Char → Option (List Char)
  | [] => none
  | c :: s => if isBlank c then (margin s).map (c :: ·) else some []

/-- The blanks in front of the first visible character of the first argument that has
one. -/
def lead (args : List (List Char)) : Option (List Char) := args.findSome? margin

theorem margin_append (s t : List Char) :
    margin (s ++ t) = (margin s).or ((margin t).map (s ++ ·)) := by
  induction s with
  | nil => simp [margin]
  | cons c s ih =>
      rw [List.cons_append, margin, margin]
      split
      · rw [ih, Option.map_or, Option.map_map]
        rfl
      · rfl

theorem margin_eq_none {s : List Char} : margin s = none ↔ ∀ c ∈ s, isBlank c = true := by
  induction s with
  | nil => simp [margin]
  | cons c s ih =>
      rw [margin, List.forall_mem_cons]
      split
      · rename_i blank
        simp [ih, blank]
      · rename_i visible
        simp [visible]

theorem lead_eq_none {args : List (List Char)} :
    lead args = none ↔ ∀ arg ∈ args, ∀ c ∈ arg, isBlank c = true := by
  simp only [lead, List.findSome?_eq_none_iff, margin_eq_none]

theorem lead_append (args more : List (List Char)) :
    lead (args ++ more) = (lead args).or (lead more) := List.findSome?_append

theorem lead_singleton (arg : List Char) : lead [arg] = margin arg := by
  simp [lead]

/-- What is visible and follows does not matter. -/
theorem margin_visible {c : Char} (visible : isBlank c = false) (s t : List Char) :
    margin (s ++ c :: t) = (margin s).or (some s) := by
  rw [margin_append, margin, if_neg (by rw [visible]; decide)]
  simp

namespace Reader

variable {r : Reader} {c : Char} {s t : List Char} {p : List Char}

/-- What stands before the first visible character that was read. -/
def lead (r : Reader) : Option (List Char) := (Library.lead r.done).or (margin r.text)

theorem lead_finish : Library.lead r.finish = r.lead := by
  by_cases nothing : r.current = none ∧ r.slashes = 0
  · rw [finish, if_pos nothing, lead, text_of_nothing nothing]
    simp [margin]
  · rw [finish, if_neg nothing, lead_append, lead_singleton, lead]

/-- A backslash is visible. -/
theorem margin_slashes {k : ℕ} (some_slash : k ≠ 0) :
    margin (s ++ List.replicate k '\\') = (margin s).or (some s) := by
  obtain ⟨n, rfl⟩ := Nat.exists_eq_succ_of_ne_zero some_slash
  exact margin_visible rfl s _

theorem margin_slashes_quote (k : ℕ) :
    margin (s ++ List.replicate k '\\' ++ ['"']) = (margin s).or (some s) := by
  rw [List.append_assoc]
  cases k with
  | zero => exact margin_visible rfl s []
  | succ n => exact margin_visible rfl s _

theorem lead_extend {after : Reader} {more : List Char} (known : r.lead = some p)
    (done : after.done = r.done) (text : after.text = r.text ++ more) : after.lead = some p := by
  rw [lead, done, text, margin_append, ← Option.or_assoc]
  show (r.lead).or _ = some p
  rw [known, Option.some_or]

theorem lead_keep {after : Reader} (known : r.lead = some p) (done : after.done = r.done)
    (text : margin after.text = margin r.text) : after.lead = some p := by
  rw [lead, done, text]
  exact known

/-- **What stands before the first visible character** is settled when that is read. -/
theorem lead_step (known : r.lead = some p) : (r.step c).lead = some p := by
  refine step_cases (fun _ after => after.lead = some p) ?_ ?_ ?_ ?_ ?_ c
  · refine lead_extend known rfl (?_ : _ = r.text ++ ['\\'])
    rw [text, text, List.replicate_succ', ← List.append_assoc]
  · intro odd
    have some_slash : r.slashes ≠ 0 := by
      intro no_slash
      rw [no_slash] at odd
      exact absurd odd (by decide)
    -- The first visible character is one of the backslashes, or before them.
    have settled : margin r.text = _ := margin_slashes some_slash
    refine lead_keep known rfl ?_
    rw [settled, text_mk, margin_slashes_quote]
  · intro even
    refine lead_keep known rfl ?_
    rw [text_mk, text]
    by_cases no_slash : r.slashes = 0
    · rw [no_slash]
    · -- Half of the backslashes stay, and that is one at least.
      have half : r.slashes / 2 ≠ 0 := by omega
      rw [margin_slashes no_slash, margin_slashes half]
  · intro c blank outside
    rw [lead, lead_finish, known, Option.some_or]
  · intro c not_slash not_quote inside
    refine lead_extend known rfl (?_ : _ = r.text ++ [c])
    rw [text_mk]

theorem lead_run (known : r.lead = some p) : (r.run s).lead = some p := by
  induction s generalizing r with
  | nil => exact known
  | cons c s ih => exact ih (lead_step known)

/-- The first visible character settles what stands before it. -/
theorem lead_step_visible (no_slash : r.slashes = 0) (unknown : r.lead = none)
    (visible : isBlank c = false) (not_quote : c ≠ '"') :
    (r.step c).lead = some (r.current.getD []) := by
  have text_eq := text_of_no_slash no_slash
  rw [lead, text_eq, Option.or_eq_none_iff] at unknown
  by_cases is_slash : c = '\\'
  · subst is_slash
    rw [step_slash, lead, unknown.1, text, no_slash, Option.none_or]
    rw [margin_slashes (Nat.succ_ne_zero 0), unknown.2, Option.none_or]
  · rw [step_other is_slash not_quote (by rw [visible]; exact nofun), lead, unknown.1,
      Option.none_or, text_mk, text_eq, margin_visible visible, unknown.2, Option.none_or]

/-! ### Reading the same text inside and outside quotes -/

/-- Two readers that have seen blanks only, one of them inside quotes and the other not;
one of them is in the middle of an argument and the other is not. -/
structure Opposite (a b : Reader) : Prop where
  slashes_left : a.slashes = 0
  slashes_right : b.slashes = 0
  quoted : a.quoted = !b.quoted
  lead_left : a.lead = none
  lead_right : b.lead = none
  uneven : a.current.getD [] = [] ↔ b.current.getD [] ≠ []

namespace Opposite

variable {a b : Reader}

theorem symm (opposite : Opposite a b) : Opposite b a where
  slashes_left := opposite.slashes_right
  slashes_right := opposite.slashes_left
  quoted := by rw [opposite.quoted, Bool.not_not]
  lead_left := opposite.lead_right
  lead_right := opposite.lead_left
  uneven := by
    have uneven := opposite.uneven
    tauto

theorem step_quote (opposite : Opposite a b) : Opposite (a.step '"') (b.step '"') := by
  rw [step_bare_quote opposite.slashes_left, step_bare_quote opposite.slashes_right]
  exact
    { opposite with
      quoted := by rw [opposite.quoted] }

/-- A blank that separates for one reader and belongs to an argument for the other. -/
theorem begin_blank (inside : a.quoted = true) (outside : b.quoted = false)
    (left : a.lead = none) (right : b.lead = none) (blank : isBlank c = true) :
    Opposite (a.step c) (b.step c) := by
  rw [lead, Option.or_eq_none_iff] at left
  rw [Reader.step_blank blank outside,
    step_other (ne_slash_of_isBlank blank) (ne_quote_of_isBlank blank) fun _ => inside]
  exact
    { slashes_left := rfl
      slashes_right := rfl
      quoted := by rw [inside, outside]; rfl
      lead_left := by
        rw [lead, left.1, text_mk, margin_append, left.2]
        simp [margin, blank]
      lead_right := by rw [lead, lead_finish, right]; rfl
      uneven := by simp }

theorem step_blank (opposite : Opposite a b) (blank : isBlank c = true) :
    Opposite (a.step c) (b.step c) := by
  have quoted := opposite.quoted
  by_cases inside : b.quoted = true
  · rw [inside] at quoted
    exact (begin_blank inside quoted opposite.lead_right opposite.lead_left blank).symm
  · have outside := Bool.eq_false_iff.mpr inside
    rw [outside] at quoted
    exact begin_blank quoted outside opposite.lead_left opposite.lead_right blank

/-- **Opposite readers agree on blanks only.**  The first visible character would get
different blanks in front of it. -/
theorem lead_finish_run (opposite : Opposite a b) (agree : (a.run s).finish = (b.run s).finish) :
    Library.lead (a.run s).finish = none := by
  induction s generalizing a b with
  | nil => exact lead_finish.trans opposite.lead_left
  | cons c s ih =>
      rw [run_cons] at agree ⊢
      by_cases is_quote : c = '"'
      · subst is_quote
        exact ih opposite.step_quote agree
      by_cases blank : isBlank c = true
      · exact ih (opposite.step_blank blank) agree
      · -- One of the readers has blanks in front of this character, the other has none.
        have visible : isBlank c = false := Bool.eq_false_iff.mpr blank
        have left := lead_run (s := s)
          (lead_step_visible opposite.slashes_left opposite.lead_left visible is_quote)
        have right := lead_run (s := s)
          (lead_step_visible opposite.slashes_right opposite.lead_right visible is_quote)
        have same : a.current.getD [] = b.current.getD [] := by
          rw [← lead_finish, agree, lead_finish] at left
          exact Option.some.inj (left.symm.trans right)
        have uneven := opposite.uneven
        rw [same] at uneven
        tauto

end Opposite

/-! ### Cutting off a front part -/

/-- Inside quotes there is an argument to which the next characters belong. -/
theorem reading_of_quoted (reading : r.quoted = true → r.current ≠ none) :
    (r.run s).quoted = true → (r.run s).current ≠ none := by
  induction s generalizing r with
  | nil => exact reading
  | cons c s ih =>
      refine ih ?_
      refine step_cases (fun _ after => after.quoted = true → after.current ≠ none)
        reading (fun _ _ => ?_) (fun _ _ => ?_) ?_ (fun _ _ _ _ _ => ?_) c
      · exact Option.some_ne_none _
      · exact Option.some_ne_none _
      · intro c _ outside inside
        exact absurd (inside.symm.trans outside) (by decide)
      · exact Option.some_ne_none _

/-- What is read of an argument stays in it, behind the arguments that are done. -/
theorem finish_run_reading {arg : List Char} (reading : r.current = some arg) :
    ∃ whole others, (r.run s).finish = r.done ++ whole :: others ∧ arg <+: whole := by
  induction s generalizing r arg with
  | nil =>
      refine ⟨r.text, [], finish_of_current reading, ?_⟩
      rw [text, reading]
      exact List.prefix_append _ _
  | cons c s ih =>
      have so_far : r.current.getD [] = arg := by rw [reading, Option.getD_some]
      have extended {after : Reader} {longer : List Char} (done : after.done = r.done)
          (current : after.current = some longer) (longer_than : arg <+: longer) :
          ∃ whole others, (after.run s).finish = r.done ++ whole :: others ∧ arg <+: whole := by
        obtain ⟨whole, others, finish, initial⟩ := ih current
        rw [done] at finish
        exact ⟨whole, others, finish, longer_than.trans initial⟩
      refine step_cases (fun _ after => ∃ whole others,
        (after.run s).finish = r.done ++ whole :: others ∧ arg <+: whole) ?_ ?_ ?_ ?_ ?_ c
      · exact ih reading
      · intro _
        refine extended rfl rfl ?_
        rw [so_far, List.append_assoc]
        exact List.prefix_append _ _
      · intro _
        refine extended rfl rfl ?_
        rw [so_far]
        exact List.prefix_append _ _
      · intro c blank outside
        rw [← step_blank blank outside, ← run_cons, finish_run_blank outside blank,
          finish_of_current reading, List.append_assoc]
        refine ⟨r.text, arguments s, rfl, ?_⟩
        rw [text, so_far]
        exact List.prefix_append _ _
      · intro c _ _ _
        refine extended rfl rfl ?_
        rw [text, so_far, List.append_assoc]
        exact List.prefix_append _ _

/-- Arguments without blanks that come first are done when a blank inside quotes is
read. -/
theorem done_of_inside {first others : List (List Char)} (inside : r.quoted = true)
    (plain : ∀ arg ∈ first, ∀ c ∈ arg, isBlank c = false) (blank : isBlank c = true)
    (finish : (r.run (c :: s)).finish = first ++ others) :
    ∃ between, r.done = first ++ between := by
  have reading : (r.step c).current = some (r.text ++ [c]) := by
    rw [step_other (ne_slash_of_isBlank blank) (ne_quote_of_isBlank blank) fun _ => inside]
  have done : (r.step c).done = r.done := by
    rw [step_other (ne_slash_of_isBlank blank) (ne_quote_of_isBlank blank) fun _ => inside]
  obtain ⟨whole, more, whole_finish, initial⟩ := finish_run_reading (s := s) reading
  rw [← run_cons, finish, done] at whole_finish
  obtain ⟨between, done_eq, -⟩ | ⟨between, first_eq, whole_eq⟩ :=
    List.append_eq_append_iff.mp whole_finish
  · exact ⟨between, done_eq⟩
  · cases between with
    | nil => exact ⟨[], by rw [first_eq, List.append_nil, List.append_nil]⟩
    | cons arg between =>
        -- The argument with the blank would be one of the first.
        have whole_eq_arg : whole = arg := (List.cons.inj whole_eq).1
        have in_first : whole ∈ first := by
          rw [first_eq, whole_eq_arg]
          exact List.mem_append_right _ List.mem_cons_self
        have has_blank : c ∈ whole :=
          initial.subset (List.mem_append_right _ (List.mem_singleton_self c))
        exact absurd blank (by rw [plain whole in_first c has_blank]; decide)

end Reader

/-- There is no argument in a text of blanks only, and one in any other. -/
theorem arguments_eq_nil {s : List Char} : arguments s = [] ↔ s.all isBlank = true := by
  rw [List.all_eq_true]
  induction s with
  | nil => exact iff_of_true rfl nofun
  | cons c s ih =>
      rw [List.forall_mem_cons]
      by_cases blank : isBlank c = true
      · rw [arguments_blank s blank, ih]
        exact ⟨fun others => ⟨blank, others⟩, And.right⟩
      · refine iff_of_false ?_ fun all => blank all.1
        intro nothing
        rw [arguments, run_cons] at nothing
        by_cases is_quote : c = '"'
        · subst is_quote
          obtain ⟨whole, others, finish, -⟩ :=
            finish_run_reading (r := start.step '"') (s := s) rfl
          rw [nothing] at finish
          exact List.cons_ne_nil _ _ (List.append_eq_nil_iff.mp finish.symm).2
        · have known := lead_run (s := s)
            (lead_step_visible (r := start) rfl rfl (Bool.eq_false_iff.mpr blank) is_quote)
          rw [← lead_finish, nothing] at known
          exact nomatch known

section Cut

variable {first others : List (List Char)} {s t : List Char}

/-- **A front part cut off.**  If it has as many arguments as the first ones, which have
no blanks in them, then the rest has the others. -/
theorem arguments_cut (plain : ∀ arg ∈ first, ∀ c ∈ arg, isBlank c = false)
    (separate : Separate t) (whole : arguments (s ++ t) = first ++ others)
    (length : (arguments s).length = first.length) : arguments t = others := by
  cases t with
  | nil =>
      rw [List.append_nil] at whole
      rw [whole, List.length_append] at length
      have none_left : others.length = 0 := by omega
      exact (List.length_eq_zero_iff.mp none_left).symm
  | cons c t =>
      have blank : isBlank c = true := separate c rfl
      by_cases inside : (start.run s).quoted = true
      · have reading := reading_of_quoted (r := start) (s := s) nofun inside
        obtain ⟨arg, reading⟩ := Option.ne_none_iff_exists'.mp reading
        rw [arguments, run_append] at whole
        obtain ⟨between, done⟩ := done_of_inside inside plain blank whole
        rw [arguments, finish_of_current reading, done] at length
        simp only [List.length_append, List.length_singleton] at length
        omega
      · rw [arguments_append (Bool.eq_false_iff.mpr inside) separate] at whole
        exact (List.append_inj whole length).2

/-- **A front part cut off in the wrong place.**  If the rest has the other arguments
all the same, there is nothing visible in them. -/
theorem of_arguments_cut (plain : ∀ arg ∈ first, ∀ c ∈ arg, isBlank c = false)
    (separate : Separate t) (cut : arguments (s ++ t) = first ++ arguments t) :
    (arguments s).length = first.length ∨ lead (arguments t) = none := by
  cases t with
  | nil =>
      left
      rw [List.append_nil, show arguments [] = [] from rfl, List.append_nil] at cut
      rw [cut]
  | cons c t =>
      have blank : isBlank c = true := separate c rfl
      by_cases inside : (start.run s).quoted = true
      · right
        rw [arguments, run_append] at cut
        obtain ⟨between, done⟩ := done_of_inside inside plain blank cut
        let a : Reader := { start.run s with done := between }
        have behind_first : start.run s = a.behind first := by
          rw [behind, ← done]
        rw [behind_first, run_behind, finish_behind] at cut
        have agree : (a.run (c :: t)).finish = (start.run (c :: t)).finish :=
          List.append_cancel_left cut
        -- Both have the same number of visible characters, so there are none so far.
        have no_ink : ink a.finish = 0 := by
          have same := congrArg ink agree
          rw [ink_run, ink_run,
            inkAfter_other (ne_slash_of_isBlank blank) (ne_quote_of_isBlank blank),
            inkAfter_other (ne_slash_of_isBlank blank) (ne_quote_of_isBlank blank)] at same
          have nothing_yet : start.inkSoFar + start.slashes = 0 := rfl
          rw [ink_finish]
          omega
        have lead_blank : a.lead = none := by
          rw [← lead_finish, lead_eq_none, ← ink_eq_zero, no_ink]
        have opposite : Opposite (a.step c) (start.step c) :=
          Opposite.begin_blank inside rfl lead_blank rfl blank
        rw [arguments, ← agree]
        exact opposite.lead_finish_run agree
      · left
        rw [arguments_append (Bool.eq_false_iff.mpr inside) separate] at cut
        rw [List.append_cancel_right cut]

/-- **A quote in front** has an effect unless there is nothing visible. -/
theorem lead_arguments_of_quote (separate : Separate t)
    (agree : arguments ('"' :: t) = arguments t) : lead (arguments t) = none := by
  cases t with
  | nil => rfl
  | cons c t =>
      have opposite : Opposite ((start.step '"').step c) (start.step c) :=
        Opposite.begin_blank rfl rfl rfl rfl (separate c rfl)
      rw [← agree]
      exact opposite.lead_finish_run agree

end Cut

/-! ### Writing an argument -/

/-- Characters that are no quotes, and no blanks unless inside quotes, are read as they
are. -/
theorem run_plain {r : Reader} {s : List Char}
    (plain : ∀ c ∈ s, c ≠ '"' ∧ (isBlank c = true → r.quoted = true)) :
    (r.run s).quoted = r.quoted ∧ (r.run s).done = r.done ∧ (r.run s).text = r.text ++ s := by
  induction s generalizing r with
  | nil => exact ⟨rfl, rfl, (List.append_nil _).symm⟩
  | cons c s ih =>
      have here := plain c List.mem_cons_self
      have step : (r.step c).quoted = r.quoted ∧ (r.step c).done = r.done ∧
          (r.step c).text = r.text ++ [c] := by
        by_cases is_slash : c = '\\'
        · subst is_slash
          refine ⟨rfl, rfl, ?_⟩
          rw [step_slash, Reader.text, Reader.text, List.replicate_succ', List.append_assoc]
        · rw [step_other is_slash here.1 here.2]
          exact ⟨rfl, rfl, List.append_nil _⟩
      obtain ⟨quoted, done, text⟩ := step
      have rest := ih (r := r.step c) fun d mem => by
        rw [quoted]
        exact plain d (List.mem_cons_of_mem _ mem)
      rw [quoted, done, text, List.append_assoc] at rest
      exact rest

/-- **A word** is an argument. -/
theorem arguments_word {s : List Char} (nonempty : s ≠ [])
    (plain : ∀ c ∈ s, c ≠ '"' ∧ isBlank c = false) :
    (start.run s).quoted = false ∧ arguments s = [s] := by
  obtain ⟨quoted, done, text⟩ := run_plain (r := start) (s := s) fun c mem =>
    ⟨(plain c mem).1, fun blank => absurd blank (by rw [(plain c mem).2]; decide)⟩
  have text_eq : (start.run s).text = s := text
  refine ⟨quoted, ?_⟩
  rw [arguments, finish_of_text (by rw [text_eq]; exact nonempty), done, text_eq]
  rfl

/-- **A text in quotes** is an argument, if there is no backslash at its end. -/
theorem arguments_quoted {s : List Char} {c : Char} (no_quote : '"' ∉ s ++ [c])
    (no_slash : c ≠ '\\') :
    (start.run ('"' :: (s ++ [c]) ++ ['"'])).quoted = false ∧
      arguments ('"' :: (s ++ [c]) ++ ['"']) = [s ++ [c]] := by
  obtain ⟨quoted, done, text⟩ := run_plain (r := start.step '"') (s := s ++ [c]) fun d mem =>
    ⟨fun is_quote => no_quote (is_quote ▸ mem), fun _ => rfl⟩
  have slashes : ((start.step '"').run (s ++ [c])).slashes = 0 := by
    have inside := (run_plain (r := start.step '"') (s := s) fun d mem =>
      ⟨fun is_quote => no_quote (is_quote ▸ List.mem_append_left _ mem), fun _ => rfl⟩).1
    have not_quote : c ≠ '"' := fun is_quote =>
      no_quote (is_quote ▸ List.mem_append_right _ (List.mem_singleton_self c))
    rw [run_append, run_cons, step_other no_slash not_quote fun _ => inside]
    rfl
  rw [text_of_no_slash slashes] at text
  rw [arguments, List.cons_append, run_cons, run_append, run_cons, step_bare_quote slashes, text,
    quoted]
  refine ⟨rfl, ?_⟩
  have done_eq : ((start.step '"').run (s ++ [c])).done = [] := done
  show (Reader.mk _ _ (some (s ++ [c])) _).finish = _
  rw [finish_of_current rfl, slashes, text_mk, done_eq]
  rfl

/-! ### The program's name -/

theorem commandLineToArgvW_word {name t : List Char} (nonempty : name ≠ [])
    (no_blank : ∀ c ∈ name, isBlank c = false) (bare : name.head? ≠ some '"')
    (separate : Separate t) : commandLineToArgvW (name ++ t) = name :: arguments t := by
  have unquoted : programName (name ++ t) = (name ++ t).takeWhile (fun c => !isBlank c) ∧
      afterProgram (name ++ t) = (name ++ t).dropWhile fun c => !isBlank c := by
    cases name with
    | nil => exact absurd rfl nonempty
    | cons c name =>
        have not_quote : c ≠ '"' := fun is_quote => bare (congrArg some is_quote)
        rw [List.cons_append, programName, afterProgram]
        · exact ⟨rfl, rfl⟩
        all_goals
          intro s same
          exact not_quote (List.cons.inj same).1
  have visible : ∀ c ∈ name, (!isBlank c) = true := fun c mem => by rw [no_blank c mem]; rfl
  rw [commandLineToArgvW, unquoted.1, unquoted.2, List.takeWhile_append_of_pos visible,
    List.dropWhile_append_of_pos visible]
  cases t with
  | nil => simp
  | cons c t =>
      have blank : isBlank c = true := separate c rfl
      simp [blank]

theorem commandLineToArgvW_quoted {name t : List Char} (no_quote : '"' ∉ name) :
    commandLineToArgvW ('"' :: name ++ '"' :: t) = name :: arguments t := by
  rw [List.cons_append, commandLineToArgvW, programName, afterProgram,
    takeWhile_ne_append_cons no_quote, dropWhile_ne_append_cons no_quote, List.tail_cons]

end MsysGit.Library
