import MsysGit.Library.CString
import MsysGit.Library.SeparatedText
import MsysGit.Library.Trim

/-!
# Lines on their way through a shell

The lines that a program prints can be caught by a command substitution, printed again with
`echo`, and handed to another program by `tr "\n" "\0"` and `xargs -0`.  They arrive as they
were (`arguments_of_lines`), unless `echo` takes what it should print for an option, which only
a single line can be.
-/

namespace MsysGit.Library

/-- What `$(...)` makes of the output of a command. -/
def commandSubstitution (output : Bytes) : Bytes := output.rdropWhile (· = 10)

/-- A word of the letters `n`, `e` and `E` behind a dash. -/
def isEchoOption : Bytes → Bool
  | 45 :: c :: more => (c :: more).all (· ∈ [110, 101, 69])
  | _ => false

/-- `echo` of one word, as Bash has it: escapes are only read with `-e`. -/
def echo (word : Bytes) : Bytes :=
  if isEchoOption word then if 110 ∈ word then [] else [10] else word ++ [10]

/-- `tr`, for one character. -/
def tr (source target : UInt8) (s : Bytes) : Bytes :=
  s.map fun c => if c = source then target else c

/-- The items of `xargs -0`; the last one need not be terminated. -/
def xargsItems (s : Bytes) : List Bytes :=
  let parts := s.splitOn 0
  if parts.getLast? = some [] then parts.dropLast else parts

variable {lines : List Bytes}

theorem splitOn_terminated {sep : UInt8} (clean : ∀ line ∈ lines, sep ∉ line) :
    (terminated sep lines).splitOn sep = lines ++ [[]] := by
  induction lines with
  | nil => rfl
  | cons line lines ih =>
      rw [terminated_cons, List.splitOn_append_cons_self_of_not_mem (clean line List.mem_cons_self),
        ih fun other member => clean other (List.mem_cons_of_mem _ member), List.cons_append]

theorem xargsItems_terminated (clean : ∀ line ∈ lines, 0 ∉ line) :
    xargsItems (terminated 0 lines) = lines := by
  unfold xargsItems
  rw [splitOn_terminated clean, if_pos List.getLast?_concat, List.dropLast_concat]

theorem tr_terminated {source target : UInt8} (clean : ∀ line ∈ lines, source ∉ line) :
    tr source target (terminated source lines) = terminated target lines := by
  induction lines with
  | nil => rfl
  | cons line lines ih =>
      have same : line.map (fun c => if c = source then target else c) = line := by
        refine Eq.trans (List.map_congr_left fun c inside => ?_) (List.map_id line)
        show (if c = source then target else c) = c
        rw [if_neg]
        rintro rfl
        exact clean line List.mem_cons_self inside
      have rest := ih fun other member => clean other (List.mem_cons_of_mem _ member)
      unfold tr at rest ⊢
      rw [terminated_cons, terminated_cons, List.map_append, List.map_cons, same, rest, if_pos rfl]

/-- The last newline is taken off. -/
theorem commandSubstitution_terminated (nonempty : ∀ line ∈ lines, line ≠ [])
    (clean : ∀ line ∈ lines, 10 ∉ line) :
    commandSubstitution (terminated 10 lines) = join 10 lines := by
  cases lines using List.reverseRecOn with
  | nil => rfl
  | append_singleton lines line =>
      have member : line ∈ lines ++ [line] := List.mem_append_right _ (List.mem_singleton_self line)
      unfold commandSubstitution
      rw [← join_append_sep (List.append_ne_nil_of_right_ne_nil _ (List.cons_ne_nil _ _)),
        rdropWhile_append_blanks (by simp)]
      apply rdropWhile_of_getLast
      intro c last
      have ending : c ∈ line := by
        apply List.mem_of_getLast?
        by_cases none : lines = []
        · subst none
          simpa [join] using last
        · rw [join_append_singleton _ _ none] at last
          rwa [List.getLast?_append_of_ne_nil _ (List.cons_ne_nil _ _), List.getLast?_cons_of_ne_nil
            (nonempty line member)] at last
      exact decide_eq_false fun newline => clean line member (newline ▸ ending)

/-- Only a single line can be taken for an option. -/
theorem eq_singleton_of_isEchoOption (option : isEchoOption (join 10 lines) = true) :
    ∃ line, lines = [line] := by
  rcases lines with _ | ⟨line, _ | ⟨next, more⟩⟩
  · cases option
  · exact ⟨line, rfl⟩
  · have inside : 10 ∈ join 10 (line :: next :: more) := by
      rw [join_cons (List.cons_ne_nil next more)]
      exact List.mem_append_right line List.mem_cons_self
    unfold isEchoOption at option
    split at option
    · rename_i whole
      rw [whole] at inside
      rcases List.mem_cons.mp inside with dash | inside
      · cases dash
      · exact absurd (List.all_eq_true.mp option 10 inside) (by decide)
    · cases option

/-- **From one program to another.** -/
theorem arguments_of_lines (some_line : lines ≠ []) (nonempty : ∀ line ∈ lines, line ≠ [])
    (clean : ∀ line ∈ lines, 10 ∉ line ∧ 0 ∉ line)
    (word : isEchoOption (join 10 lines) = false) :
    xargsItems (tr 10 0 (echo (commandSubstitution (terminated 10 lines)))) = lines := by
  have no_newline : ∀ line ∈ lines, 10 ∉ line := fun line member => (clean line member).1
  rw [commandSubstitution_terminated nonempty no_newline, echo, word, if_neg nofun,
    join_append_sep some_line, tr_terminated no_newline]
  exact xargsItems_terminated fun line member => (clean line member).2

end MsysGit.Library
