import MsysGit.Library.CQuoting
import MsysGit.Library.ShellText

/-!
# Files that a checkout could not update

The post-checkout hook finds the files that are still modified and writes their names into
`modifiedFiles`.  The profile of the finish-checkout window reads them from there, and passes
them to `git checkout --`.  The hook writes what `git ls-files` prints without `-z`, one name
on a line, and the profile takes each line for a name: nobody takes off the quotes.

The shell is Bash, as the braces in the hook's file names require.
-/

namespace MsysGit.PostCheckout

open MsysGit.Library

/-- A file name, with its directories. -/
structure FileName where
  bytes : Bytes
  nonempty : bytes ≠ []
  no_zero : 0 ∉ bytes

section Scripts

variable (quotePath : Bool)

/-- What `git ls-files --modified` prints. -/
def lsFiles (found : List FileName) : Bytes :=
  terminated 10 (found.map fun name => quoteCStyle quotePath name.bytes)

/-- The hook, from `MODIFIED` on.  It leaves `modifiedFiles` alone when it finds nothing. -/
def hook (found : List FileName) (modifiedFiles : Option Bytes) : Option Bytes :=
  let modified := commandSubstitution (lsFiles quotePath found)
  if modified = [] then modifiedFiles else some (echo modified)

/-- The paths that the profile passes to `git checkout --`; `test -s` fails for a file that
is missing or empty. -/
def profile (modifiedFiles : Option Bytes) : List Bytes :=
  match modifiedFiles with
  | some content => if content = [] then [] else xargsItems (tr 10 0 content)
  | none => []

/-- The profile passes the files that the hook found, and no others. -/
def PassesFound (found : List FileName) (modifiedFiles : Option Bytes) : Prop :=
  ∀ path, path ∈ profile (hook quotePath found modifiedFiles) ↔ path ∈ found.map FileName.bytes

/-- What is written for the profile can be read as it is. -/
structure Readable (found : List FileName) (modifiedFiles : Option Bytes) : Prop where
  /-- No name is quoted. -/
  usual : ∀ name ∈ found, name.bytes.any (unusual quotePath) = false
  /-- A single name is not an option of `echo`. -/
  word : ∀ name, found = [name] → isEchoOption name.bytes = false
  /-- Nothing is left of another run when the hook finds nothing. -/
  nothing_left : found = [] → profile modifiedFiles = []

end Scripts

section Reading

variable {quotePath : Bool} {found : List FileName} {modifiedFiles : Option Bytes}

/-- The lines that the hook gets. -/
def lines (quotePath : Bool) (found : List FileName) : List Bytes :=
  found.map fun name => quoteCStyle quotePath name.bytes

theorem lines_ne_nil : ∀ line ∈ lines quotePath found, line ≠ [] := by
  intro line member
  obtain ⟨name, _, rfl⟩ := List.mem_map.mp member
  exact quoteCStyle_ne_nil name.nonempty

theorem lines_clean : ∀ line ∈ lines quotePath found, 10 ∉ line ∧ 0 ∉ line := by
  intro line member
  obtain ⟨name, _, rfl⟩ := List.mem_map.mp member
  constructor
  · exact fun inside => absurd (printable_quoteCStyle 10 inside) (by decide)
  · exact fun inside => absurd (printable_quoteCStyle 0 inside) (by decide)

theorem modified_eq (quotePath : Bool) (found : List FileName) :
    commandSubstitution (lsFiles quotePath found) = join 10 (lines quotePath found) :=
  commandSubstitution_terminated lines_ne_nil fun line member => (lines_clean line member).1

theorem hook_of_found (some_file : found ≠ []) :
    hook quotePath found modifiedFiles = some (echo (join 10 (lines quotePath found))) := by
  unfold hook
  rw [modified_eq, if_neg]
  apply join_ne_nil lines_ne_nil
  exact fun none => some_file (List.map_eq_nil_iff.mp none)

theorem echo_ne_nil {word : Bytes} (plain : isEchoOption word = false) : echo word ≠ [] := by
  rw [echo, plain, if_neg Bool.false_ne_true]
  exact List.append_ne_nil_of_right_ne_nil _ (List.cons_ne_nil _ _)

/-- The profile passes what `git ls-files` printed. -/
theorem profile_hook (some_file : found ≠ [])
    (word : isEchoOption (join 10 (lines quotePath found)) = false) :
    profile (hook quotePath found modifiedFiles) = lines quotePath found := by
  have some_line : lines quotePath found ≠ [] := fun none =>
    some_file (List.map_eq_nil_iff.mp none)
  have arrive := arguments_of_lines some_line lines_ne_nil lines_clean word
  rw [commandSubstitution_terminated lines_ne_nil fun line member => (lines_clean line member).1]
    at arrive
  rw [hook_of_found some_file, profile, if_neg (echo_ne_nil word), arrive]

/-! ### Options -/

theorem usual_of_isEchoOption {name : Bytes} (option : isEchoOption name = true) :
    name.any (unusual quotePath) = false := by
  unfold isEchoOption at option
  split at option
  · rename_i c more
    apply List.any_eq_false.mpr
    intro d inside
    rcases List.mem_cons.mp inside with rfl | inside
    · cases quotePath <;> decide
    · have letter := of_decide_eq_true (List.all_eq_true.mp option d inside)
      simp only [List.mem_cons, List.not_mem_nil, or_false] at letter
      rcases letter with rfl | rfl | rfl
      · cases quotePath <;> decide
      · cases quotePath <;> decide
      · cases quotePath <;> decide
  · cases option

/-- Quotes do not make an option, nor hide one. -/
theorem isEchoOption_quoteCStyle (quotePath : Bool) (name : Bytes) :
    isEchoOption (quoteCStyle quotePath name) = isEchoOption name := by
  cases strange : name.any (unusual quotePath) with
  | false => rw [quoteCStyle_of_usual strange]
  | true =>
      have no_option : isEchoOption name = false := by
        by_contra option
        rw [usual_of_isEchoOption (eq_true_of_ne_false option)] at strange
        cases strange
      rw [no_option, quoteCStyle, if_pos strange]
      rfl

theorem isEchoOption_lines : isEchoOption (join 10 (lines quotePath found)) = true ↔
    ∃ name, found = [name] ∧ isEchoOption name.bytes = true := by
  constructor
  · intro option
    obtain ⟨line, single⟩ := eq_singleton_of_isEchoOption option
    obtain ⟨name, alone, rfl⟩ := List.map_eq_singleton_iff.mp single
    refine ⟨name, alone, ?_⟩
    rw [single] at option
    rw [← isEchoOption_quoteCStyle quotePath]
    simpa [join] using option
  · rintro ⟨name, rfl, option⟩
    rw [← isEchoOption_quoteCStyle quotePath] at option
    simpa [join, lines] using option

theorem isEchoOption_lines_eq_false
    (plain : ∀ name, found = [name] → isEchoOption name.bytes = false) :
    isEchoOption (join 10 (lines quotePath found)) = false := by
  by_contra option
  obtain ⟨name, alone, option⟩ := isEchoOption_lines.mp (eq_true_of_ne_false option)
  rw [plain name alone] at option
  cases option

/-- An option is not printed, so its file is not passed. -/
theorem not_passed_of_option {name : FileName} (option : isEchoOption name.bytes = true) :
    name.bytes ∉ profile (hook quotePath [name] modifiedFiles) := by
  have whole : isEchoOption (join 10 (lines quotePath [name])) = true :=
    isEchoOption_lines.mpr ⟨name, rfl, option⟩
  rw [hook_of_found (List.cons_ne_nil _ _), echo, if_pos whole]
  split
  · exact List.not_mem_nil
  · intro passed
    -- What is left is a newline, and the profile passes an empty path.
    have empty : profile (some [10]) = [[]] := by decide
    rw [empty] at passed
    exact name.nonempty (List.mem_singleton.mp passed)

/-! ### Both scripts -/

theorem passesFound_of_readable (readable : Readable quotePath found modifiedFiles) :
    PassesFound quotePath found modifiedFiles := by
  intro path
  by_cases none : found = []
  · subst none
    have nothing : hook quotePath [] modifiedFiles = modifiedFiles := rfl
    rw [nothing, readable.nothing_left rfl]
    exact Iff.rfl
  · have same : lines quotePath found = found.map FileName.bytes := by
      apply List.map_congr_left
      intro name member
      exact quoteCStyle_of_usual (readable.usual name member)
    rw [profile_hook none (isEchoOption_lines_eq_false readable.word), same]

/-- The profile passes exactly the files that the hook found when it can read what is written
for it. -/
theorem passesFound_iff (quotePath : Bool) (found : List FileName) (modifiedFiles : Option Bytes) :
    PassesFound quotePath found modifiedFiles ↔ Readable quotePath found modifiedFiles := by
  refine ⟨fun passes => ?_, passesFound_of_readable⟩
  have plain : ∀ name, found = [name] → isEchoOption name.bytes = false := by
    rintro name rfl
    by_contra option
    have missing := @not_passed_of_option quotePath modifiedFiles name (eq_true_of_ne_false option)
    exact missing ((passes name.bytes).mpr List.mem_cons_self)
  refine ⟨?_, plain, ?_⟩
  · intro name member
    have some_file : found ≠ [] := List.ne_nil_of_mem member
    -- Whatever is printed of a name is passed, so it is the name of a file again.
    have closed : ∀ bytes ∈ found.map FileName.bytes,
        quoteCStyle quotePath bytes ∈ found.map FileName.bytes := by
      intro bytes inside
      obtain ⟨other, member, rfl⟩ := List.mem_map.mp inside
      apply (passes _).mp
      rw [profile_hook some_file (isEchoOption_lines_eq_false plain)]
      exact List.mem_map_of_mem member
    exact usual_of_closed closed name.bytes (List.mem_map_of_mem member)
  · rintro rfl
    apply List.eq_nil_iff_forall_not_mem.mpr
    intro path passed
    exact List.not_mem_nil ((passes path).mp passed)

/-- The two bytes of an accented letter are passed as two octal numbers in quotes. -/
theorem passes_octal_numbers :
    ¬ PassesFound true [⟨[195, 169], by decide, by decide⟩] none := by
  intro passes
  have passed : text "\"\\303\\251\"" ∈
      profile (hook true [⟨[195, 169], by decide, by decide⟩] none) := by decide
  exact absurd ((passes _).mp passed) (by decide)

end Reading

end MsysGit.PostCheckout
