import Mathlib.Data.List.Basic
import MsysGit.Library.QuotedArguments

/-!
# The command line that cmd/git.exe builds

`cmd/git.exe` starts the real `git.exe`, or the interpreter of `git gui`, with a
command line made from its own.  It does not build it from the arguments: it looks for
the first space behind the program's name and takes over what follows, so that the
quoting stays as it is.  The place where it begins to look is the length of
`wargv[0]`, which has no quotes.

`CommandLineToArgvW` is the one of the library, `PathAppend` is a parameter.
-/

namespace MsysGit.GitWrapper

open Library

/-! ### The code -/

/-- Equal, but for upper and lower case. -/
def wcsicmp (s t : List Char) : Bool := s.map Char.toLower = t.map Char.toLower

/-- The text from the first `c` on; nothing if there is none. -/
def wcschr (s : List Char) (c : Char) : List Char := s.dropWhile (· ≠ c)

/-- Quotes around a path that has a space in it. -/
def pathQuoteSpaces (path : List Char) : List Char :=
  if ' ' ∈ path then '"' :: path ++ ['"'] else path

/-- What is started. -/
inductive Program where
  | git
  /-- `git gui citool` -/
  | citool
  | gui
  deriving DecidableEq

/-- Which program the arguments ask for. -/
def program (wargv : List (List Char)) : Program :=
  if wargv[1]?.any (wcsicmp "gui".toList) then
    if wargv[2]?.any (wcsicmp "citool".toList) then .citool else .gui
  else .git

/-- What `CreateProcess` is called with. -/
structure Launch where
  /-- The module; `none` is the one of the command line. -/
  exep : Option (List Char)
  cmd : List Char
  wait : Bool

/-- `libexec\git-core\git-gui` -/
def guiScript : List Char := "libexec\\git-core\\git-gui".toList

variable (pathAppend : List Char → List Char → List Char) (exepath : List Char)

def gitExe : List Char := "git.exe".toList

def wishExe : List Char := "wish.exe".toList

def dashes : List Char := "--".toList

/-- The command line without arguments. -/
def commandHead : Program → List Char
  | .gui => wishExe ++ [' '] ++ pathQuoteSpaces (pathAppend exepath guiScript) ++ ' ' :: dashes
  | _ => gitExe

/-- What is appended to it: everything from the first space after the initial parameter
on, and for git gui without the word `gui`. -/
def appended (gui : Bool) (cmdline name : List Char) : List Char :=
  let p := wcschr (cmdline.drop name.length) ' '
  if gui then wcschr (p.dropWhile (· = ' ')) ' ' else p

/-- The part of `main` that fixes up the command line. -/
def launch (cmdline : List Char) : Launch :=
  let wargv := commandLineToArgvW cmdline
  let program := program wargv
  { exep := if program = .gui then none else some (pathAppend exepath "bin\\git.exe".toList)
    cmd := commandHead pathAppend exepath program ++
      appended (program = .gui) cmdline (programName cmdline)
    wait := program ≠ .gui }

/-! ### What is handed on -/

/-- The arguments after the first `--`. -/
def afterDashes (args : List (List Char)) : List (List Char) :=
  (args.dropWhile (· ≠ dashes)).tail

/-- The user's arguments, without the word `gui` when that is what chooses the program. -/
def userArguments (wargv : List (List Char)) : List (List Char) :=
  if program wargv = .gui then wargv.drop 2 else wargv.drop 1

/-- The arguments that the started program takes for the user's. -/
def receivedArguments (program : Program) (args : List (List Char)) : List (List Char) :=
  if program = .gui then afterDashes args else args.drop 1

/-- **The command line hands on the user's arguments.** -/
def HandsOn (cmdline cmd : List Char) : Prop :=
  receivedArguments (program (commandLineToArgvW cmdline)) (commandLineToArgvW cmd)
    = userArguments (commandLineToArgvW cmdline)

instance (cmdline cmd : List Char) : Decidable (HandsOn cmdline cmd) :=
  inferInstanceAs (Decidable (_ = _))

/-! ### Command lines -/

/-- The command line with which `cmd/git.exe` is started: its name, quoted or not, and
what follows. -/
structure StartLine where
  quoted : Bool
  name : List Char
  rest : List Char
  name_quoted : quoted = true → '"' ∉ name
  name_bare : quoted = false →
    name ≠ [] ∧ (∀ c ∈ name, isBlank c = false) ∧ name.head? ≠ some '"'
  separate : Separate rest

namespace StartLine

variable (line : StartLine)

/-- The command line. -/
def text : List Char :=
  if line.quoted then '"' :: line.name ++ '"' :: line.rest else line.name ++ line.rest

/-- The name is quoted and has a space at its end. -/
def Trailing : Prop := line.quoted = true ∧ line.name.getLast? = some ' '

instance : Decidable line.Trailing := inferInstanceAs (Decidable (_ ∧ _))

/-- What is in front of the first space. -/
def upToSpace (s : List Char) : List Char := s.takeWhile (· ≠ ' ')

/-- What the search for the second space passes over. -/
def pastSpaces (s : List Char) : List Char :=
  s.takeWhile (· = ' ') ++ upToSpace (s.dropWhile (· = ' '))

/-- The part behind the name that is left out for git gui. -/
def guiPart : List Char :=
  if line.Trailing then upToSpace line.rest
  else upToSpace line.rest ++ pastSpaces (wcschr line.rest ' ')

/-- The program that is asked for. -/
def program : Program := GitWrapper.program (line.name :: arguments line.rest)

/-- **The spaces are where the code expects them.**  For git gui there is one argument,
the word `gui`, in the part that is left out; otherwise nothing but tabs is between the
name and the first space, and the name does not end in a space inside its quotes. -/
def Spaced : Prop :=
  if line.program = .gui then (arguments line.guiPart).length = 1
  else ¬line.Trailing ∧ (upToSpace line.rest).all isBlank = true

instance : Decidable line.Spaced := inferInstanceAs (Decidable (ite _ _ _))

end StartLine

/-! ### What is appended -/

theorem separate_wcschr (s : List Char) : Separate (wcschr s ' ') := by
  intro c first
  rw [head?_dropWhile_ne first]
  rfl

theorem wcschr_append {s : List Char} (c : Char) (t : List Char) (none_in : c ∉ s) :
    wcschr (s ++ t) c = wcschr t c :=
  dropWhile_ne_append none_in t

namespace StartLine

variable (line : StartLine)

theorem upToSpace_append (s : List Char) : upToSpace s ++ wcschr s ' ' = s :=
  List.takeWhile_append_dropWhile

theorem pastSpaces_append (s : List Char) :
    pastSpaces s ++ wcschr (s.dropWhile (· = ' ')) ' ' = s := by
  rw [pastSpaces, List.append_assoc, upToSpace_append, List.takeWhile_append_dropWhile]

theorem commandLineToArgvW_text :
    commandLineToArgvW line.text = line.name :: arguments line.rest := by
  rw [text]
  split
  · rename_i quoted
    exact commandLineToArgvW_quoted (line.name_quoted quoted)
  · rename_i bare
    obtain ⟨nonempty, no_blank, no_quote⟩ := line.name_bare (Bool.eq_false_iff.mpr bare)
    exact commandLineToArgvW_word nonempty no_blank no_quote line.separate

/-- Where the first space is found: in the name if that is quoted and ends in a space,
because then the search begins inside the quotes. -/
theorem wcschr_text : wcschr (line.text.drop line.name.length) ' '
    = if line.Trailing then ' ' :: '"' :: line.rest else wcschr line.rest ' ' := by
  rw [text]
  split
  · rename_i quoted
    obtain nothing | ⟨front, c, name_eq⟩ := List.eq_nil_or_concat' line.name
    · rw [if_neg (by rintro ⟨-, last⟩; rw [nothing] at last; exact nomatch last), nothing]
      exact wcschr_append (s := ['"', '"']) ' ' line.rest (by decide)
    · -- The search begins one character early, with the last one of the name.
      have found : ('"' :: line.name ++ '"' :: line.rest).drop line.name.length
          = c :: '"' :: line.rest := by
        rw [name_eq]
        simp
      rw [found]
      by_cases is_space : c = ' '
      · rw [if_pos ⟨quoted, by rw [name_eq, is_space]; simp⟩, is_space]
        rfl
      · rw [if_neg]
        · exact wcschr_append (s := [c, '"']) ' ' line.rest (by simp [Ne.symm is_space])
        · rintro ⟨-, last⟩
          rw [name_eq] at last
          simp at last
          exact is_space last
  · rename_i bare
    rw [List.drop_left, if_neg fun trailing => bare trailing.1]

/-- For git gui, the text behind the name is the part that is left out and the part that
is appended. -/
theorem guiPart_append : line.guiPart ++ appended true line.text line.name = line.rest := by
  rw [guiPart, appended, wcschr_text, if_pos rfl]
  split
  · show upToSpace line.rest ++ wcschr ('"' :: line.rest) ' ' = line.rest
    rw [show wcschr ('"' :: line.rest) ' ' = wcschr line.rest ' ' from rfl, upToSpace_append]
  · rw [List.append_assoc, pastSpaces_append, upToSpace_append]

theorem separate_appended (gui : Bool) : Separate (appended gui line.text line.name) := by
  rw [appended]
  split
  · exact separate_wcschr _
  · exact separate_wcschr _

theorem cmd_launch (pathAppend : List Char → List Char → List Char) (exepath : List Char) :
    (launch pathAppend exepath line.text).cmd = commandHead pathAppend exepath line.program ++
      appended (line.program = .gui) line.text line.name := by
  have name : programName line.text = line.name := (List.cons.inj line.commandLineToArgvW_text).1
  rw [launch, name, commandLineToArgvW_text]
  rfl

end StartLine

/-! ### What the started program receives -/

/-- The path was joined to another one; there is no quote and no tab in a path. -/
def Joined (pathAppend : List Char → List Char → List Char) (path more : List Char) : Prop :=
  ∃ front, pathAppend path more = front ++ more ∧ '"' ∉ front ∧ '\t' ∉ front

section Received

variable {pathAppend : List Char → List Char → List Char} {exepath : List Char}

/-- With or without quotes, a path is one argument. -/
theorem arguments_pathQuoteSpaces {front : List Char} {c : Char} {t : List Char}
    (no_quote : '"' ∉ front ++ [c]) (no_tab : '\t' ∉ front ++ [c]) (no_slash : c ≠ '\\')
    (separate : Separate t) :
    arguments (pathQuoteSpaces (front ++ [c]) ++ t) = (front ++ [c]) :: arguments t := by
  rw [pathQuoteSpaces]
  split
  · obtain ⟨outside, read⟩ := arguments_quoted no_quote no_slash
    rw [arguments_append outside separate, read, List.singleton_append]
  · rename_i no_space
    have word : ∀ d ∈ front ++ [c], d ≠ '"' ∧ isBlank d = false := by
      intro d mem
      have not_space : d ≠ ' ' := fun same => no_space (same ▸ mem)
      have not_tab : d ≠ '\t' := fun same => no_tab (same ▸ mem)
      refine ⟨fun same => no_quote (same ▸ mem), ?_⟩
      rw [isBlank, decide_eq_false not_space, decide_eq_false not_tab, Bool.or_self]
    obtain ⟨outside, read⟩ := arguments_word (s := front ++ [c]) (by simp) word
    rw [arguments_append outside separate, read, List.singleton_append]

/-- The script's path is one argument. -/
theorem arguments_script (joined : Joined pathAppend exepath guiScript) {t : List Char}
    (separate : Separate t) :
    arguments (pathQuoteSpaces (pathAppend exepath guiScript) ++ t)
      = pathAppend exepath guiScript :: arguments t := by
  obtain ⟨front, script, no_quote, no_tab⟩ := joined
  have last : guiScript = guiScript.dropLast ++ ['i'] := rfl
  have path : pathAppend exepath guiScript = (front ++ guiScript.dropLast) ++ ['i'] := by
    rw [script, List.append_assoc, ← last]
  have absent {c : Char} (in_front : c ∉ front) (in_script : c ∉ guiScript) :
      c ∉ (front ++ guiScript.dropLast) ++ ['i'] := by
    rw [List.append_assoc, ← last]
    intro mem
    exact (List.mem_append.mp mem).elim in_front in_script
  rw [path]
  exact arguments_pathQuoteSpaces (absent no_quote (by decide)) (absent no_tab (by decide))
    (by decide) separate

theorem script_ne_dashes (joined : Joined pathAppend exepath guiScript) :
    pathAppend exepath guiScript ≠ dashes := by
  obtain ⟨front, script, -, -⟩ := joined
  intro same
  have length := congrArg List.length (script.symm.trans same)
  rw [List.length_append, show guiScript.length = 24 from rfl, show dashes.length = 2 from rfl]
    at length
  omega

theorem afterDashes_cons {arg : List Char} (args : List (List Char)) (other : arg ≠ dashes) :
    afterDashes (arg :: args) = afterDashes args := by
  have passed : decide (arg ≠ dashes) = true := decide_eq_true other
  rw [afterDashes, List.dropWhile_cons, if_pos passed, afterDashes]

theorem afterDashes_dashes (args : List (List Char)) : afterDashes (dashes :: args) = args := by
  rw [afterDashes, List.dropWhile_cons_of_neg (by simp), List.tail_cons]

/-- **What is appended is what is received.** -/
theorem received_commandHead (joined : Joined pathAppend exepath guiScript) (program : Program)
    {t : List Char} (separate : Separate t) :
    receivedArguments program (commandLineToArgvW (commandHead pathAppend exepath program ++ t))
      = arguments t := by
  by_cases gui : program = .gui
  · subst gui
    have after_dashes : arguments (dashes ++ t) = dashes :: arguments t :=
      arguments_append (s := dashes) (by decide) separate
    have wish : commandHead pathAppend exepath .gui ++ t = wishExe ++
        (' ' :: (pathQuoteSpaces (pathAppend exepath guiScript) ++ (' ' :: (dashes ++ t)))) := by
      simp only [commandHead, List.append_assoc, List.cons_append, List.nil_append]
    have args : commandLineToArgvW (commandHead pathAppend exepath .gui ++ t)
        = wishExe :: pathAppend exepath guiScript :: dashes :: arguments t := by
      rw [wish, commandLineToArgvW_word (by decide) (forall_visible_of_all rfl) (by decide)
        (separate_cons rfl), arguments_blank _ rfl, arguments_script joined (separate_cons rfl),
        arguments_blank _ rfl, after_dashes]
    rw [args, receivedArguments, if_pos rfl, afterDashes_cons _ (by decide),
      afterDashes_cons _ (script_ne_dashes joined), afterDashes_dashes]
  · have git : commandHead pathAppend exepath program = gitExe := by
      cases program with
      | git => rfl
      | citool => rfl
      | gui => exact absurd rfl gui
    rw [receivedArguments, if_neg gui, git, commandLineToArgvW_word (by decide)
      (forall_visible_of_all rfl) (by decide) separate, List.drop_one, List.tail_cons]

end Received

/-! ### When the command line hands on the arguments -/

theorem not_isBlank_of_wcsicmp_gui {word : List Char} (gui : wcsicmp "gui".toList word = true) :
    ∀ c ∈ word, isBlank c = false := by
  intro c mem
  have lower : c.toLower ∈ "gui".toList.map Char.toLower := by
    rw [of_decide_eq_true gui]
    exact List.mem_map_of_mem mem
  have not_space : c ≠ ' ' := by
    rintro rfl
    exact absurd lower (by decide)
  have not_tab : c ≠ '\t' := by
    rintro rfl
    exact absurd lower (by decide)
  rw [isBlank, decide_eq_false not_space, decide_eq_false not_tab, Bool.or_self]

namespace StartLine

variable (line : StartLine)

/-- The arguments that are to be handed on. -/
def userArguments : List (List Char) :=
  if line.program = .gui then (arguments line.rest).drop 1 else arguments line.rest

/-- The word that asks for git gui is the first argument. -/
theorem gui_word (gui : line.program = .gui) :
    ∃ word, arguments line.rest = word :: line.userArguments ∧ ∀ c ∈ word, isBlank c = false := by
  have asked : (arguments line.rest)[0]?.any (wcsicmp "gui".toList) = true := by
    by_contra other
    rw [program, GitWrapper.program, List.getElem?_cons_succ, if_neg other] at gui
    exact nomatch gui
  rw [userArguments, if_pos gui]
  cases args : arguments line.rest with
  | nil =>
      rw [args] at asked
      exact nomatch asked
  | cons word others =>
      rw [args] at asked
      exact ⟨word, rfl, not_isBlank_of_wcsicmp_gui asked⟩

variable {pathAppend : List Char → List Char → List Char} {exepath : List Char}

/-- The arguments are handed on when they are those of the appended text. -/
theorem handsOn_launch (joined : Joined pathAppend exepath guiScript) :
    HandsOn line.text (launch pathAppend exepath line.text).cmd ↔
      arguments (appended (line.program = .gui) line.text line.name) = line.userArguments := by
  rw [HandsOn, cmd_launch, commandLineToArgvW_text,
    show GitWrapper.program (line.name :: arguments line.rest) = line.program from rfl,
    received_commandHead joined _ (line.separate_appended _), GitWrapper.userArguments,
    userArguments]
  rfl

theorem appended_git : appended false line.text line.name
    = if line.Trailing then ' ' :: '"' :: line.rest else wcschr line.rest ' ' := by
  rw [appended, wcschr_text]
  exact if_neg nofun

/-- The part in front of what is appended has the arguments that are not handed on. -/
theorem arguments_appended_of_spaced (spaced : line.Spaced) :
    arguments (appended (line.program = .gui) line.text line.name) = line.userArguments := by
  rw [Spaced] at spaced
  by_cases gui : line.program = .gui
  · rw [if_pos gui] at spaced
    obtain ⟨word, args, no_blank⟩ := line.gui_word gui
    have whole : arguments (line.guiPart ++ appended true line.text line.name)
        = [word] ++ line.userArguments := by
      rw [guiPart_append, args, List.singleton_append]
    rw [decide_eq_true gui]
    exact arguments_cut (List.forall_mem_singleton.mpr no_blank) (line.separate_appended true)
      whole spaced
  · rw [if_neg gui] at spaced
    have whole : arguments (upToSpace line.rest ++ wcschr line.rest ' ')
        = [] ++ line.userArguments := by
      rw [upToSpace_append, userArguments, if_neg gui, List.nil_append]
    rw [decide_eq_false gui, appended_git, if_neg spaced.1]
    exact arguments_cut (List.forall_mem_nil _) (separate_wcschr _) whole
      (congrArg List.length (arguments_eq_nil.mpr spaced.2))

/-- Otherwise it hands on the same arguments only if there is nothing to see in them. -/
theorem spaced_of_arguments_appended
    (same : arguments (appended (line.program = .gui) line.text line.name) = line.userArguments) :
    line.Spaced ∨ lead line.userArguments = none := by
  rw [Spaced]
  by_cases gui : line.program = .gui
  · obtain ⟨word, args, no_blank⟩ := line.gui_word gui
    rw [decide_eq_true gui] at same
    have cut : arguments (line.guiPart ++ appended true line.text line.name)
        = [word] ++ arguments (appended true line.text line.name) := by
      rw [guiPart_append, args, same, List.singleton_append]
    rw [if_pos gui, ← same]
    exact of_arguments_cut (List.forall_mem_singleton.mpr no_blank)
      (line.separate_appended true) cut
  · rw [decide_eq_false gui, appended_git, userArguments, if_neg gui] at same
    rw [if_neg gui, userArguments, if_neg gui]
    by_cases trailing : line.Trailing
    · rw [if_pos trailing, arguments_blank _ rfl] at same
      exact Or.inr (lead_arguments_of_quote line.separate same)
    · rw [if_neg trailing] at same
      have cut : arguments (upToSpace line.rest ++ wcschr line.rest ' ')
          = [] ++ arguments (wcschr line.rest ' ') := by
        rw [upToSpace_append, same, List.nil_append]
      refine (of_arguments_cut (List.forall_mem_nil _) (separate_wcschr _) cut).imp ?_ ?_
      · exact fun none_left =>
          ⟨trailing, arguments_eq_nil.mp (List.length_eq_zero_iff.mp none_left)⟩
      · rw [same]
        exact id

end StartLine

/-- **When the arguments are handed on.**  They are if the spaces are where the code
expects them, and otherwise they are not, unless each of them consists of blanks only. -/
theorem handsOn_iff (pathAppend : List Char → List Char → List Char) (exepath : List Char)
    (joined : Joined pathAppend exepath guiScript) (line : StartLine) :
    (line.Spaced → HandsOn line.text (launch pathAppend exepath line.text).cmd) ∧
      ((∃ arg ∈ line.userArguments, ∃ c ∈ arg, isBlank c = false) →
        (HandsOn line.text (launch pathAppend exepath line.text).cmd ↔ line.Spaced)) := by
  rw [line.handsOn_launch joined]
  refine ⟨line.arguments_appended_of_spaced, ?_⟩
  rintro ⟨arg, mem, c, mem_c, visible⟩
  refine ⟨fun same => ?_, line.arguments_appended_of_spaced⟩
  rcases line.spaced_of_arguments_appended same with spaced | nothing
  · exact spaced
  · exact absurd (lead_eq_none.mp nothing arg mem c mem_c) (by rw [visible]; decide)

/-- Two paths with a backslash between them. -/
def joinPath (path more : List Char) : List Char :=
  if path.getLast? = some '\\' then path ++ more else path ++ '\\' :: more

/-- `git.exe` with what follows. -/
def StartLine.bare (rest : List Char) (separate : Separate rest) : StartLine where
  quoted := false
  name := gitExe
  rest := rest
  name_quoted := nofun
  name_bare _ := ⟨by decide, forall_visible_of_all rfl, by decide⟩
  separate := separate

def installPath : List Char := "C:\\Git".toList

theorem joined_installPath : Joined joinPath installPath guiScript :=
  ⟨"C:\\Git\\".toList, rfl, by decide, by decide⟩

/-- With a space behind the name all is well. -/
theorem handsOn_space :
    HandsOn "git.exe commit -m x".toList
      (launch joinPath installPath "git.exe commit -m x".toList).cmd :=
  let line := StartLine.bare " commit -m x".toList (separate_cons rfl)
  have result := handsOn_iff joinPath installPath joined_installPath line
  (result.2 ⟨"commit".toList, by decide, 'c', by decide, by decide⟩).mpr (by decide)

/-- A tab behind the name: `git.exe -m x` is run. -/
theorem not_handsOn_tab :
    (launch joinPath installPath "git.exe\tcommit -m x".toList).cmd = "git.exe -m x".toList ∧
    ¬HandsOn "git.exe\tcommit -m x".toList
      (launch joinPath installPath "git.exe\tcommit -m x".toList).cmd := by
  decide

end MsysGit.GitWrapper
