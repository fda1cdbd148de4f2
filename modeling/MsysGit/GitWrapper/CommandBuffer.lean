import MsysGit.GitWrapper.CommandLine
import MsysGit.GitWrapper.PathVariable

/-!
# The buffer for the command line

`main` assembles the command line of the program it starts in a buffer with room for the
user's own command line and `MAX_PATH` characters.  For `git.exe` that is always enough.
For git gui the path of the script is put in, and what is left out of the user's command
line makes up for the rest of the fixed text only in part: the script's path can be too long
for the buffer although it is a path of less than `MAX_PATH` characters (`cmdFits_iff`).

`PathAppend` and `PathQuoteSpaces` are parameters, without assumptions.
-/

namespace MsysGit.GitWrapper

open Library

/-! ### Strings in a buffer -/

/-- `wcscat` to a buffer of `capacity` characters; `none` is a write behind its end. -/
def wcscat (capacity : ℕ) (buffer more : Str) : Option Str :=
  if buffer.length + more.length + 1 ≤ capacity then some (buffer ++ more) else none

/-- One `wcscpy` or `wcscat` after the other. -/
def assemble (capacity : ℕ) (pieces : List Str) : Option Str :=
  pieces.foldlM (wcscat capacity) []

theorem foldlM_wcscat {capacity : ℕ} {buffer : Str} (room : buffer.length + 1 ≤ capacity)
    (pieces : List Str) :
    pieces.foldlM (wcscat capacity) buffer =
      if (buffer ++ pieces.flatten).length + 1 ≤ capacity then some (buffer ++ pieces.flatten)
      else none := by
  induction pieces generalizing buffer with
  | nil =>
      rw [List.flatten_nil, List.append_nil, if_pos room]
      rfl
  | cons piece pieces ih =>
      rw [List.foldlM_cons, wcscat]
      split_ifs with fits enough enough
      · have more : (buffer ++ piece).length + 1 ≤ capacity := by rwa [List.length_append]
        rw [Option.bind_eq_bind, Option.bind_some, ih more, List.append_assoc]
        exact if_pos enough
      · have more : (buffer ++ piece).length + 1 ≤ capacity := by rwa [List.length_append]
        rw [Option.bind_eq_bind, Option.bind_some, ih more, List.append_assoc]
        exact if_neg enough
      · -- The whole text does not fit if its beginning does not.
        rw [List.flatten_cons, List.length_append, List.length_append] at enough
        omega
      · rfl

/-- Only the length of the whole text counts. -/
theorem assemble_eq {capacity : ℕ} (room : 1 ≤ capacity) (pieces : List Str) :
    assemble capacity pieces =
      if pieces.flatten.length + 1 ≤ capacity then some pieces.flatten else none :=
  foldlM_wcscat (by simpa using room) pieces

/-! ### The code -/

section Command

variable (pathAppend : Str → Str → Str) (pathQuote : Str → Str) (exepath : Str)

/-- What the buffer `script` holds. -/
def script : Str := pathQuote (pathAppend exepath guiScript)

/-- What is copied and appended to `cmd`, in order. -/
def pieces (cmdline : Str) : List Str :=
  let more := appended (program (commandLineToArgvW cmdline) = .gui) cmdline (programName cmdline)
  match program (commandLineToArgvW cmdline) with
  | .gui => ["wish.exe ".toList, script pathAppend pathQuote exepath, " --".toList, more]
  | _ => ["git.exe".toList, more]

/-- The size with which `cmd` is allocated. -/
def cmdCapacity (cmdline : Str) : ℕ := cmdline.length + maxPath

/-- What `cmd` holds in the end; `none` is a write behind the end of the buffer. -/
def assembledCommand (cmdline : Str) : Option Str :=
  assemble (cmdCapacity cmdline) (pieces pathAppend pathQuote exepath cmdline)

/-- The buffer is large enough. -/
def CmdFits (cmdline : Str) : Prop :=
  (assembledCommand pathAppend pathQuote exepath cmdline).isSome

/-! ### What is left out -/

/-- The part of the command line up to the text that is appended. -/
def leftOut (gui : Bool) (cmdline name : Str) : Str :=
  let rest := cmdline.drop name.length
  cmdline.take name.length ++ StartLine.upToSpace rest ++
    if gui then StartLine.pastSpaces (wcschr rest ' ') else []

theorem leftOut_append (gui : Bool) (cmdline name : Str) :
    leftOut gui cmdline name ++ appended gui cmdline name = cmdline := by
  unfold leftOut appended
  cases gui with
  | false =>
      show _ ++ [] ++ wcschr (cmdline.drop name.length) ' ' = cmdline
      rw [List.append_nil, List.append_assoc, StartLine.upToSpace_append,
        List.take_append_drop]
  | true =>
      show _ ++ StartLine.pastSpaces _ ++ wcschr (List.dropWhile _ _) ' ' = cmdline
      rw [List.append_assoc, StartLine.pastSpaces_append, List.append_assoc,
        StartLine.upToSpace_append, List.take_append_drop]

theorem length_appended (gui : Bool) (cmdline name : Str) :
    (leftOut gui cmdline name).length + (appended gui cmdline name).length = cmdline.length := by
  rw [← List.length_append, leftOut_append]

/-! ### When the command fits -/

/-- The pieces are those of the command line that is started. -/
theorem flatten_pieces (cmdline : Str) :
    (pieces pathAppend pathQuoteSpaces exepath cmdline).flatten =
      (launch pathAppend exepath cmdline).cmd := by
  unfold pieces launch
  dsimp only
  generalize program (commandLineToArgvW cmdline) = started
  cases started with
  | gui =>
      have wish : "wish.exe ".toList = wishExe ++ [' '] := rfl
      have behind : " --".toList = ' ' :: dashes := rfl
      simp only [wish, behind, script, commandHead, List.flatten_cons, List.flatten_nil,
        List.append_nil, List.append_assoc]
  | git => exact congrArg (gitExe ++ ·) (List.append_nil _)
  | citool => exact congrArg (gitExe ++ ·) (List.append_nil _)

variable {pathAppend pathQuote exepath} {cmdline : Str}

/-- The buffer is large enough exactly when the whole command is short enough. -/
theorem cmdFits_iff_length :
    CmdFits pathAppend pathQuote exepath cmdline ↔
      (pieces pathAppend pathQuote exepath cmdline).flatten.length + 1 ≤ cmdCapacity cmdline := by
  have room : 1 ≤ cmdCapacity cmdline := by
    unfold cmdCapacity maxPath
    omega
  unfold CmdFits assembledCommand
  rw [assemble_eq room]
  split_ifs with enough
  · exact iff_of_true rfl enough
  · exact iff_of_false Bool.false_ne_true enough

/-- **When the buffer is large enough**: always for git; for git gui, the path of the script may
be longer than 247 characters only by what is left out of the user's command line. -/
theorem cmdFits_iff :
    CmdFits pathAppend pathQuote exepath cmdline ↔
      (program (commandLineToArgvW cmdline) = .gui →
        (script pathAppend pathQuote exepath).length ≤
          247 + (leftOut true cmdline (programName cmdline)).length) := by
  have gui := length_appended true cmdline (programName cmdline)
  have git := length_appended false cmdline (programName cmdline)
  rw [cmdFits_iff_length, cmdCapacity, maxPath]
  unfold pieces
  cases program (commandLineToArgvW cmdline) with
  | gui =>
      have wish : "wish.exe ".toList.length = 9 := rfl
      have behind : " --".toList.length = 3 := rfl
      simp only [List.flatten_cons, List.flatten_nil, List.append_nil, List.length_append, wish,
        behind, decide_true, forall_const]
      omega
  | git =>
      have exe : "git.exe".toList.length = 7 := rfl
      refine iff_of_true ?_ nofun
      simp only [List.flatten_cons, List.flatten_nil, List.append_nil, List.length_append, exe,
        reduceCtorEq, decide_false]
      omega
  | citool =>
      have exe : "git.exe".toList.length = 7 := rfl
      refine iff_of_true ?_ nofun
      simp only [List.flatten_cons, List.flatten_nil, List.append_nil, List.length_append, exe,
        reduceCtorEq, decide_false]
      omega

end Command

/-- An installation directory of 234 characters, whose script's path has 259. -/
theorem not_cmdFits_gui :
    (script plainPathAppend pathQuoteSpaces ("C:\\".toList ++ List.replicate 231 'g')).length
        < maxPath ∧
      ¬ CmdFits plainPathAppend pathQuoteSpaces ("C:\\".toList ++ List.replicate 231 'g')
        "git gui".toList := by
  unfold CmdFits
  decide +kernel

end MsysGit.GitWrapper
