import MsysGit.Library.CString

/-!
# The command line of create-shortcut

`create-shortcut` reads options in pairs as long as two arguments are left and the first of
them starts with a dash, then skips one `--`, and needs a source and a destination.  What it
accepts is therefore a list of options and a source without a dash in front
(`parse_eq_ok_iff`): a `--` in front of two arguments is taken for an option, and the branch
that skips it only leads to the usage message.
-/

namespace MsysGit.CreateShortcut

open MsysGit.Library

/-! ### The options -/

/-- The options that `main` knows. -/
inductive Switch
  | workDir
  | arguments
  | showCmd
  | iconFile
  | description
  deriving DecidableEq

namespace Switch

def name : Switch → Bytes
  | workDir => text "--work-dir"
  | arguments => text "--arguments"
  | showCmd => text "--show-cmd"
  | iconFile => text "--icon-file"
  | description => text "--description"

/-- The chain of `strcmp`. -/
def ofName? (arg : Bytes) : Option Switch :=
  if arg = workDir.name then some workDir
  else if arg = arguments.name then some arguments
  else if arg = showCmd.name then some showCmd
  else if arg = iconFile.name then some iconFile
  else if arg = description.name then some description
  else none

theorem ofName?_name (s : Switch) : ofName? s.name = some s := by
  cases s <;> decide

theorem name_of_ofName? {arg : Bytes} {s : Switch} (known : ofName? arg = some s) :
    arg = s.name := by
  unfold ofName? at known
  split_ifs at known with same same same same same <;>
    exact Option.some.inj known ▸ same

theorem head?_name (s : Switch) : s.name.head? = some 45 := by
  cases s <;> rfl

end Switch

/-- The variables that the options set. -/
structure Options where
  workDir : Option Bytes := none
  arguments : Option Bytes := none
  showCmd : ℤ := 1
  iconFile : Option Bytes := none
  description : Option Bytes := none
  deriving DecidableEq

/-- What one option does. -/
def Options.set (o : Options) (value : Bytes) : Switch → Options
  | .workDir => { o with workDir := some value }
  | .arguments => { o with arguments := some value }
  | .showCmd => { o with showCmd := CString.atoi value }
  | .iconFile => { o with iconFile := some value }
  | .description => { o with description := some value }

/-- Options as they are given, in order. -/
abbrev Pairs := List (Switch × Bytes)

/-- The arguments that the options take on the command line. -/
def optionArgs (pairs : Pairs) : List Bytes := pairs.flatMap fun p => [p.1.name, p.2]

def Options.setAll (o : Options) (pairs : Pairs) : Options :=
  pairs.foldl (fun o p => o.set p.2 p.1) o

/-! ### Reading the command line -/

/-- The loop: the options, and the arguments that it leaves. -/
def readOptions : Options → List Bytes → Except Bytes (Options × List Bytes)
  | o, arg :: value :: args =>
      if arg.head? ≠ some 45 then .ok (o, arg :: value :: args)
      else match Switch.ofName? arg with
        | some s => readOptions (o.set value s) args
        | none => .error (text "Unknown option: " ++ arg)
  | o, args => .ok (o, args)

/-- `--` -/
def dashes : Bytes := text "--"

def skipDashes : List Bytes → List Bytes
  | [] => []
  | arg :: args => if arg = dashes then args else arg :: args

theorem length_skipDashes_le (args : List Bytes) : (skipDashes args).length ≤ args.length := by
  cases args with
  | nil => exact le_rfl
  | cons arg args =>
      rw [skipDashes]
      split_ifs
      · exact Nat.le_succ _
      · exact le_rfl

/-- What is asked for. -/
structure Request where
  options : Options
  source : Bytes
  destination : Bytes
  deriving DecidableEq

/-- The part of `main` before the first call of OLE: a request, or the line for `stderr`. -/
def parse (progname : Bytes) (args : List Bytes) : Except Bytes Request :=
  match readOptions {} args with
  | .error line => .error line
  | .ok (options, args) =>
      match skipDashes args with
      | source :: destination :: _ => .ok ⟨options, source, destination⟩
      | _ => .error (text "Usage: " ++ progname ++ text " [options] <source> <destination>")

/-! ### The link -/

/-- A call that the program makes on the link. -/
inductive Call
  | setPath (file : Bytes)
  | setWorkingDirectory (dir : Bytes)
  | setShowCmd (command : ℤ)
  | setIconLocation (file : Bytes)
  | setArguments (arguments : Bytes)
  | setDescription (description : Bytes)
  | save (file : List UInt16)
  deriving DecidableEq

/-- Which calls succeed, the name that `MultiByteToWideChar` leaves in the buffer, and what
`GetLastError` returns. -/
structure Ole where
  coInitialize : Bool
  coCreateInstance : Bool
  queryInterface : Bool
  setPath : Bytes → Bool
  toWide : Bytes → List UInt16
  save : List Call → List UInt16 → Bool
  lastError : ℤ

/-- How the program ends, and what it has done. -/
structure Run where
  status : ℕ
  stderr : List Bytes
  calls : List Call
  deriving DecidableEq

namespace Ole

variable (ole : Ole)

def die (message : Bytes) (calls : List Call) : Run :=
  ⟨1, [message, text "last error: " ++ text (toString ole.lastError)], calls⟩

/-- The calls whose results are ignored. -/
def fields (o : Options) : List Call :=
  (o.workDir.map Call.setWorkingDirectory).toList ++
    (if o.showCmd ≠ 0 then [Call.setShowCmd o.showCmd] else []) ++
    (o.iconFile.map Call.setIconLocation).toList ++
    (o.arguments.map Call.setArguments).toList ++
    (o.description.map Call.setDescription).toList

/-- `main` behind the command line. -/
def create (r : Request) : Run :=
  let target := [Call.setPath r.source]
  let link := target ++ fields r.options
  let wsz := ole.toWide r.destination
  if ¬ ole.coInitialize then ole.die (text "Could not initialize OLE") []
  else if ¬ ole.coCreateInstance then ole.die (text "Could not get ShellLink interface") []
  else if ¬ ole.queryInterface then ole.die (text "Could not get PersistFile interface") []
  else if ¬ ole.setPath r.source then ole.die (text "Could not set path") target
  else if ¬ ole.save link wsz then ole.die (text "Could not save link") (link ++ [.save wsz])
  else ⟨0, [], link ++ [.save wsz]⟩

def main (progname : Bytes) (args : List Bytes) : Run :=
  match parse progname args with
  | .error line => ⟨1, [line], []⟩
  | .ok request => ole.create request

end Ole

/-! ### What is accepted -/

section Parse

variable {o : Options} {progname : Bytes}

/-- An argument without a dash ends the options. -/
theorem readOptions_of_head? {source : Bytes} (plain : source.head? ≠ some 45)
    (args : List Bytes) : readOptions o (source :: args) = .ok (o, source :: args) := by
  cases args with
  | nil => rfl
  | cons value args =>
      rw [readOptions]
      exact if_pos plain

/-- One option is taken off the front. -/
theorem readOptions_name (s : Switch) (value : Bytes) (args : List Bytes) :
    readOptions o (s.name :: value :: args) = readOptions (o.set value s) args := by
  rw [readOptions, if_neg (not_not_intro s.head?_name), s.ofName?_name]

/-- All options are. -/
theorem readOptions_append (pairs : Pairs) (args : List Bytes) :
    readOptions o (optionArgs pairs ++ args) = readOptions (o.setAll pairs) args := by
  induction pairs generalizing o with
  | nil => rfl
  | cons p pairs ih =>
      show readOptions o (p.1.name :: p.2 :: (optionArgs pairs ++ args)) = _
      rw [readOptions_name, ih]
      rfl

/-- An option that is not known ends the program. -/
theorem readOptions_unknown {arg : Bytes} (dash : arg.head? = some 45)
    (unknown : Switch.ofName? arg = none) (value : Bytes) (args : List Bytes) :
    readOptions o (arg :: value :: args) = .error (text "Unknown option: " ++ arg) := by
  rw [readOptions, if_neg (not_not_intro dash), unknown]

/-- What the loop leaves: fewer than two arguments, or one without a dash in front. -/
theorem readOptions_eq_ok {o' : Options} {args left : List Bytes}
    (done : readOptions o args = .ok (o', left)) :
    ∃ pairs : Pairs, args = optionArgs pairs ++ left ∧ o' = o.setAll pairs ∧
      (left.length < 2 ∨ ∀ arg ∈ left.head?, arg.head? ≠ some 45) := by
  fun_induction readOptions o args with
  | case1 o arg value args plain =>
      cases done
      refine ⟨[], rfl, rfl, Or.inr fun first here => ?_⟩
      rw [List.head?_cons, Option.mem_some_iff] at here
      exact here ▸ plain
  | case2 o arg value args _ s known ih =>
      obtain ⟨pairs, rfl, rfl, ended⟩ := ih done
      rw [Switch.name_of_ofName? known]
      exact ⟨(s, value) :: pairs, rfl, rfl, ended⟩
  | case3 => cases done
  | case4 o args short =>
      cases done
      refine ⟨[], rfl, rfl, Or.inl ?_⟩
      match left, short with
      | [], _ => exact Nat.zero_lt_two
      | [_], _ => exact Nat.one_lt_two
      | arg :: value :: more, short => exact absurd rfl (short arg value more)

/-- **What is accepted**: options, a source without a dash in front, a destination, and
anything behind it. -/
theorem parse_eq_ok_iff {args : List Bytes} {request : Request} :
    parse progname args = .ok request ↔
      request.source.head? ≠ some 45 ∧ ∃ (pairs : Pairs) (more : List Bytes),
        args = optionArgs pairs ++ request.source :: request.destination :: more ∧
        request.options = ({} : Options).setAll pairs := by
  constructor
  · intro accepted
    unfold parse at accepted
    split at accepted
    · cases accepted
    · rename_i options left done
      obtain ⟨pairs, rfl, rfl, ended⟩ := readOptions_eq_ok done
      split at accepted
      · rename_i source destination more rest
        cases accepted
        rcases ended with short | plain
        · -- Skipping `--` cannot leave two arguments where there was at most one.
          have fewer : (skipDashes left).length ≤ left.length := length_skipDashes_le left
          rw [rest] at fewer
          simp only [List.length_cons] at fewer
          omega
        · match left, plain, rest with
          | [], _, rest => cases rest
          | arg :: left, plain, rest =>
              have here : arg.head? ≠ some 45 := plain arg rfl
              have other : arg ≠ dashes := fun same => here (same ▸ rfl)
              rw [skipDashes, if_neg other] at rest
              cases rest
              exact ⟨here, pairs, more, rfl, rfl⟩
      · cases accepted
  · rintro ⟨plain, pairs, more, rfl, rfl'⟩
    have other : request.source ≠ dashes := fun same => plain (same ▸ rfl)
    unfold parse
    rw [readOptions_append, readOptions_of_head? plain]
    show (match skipDashes (request.source :: request.destination :: more) with
      | source :: destination :: _ => Except.ok (Request.mk _ source destination)
      | _ => _) = _
    rw [skipDashes, if_neg other, ← rfl']

end Parse

/-! ### The two forms -/

/-- The options, then the arguments behind them. -/
def given (pairs : Pairs) (args : List Bytes) : List Bytes := optionArgs pairs ++ args

/-- With a `--` in front of them, a source and a destination are accepted, and the link gets the
same fields as without, where the source does not look like an option. -/
structure TakesDashes (ole : Ole) (progname : Bytes) (pairs : Pairs) (source destination : Bytes) :
    Prop where
  accepted : ∃ request,
    parse progname (given pairs [dashes, source, destination]) = .ok request
  same : source.head? ≠ some 45 →
    (ole.main progname (given pairs [dashes, source, destination])).calls =
      (ole.main progname (given pairs [source, destination])).calls

variable (ole : Ole) (progname : Bytes) (pairs : Pairs) (source destination : Bytes)

/-- Without the `--`, the link is made as asked for. -/
theorem main_given (plain : source.head? ≠ some 45) :
    ole.main progname (given pairs [source, destination]) =
      ole.create ⟨({} : Options).setAll pairs, source, destination⟩ := by
  have accepted : parse progname (given pairs [source, destination]) =
      .ok ⟨({} : Options).setAll pairs, source, destination⟩ :=
    parse_eq_ok_iff.mpr ⟨plain, pairs, [], rfl, rfl⟩
  rw [Ole.main, accepted]

theorem parse_dashes :
    parse progname (given pairs [dashes, source, destination]) =
      .error (text "Unknown option: --") := by
  unfold parse
  rw [given, readOptions_append, readOptions_unknown rfl (by decide)]
  rfl

/-- With it, nothing is made at all. -/
theorem main_dashes :
    ole.main progname (given pairs [dashes, source, destination]) =
      ⟨1, [text "Unknown option: --"], []⟩ := by
  rw [Ole.main, parse_dashes]

/-- **The `--` is never accepted**: it is taken for an option. -/
theorem not_takesDashes : ¬ TakesDashes ole progname pairs source destination := by
  rintro ⟨⟨request, accepted⟩, -⟩
  rw [parse_dashes] at accepted
  cases accepted

/-- A source that looks like an option. -/
theorem not_takesDashes_source :
    ¬ ∀ ole, TakesDashes ole (text "create-shortcut") [(.workDir, text "C:\\msysgit")]
      (text "-x.exe") (text "x.lnk") := by
  intro all
  let ole : Ole := ⟨true, true, true, fun _ => true, fun s => s.map UInt8.toUInt16,
    fun _ _ => true, 0⟩
  obtain ⟨request, accepted⟩ := (all ole).accepted
  rw [parse_dashes] at accepted
  cases accepted

end MsysGit.CreateShortcut
