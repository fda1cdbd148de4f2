import MsysGit.WinGit.SearchPath
import MsysGit.WinGit.VariableView

/-!
# "Use Git Bash only" and the stored `PATH`

The page of the installer says of this choice "Your PATH will not be modified".
The step reads `PATH`, takes the installation directory out, and writes the
entries back whatever the choice is.  The text survives that only if it is there
and is what joining its entries gives; a missing one is replaced by what the
process inherited.
-/

namespace MsysGit.WinGit

open MsysGit.Library

/-- No entry of a text lies in the installation directory. -/
def NoEntryInside (appDir path : Str) : Prop :=
  ∀ dir ∈ entries ';' path, ¬ (appDir ++ ['\\']) <+: (dir ++ ['\\'])

theorem NoEntryInside.outside_eq {appDir path : Str} (apart : NoEntryInside appDir path) :
    outside appDir path = entries ';' path := by
  rw [outside, List.filter_eq_self]
  exact fun dir inside => decide_eq_true (apart dir inside)

namespace Setup

variable {s : Setup} {ok allUsers : Bool} {v : Variable}

/-- What `SetEnvStrings` leaves stored. -/
theorem setEnvStrings_stored (dirStrings : List Str) :
    ((s.setEnvStrings ok v allUsers true dirStrings).2.registry allUsers v).map Entry.value =
      if ok = false then (s.registry allUsers v).map Entry.value
      else if merge ';' dirStrings = [] then none
      else some (merge ';' dirStrings) := by
  rcases setEnvStrings_cases s ok v allUsers dirStrings with
    ⟨kept, _, ⟨empty, none⟩ | failed⟩ | ⟨written, _, entry, succeeds⟩ |
      ⟨gone, _, empty, _, succeeds⟩
  · rw [kept, none, if_pos empty]
    simp
  · rw [kept, if_pos failed]
  · rw [written, if_neg (by rw [succeeds]; nofun), if_neg entry]
    simp [regWriteStringValue]
  · rw [gone, if_neg (by rw [succeeds]; nofun), if_pos empty]
    simp [regDeleteValue]

theorem envText_of_none (missing : (s.registry allUsers v).map Entry.value = none) :
    s.envText v allUsers = s.environment v := by
  rw [envText, regQueryStringValue, missing]
  rfl

theorem envText_of_nil (blank : (s.registry allUsers v).map Entry.value = some []) :
    s.envText v allUsers = s.environment v := by
  rw [envText, regQueryStringValue, blank]
  rfl

theorem envText_of_some {path : Str} (found : (s.registry allUsers v).map Entry.value = some path)
    (some_text : path ≠ []) : s.envText v allUsers = path := by
  rw [envText, regQueryStringValue, found]
  exact if_neg (mt List.length_eq_zero_iff.mp some_text)

end Setup

section Step

variable {readBack : Str → Str} {step : PostInstall} {m : Machine}

/-- The text that the step splits: the stored value, or what the process has when there is
none or an empty one. -/
def PostInstall.pathText (step : PostInstall) (m : Machine) : Str :=
  (Setup.start m step.environment).envText .path step.isAdminLoggedOn

/-- The setup in which `PATH` is read: nothing has been done to `PATH` yet. -/
theorem PostInstall.view_path_before :
    (step.setPlink readBack (step.resetVariable .svnSsh (step.resetVariable .gitSsh
      (Setup.start m step.environment)))).view .path =
      (Setup.start m step.environment).view .path := by
  rw [PostInstall.view_setPlink_other .path nofun nofun,
    PostInstall.view_resetVariable_other .path .svnSsh nofun,
    PostInstall.view_resetVariable_other .path .gitSsh nofun]

/-- What the stored value becomes: the entries of the text that was read, joined again, and
nothing when there are none. -/
theorem storedPath_bashOnly (bashOnly : step.rdbPath = .bashOnly)
    (apart : NoEntryInside step.appDir (step.pathText m)) :
    storedPath (curStepChanged readBack step m).toMachine step.isAdminLoggedOn =
      if step.succeeds .set .path = false then storedPath m step.isAdminLoggedOn
      else if entries ';' (step.pathText m) = [] then none
      else some (join ';' (entries ';' (step.pathText m))) := by
  let before := step.setPlink readBack (step.resetVariable .svnSsh
    (step.resetVariable .gitSsh (Setup.start m step.environment)))
  have same : before.view .path = (Setup.start m step.environment).view .path :=
    PostInstall.view_path_before
  have read : before.getEnvStrings .path step.isAdminLoggedOn =
      splitStrings (step.pathText m) := by
    rw [Setup.getEnvStrings_view, same]
    rfl
  have kept : (step.setHome readBack (step.resetVariable .home before)).registry
      step.isAdminLoggedOn .path = m.registry step.isAdminLoggedOn .path := by
    rw [PostInstall.setHome_path, PostInstall.resetVariable_path .home nofun]
    exact congrFun (congrArg View.registry same) step.isAdminLoggedOn
  have nothing_added : step.added = [] := by
    rw [added_eq, bashOnly]
    rfl
  have merged : merge ';' (removeAppDir step.appDir (splitStrings (step.pathText m))) =
      join ';' (entries ';' (step.pathText m)) := by
    have none_added := merge_removeAppDir step.appDir (step.pathText m) .bashOnly
    rwa [PathChoice.dirs, List.append_nil, List.append_nil, apart.outside_eq] at none_added
  rw [storedPath, curStepChanged, Setup.orLog_toMachine, nothing_added, List.append_nil, read,
    Setup.setEnvStrings_stored, kept, merged]
  simp only [join_entries_eq_nil]
  rfl

/-- **The condition under which the page keeps its word**: the value cannot be written; or it
is there and has no empty part; or it is not there and the process has no entry either. -/
def KeepsPath (step : PostInstall) (m : Machine) : Prop :=
  step.succeeds .set .path = false ∨
    match storedPath m step.isAdminLoggedOn with
    | some text => [] ∉ text.splitOn ';'
    | none => entries ';' (step.environment .path) = []

/-- **"Use Git Bash only" leaves the stored `PATH` as it was** exactly when the value cannot
be written, has no empty part, or is missing together with that of the process. -/
theorem storedPath_bashOnly_iff (bashOnly : step.rdbPath = .bashOnly)
    (stored_apart : ∀ text, storedPath m step.isAdminLoggedOn = some text →
      NoEntryInside step.appDir text)
    (process_apart : NoEntryInside step.appDir (step.environment .path)) :
    storedPath (curStepChanged readBack step m).toMachine step.isAdminLoggedOn =
      storedPath m step.isAdminLoggedOn ↔ KeepsPath step m := by
  rw [KeepsPath]
  cases found : storedPath m step.isAdminLoggedOn with
  | none =>
      have text : step.pathText m = step.environment .path :=
        Setup.envText_of_none (s := Setup.start m step.environment) found
      rw [storedPath_bashOnly bashOnly (by rw [text]; exact process_apart), found, text]
      by_cases failed : step.succeeds .set .path = false
      · simp [failed]
      · by_cases empty : entries ';' (step.environment .path) = []
        · simp [empty]
        · simp [failed, empty]
  | some path =>
      by_cases blank : path = []
      · -- An empty value is deleted or replaced.
        subst blank
        have text : step.pathText m = step.environment .path :=
          Setup.envText_of_nil (s := Setup.start m step.environment) found
        rw [storedPath_bashOnly bashOnly (by rw [text]; exact process_apart), found, text]
        by_cases failed : step.succeeds .set .path = false
        · simp [failed]
        · by_cases empty : entries ';' (step.environment .path) = []
          · simp [failed, empty]
          · simp [failed, empty, join_entries_eq_nil]
      · have text : step.pathText m = path :=
          Setup.envText_of_some (s := Setup.start m step.environment) found blank
        rw [storedPath_bashOnly bashOnly (by rw [text]; exact stored_apart path found), found, text]
        by_cases failed : step.succeeds .set .path = false
        · simp [failed]
        · by_cases empty : entries ';' path = []
          · have part : [] ∈ path.splitOn ';' := mem_splitOn_of_no_entry empty
            simp [failed, empty, part]
          · simp [failed, empty, join_entries_eq_self_iff empty]

end Step

/-! ### Instances -/

/-- An installation with Bash only, for the current user, whose process inherited `PATH`. -/
def PostInstall.forUser (path : Str) : PostInstall where
  appDir := "C:\\Git".toList
  isAdminLoggedOn := false
  environment := fun v => if v = .path then path else []
  rdbPath := .bashOnly
  edtPlink := none
  succeeds := fun _ _ => true

/-- A user's `PATH` of two entries is left as it is. -/
theorem storedPath_bashOnly_two :
    let m : Machine := ⟨fun allUsers v => if allUsers = false ∧ v = .path then
      some ⟨"C:\\A;C:\\B".toList, .user⟩ else none, fun _ => none⟩
    storedPath (curStepChanged id (.forUser "C:\\W".toList) m).toMachine false =
      some "C:\\A;C:\\B".toList := by
  intro m
  have kept := @storedPath_bashOnly_iff id (.forUser "C:\\W".toList) m rfl
    (by
      intro text stored
      obtain rfl := Option.some.inj stored
      rw [NoEntryInside]
      decide)
    (by rw [NoEntryInside]; decide)
  refine (kept.mpr (Or.inr ?_)).trans rfl
  show [] ∉ List.splitOn ';' "C:\\A;C:\\B".toList
  decide

/-- A user without a `PATH` is given one: what the process inherited. -/
theorem not_storedPath_bashOnly :
    ¬ ∀ (readBack : Str → Str) (step : PostInstall) (m : Machine), step.rdbPath = .bashOnly →
      (∀ text, storedPath m step.isAdminLoggedOn = some text →
        NoEntryInside step.appDir text) →
      NoEntryInside step.appDir (step.environment .path) →
      storedPath (curStepChanged readBack step m).toMachine step.isAdminLoggedOn =
        storedPath m step.isAdminLoggedOn := by
  intro always
  have kept := always id (.forUser "C:\\W".toList) ⟨fun _ _ => none, fun _ => none⟩ rfl
    (by
      intro text stored
      cases stored)
    (by rw [NoEntryInside]; decide)
  have written : storedPath (curStepChanged id (.forUser "C:\\W".toList)
      ⟨fun _ _ => none, fun _ => none⟩).toMachine false = some "C:\\W".toList := by decide
  exact absurd (written.symm.trans kept) nofun

end MsysGit.WinGit
