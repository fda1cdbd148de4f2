import MsysGit.WinGit.Install

/-!
# One variable at a time

What the code does to one variable depends on that variable alone.  A `View` is all
there is of one: its registry values, its text in the process, what the ini files
record for it, and which of its values were deleted.  The operations of the code are
operations on the view of their own variable (`view_setEnvStrings` and the like) and
leave every other view alone, so a whole step is a short program on each view
(`curStepChanged_view`, `curUninstallStepChanged_view`).
-/

namespace MsysGit.WinGit

open MsysGit.Library

/-- A single variable. -/
structure View where
  registry : Bool → Option Entry
  environment : Str
  /-- What is recorded, by the name of the ini file. -/
  record : Str → Str
  /-- The deleted values and their scopes. -/
  deleted : List (Bool × Entry)

namespace View

variable (t : View)

def envText (allUsers : Bool) : Str :=
  let path := ((t.registry allUsers).map Entry.value).getD []
  if path.length = 0 then t.environment else path

def getEnvStrings (allUsers : Bool) : List Str := splitStrings (t.envText allUsers)

def write (allUsers : Bool) (value : Str) : View :=
  { t with registry := Function.update t.registry allUsers (some ⟨value, .installer⟩) }

def delete (allUsers : Bool) (entry : Entry) : View :=
  { t with
    registry := Function.update t.registry allUsers none
    deleted := t.deleted ++ [(allUsers, entry)] }

/-- What `SetEnvStrings` does to the registry. -/
def store (ok : Bool) (allUsers : Bool) (path : Str) : View :=
  if ok = false then t
  else if path.length = 0 then (t.registry allUsers).elim t (t.delete allUsers)
  else t.write allUsers path

def setEnvironment (value : Str) : View := { t with environment := value }

def setEnvStrings (ok : Bool) (allUsers : Bool) (dirStrings : List Str) : View :=
  (t.store ok allUsers (merge ';' dirStrings)).setEnvironment (merge ';' dirStrings)

def deleteIfRecorded (ok : Bool) (allUsers : Bool) (fileName : Str) : View :=
  if isRecord (t.getEnvStrings allUsers) (t.record fileName) then t.setEnvStrings ok allUsers []
  else t

def setRecord (ok : Bool) (fileName value : Str) : View :=
  if ok then { t with record := Function.update t.record fileName value } else t

end View

namespace Setup

variable {s : Setup} {ok : Bool} {v w : Variable} {allUsers : Bool}

/-- What there is of one variable. -/
def view (s : Setup) (v : Variable) : View where
  registry := fun allUsers => s.registry allUsers v
  environment := s.environment v
  record := fun fileName => s.getIniString v fileName
  deleted := (s.deleted.filter (·.name = v)).map fun d => (d.allUsers, d.entry)

theorem getEnvStrings_view (s : Setup) (v : Variable) (allUsers : Bool) :
    s.getEnvStrings v allUsers = (s.view v).getEnvStrings allUsers := rfl

@[simp] theorem view_orLog (message : String) (result : Bool × Setup) (v : Variable) :
    (orLog message result).view v = result.2.view v := by
  rw [orLog]
  split <;> rfl

/-- Two views are the same when they have the same values, texts, records and
deletions. -/
theorem view_eq_of {s' : Setup} (registry : ∀ a, s.registry a v = s'.registry a v)
    (environment : s.environment v = s'.environment v)
    (record : ∀ f, s.getIniString v f = s'.getIniString v f)
    (deleted : s.deleted.filter (·.name = v) = s'.deleted.filter (·.name = v)) :
    s.view v = s'.view v := by
  rw [view, view, environment, deleted]
  congr 1
  · funext a
    exact registry a
  · funext f
    exact record f

theorem view_regWriteStringValue (value : Str) :
    (s.regWriteStringValue allUsers v value).view v = (s.view v).write allUsers value := by
  rw [View.write, view]
  congr 1
  funext a
  by_cases same : a = allUsers
  · simp [view, regWriteStringValue, same]
  · simp [view, regWriteStringValue, same]

theorem view_regDeleteValue {entry : Entry} (stored : s.registry allUsers v = some entry) :
    (s.regDeleteValue allUsers v).view v = (s.view v).delete allUsers entry := by
  rw [View.delete, view]
  congr 1
  · funext a
    by_cases same : a = allUsers
    · simp [view, regDeleteValue, same]
    · simp [view, regDeleteValue, same]
  · simp [view, regDeleteValue, stored]

theorem view_setEnvironmentVariable (s : Setup) (v : Variable) (value : Str) :
    (s.setEnvironmentVariable v value).view v = (s.view v).setEnvironment value := by
  rw [View.setEnvironment, view]
  congr 1
  simp [setEnvironmentVariable]

theorem view_storeString (s : Setup) (ok : Bool) (v : Variable) (allUsers : Bool) (path : Str) :
    (s.storeString ok v allUsers true path).2.view v = (s.view v).store ok allUsers path := by
  have registry : (s.view v).registry allUsers = s.registry allUsers v := rfl
  rw [storeString, View.store, registry]
  by_cases empty : path.length = 0
  · rw [if_pos ⟨rfl, empty⟩, if_pos empty]
    cases stored : s.registry allUsers v with
    | none => cases ok <;> rfl
    | some entry =>
        cases ok with
        | false => rfl
        | true => exact view_regDeleteValue stored
  · rw [if_neg fun both => empty both.2, if_neg empty]
    cases ok with
    | false => rfl
    | true => exact view_regWriteStringValue _

/-- `SetEnvStrings` on the view of its variable. -/
theorem view_setEnvStrings (s : Setup) (ok : Bool) (v : Variable) (allUsers : Bool)
    (dirStrings : List Str) :
    (s.setEnvStrings ok v allUsers true dirStrings).2.view v =
      (s.view v).setEnvStrings ok allUsers dirStrings := by
  rw [setEnvStrings, view_setEnvironmentVariable, view_storeString, View.setEnvStrings]

/-- `SetIniString` on the view of its variable. -/
theorem view_setIniString (readBack : Str → Str) (s : Setup) (ok : Bool) (v : Variable)
    (value fileName : Str) :
    (s.setIniString readBack ok v value fileName).2.view v =
      (s.view v).setRecord ok fileName (readBack value) := by
  cases ok with
  | false => rfl
  | true =>
      rw [View.setRecord, if_pos rfl, view]
      congr 1
      funext f
      by_cases same : f = fileName
      · simp [setIniString, Machine.getIniString, same]
      · simp [view, setIniString, Machine.getIniString, same]

/-- What is recorded is gone with the file. -/
theorem view_deleteFile (s : Setup) (ok : Bool) (v : Variable) (fileName : Str) :
    (s.deleteFile ok fileName).2.view v = (s.view v).setRecord ok fileName [] := by
  cases ok with
  | false => rfl
  | true =>
      rw [View.setRecord, if_pos rfl, view]
      congr 1
      funext f
      by_cases same : f = fileName
      · simp [deleteFile, Machine.getIniString, same]
      · simp [view, deleteFile, Machine.getIniString, same]

/-- The ownership test and the deletion on the view of its variable. -/
theorem view_deleteIfRecorded (s : Setup) (ok : Bool) (message : String) (v : Variable)
    (allUsers : Bool) (fileName : Str) :
    (s.deleteIfRecorded ok message v allUsers fileName).view v =
      (s.view v).deleteIfRecorded ok allUsers fileName := by
  have record : s.getIniString v fileName = (s.view v).record fileName := rfl
  rw [deleteIfRecorded, View.deleteIfRecorded, getEnvStrings_view, record]
  split
  · rw [view_orLog, view_setEnvStrings]
  · rfl

theorem view_setAndRecord (readBack : Str → Str) (s : Setup) (succeeds : Call → Variable → Bool)
    (v : Variable) (value : Str) (allUsers : Bool) (fileName : Str) :
    (s.setAndRecord readBack succeeds v value allUsers fileName).view v =
      ((s.view v).setEnvStrings (succeeds .set v) allUsers [value]).setRecord
        (succeeds .record v) fileName (readBack value) := by
  rw [setAndRecord, view_orLog, view_setIniString, view_orLog, view_setEnvStrings]

/-! ### The other variables -/

theorem deleted_setEnvStrings_other (dirStrings : List Str) (other : w ≠ v) :
    (s.setEnvStrings ok v allUsers true dirStrings).2.deleted.filter (·.name = w) =
      s.deleted.filter (·.name = w) := by
  rcases setEnvStrings_cases s ok v allUsers dirStrings with
    ⟨_, same, _⟩ | ⟨_, same, _⟩ | ⟨_, more, _⟩
  · rw [same]
  · rw [same]
  · rw [more, regDeleteValue]
    cases s.registry allUsers v with
    | none => simp
    | some entry => simp [Ne.symm other]

theorem environment_setEnvStrings_other (dirStrings : List Str) (other : w ≠ v) :
    (s.setEnvStrings ok v allUsers true dirStrings).2.environment w = s.environment w := by
  dsimp only [setEnvStrings, setEnvironmentVariable]
  rw [Function.update_of_ne other, storeString]
  split_ifs <;> rfl

/-- `SetEnvStrings` leaves every other variable alone. -/
theorem view_setEnvStrings_other (dirStrings : List Str) (other : w ≠ v) :
    (s.setEnvStrings ok v allUsers true dirStrings).2.view w = s.view w := by
  refine view_eq_of (fun a => ?_) ?_ (fun f => ?_) ?_
  · exact setEnvStrings_registry fun both => other both.2
  · exact environment_setEnvStrings_other dirStrings other
  · rw [Machine.getIniString, setEnvStrings_setupIni]
    rfl
  · exact deleted_setEnvStrings_other dirStrings other

theorem view_deleteIfRecorded_other {message : String} {fileName : Str} (other : w ≠ v) :
    (s.deleteIfRecorded ok message v allUsers fileName).view w = s.view w := by
  rw [deleteIfRecorded]
  split
  · rw [view_orLog, view_setEnvStrings_other _ other]
  · rfl

theorem view_setIniString_other {readBack : Str → Str} {value fileName : Str} (other : w ≠ v) :
    (s.setIniString readBack ok v value fileName).2.view w = s.view w := by
  cases ok with
  | false => rfl
  | true =>
      refine view_eq_of (fun _ => rfl) rfl (fun f => ?_) rfl
      by_cases same : f = fileName
      · subst same
        rcases file : s.setupIni f with _ | keys
        · simp [setIniString, Machine.getIniString, other, file]
        · simp [setIniString, Machine.getIniString, other, file]
      · simp [setIniString, Machine.getIniString, same]

theorem view_setAndRecord_other {readBack : Str → Str} {succeeds : Call → Variable → Bool}
    {value fileName : Str} (other : w ≠ v) :
    (s.setAndRecord readBack succeeds v value allUsers fileName).view w = s.view w := by
  rw [setAndRecord, view_orLog, view_setIniString_other other, view_orLog,
    view_setEnvStrings_other _ other]

end Setup

/-! ### Whole steps -/

/-- The variables that installations set and record. -/
def Variable.tracked : Variable → Bool
  | gitSsh => true
  | svnSsh => true
  | home => true
  | _ => false

section Install

variable (readBack : Str → Str) (step : PostInstall)

/-- The value that a step gives to a variable, if any. -/
def PostInstall.value (v : Variable) (t : View) : Option Str :=
  match v with
  | .gitSsh => step.edtPlink.map Subtype.val
  | .svnSsh => step.edtPlink.map Subtype.val
  | .home =>
      if step.rdbPath = .cmdTools ∧ homeMissing (t.getEnvStrings step.isAdminLoggedOn) then
        some (step.environment .homeDrive ++ step.environment .homePath)
      else none
  | _ => none

/-- A variable is reset if it is recorded. -/
def PostInstall.resetView (v : Variable) (t : View) : View :=
  t.deleteIfRecorded (step.succeeds .reset v) step.isAdminLoggedOn (setupIniName step.appDir)

/-- A variable is set to a value and the value is recorded. -/
def PostInstall.giveView (v : Variable) (x : Str) (t : View) : View :=
  (t.setEnvStrings (step.succeeds .set v) step.isAdminLoggedOn [x]).setRecord
    (step.succeeds .record v) (setupIniName step.appDir) (readBack x)

/-- A post-install step on one variable. -/
def PostInstall.onView (v : Variable) (t : View) : View :=
  let t := step.resetView v t
  (step.value v t).elim t fun x => step.giveView readBack v x t

variable {readBack step} {s : Setup} {m : Machine} {v w : Variable}

theorem PostInstall.view_resetVariable :
    (step.resetVariable v s).view v = step.resetView v (s.view v) :=
  Setup.view_deleteIfRecorded ..

theorem PostInstall.view_resetVariable_other (w v : Variable) (other : w ≠ v) :
    (step.resetVariable v s).view w = s.view w :=
  Setup.view_deleteIfRecorded_other other

theorem PostInstall.view_setVariable {x : Str} :
    (step.setVariable readBack v x s).view v = step.giveView readBack v x (s.view v) :=
  Setup.view_setAndRecord ..

theorem PostInstall.view_setVariable_other (w v : Variable) {x : Str} (other : w ≠ v) :
    (step.setVariable readBack v x s).view w = s.view w :=
  Setup.view_setAndRecord_other other

theorem PostInstall.view_setPlink_of_ssh (ssh : v = .gitSsh ∨ v = .svnSsh) :
    (step.setPlink readBack s).view v =
      (step.value v (s.view v)).elim (s.view v) fun x => step.giveView readBack v x (s.view v) := by
  rw [setPlink]
  rcases ssh with rfl | rfl
  · rw [value]
    cases step.edtPlink with
    | none => rfl
    | some path => exact (view_setVariable_other .gitSsh .svnSsh nofun).trans view_setVariable
  · rw [value]
    cases step.edtPlink with
    | none => rfl
    | some path =>
        refine view_setVariable.trans ?_
        rw [view_setVariable_other .svnSsh .gitSsh nofun]
        rfl

theorem PostInstall.view_setPlink_other (w : Variable) (not_git : w ≠ .gitSsh)
    (not_svn : w ≠ .svnSsh) : (step.setPlink readBack s).view w = s.view w := by
  rw [setPlink]
  split
  · rw [view_setVariable_other w .svnSsh not_svn, view_setVariable_other w .gitSsh not_git]
  · rfl

theorem PostInstall.view_setHome (drive : s.environment .homeDrive = step.environment .homeDrive)
    (path : s.environment .homePath = step.environment .homePath) :
    (step.setHome readBack s).view .home = (step.value .home (s.view .home)).elim (s.view .home)
      fun x => step.giveView readBack .home x (s.view .home) := by
  rw [setHome, value, Setup.getEnvStrings_view, drive, path]
  split
  · exact view_setVariable
  · rfl

theorem PostInstall.view_setHome_other (w : Variable) (other : w ≠ .home) :
    (step.setHome readBack s).view w = s.view w := by
  rw [setHome]
  split
  · exact view_setVariable_other w .home other
  · rfl

/-- **A post-install step, one variable at a time.** -/
theorem curStepChanged_view (tracked : v.tracked = true) :
    (curStepChanged readBack step m).view v =
      step.onView readBack v ((Setup.start m step.environment).view v) := by
  have not_path : v ≠ .path := by
    rintro rfl
    cases tracked
  rw [curStepChanged, Setup.view_orLog, Setup.view_setEnvStrings_other _ not_path,
    PostInstall.onView]
  cases v with
  | gitSsh =>
      rw [PostInstall.view_setHome_other .gitSsh nofun,
        PostInstall.view_resetVariable_other .gitSsh .home nofun,
        PostInstall.view_setPlink_of_ssh (Or.inl rfl),
        PostInstall.view_resetVariable_other .gitSsh .svnSsh nofun,
        PostInstall.view_resetVariable]
  | svnSsh =>
      rw [PostInstall.view_setHome_other .svnSsh nofun,
        PostInstall.view_resetVariable_other .svnSsh .home nofun,
        PostInstall.view_setPlink_of_ssh (Or.inr rfl), PostInstall.view_resetVariable,
        PostInstall.view_resetVariable_other .svnSsh .gitSsh nofun]
  | home =>
      have reset : ∀ w, w ≠ .gitSsh → w ≠ .svnSsh →
          (step.setPlink readBack (step.resetVariable .svnSsh (step.resetVariable .gitSsh
            (Setup.start m step.environment)))).view w =
              (Setup.start m step.environment).view w := by
        intro w not_git not_svn
        rw [PostInstall.view_setPlink_other w not_git not_svn,
          PostInstall.view_resetVariable_other w .svnSsh not_svn,
          PostInstall.view_resetVariable_other w .gitSsh not_git]
      -- `HOMEDRIVE` and `HOMEPATH` are only read: the process has the values it began with.
      have drive := congrArg View.environment (reset .homeDrive nofun nofun)
      have path := congrArg View.environment (reset .homePath nofun nofun)
      rw [← PostInstall.view_resetVariable_other .homeDrive .home nofun] at drive
      rw [← PostInstall.view_resetVariable_other .homePath .home nofun] at path
      rw [PostInstall.view_setHome drive path, PostInstall.view_resetVariable,
        reset .home nofun nofun]
  | path => cases tracked
  | homeDrive => cases tracked
  | homePath => cases tracked

end Install

section Remove

/-- An uninstallation on one variable. -/
def Uninstall.onView (step : Uninstall) (v : Variable) (t : View) : View :=
  (t.deleteIfRecorded (step.succeeds .reset v) step.isAdminLoggedOn
    (setupIniName step.appDir)).setRecord step.deletesFile (setupIniName step.appDir) []

variable {step : Uninstall} {s : Setup} {m : Machine} {v w : Variable}

theorem Uninstall.view_revertVariable : (step.revertVariable v s).view v =
    (s.view v).deleteIfRecorded (step.succeeds .reset v) step.isAdminLoggedOn
      (setupIniName step.appDir) :=
  Setup.view_deleteIfRecorded ..

theorem Uninstall.view_revertVariable_other (w v : Variable) (other : w ≠ v) :
    (step.revertVariable v s).view w = s.view w :=
  Setup.view_deleteIfRecorded_other other

/-- What is recorded is gone with the file; a file that does not exist records
nothing. -/
theorem Uninstall.view_deleteSetupIni : (step.deleteSetupIni s).view v =
    (s.view v).setRecord step.deletesFile (setupIniName step.appDir) [] := by
  rw [deleteSetupIni]
  split
  · rw [Setup.view_orLog, Setup.view_deleteFile]
  · rename_i absent
    have nothing : (s.view v).record (setupIniName step.appDir) = [] := by
      have none : s.setupIni (setupIniName step.appDir) = none := by simpa using absent
      simp [Setup.view, Machine.getIniString, none]
    rw [View.setRecord]
    split
    · rw [← nothing, Function.update_eq_self]
    · rfl

/-- **An uninstallation, one variable at a time.** -/
theorem curUninstallStepChanged_view (tracked : v.tracked = true) :
    (curUninstallStepChanged step m).view v =
      step.onView v ((Setup.start m step.environment).view v) := by
  have not_path : v ≠ .path := by
    rintro rfl
    cases tracked
  rw [curUninstallStepChanged, Uninstall.view_deleteSetupIni, Uninstall.onView]
  cases v with
  | gitSsh =>
      rw [Uninstall.view_revertVariable_other .gitSsh .home nofun, Setup.view_orLog,
        Setup.view_setEnvStrings_other _ not_path,
        Uninstall.view_revertVariable_other .gitSsh .svnSsh nofun, Uninstall.view_revertVariable]
  | svnSsh =>
      rw [Uninstall.view_revertVariable_other .svnSsh .home nofun, Setup.view_orLog,
        Setup.view_setEnvStrings_other _ not_path, Uninstall.view_revertVariable,
        Uninstall.view_revertVariable_other .svnSsh .gitSsh nofun]
  | home =>
      rw [Uninstall.view_revertVariable, Setup.view_orLog,
        Setup.view_setEnvStrings_other _ not_path,
        Uninstall.view_revertVariable_other .home .svnSsh nofun,
        Uninstall.view_revertVariable_other .home .gitSsh nofun]
  | path => cases tracked
  | homeDrive => cases tracked
  | homePath => cases tracked

end Remove

end MsysGit.WinGit
