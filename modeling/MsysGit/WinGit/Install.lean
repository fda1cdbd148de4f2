import MsysGit.WinGit.Environment

/-!
# What the installer and the uninstaller do to the environment

`curStepChanged` is the part of `CurStepChanged(ssPostInstall)` that modifies
environment variables, `curUninstallStepChanged` that of
`CurUninstallStepChanged(usUninstall)`.  Both delete a variable when its value is
the one `setup.ini` records (`deleteIfRecorded`), and both take the installation
directory out of `PATH`.

Every call that can fail has its outcome in the step.  A failed call shows a
message and the code goes on.
-/

namespace MsysGit.WinGit

open MsysGit.Library

/-- The choices on the page for `PATH`. -/
inductive PathChoice
  | bashOnly
  | cmd
  | cmdTools
  deriving DecidableEq

/-- The calls made for a variable: delete it, set it, record it in `setup.ini`. -/
inductive Call
  | reset
  | set
  | record
  deriving DecidableEq

/-- A post-install step. -/
structure PostInstall where
  appDir : Str
  isAdminLoggedOn : Bool
  /-- The environment in which the process starts. -/
  environment : Variable → Str
  rdbPath : PathChoice
  /-- The path to Plink, when it is chosen.  The page is not left without a file of
  that name. -/
  edtPlink : Option {path : Str // path ≠ []}
  /-- Which calls succeed. -/
  succeeds : Call → Variable → Bool

/-- A run of the uninstaller. -/
structure Uninstall where
  appDir : Str
  isAdminLoggedOn : Bool
  environment : Variable → Str
  succeeds : Call → Variable → Bool
  /-- Whether `setup.ini` can be deleted. -/
  deletesFile : Bool

/-- The file in which an installation records what it changed. -/
def setupIniName (appDir : Str) : Str := appDir ++ "\\setup.ini".toList

/-- `Pos(AppDir+'\',Dir+'\')=1`. -/
def insideAppDir (appDir dir : Str) : Bool := (appDir ++ ['\\']).isPrefixOf (dir ++ ['\\'])

/-- The loop that removes the installation directory from `PATH`. -/
def removeAppDir (appDir : Str) (envPath : List Str) : List Str :=
  envPath.map fun dir => if insideAppDir appDir dir then [] else dir

/-- `HOME` has no entry, or only an empty one. -/
def homeMissing (envHome : List Str) : Bool :=
  envHome.length = 0 || (envHome.length = 1 && (envHome.headD []).length = 0)

/-- A single string that, without its quotes, is what was recorded. -/
def isRecord (env : List Str) (record : Str) : Bool :=
  env.length = 1 && removeQuotes (env.headD []) = record

namespace Setup

/-- Delete a variable if a previous installation set it. -/
def deleteIfRecorded (ok : Bool) (message : String) (v : Variable) (allUsers : Bool)
    (fileName : Str) (s : Setup) : Setup :=
  if isRecord (s.getEnvStrings v allUsers) (s.getIniString v fileName) then
    orLog message (s.setEnvStrings ok v allUsers true [])
  else s

/-- Set a variable, and mark that it was changed by writing its value to `setup.ini`. -/
def setAndRecord (readBack : Str → Str) (succeeds : Call → Variable → Bool) (v : Variable)
    (value : Str) (allUsers : Bool) (fileName : Str) (s : Setup) : Setup :=
  let s := orLog ("Unable to set the " ++ v.name ++ " environment variable.")
    (s.setEnvStrings (succeeds .set v) v allUsers true [value])
  -- The value is recorded even if it could not be set.
  orLog ("Unable to write to file \"" ++ String.ofList fileName ++ "\".")
    (s.setIniString readBack (succeeds .record v) v value fileName)

end Setup

/-! ### The installer -/

section Install

variable (readBack : Str → Str) (step : PostInstall)

/-- Delete what an earlier installation set. -/
def PostInstall.resetVariable (v : Variable) (s : Setup) : Setup :=
  s.deleteIfRecorded (step.succeeds .reset v) ("Unable to reset " ++ v.name ++ " prior to install.")
    v step.isAdminLoggedOn (setupIniName step.appDir)

/-- Set a variable to a value of this installation. -/
def PostInstall.setVariable (v : Variable) (value : Str) (s : Setup) : Setup :=
  s.setAndRecord readBack step.succeeds v value step.isAdminLoggedOn (setupIniName step.appDir)

/-- `GIT_SSH` and `SVN_SSH`, when Plink is chosen. -/
def PostInstall.setPlink (s : Setup) : Setup :=
  match step.edtPlink with
  | some path =>
      step.setVariable readBack .svnSsh path (step.setVariable readBack .gitSsh path s)
  | none => s

/-- The directories to be added to `PATH`: `\cmd` has the higher priority. -/
def PostInstall.added : List Str :=
  if step.rdbPath = .cmd ∨ step.rdbPath = .cmdTools then
    (step.appDir ++ "\\cmd".toList) ::
      (if step.rdbPath = .cmdTools then [step.appDir ++ "\\bin".toList] else [])
  else []

/-- Set `HOME` for the Windows Command Prompt, but only if it has not been set manually
before. -/
def PostInstall.setHome (s : Setup) : Setup :=
  if step.rdbPath = .cmdTools ∧ homeMissing (s.getEnvStrings .home step.isAdminLoggedOn) then
    step.setVariable readBack .home (s.environment .homeDrive ++ s.environment .homePath) s
  else s

/-- The environment part of `CurStepChanged`. -/
def curStepChanged (m : Machine) : Setup :=
  let s := Setup.start m step.environment
  let s := step.resetVariable .gitSsh s
  let s := step.resetVariable .svnSsh s
  let s := step.setPlink readBack s
  let envPath := s.getEnvStrings .path step.isAdminLoggedOn
  let envPath := removeAppDir step.appDir envPath
  let s := step.resetVariable .home s
  let envPath := envPath ++ step.added
  let s := step.setHome readBack s
  Setup.orLog "Unable to set the PATH environment variable."
    (s.setEnvStrings (step.succeeds .set .path) .path step.isAdminLoggedOn true envPath)

end Install

/-! ### The uninstaller -/

section Remove

variable (step : Uninstall)

/-- Delete what an installation set. -/
def Uninstall.revertVariable (v : Variable) (s : Setup) : Setup :=
  s.deleteIfRecorded (step.succeeds .reset v)
    ("Unable to revert any possible changes to " ++ v.name ++ ".")
    v step.isAdminLoggedOn (setupIniName step.appDir)

/-- Delete `setup.ini`, if it is there. -/
def Uninstall.deleteSetupIni (s : Setup) : Setup :=
  let fileName := setupIniName step.appDir
  if (s.setupIni fileName).isSome then
    Setup.orLog ("Unable to delete file \"" ++ String.ofList fileName ++ "\".")
      (s.deleteFile step.deletesFile fileName)
  else s

/-- The environment part of `CurUninstallStepChanged`. -/
def curUninstallStepChanged (m : Machine) : Setup :=
  let s := Setup.start m step.environment
  let s := step.revertVariable .gitSsh s
  let s := step.revertVariable .svnSsh s
  let envPath := s.getEnvStrings .path step.isAdminLoggedOn
  let envPath := removeAppDir step.appDir envPath
  let s := Setup.orLog "Unable to revert any possible changes to PATH."
    (s.setEnvStrings (step.succeeds .set .path) .path step.isAdminLoggedOn true envPath)
  let s := step.revertVariable .home s
  step.deleteSetupIni s

end Remove

/-! ### An installation -/

/-- An administrator installs into `C:\Git`, and every call succeeds. -/
def PostInstall.intoGit (rdbPath : PathChoice) (edtPlink : Option {path : Str // path ≠ []}) :
    PostInstall where
  appDir := "C:\\Git".toList
  isAdminLoggedOn := true
  environment := fun _ => []
  rdbPath := rdbPath
  edtPlink := edtPlink
  succeeds := fun _ _ => true

/-- The uninstaller of `C:\Git`, run by an administrator. -/
def Uninstall.ofGit : Uninstall where
  appDir := "C:\\Git".toList
  isAdminLoggedOn := true
  environment := fun _ => []
  succeeds := fun _ _ => true
  deletesFile := true

end MsysGit.WinGit
