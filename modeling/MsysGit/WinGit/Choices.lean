import MsysGit.WinGit.Install
import Mathlib.Data.List.DropRight

/-!
# The pages of the wizard

`InitializeWizard` makes a page for `PATH`, one for the SSH client and one for line endings.
Each has radio buttons, and the one that an earlier installation has registered is checked.
`RegisterPreviousData` registers what is checked in the end.

The page for the SSH client is there only if PuTTY has sessions in the registry.  "Next" does
not leave it with Plink and without a file of the name in the box.  So a wizard that
has come to the installation offers `CurStepChanged` exactly one choice of each page, and a
path to Plink that is not empty (`ChoicePages.Proper`).
-/

namespace MsysGit.WinGit

/-- The choices on the page for the SSH client. -/
inductive SSHChoice
  | openSSH
  | plink
  deriving DecidableEq

/-- The choices on the page for line endings. -/
inductive CRLFChoice
  | lfOnly
  | crlfAlways
  | crlfCommitAsIs
  deriving DecidableEq

/-- What is stored for the next installation. -/
abbrev PreviousData := String → Option Str

/-- What there is on the disk. -/
structure Disk where
  fileExists : Str → Bool
  dirExists : Str → Bool
  /-- No file has an empty name. -/
  named : ∀ name, fileExists name = true → name ≠ []

/-- The values that `GetPuTTYLocation` asks for; the flag stands for
`HKEY_LOCAL_MACHINE_64`. -/
inductive PuTTYValue
  | tortoiseGitDirectory (is64 : Bool)
  | tortoiseSVNDirectory (is64 : Bool)
  | tortoiseCVSInstallLocation (is64 : Bool)
  | puttyInstallLocation
  | puttyPrivateKeyCommand
  deriving DecidableEq

/-- What the wizard finds when it starts. -/
structure Surroundings where
  disk : Disk
  isWin64 : Bool
  /-- `RegQueryStringValue`; `none` where it fails. -/
  regQueryStringValue : PuTTYValue → Option Str
  /-- The subkeys of PuTTY's `Sessions`, if they can be listed. -/
  puttySessions : Option (List Str)
  /-- `{pf}` -/
  pf : Str

/-! ### Radio buttons -/

/-- Which of the buttons of a page are checked. -/
abbrev RadioButtons (α : Type) := α → Bool

section Buttons

variable {α : Type} [DecidableEq α]

/-- `Checked:=True` for one button.  The others of the page lose their mark. -/
def checked (button : α) : RadioButtons α := fun other => other = button

/-- Check the button of this name, if there is one. -/
def restoreButtons (names : List (α × Str)) (data : Str) (buttons : RadioButtons α) :
    RadioButtons α :=
  match names.find? fun entry => entry.2 = data with
  | some entry => checked entry.1
  | none => buttons

/-- The name of the first button that is checked. -/
def buttonData (names : List (α × Str)) (buttons : RadioButtons α) : Str :=
  match names.find? fun entry => buttons entry.1 with
  | some entry => entry.2
  | none => []

theorem restoreButtons_checked (names : List (α × Str)) (data : Str) (default : α) :
    ∃ button, restoreButtons names data (checked default) = checked button := by
  rw [restoreButtons]
  split
  · exact ⟨_, rfl⟩
  · exact ⟨_, rfl⟩

/-- The button of a name is the one that is checked for it. -/
theorem restoreButtons_of_mem {names : List (α × Str)} {button : α} {data : Str}
    (distinct : (names.map Prod.snd).Nodup) (named : (button, data) ∈ names)
    (buttons : RadioButtons α) : restoreButtons names data buttons = checked button := by
  induction names with
  | nil => cases named
  | cons entry names ih =>
      rw [List.map_cons, List.nodup_cons] at distinct
      rw [restoreButtons, List.find?_cons]
      rcases List.mem_cons.mp named with rfl | later
      · simp
      · have other : entry.2 ≠ data := by
          rintro rfl
          exact distinct.1 (List.mem_map.mpr ⟨_, later, rfl⟩)
        rw [decide_eq_false other]
        exact ih distinct.2 later

end Buttons

def pathNames : List (PathChoice × Str) :=
  [(.bashOnly, "BashOnly".toList), (.cmd, "Cmd".toList), (.cmdTools, "CmdTools".toList)]

def sshNames : List (SSHChoice × Str) :=
  [(.openSSH, "OpenSSH".toList), (.plink, "Plink".toList)]

def crlfNames : List (CRLFChoice × Str) :=
  [(.lfOnly, "LFOnly".toList), (.crlfAlways, "CRLFAlways".toList),
    (.crlfCommitAsIs, "CRLFCommitAsIs".toList)]

/-! ### The wizard -/

/-- The page for the SSH client. -/
structure PuTTYPage where
  rdbSSH : RadioButtons SSHChoice
  /-- The text in the box. -/
  edtPlink : Str

/-- The pages that matter here: one before those for the choices, and those behind them. -/
inductive Page
  | selectProgramGroup
  | path
  | putty
  | crlf
  | preparing
  deriving DecidableEq

/-- The wizard, as far as these pages go. -/
structure ChoicePages where
  page : Page
  rdbPath : RadioButtons PathChoice
  /-- `none` stands for `NIL`. -/
  puttyPage : Option PuTTYPage
  rdbCRLF : RadioButtons CRLFChoice

/-- `ExtractFilePath`: what comes before the last backslash or colon, with it. -/
def extractFilePath (path : Str) : Str := path.rdropWhile fun c => c ≠ '\\' ∧ c ≠ ':'

/-- A value of the 64 bit registry, if there is one, else that of the other. -/
def Surroundings.regQueryEither (s : Surroundings) (value : Bool → PuTTYValue) : Option Str :=
  if s.isWin64 then
    (s.regQueryStringValue (value true)).orElse fun _ => s.regQueryStringValue (value false)
  else s.regQueryStringValue (value false)

/-- `GetPuTTYLocation`.  A query that fails leaves `Result` as it is. -/
def Surroundings.getPuTTYLocation (s : Surroundings) : Str :=
  let result :=
    match s.regQueryEither .tortoiseGitDirectory with
    | some directory => directory ++ "bin\\".toList
    | none =>
        match s.regQueryEither .tortoiseSVNDirectory with
        | some directory => directory ++ "bin\\".toList
        | none => (s.regQueryEither .tortoiseCVSInstallLocation).getD []
  if s.disk.dirExists result then result ++ "TortoisePlink.exe".toList
  else
    let result :=
      match s.regQueryStringValue .puttyInstallLocation with
      | some location => location
      | none =>
          match s.regQueryStringValue .puttyPrivateKeyCommand with
          | some command => extractFilePath (removeQuotes command)
          | none => result
    let result := if s.disk.dirExists result then result else s.pf ++ "\\PuTTY\\".toList
    result ++ "plink.exe".toList

def getPreviousData (previous : PreviousData) (name default : String) : Str :=
  (previous name).getD default.toList

/-- The text of the box at first. -/
def Surroundings.plinkText (s : Surroundings) (previous : PreviousData) : Str :=
  let text := getPreviousData previous "Plink Path" ""
  let text := if s.disk.fileExists text then text else s.getPuTTYLocation
  if s.disk.fileExists text then text else []

/-- Whether `RegGetSubkeyNames` succeeds and finds a session. -/
def Surroundings.hasSessions (s : Surroundings) : Bool :=
  match s.puttySessions with
  | some names => names.length > 0
  | none => false

/-- `InitializeWizard`, apart from the list of processes. -/
def initializeWizard (previous : PreviousData) (s : Surroundings) : ChoicePages where
  page := .selectProgramGroup
  rdbPath := restoreButtons pathNames (getPreviousData previous "Path Option" "BashOnly")
    (checked .bashOnly)
  puttyPage :=
    if s.hasSessions then
      some {
        rdbSSH := restoreButtons sshNames (getPreviousData previous "SSH Option" "OpenSSH")
          (checked .openSSH)
        edtPlink := s.plinkText previous }
    else none
  rdbCRLF := restoreButtons crlfNames (getPreviousData previous "CRLF Option" "CRLFAlways")
    (checked .crlfAlways)

/-- `BrowseForPuTTYFolder`; without a folder the user has given up. -/
def PuTTYPage.browseForPuTTYFolder (p : PuTTYPage) (disk : Disk) (folder : Option Str) :
    PuTTYPage :=
  let path := folder.getD (extractFilePath p.edtPlink)
  if disk.fileExists (path ++ "\\TortoisePlink.exe".toList) then
    { rdbSSH := checked .plink, edtPlink := path ++ "\\TortoisePlink.exe".toList }
  else if disk.fileExists (path ++ "\\plink.exe".toList) then
    { rdbSSH := checked .plink, edtPlink := path ++ "\\plink.exe".toList }
  else p

/-- The part of `NextButtonClick` for the page of the SSH client. -/
def PuTTYPage.nextButtonClick (p : PuTTYPage) (disk : Disk) : Bool :=
  p.rdbSSH .openSSH || (p.rdbSSH .plink && disk.fileExists p.edtPlink)

/-- What the user does. -/
inductive Event
  | pathButton (button : PathChoice)
  | sshButton (button : SSHChoice)
  | plinkText (text : Str)
  | browse (disk : Disk) (folder : Option Str)
  | crlfButton (button : CRLFChoice)
  | next (disk : Disk)
  | back

namespace ChoicePages

/-- The page after this one. -/
def nextPage (w : ChoicePages) : Page :=
  match w.page with
  | .selectProgramGroup => .path
  | .path => if w.puttyPage.isSome then .putty else .crlf
  | .putty => .crlf
  | .crlf => .preparing
  | .preparing => .preparing

/-- The page before this one. -/
def backPage (w : ChoicePages) : Page :=
  match w.page with
  | .selectProgramGroup => .selectProgramGroup
  | .path => .selectProgramGroup
  | .putty => .path
  | .crlf => if w.puttyPage.isSome then .putty else .path
  | .preparing => .crlf

/-- `NextButtonClick`, on these pages. -/
def nextButtonClick (w : ChoicePages) (disk : Disk) : Bool :=
  match w.page, w.puttyPage with
  | .putty, some p => p.nextButtonClick disk
  | _, _ => true

/-- Something is done on the page for the SSH client. -/
def onPuTTYPage (w : ChoicePages) (change : PuTTYPage → PuTTYPage) : ChoicePages :=
  if w.page = .putty then { w with puttyPage := w.puttyPage.map change } else w

/-- What becomes of the wizard.  Only what is on the current page can be touched. -/
def step (w : ChoicePages) : Event → ChoicePages
  | .pathButton button => if w.page = .path then { w with rdbPath := checked button } else w
  | .sshButton button => w.onPuTTYPage fun p => { p with rdbSSH := checked button }
  | .plinkText text => w.onPuTTYPage fun p => { p with edtPlink := text }
  | .browse disk folder => w.onPuTTYPage fun p => p.browseForPuTTYFolder disk folder
  | .crlfButton button => if w.page = .crlf then { w with rdbCRLF := checked button } else w
  | .next disk => if w.nextButtonClick disk then { w with page := w.nextPage } else w
  | .back => { w with page := w.backPage }

/-- `RegisterPreviousData` -/
def registerPreviousData (w : ChoicePages) (previous : PreviousData) : PreviousData :=
  let previous := Function.update previous "Path Option" (some (buttonData pathNames w.rdbPath))
  let previous :=
    match w.puttyPage with
    | none => Function.update previous "SSH Option" (some "OpenSSH".toList)
    | some p =>
        let previous :=
          if ¬p.rdbSSH .openSSH ∧ p.rdbSSH .plink then
            Function.update previous "Plink Path" (some p.edtPlink)
          else previous
        Function.update previous "SSH Option" (some (buttonData sshNames p.rdbSSH))
  Function.update previous "CRLF Option" (some (buttonData crlfNames w.rdbCRLF))

/-- The value that `CurStepChanged` gives to `core.autocrlf`. -/
def autocrlf (w : ChoicePages) : Str :=
  if w.rdbCRLF .lfOnly then "input".toList
  else if w.rdbCRLF .crlfAlways then "true".toList
  else "false".toList

/-- The choice for `PATH`, as `CurStepChanged` reads the buttons. -/
def pathChoice (w : ChoicePages) : PathChoice :=
  if w.rdbPath .cmdTools then .cmdTools
  else if w.rdbPath .cmd then .cmd
  else .bashOnly

/-- The path to Plink, if `CurStepChanged` finds its button checked. -/
def plink (w : ChoicePages) : Option {path : Str // path ≠ []} :=
  w.puttyPage.bind fun p =>
    if set : p.rdbSSH .plink = true ∧ p.edtPlink ≠ [] then some ⟨p.edtPlink, set.2⟩ else none

/-! ### What is always true of a wizard -/

/-- Exactly one button of each page is checked, and the page for the SSH client has not been
left with Plink and an empty box. -/
structure Proper (w : ChoicePages) : Prop where
  path : ∃ button, w.rdbPath = checked button
  ssh : ∀ p, w.puttyPage = some p → ∃ button, p.rdbSSH = checked button
  crlf : ∃ button, w.rdbCRLF = checked button
  left : w.page = .crlf ∨ w.page = .preparing → ∀ p, w.puttyPage = some p →
    p.rdbSSH .plink = true → p.edtPlink ≠ []

theorem Proper.onPuTTYPage {w : ChoicePages} (proper : w.Proper) {change : PuTTYPage → PuTTYPage}
    (checks : ∀ p, (∃ button, p.rdbSSH = checked button) →
      ∃ button, (change p).rdbSSH = checked button) : (w.onPuTTYPage change).Proper := by
  rw [ChoicePages.onPuTTYPage]
  split
  · rename_i here
    refine ⟨proper.path, fun p changed => ?_, proper.crlf, fun behind => ?_⟩
    · obtain ⟨old, was, rfl⟩ := Option.map_eq_some_iff.mp changed
      exact checks old (proper.ssh old was)
    · rw [here] at behind
      rcases behind with h | h <;> cases h
  · exact proper

/-- "Next" brings the wizard behind the page only with a name in the box. -/
theorem Proper.next {w : ChoicePages} (proper : w.Proper) {disk : Disk}
    (clicked : w.nextButtonClick disk = true) : { w with page := w.nextPage }.Proper := by
  refine ⟨proper.path, proper.ssh, proper.crlf, fun behind p there plink => ?_⟩
  cases here : w.page with
  | selectProgramGroup => simp [nextPage, here] at behind
  | path => simp [nextPage, here, show w.puttyPage = some p from there] at behind
  | putty =>
      have there : w.puttyPage = some p := there
      rw [nextButtonClick, here, there] at clicked
      dsimp only at clicked
      obtain ⟨button, only⟩ := proper.ssh p there
      rw [only] at plink
      obtain rfl : SSHChoice.plink = button := of_decide_eq_true plink
      rw [PuTTYPage.nextButtonClick, only] at clicked
      exact disk.named _ (by simpa [checked] using clicked)
  | crlf => exact proper.left (Or.inl here) p there plink
  | preparing => exact proper.left (Or.inr here) p there plink

theorem Proper.back {w : ChoicePages} (proper : w.Proper) :
    { w with page := w.backPage }.Proper := by
  refine ⟨proper.path, proper.ssh, proper.crlf, fun behind p there plink => ?_⟩
  have there : w.puttyPage = some p := there
  cases here : w.page with
  | selectProgramGroup => simp [backPage, here] at behind
  | path => simp [backPage, here] at behind
  | putty => simp [backPage, here] at behind
  | crlf => simp [backPage, here, there] at behind
  | preparing => exact proper.left (Or.inr here) p there plink

/-- **One thing that the user does.** -/
theorem Proper.step {w : ChoicePages} (proper : w.Proper) (event : Event) :
    (w.step event).Proper := by
  cases event with
  | pathButton button =>
      rw [ChoicePages.step]
      split
      · exact ⟨⟨button, rfl⟩, proper.ssh, proper.crlf, proper.left⟩
      · exact proper
  | sshButton button => exact proper.onPuTTYPage fun _ _ => ⟨button, rfl⟩
  | plinkText text => exact proper.onPuTTYPage fun _ one => one
  | browse disk folder =>
      refine proper.onPuTTYPage fun p one => ?_
      rw [PuTTYPage.browseForPuTTYFolder]
      split
      · exact ⟨.plink, rfl⟩
      · split
        · exact ⟨.plink, rfl⟩
        · exact one
  | crlfButton button =>
      rw [ChoicePages.step]
      split
      · exact ⟨proper.path, proper.ssh, ⟨button, rfl⟩, proper.left⟩
      · exact proper
  | next disk =>
      rw [ChoicePages.step]
      split
      · exact proper.next ‹_›
      · exact proper
  | back => exact proper.back

end ChoicePages

/-- The wizard starts with one button checked on each page. -/
theorem initializeWizard_proper (previous : PreviousData) (s : Surroundings) :
    (initializeWizard previous s).Proper where
  path := restoreButtons_checked _ _ _
  ssh := fun p there => by
    rw [initializeWizard] at there
    dsimp only at there
    split at there
    · cases there
      exact restoreButtons_checked _ _ _
    · cases there
  crlf := restoreButtons_checked _ _ _
  left := by
    rintro (h | h) <;> cases h

/-- **Whatever the user does**, one button of each page is checked. -/
theorem proper_of_events (previous : PreviousData) (s : Surroundings) (events : List Event) :
    (events.foldl ChoicePages.step (initializeWizard previous s)).Proper := by
  have proper := initializeWizard_proper previous s
  generalize initializeWizard previous s = w at proper ⊢
  induction events generalizing w with
  | nil => exact proper
  | cons event events ih => exact ih _ (proper.step event)

end MsysGit.WinGit
