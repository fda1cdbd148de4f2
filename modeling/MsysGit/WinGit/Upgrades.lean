import MsysGit.Library.Transition
import MsysGit.WinGit.BashOnly
import MsysGit.WinGit.Choices

/-!
# The choices from one installation to the next

One account installs into one directory, again and again, and uninstalls at times.  What an
installation does to `PATH`, `GIT_SSH`, `SVN_SSH` and `core.autocrlf` and what it registers
for the next one are two records of the same choices, in different places.  They stay
together: the wizard of the next installation shows what is set (`shows_of_history`).

An upgrade in which the user only clicks "Next" and "Back" therefore changes nothing, but
for the SSH client.  Without sessions of PuTTY there is no page for it, and without the file
the box shows another one; then the variables lose the path (`upgrade_keeps_iff`).
-/

namespace MsysGit.WinGit

open MsysGit.Library

/-! ### The system -/

/-- What an installation changes, and what later ones read. -/
structure Computer where
  machine : Machine
  previous : PreviousData
  /-- `core.autocrlf` in the `gitconfig` of the installation. -/
  autocrlf : Str

/-- A run of the installer. -/
structure Session where
  surroundings : Surroundings
  events : List Event
  /-- Whether it registers beside what has been registered before, or afresh. -/
  keepsKey : Bool
  /-- The environment in which the process starts. -/
  environment : Variable → Str

inductive Run
  | install (session : Session)
  | uninstall (deletesFile : Bool) (environment : Variable → Str)

/-- Where the installations go. -/
structure Place where
  appDir : Str
  allUsers : Bool
  /-- What is read from an ini file for a value that has been written. -/
  readBack : Str → Str
  /-- The directory is a single entry of `PATH`. -/
  single : ';' ∉ appDir

/-- The post-install step for these choices.  Every call succeeds. -/
def ChoicePages.postInstall (w : ChoicePages) (place : Place) (environment : Variable → Str) :
    PostInstall where
  appDir := place.appDir
  isAdminLoggedOn := place.allUsers
  environment := environment
  rdbPath := w.pathChoice
  edtPlink := w.plink
  succeeds := fun _ _ => true

/-- The pages after all that the user has done. -/
def Computer.wizard (c : Computer) (session : Session) : ChoicePages :=
  session.events.foldl ChoicePages.step (initializeWizard c.previous session.surroundings)

/-- A run of the installer, which may be given up before anything is done. -/
def Computer.install (c : Computer) (place : Place) (session : Session) : Computer :=
  let w := c.wizard session
  if w.page = .preparing then
    { machine := (curStepChanged place.readBack (w.postInstall place session.environment)
        c.machine).toMachine
      previous := w.registerPreviousData (if session.keepsKey then c.previous else fun _ => none)
      autocrlf := w.autocrlf }
  else c

/-- The step of the uninstaller.  Every call succeeds, perhaps apart from the last. -/
def Place.uninstaller (place : Place) (deletesFile : Bool) (environment : Variable → Str) :
    Uninstall where
  appDir := place.appDir
  isAdminLoggedOn := place.allUsers
  environment := environment
  succeeds := fun _ _ => true
  deletesFile := deletesFile

/-- A run of the uninstaller.  What has been registered goes with it. -/
def Computer.uninstall (c : Computer) (place : Place) (deletesFile : Bool)
    (environment : Variable → Str) : Computer :=
  { c with
    machine := (curUninstallStepChanged (place.uninstaller deletesFile environment)
      c.machine).toMachine
    previous := fun _ => none }

def Computer.run (c : Computer) (place : Place) : Run → Computer
  | .install session => c.install place session
  | .uninstall deletesFile environment => c.uninstall place deletesFile environment

/-- A path that comes back the same from the environment and from `setup.ini`. -/
structure Place.Plain (place : Place) (path : Str) : Prop where
  nonempty : path ≠ []
  single : ';' ∉ path
  unquoted : removeQuotes path = path
  kept : place.readBack path = path

/-- The path to Plink is plain, if one is chosen. -/
def Place.PlainRun (place : Place) (c : Computer) (run : Run) : Prop :=
  ∀ session, run = .install session → ∀ path ∈ (c.wizard session).plink, place.Plain path.val

/-! ### One variable -/

/-- A variable has this path from the installer, or nothing. -/
structure Place.Gives (place : Place) (t : View) (path : Option Str) : Prop where
  stored : t.registry place.allUsers = path.map fun p => ⟨p, .installer⟩
  recorded : ∀ p ∈ path, t.record (setupIniName place.appDir) = p
  plain : ∀ p ∈ path, place.Plain p

section Variables

variable {place : Place} {t : View} {path : Option Str}

theorem Place.Plain.splitStrings {p : Str} (plain : place.Plain p) : splitStrings p = [p] := by
  have one : p.splitOn ';' = [p] := by
    rw [List.splitOn_eq_splitOnP]
    exact List.splitOnP_eq_singleton fun c inside => beq_eq_false_iff_ne.mpr fun same =>
      plain.single (same ▸ inside)
  rw [splitStrings_eq, entries, one, spare, spare, if_neg plain.nonempty]
  simp [plain.nonempty]

/-- What an earlier installation has set is deleted. -/
theorem Place.Gives.reset (gives : place.Gives t path) :
    (t.deleteIfRecorded true place.allUsers (setupIniName place.appDir)).registry
      place.allUsers = none := by
  cases path with
  | none =>
      have missing : t.registry place.allUsers = none := gives.stored
      rw [View.deleteIfRecorded]
      split
      · show (t.store true place.allUsers []).registry place.allUsers = none
        rw [View.store, if_neg Bool.noConfusion, if_pos List.length_nil, missing]
        exact missing
      · exact missing
  | some p =>
      have here : t.registry place.allUsers = some ⟨p, .installer⟩ := gives.stored
      have plain := gives.plain p rfl
      have text : t.envText place.allUsers = p := by
        rw [View.envText, here]
        exact if_neg (mt List.length_eq_zero_iff.mp plain.nonempty)
      have recorded : isRecord (t.getEnvStrings place.allUsers)
          (t.record (setupIniName place.appDir)) = true := by
        rw [View.getEnvStrings, text, plain.splitStrings, gives.recorded p rfl, isRecord]
        simp [plain.unquoted]
      rw [View.deleteIfRecorded, if_pos recorded]
      show (t.store true place.allUsers []).registry place.allUsers = none
      rw [View.store, if_neg Bool.noConfusion, if_pos List.length_nil, here]
      exact Function.update_self ..

/-- **A post-install step gives the variable what has been chosen.** -/
theorem Place.Gives.install (gives : place.Gives t path) {v : Variable}
    (ssh : v = .gitSsh ∨ v = .svnSsh) {w : ChoicePages} {environment : Variable → Str}
    (plain : ∀ p ∈ w.plink, place.Plain p.val) :
    place.Gives ((w.postInstall place environment).onView place.readBack v t)
      (w.plink.map Subtype.val) := by
  have value : ∀ t, (w.postInstall place environment).value v t = w.plink.map Subtype.val := by
    rcases ssh with rfl | rfl <;> exact fun _ => rfl
  rw [PostInstall.onView, value]
  cases chosen : w.plink with
  | none =>
      refine ⟨gives.reset, ?_, ?_⟩
      · rintro q ⟨⟩
      · rintro q ⟨⟩
  | some p =>
      have plain := plain p chosen
      have text : merge ';' [p.val] = p.val := by
        rw [merge_eq_join]
        simp [plain.nonempty]
      have long : ¬p.val.length = 0 := mt List.length_eq_zero_iff.mp plain.nonempty
      refine ⟨?_, ?_, ?_⟩
      · show ((((w.postInstall place environment).resetView v t).store true place.allUsers
          (merge ';' [p.val])).registry place.allUsers) = some ⟨p.val, .installer⟩
        rw [text, View.store, if_neg Bool.noConfusion, if_neg long]
        exact Function.update_self ..
      · rintro q ⟨⟩
        exact (Function.update_self ..).trans plain.kept
      · rintro q ⟨⟩
        exact plain

/-- An uninstallation leaves nothing of it. -/
theorem Place.Gives.uninstall (gives : place.Gives t path) {v : Variable} {deletesFile : Bool}
    {environment : Variable → Str} :
    place.Gives ((place.uninstaller deletesFile environment).onView v t) none := by
  refine ⟨?_, ?_, ?_⟩
  · rw [Uninstall.onView, View.setRecord]
    split
    · exact gives.reset
    · exact gives.reset
  · rintro q ⟨⟩
  · rintro q ⟨⟩

/-- What a process has of it is what the machine has. -/
theorem Place.Gives.start {s : Setup} {v : Variable} (gives : place.Gives (s.view v) path)
    (environment : Variable → Str) :
    place.Gives ((Setup.start s.toMachine environment).view v) path :=
  ⟨gives.stored, gives.recorded, gives.plain⟩

end Variables

/-! ### The choices -/

/-- What has been chosen in the end. -/
structure Choices where
  path : PathChoice
  /-- The path to Plink, unless OpenSSH is chosen. -/
  plink : Option Str
  crlf : CRLFChoice

def Choices.ssh (chosen : Choices) : SSHChoice := if chosen.plink = none then .openSSH else .plink

/-- What is written to `core.autocrlf`. -/
def CRLFChoice.value : CRLFChoice → Str
  | lfOnly => "input".toList
  | crlfAlways => "true".toList
  | crlfCommitAsIs => "false".toList

/-- The buttons of the wizard and the text in the box say the same as these choices. -/
structure ChoicePages.Selects (w : ChoicePages) (chosen : Choices) : Prop where
  path : w.rdbPath = checked chosen.path
  plink : chosen.plink = w.plink.map Subtype.val
  ssh : ∀ p, w.puttyPage = some p → p.rdbSSH = checked chosen.ssh
  box : ∀ p, w.puttyPage = some p → ∀ path ∈ chosen.plink, p.edtPlink = path
  crlf : w.rdbCRLF = checked chosen.crlf

/-- A wizard that has come to the installation selects one choice of each page. -/
theorem ChoicePages.Proper.selects {w : ChoicePages} (proper : w.Proper)
    (ready : w.page = .preparing) : ∃ chosen, w.Selects chosen := by
  obtain ⟨path, onPath⟩ := proper.path
  obtain ⟨crlf, onCRLF⟩ := proper.crlf
  refine ⟨⟨path, w.plink.map Subtype.val, crlf⟩, onPath, rfl, fun p there => ?_,
    fun p there => ?_, onCRLF⟩
  · obtain ⟨button, only⟩ := proper.ssh p there
    have read : w.plink = (some p).bind fun p =>
        if set : p.rdbSSH .plink = true ∧ p.edtPlink ≠ [] then some ⟨p.edtPlink, set.2⟩
        else none := by
      rw [ChoicePages.plink, there]
    rw [only, Choices.ssh]
    cases button with
    | openSSH =>
        have off : ¬(p.rdbSSH .plink = true ∧ p.edtPlink ≠ []) := fun set => by
          rw [only] at set
          cases set.1
        rw [read, Option.bind_some, dif_neg off]
        rfl
    | plink =>
        have on : p.rdbSSH .plink = true := by
          rw [only]
          rfl
        rw [read, Option.bind_some, dif_pos ⟨on, proper.left (Or.inr ready) p there on⟩]
        rfl
  · rintro path found
    obtain ⟨q, chosen, rfl⟩ := Option.map_eq_some_iff.mp found
    rw [ChoicePages.plink, there, Option.bind_some] at chosen
    split at chosen
    · cases chosen
      rfl
    · cases chosen

/-- What the post-install step reads from the buttons. -/
theorem ChoicePages.Selects.pathChoice {w : ChoicePages} {chosen : Choices}
    (selects : w.Selects chosen) : w.pathChoice = chosen.path := by
  rw [ChoicePages.pathChoice, selects.path]
  cases chosen.path <;> rfl

theorem ChoicePages.Selects.autocrlf {w : ChoicePages} {chosen : Choices}
    (selects : w.Selects chosen) : w.autocrlf = chosen.crlf.value := by
  rw [ChoicePages.autocrlf, selects.crlf]
  cases chosen.crlf <;> rfl

/-! ### What is registered and what is set -/

/-- The two variables for the SSH client. -/
def Variable.OfSSH (v : Variable) : Prop := v = .gitSsh ∨ v = .svnSsh

/-- What is registered are these choices. -/
structure Registers (previous : PreviousData) (choices : Option Choices) : Prop where
  pathOption : previous "Path Option" =
    choices.map fun chosen => buttonData pathNames (checked chosen.path)
  sshOption : previous "SSH Option" =
    choices.map fun chosen => buttonData sshNames (checked chosen.ssh)
  plinkPath : ∀ path ∈ choices.bind Choices.plink, previous "Plink Path" = some path
  crlfOption : previous "CRLF Option" =
    choices.map fun chosen => buttonData crlfNames (checked chosen.crlf)

/-- What is registered, and what is set, are these choices; `old` is what was in `PATH` before
the first installation. -/
structure Place.Agrees (place : Place) (old : List Str) (c : Computer)
    (choices : Option Choices) : Prop where
  registers : Registers c.previous choices
  path : ∃ now, storedPath c.machine place.allUsers = some now ∧
    entries ';' now = old ++ ((choices.map Choices.path).getD .bashOnly).dirs place.appDir
  ofSSH : ∀ v : Variable, v.OfSSH → ∀ environment,
    place.Gives ((Setup.start c.machine environment).view v) (choices.bind Choices.plink)
  autocrlf : ∀ chosen ∈ choices, c.autocrlf = chosen.crlf.value

/-- Entries that have nothing to do with the installation. -/
structure Place.Old (place : Place) (old : List Str) : Prop where
  some_entry : old ≠ []
  outside : ∀ dir ∈ old, ¬(place.appDir ++ ['\\']) <+: (dir ++ ['\\'])
  nonempty : ∀ dir ∈ old, dir ≠ []
  single : ∀ dir ∈ old, ';' ∉ dir

section Steps

variable {place : Place} {old : List Str} {c : Computer} {choices : Option Choices}

theorem Place.Old.outside_eq (older : place.Old old) {now : Str} {choice : PathChoice}
    (parts : entries ';' now = old ++ choice.dirs place.appDir) :
    WinGit.outside place.appDir now = old := by
  have kept : old.filter (fun dir => ¬(place.appDir ++ ['\\']) <+: (dir ++ ['\\'])) = old :=
    List.filter_eq_self.mpr fun dir inside => decide_eq_true (older.outside dir inside)
  have gone : (choice.dirs place.appDir).filter
      (fun dir => ¬(place.appDir ++ ['\\']) <+: (dir ++ ['\\'])) = [] := by
    rw [List.filter_eq_nil_iff]
    intro dir added
    simpa using dirs_inside added
  rw [WinGit.outside, parts, List.filter_append, kept, gone, List.append_nil]

theorem Place.Old.entries_join (older : place.Old old) (choice : PathChoice) :
    entries ';' (join ';' (old ++ choice.dirs place.appDir)) =
      old ++ choice.dirs place.appDir := by
  refine Library.entries_join (fun dir either => ?_) fun dir either => ?_
  · rcases List.mem_append.mp either with before | added
    · exact older.nonempty dir before
    · exact dirs_ne_nil added
  · rcases List.mem_append.mp either with before | added
    · exact older.single dir before
    · exact dirs_clean place.single added

/-- What `RegisterPreviousData` stores. -/
theorem ChoicePages.Selects.registers {w : ChoicePages} {chosen : Choices}
    (selects : w.Selects chosen) (previous : PreviousData) :
    Registers (w.registerPreviousData previous) (some chosen) := by
  have plink := selects.plink
  have ssh := selects.ssh
  have box := selects.box
  rw [ChoicePages.registerPreviousData, selects.path, selects.crlf]
  cases there : w.puttyPage with
  | none =>
      rw [ChoicePages.plink, there] at plink
      have openSSH : chosen.ssh = .openSSH := if_pos plink
      refine ⟨rfl, ?_, fun path chose => ?_, rfl⟩
      · rw [Option.map_some, openSSH]
        rfl
      · rw [Option.bind_some, show chosen.plink = none from plink] at chose
        cases chose
  | some p =>
      refine ⟨?_, ?_, fun path chose => ?_, rfl⟩
      · dsimp only
        split <;> rfl
      · rw [Option.map_some, ← ssh p there]
        rfl
      · have chose : chosen.plink = some path := chose
        have on : p.rdbSSH = checked .plink := by
          rw [ssh p there, Choices.ssh, chose]
          rfl
        dsimp only
        rw [on, if_pos ⟨by decide, by decide⟩, ← box p there path chose]
        rfl

/-- **An installation** sets what it registers. -/
theorem Place.Agrees.install (older : place.Old old) (agrees : place.Agrees old c choices)
    {session : Session} (ready : (c.wizard session).page = .preparing) {chosen : Choices}
    (selects : (c.wizard session).Selects chosen)
    (plain : ∀ path ∈ (c.wizard session).plink, place.Plain path.val) :
    place.Agrees old (c.install place session) (some chosen) := by
  obtain ⟨now, stored, parts⟩ := agrees.path
  have outs := older.outside_eq parts
  have some_outside : WinGit.outside place.appDir now ≠ [] := by
    rw [outs]
    exact older.some_entry
  rw [Computer.install, if_pos ready]
  refine ⟨selects.registers _, ?_, fun v ssh environment => ?_, ?_⟩
  · have written : storedPath (curStepChanged place.readBack
        ((c.wizard session).postInstall place session.environment) c.machine).toMachine
        place.allUsers = some (join ';' (WinGit.outside place.appDir now ++
          (c.wizard session).pathChoice.dirs place.appDir)) :=
      curStepChanged_path stored some_outside rfl rfl
    rw [outs] at written
    refine ⟨_, written, ?_⟩
    rw [Option.map_some, Option.getD_some, ← selects.pathChoice]
    exact older.entries_join _
  · have tracked : v.tracked = true := by
      rcases ssh with rfl | rfl <;> rfl
    refine Place.Gives.start ?_ environment
    rw [curStepChanged_view tracked, Option.bind_some, selects.plink]
    exact (agrees.ofSSH v ssh session.environment).install ssh plain
  · rintro _ ⟨⟩
    exact selects.autocrlf

/-- **An uninstallation** leaves nothing set and nothing registered. -/
theorem Place.Agrees.uninstall (older : place.Old old) (agrees : place.Agrees old c choices)
    (deletesFile : Bool) (environment : Variable → Str) :
    place.Agrees old (c.uninstall place deletesFile environment) none := by
  obtain ⟨now, stored, parts⟩ := agrees.path
  have outs := older.outside_eq parts
  have some_outside : WinGit.outside place.appDir now ≠ [] := by
    rw [outs]
    exact older.some_entry
  rw [Computer.uninstall]
  refine ⟨⟨rfl, rfl, nofun, rfl⟩, ?_, fun v ssh environment' => ?_, nofun⟩
  · have written : storedPath (curUninstallStepChanged (place.uninstaller deletesFile environment)
        c.machine).toMachine place.allUsers = some (join ';' (WinGit.outside place.appDir now)) :=
      curUninstallStepChanged_path stored some_outside rfl rfl
    rw [outs] at written
    dsimp only
    refine ⟨join ';' old, written, ?_⟩
    have joined := older.entries_join .bashOnly
    rw [PathChoice.dirs, List.append_nil] at joined
    rw [joined, Option.map_none, Option.getD_none, PathChoice.dirs, List.append_nil]
  · have tracked : v.tracked = true := by
      rcases ssh with rfl | rfl <;> rfl
    have gives : place.Gives ((curUninstallStepChanged (place.uninstaller deletesFile environment)
        c.machine).view v) none := by
      rw [curUninstallStepChanged_view tracked]
      exact (agrees.ofSSH v ssh environment).uninstall
    dsimp only
    exact gives.start environment'

/-- **After any history**, what is registered is what is set. -/
theorem Place.agrees_of_history (older : place.Old old) (start : place.Agrees old c none)
    {c' : Computer} (history : RunOf (fun c run c' => c.run place run = c') place.PlainRun c c') :
    ∃ choices, place.Agrees old c' choices := by
  refine history.invariant (fun c => ∃ choices, place.Agrees old c choices) ⟨none, start⟩ ?_
  rintro c run _ ⟨choices, agrees⟩ plain rfl
  cases run with
  | install session =>
      by_cases ready : (c.wizard session).page = .preparing
      · obtain ⟨chosen, selects⟩ := (proper_of_events _ _ session.events).selects ready
        exact ⟨some chosen, agrees.install older ready selects (plain session rfl)⟩
      · refine ⟨choices, ?_⟩
        rw [Computer.run, Computer.install, if_neg ready]
        exact agrees
  | uninstall deletesFile environment =>
      exact ⟨none, agrees.uninstall older deletesFile environment⟩

end Steps

/-! ### The next wizard -/

/-- The value of a variable. -/
def Machine.stored (m : Machine) (allUsers : Bool) (v : Variable) : Option Str :=
  (m.registry allUsers v).map Entry.value

/-- The pages show what is set. -/
structure Place.Shows (place : Place) (old : List Str) (c : Computer) (w : ChoicePages)
    (disk : Disk) : Prop where
  path : ∃ button now, w.rdbPath = checked button ∧
    storedPath c.machine place.allUsers = some now ∧
    entries ';' now = old ++ button.dirs place.appDir
  ssh : ∀ p, w.puttyPage = some p →
    (p.rdbSSH = checked .openSSH ∧
      ∀ v : Variable, v.OfSSH → c.machine.stored place.allUsers v = none) ∨
    (p.rdbSSH = checked .plink ∧ ∃ path,
      (∀ v : Variable, v.OfSSH → c.machine.stored place.allUsers v = some path) ∧
      (disk.fileExists path = true → p.edtPlink = path))
  crlf : ∃ button, w.rdbCRLF = checked button ∧
    (c.previous "CRLF Option" ≠ none → c.autocrlf = button.value)

section Wizards

variable {place : Place} {old : List Str} {c : Computer} {choices : Option Choices}
  {s : Surroundings}

theorem pathNames_complete (button : PathChoice) :
    (button, buttonData pathNames (checked button)) ∈ pathNames := by
  cases button <;> decide

theorem sshNames_complete (button : SSHChoice) :
    (button, buttonData sshNames (checked button)) ∈ sshNames := by
  cases button <;> decide

theorem crlfNames_complete (button : CRLFChoice) :
    (button, buttonData crlfNames (checked button)) ∈ crlfNames := by
  cases button <;> decide

/-- The choice for `PATH` that is shown at first. -/
theorem Registers.rdbPath (registers : Registers c.previous choices) :
    (initializeWizard c.previous s).rdbPath =
      checked ((choices.map Choices.path).getD .bashOnly) := by
  show restoreButtons pathNames ((c.previous "Path Option").getD _) (checked .bashOnly) = _
  rw [registers.pathOption]
  cases choices with
  | none => exact restoreButtons_of_mem (by decide) (pathNames_complete .bashOnly) _
  | some chosen => exact restoreButtons_of_mem (by decide) (pathNames_complete chosen.path) _

theorem Registers.rdbCRLF (registers : Registers c.previous choices) :
    (initializeWizard c.previous s).rdbCRLF =
      checked ((choices.map Choices.crlf).getD .crlfAlways) := by
  show restoreButtons crlfNames ((c.previous "CRLF Option").getD _) (checked .crlfAlways) = _
  rw [registers.crlfOption]
  cases choices with
  | none => exact restoreButtons_of_mem (by decide) (crlfNames_complete .crlfAlways) _
  | some chosen => exact restoreButtons_of_mem (by decide) (crlfNames_complete chosen.crlf) _

theorem Registers.rdbSSH (registers : Registers c.previous choices) {p : PuTTYPage}
    (there : (initializeWizard c.previous s).puttyPage = some p) :
    p.rdbSSH = checked ((choices.map Choices.ssh).getD .openSSH) ∧
      p.edtPlink = s.plinkText c.previous := by
  rw [initializeWizard] at there
  dsimp only at there
  split at there
  · cases there
    refine ⟨?_, rfl⟩
    show restoreButtons sshNames ((c.previous "SSH Option").getD _) (checked .openSSH) = _
    rw [registers.sshOption]
    cases choices with
    | none => exact restoreButtons_of_mem (by decide) (sshNames_complete .openSSH) _
    | some chosen => exact restoreButtons_of_mem (by decide) (sshNames_complete chosen.ssh) _
  · cases there

/-- The box shows the path that is registered, if there is such a file. -/
theorem Registers.plinkText (registers : Registers c.previous choices) {path : Str}
    (chose : path ∈ choices.bind Choices.plink) (exists_file : s.disk.fileExists path = true) :
    s.plinkText c.previous = path := by
  rw [Surroundings.plinkText, getPreviousData, registers.plinkPath path chose]
  simp [exists_file]

theorem Place.Gives.stored_eq {m : Machine} {v : Variable} {path : Option Str}
    (gives : ∀ environment, place.Gives ((Setup.start m environment).view v) path) :
    m.stored place.allUsers v = path := by
  have here : m.registry place.allUsers v = path.map fun p => ⟨p, .installer⟩ :=
    (gives fun _ => []).stored
  rw [Machine.stored, here, Option.map_map]
  exact Option.map_id'

theorem Place.Agrees.shows (agrees : place.Agrees old c choices) (s : Surroundings) :
    place.Shows old c (initializeWizard c.previous s) s.disk := by
  have stored : ∀ v : Variable, v.OfSSH →
      c.machine.stored place.allUsers v = choices.bind Choices.plink :=
    fun v ssh => Place.Gives.stored_eq (agrees.ofSSH v ssh)
  refine ⟨?_, fun p there => ?_, _, agrees.registers.rdbCRLF, fun registered => ?_⟩
  · obtain ⟨now, here, parts⟩ := agrees.path
    exact ⟨_, now, agrees.registers.rdbPath, here, parts⟩
  · obtain ⟨button, box⟩ := agrees.registers.rdbSSH there
    cases chose : choices.bind Choices.plink with
    | none =>
        refine Or.inl ⟨?_, fun v ssh => (stored v ssh).trans chose⟩
        rw [button]
        cases choices with
        | none => rfl
        | some chosen => exact congrArg checked (if_pos chose)
    | some path =>
        refine Or.inr ⟨?_, path, fun v ssh => (stored v ssh).trans chose, fun exists_file => ?_⟩
        · obtain ⟨chosen, rfl, plink⟩ := Option.bind_eq_some_iff.mp chose
          rw [button, Option.map_some, Option.getD_some, Choices.ssh, plink]
          rfl
        · rw [box]
          exact agrees.registers.plinkText chose exists_file
  · cases choices with
    | none => exact absurd agrees.registers.crlfOption registered
    | some chosen => exact agrees.autocrlf chosen rfl

/-- Nothing has been installed there, and `PATH` has something in it. -/
structure Computer.Fresh (c : Computer) (place : Place) (text : Str) : Prop where
  unregistered : ∀ name, c.previous name = none
  stored : storedPath c.machine place.allUsers = some text
  some_entry : entries ';' text ≠ []
  apart : NoEntryInside place.appDir text
  unset : ∀ v : Variable, v.OfSSH → c.machine.registry place.allUsers v = none

theorem Computer.Fresh.entries_old {text : Str} (fresh : c.Fresh place text) :
    place.Old (entries ';' text) where
  some_entry := fresh.some_entry
  outside := fresh.apart
  nonempty := fun _ => ne_nil_of_mem_entries
  single := fun _ => notMem_of_mem_entries

theorem Computer.Fresh.agrees {text : Str} (fresh : c.Fresh place text) :
    place.Agrees (entries ';' text) c none where
  registers := ⟨fresh.unregistered _, fresh.unregistered _, nofun, fresh.unregistered _⟩
  path := ⟨text, fresh.stored, (List.append_nil _).symm⟩
  ofSSH := fun v ssh _ => ⟨fresh.unset v ssh, nofun, nofun⟩
  autocrlf := nofun

/-- **The next wizard shows what is set**, after any number of installations, whatever the
users do in them, and uninstallations. -/
theorem shows_of_history {c₀ : Computer} {text : Str} (fresh : c₀.Fresh place text)
    (history : RunOf (fun c run c' => c.run place run = c') place.PlainRun c₀ c)
    (s : Surroundings) :
    place.Shows (entries ';' text) c (initializeWizard c.previous s) s.disk := by
  obtain ⟨choices, agrees⟩ := Place.agrees_of_history fresh.entries_old fresh.agrees history
  exact agrees.shows s

/-! ### Upgrades -/

/-- A click on "Next" or on "Back". -/
def Event.Clicks : Event → Prop
  | .next _ => True
  | .back => True
  | _ => False

/-- Such a click changes nothing but the page. -/
theorem ChoicePages.step_of_clicks (w : ChoicePages) {event : Event} (clicks : event.Clicks) :
    ∃ page, w.step event = { w with page := page } := by
  cases event with
  | next disk =>
      rw [ChoicePages.step]
      split
      · exact ⟨_, rfl⟩
      · exact ⟨w.page, rfl⟩
  | back => exact ⟨_, rfl⟩
  | pathButton _ => cases clicks
  | sshButton _ => cases clicks
  | plinkText _ => cases clicks
  | browse _ _ => cases clicks
  | crlfButton _ => cases clicks

theorem ChoicePages.run_of_clicks {events : List Event} (clicks : ∀ event ∈ events, event.Clicks)
    (w : ChoicePages) : ∃ page, events.foldl ChoicePages.step w = { w with page := page } := by
  induction events generalizing w with
  | nil => exact ⟨w.page, rfl⟩
  | cons event events ih =>
      obtain ⟨page, next⟩ := w.step_of_clicks (clicks event List.mem_cons_self)
      obtain ⟨last, run⟩ := ih (fun event later => clicks event (List.mem_cons_of_mem _ later))
        { w with page := page }
      rw [List.foldl_cons, next, run]
      exact ⟨last, rfl⟩

/-- What the box shows at first is there. -/
theorem Surroundings.fileExists_plinkText (s : Surroundings) (previous : PreviousData)
    (shown : s.plinkText previous ≠ []) : s.disk.fileExists (s.plinkText previous) = true := by
  have last : ∀ text : Str, (if s.disk.fileExists text then text else []) ≠ [] →
      s.disk.fileExists (if s.disk.fileExists text then text else []) = true := by
    intro text shown
    by_cases found : s.disk.fileExists text = true
    · rw [if_pos found]
      exact found
    · exact absurd (if_neg found) shown
  exact last _ shown

theorem checked_injective {α : Type} [DecidableEq α] {a b : α} (same : checked a = checked b) :
    a = b := of_decide_eq_true ((congrFun same a).symm.trans (decide_eq_true rfl))

theorem Choices.ssh_eq_openSSH {chosen : Choices} :
    chosen.ssh = .openSSH ↔ chosen.plink = none := by
  rw [Choices.ssh]
  split <;> simp [*]

/-- A wizard that is only clicked through selects the same path, if there is one, only with
sessions of PuTTY and with the file. -/
theorem ChoicePages.Selects.plink_of_clicks (registers : Registers c.previous choices)
    {session : Session} (clicks : ∀ event ∈ session.events, event.Clicks) {chosen : Choices}
    (selects : (c.wizard session).Selects chosen) :
    chosen.plink = choices.bind Choices.plink ↔
      choices.bind Choices.plink = none ∨ session.surroundings.hasSessions = true ∧
        ∃ path ∈ choices.bind Choices.plink,
          session.surroundings.disk.fileExists path = true := by
  obtain ⟨page, run⟩ := ChoicePages.run_of_clicks clicks
    (initializeWizard c.previous session.surroundings)
  have same : (c.wizard session).puttyPage =
      (initializeWizard c.previous session.surroundings).puttyPage := by
    rw [Computer.wizard, run]
  by_cases sessions : session.surroundings.hasSessions = true
  · obtain ⟨p, there⟩ : ∃ p,
        (initializeWizard c.previous session.surroundings).puttyPage = some p :=
      ⟨_, if_pos sessions⟩
    have here := same.trans there
    obtain ⟨button, box⟩ := registers.rdbSSH there
    have ssh := checked_injective ((selects.ssh p here).symm.trans button)
    cases chose : choices.bind Choices.plink with
    | none =>
        have openSSH : chosen.ssh = .openSSH := by
          rw [ssh]
          cases choices with
          | none => rfl
          | some before => exact Choices.ssh_eq_openSSH.mpr chose
        exact iff_of_true (Choices.ssh_eq_openSSH.mp openSSH) (Or.inl rfl)
    | some path =>
        have some_path : chosen.plink ≠ none := by
          obtain ⟨before, rfl, plink⟩ := Option.bind_eq_some_iff.mp chose
          rw [Option.map_some, Option.getD_some] at ssh
          intro none
          rw [Choices.ssh_eq_openSSH.mpr none] at ssh
          rw [Choices.ssh_eq_openSSH.mp ssh.symm] at plink
          cases plink
        obtain ⟨q, found⟩ := Option.ne_none_iff_exists'.mp some_path
        have text : q = session.surroundings.plinkText c.previous :=
          (selects.box p here q found).symm.trans box
        have long : q ≠ [] := by
          obtain ⟨r, -, rfl⟩ := Option.map_eq_some_iff.mp (selects.plink.symm.trans found)
          exact r.2
        rw [found]
        constructor
        · rintro ⟨⟩
          refine Or.inr ⟨sessions, path, rfl, ?_⟩
          rw [text] at long ⊢
          exact session.surroundings.fileExists_plinkText c.previous long
        · rintro (none | ⟨-, r, ⟨⟩, exists_file⟩)
          · cases none
          · rw [text, registers.plinkText chose exists_file]
  · have none : chosen.plink = none := by
      have absent : (c.wizard session).puttyPage = none := same.trans (if_neg sessions)
      rw [selects.plink, ChoicePages.plink, absent]
      rfl
    rw [none]
    constructor
    · exact fun before => Or.inl before.symm
    · rintro (before | ⟨with_sessions, -⟩)
      · exact before.symm
      · exact absurd with_sessions sessions

/-- **An upgrade that is only clicked through** keeps the entries of `PATH` and
`core.autocrlf`.  It keeps the variables for the SSH client if and only if they are not set,
or PuTTY has sessions and the file is still there. -/
theorem upgrade_keeps_iff {c₀ : Computer} {text : Str} (fresh : c₀.Fresh place text)
    (history : RunOf (fun c run c' => c.run place run = c') place.PlainRun c₀ c)
    {session : Session} (clicks : ∀ event ∈ session.events, event.Clicks)
    (ready : (c.wizard session).page = .preparing)
    (plain : place.PlainRun c (.install session)) :
    (storedPath (c.install place session).machine place.allUsers).map (entries ';') =
        (storedPath c.machine place.allUsers).map (entries ';') ∧
      (c.previous "CRLF Option" ≠ none → (c.install place session).autocrlf = c.autocrlf) ∧
      ((∀ v : Variable, v.OfSSH → (c.install place session).machine.stored place.allUsers v =
          c.machine.stored place.allUsers v) ↔
        c.machine.stored place.allUsers .gitSsh = none ∨
          session.surroundings.hasSessions = true ∧
            ∃ path ∈ c.machine.stored place.allUsers .gitSsh,
              session.surroundings.disk.fileExists path = true) := by
  obtain ⟨choices, agrees⟩ := Place.agrees_of_history fresh.entries_old fresh.agrees history
  obtain ⟨chosen, selects⟩ := (proper_of_events _ _ session.events).selects ready
  have after := agrees.install fresh.entries_old ready selects (plain session rfl)
  obtain ⟨page, run⟩ := ChoicePages.run_of_clicks clicks
    (initializeWizard c.previous session.surroundings)
  have before_stored : ∀ v : Variable, v.OfSSH →
      c.machine.stored place.allUsers v = choices.bind Choices.plink :=
    fun v ssh => Place.Gives.stored_eq (agrees.ofSSH v ssh)
  have after_stored : ∀ v : Variable, v.OfSSH →
      (c.install place session).machine.stored place.allUsers v = chosen.plink :=
    fun v ssh => Place.Gives.stored_eq (after.ofSSH v ssh)
  have path : chosen.path = (choices.map Choices.path).getD .bashOnly := by
    have shown : (c.wizard session).rdbPath =
        (initializeWizard c.previous session.surroundings).rdbPath := by
      rw [Computer.wizard, run]
    exact checked_injective (selects.path.symm.trans (shown.trans agrees.registers.rdbPath))
  have crlf : chosen.crlf = (choices.map Choices.crlf).getD .crlfAlways := by
    have shown : (c.wizard session).rdbCRLF =
        (initializeWizard c.previous session.surroundings).rdbCRLF := by
      rw [Computer.wizard, run]
    exact checked_injective (selects.crlf.symm.trans (shown.trans agrees.registers.rdbCRLF))
  refine ⟨?_, fun registered => ?_, ?_⟩
  · obtain ⟨now, stored, parts⟩ := agrees.path
    obtain ⟨now', stored', parts'⟩ := after.path
    rw [stored, stored', Option.map_some, Option.map_some, parts, parts', Option.map_some,
      Option.getD_some, path]
  · cases choices with
    | none => exact absurd agrees.registers.crlfOption registered
    | some before =>
        rw [after.autocrlf chosen rfl, agrees.autocrlf before rfl, crlf]
        rfl
  · rw [before_stored .gitSsh (Or.inl rfl), ← selects.plink_of_clicks agrees.registers clicks]
    constructor
    · intro same
      rw [← after_stored .gitSsh (Or.inl rfl), same .gitSsh (Or.inl rfl),
        before_stored .gitSsh (Or.inl rfl)]
    · intro same v ssh
      rw [after_stored v ssh, before_stored v ssh, same]

end Wizards

/-! ### An instance -/

/-- All users have Git in `C:\Git`. -/
def Place.git : Place where
  appDir := "C:\\Git".toList
  allUsers := true
  readBack := id
  single := by decide

/-- Plink is the only file, and PuTTY has a session. -/
def Surroundings.withPlink : Surroundings where
  disk := ⟨fun name => name = "C:\\plink.exe".toList, fun _ => false, by
    rintro _ found rfl
    cases of_decide_eq_true found⟩
  isWin64 := false
  regQueryStringValue := fun _ => none
  puttySessions := some ["work".toList]
  pf := "C:\\Program Files".toList

/-- The user changes all choices but the last. -/
def Session.withPlink : Session where
  surroundings := .withPlink
  events := [.next Surroundings.withPlink.disk, .pathButton .cmdTools,
    .next Surroundings.withPlink.disk, .sshButton .plink, .plinkText "C:\\plink.exe".toList,
    .next Surroundings.withPlink.disk, .next Surroundings.withPlink.disk]
  keepsKey := false
  environment := fun _ => []

/-- An upgrade. -/
def Session.upgrade : Session :=
  { Session.withPlink with events := List.replicate 4 (.next Surroundings.withPlink.disk) }

/-- Only `PATH` is set. -/
def Computer.fresh : Computer where
  machine := .withPath "C:\\W".toList
  previous := fun _ => none
  autocrlf := []

theorem Computer.fresh_git : Computer.fresh.Fresh .git "C:\\W".toList where
  unregistered := fun _ => rfl
  stored := rfl
  some_entry := by decide
  apart := by
    unfold NoEntryInside
    decide
  unset := by
    rintro v (rfl | rfl) <;> rfl

theorem Place.git_plain : Place.git.Plain "C:\\plink.exe".toList where
  nonempty := by decide
  single := by decide
  unquoted := by decide
  kept := rfl

/-- The computer on which `PATH` and Plink have been chosen. -/
def Computer.chosen : Computer := Computer.fresh.run .git (.install .withPlink)

theorem Place.git_plainRun {c : Computer} {session : Session}
    (plink : (c.wizard session).plink.map Subtype.val = some "C:\\plink.exe".toList) :
    Place.git.PlainRun c (.install session) := by
  rintro _ ⟨⟩ path chosen
  rw [Option.mem_def.mp chosen, Option.map_some] at plink
  rw [Option.some.inj plink]
  exact Place.git_plain

theorem Computer.history_chosen :
    RunOf (fun c run c' => c.run .git run = c') Place.git.PlainRun .fresh .chosen :=
  RunOf.refl.tail (Place.git_plainRun (by decide)) rfl

theorem shows_of_history_withPlink :
    Place.git.Shows ["C:\\W".toList] .chosen
      (initializeWizard Computer.chosen.previous .withPlink) Surroundings.withPlink.disk := by
  have parts : entries ';' "C:\\W".toList = ["C:\\W".toList] := by decide
  rw [← parts]
  exact shows_of_history Computer.fresh_git Computer.history_chosen .withPlink

theorem upgrade_keeps_iff_withPlink :
    (storedPath (Computer.chosen.install .git .upgrade).machine true).map (entries ';') =
        (storedPath Computer.chosen.machine true).map (entries ';') ∧
      (Computer.chosen.install .git .upgrade).autocrlf = Computer.chosen.autocrlf ∧
      ∀ v : Variable, v.OfSSH → (Computer.chosen.install .git .upgrade).machine.stored true v =
        Computer.chosen.machine.stored true v := by
  have clicks : ∀ event ∈ Session.upgrade.events, event.Clicks := by
    intro event inside
    rw [List.eq_of_mem_replicate inside]
    trivial
  have path : Computer.chosen.machine.stored true .gitSsh = some "C:\\plink.exe".toList := by
    decide
  have kept := upgrade_keeps_iff Computer.fresh_git Computer.history_chosen clicks (by decide)
    (Place.git_plainRun (by decide))
  exact ⟨kept.1, kept.2.1 (by decide),
    kept.2.2.mpr (Or.inr ⟨rfl, "C:\\plink.exe".toList, path, rfl⟩)⟩

end MsysGit.WinGit
