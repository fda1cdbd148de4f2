import MsysGit.Library.SessionLog
import MsysGit.WinGit.ModuleUsers

/-!
# The processes page and the Restart Manager

On Windows Vista and above a refresh of the process list starts a session of the
Restart Manager.  The handle of the session is returned only when a process was found;
otherwise 0 is, and the session stays as it is.  Setup has one global variable for the
handle: a refresh overwrites it, and the post-install step ends the session that the
last refresh returned (`sessionEvents_run`).

What the system answers to the calls of a refresh is part of the refresh.  The Restart
Manager's library is there: on these systems no call that starts a session raises an
exception.
-/

namespace MsysGit.WinGit

open MsysGit.Library SessionEvent

/-! ### The code -/

def errorSuccess : ℕ := 0

def errorMoreData : ℕ := 234

/-- The calls of the Restart Manager. -/
inductive RmCall where
  /-- With the handle of the session, unless it could not be started. -/
  | startSession (handle : Option UInt32)
  | registerResources (handle : UInt32) (files : List Str)
  /-- With the number of applications there is room for. -/
  | getList (handle : UInt32) (room : ℕ)
  | shutdown (handle : UInt32)
  | restart (handle : UInt32)
  | endSession (handle : UInt32)
  deriving DecidableEq

/-- The fields of `RM_PROCESS_INFO` that are read. -/
structure RmProcessInfo where
  processId : ℕ
  appName : Str
  restartable : Bool

/-- An answer of `RmGetList`: what it returns, sets `Needed` and `Have` to, and lists. -/
structure RmList where
  success : ℕ
  needed : ℕ
  held : ℕ
  appList : List RmProcessInfo

/-- `(Have>=Needed) and (Success<>ERROR_MORE_DATA)`. -/
def RmList.complete (list : RmList) : Bool :=
  decide (list.needed ≤ list.held) && decide (list.success ≠ errorMoreData)

/-- What the calls of one refresh are answered with. -/
structure RmAnswers where
  /-- The handle of the session that is started. -/
  startSession : Option UInt32
  /-- What `RmRegisterResources` returns. -/
  registerResources : ℕ
  /-- The answers of `RmGetList`, one after the other. -/
  getList : List RmList
  /-- The path of the executable of a process that can be opened. -/
  openProcess : ℕ → Option Str

/-- The loop around `RmGetList`, with `Needed` as it stands before a round: its calls, and the
answer that ends it. -/
def getListLoop (handle : UInt32) : ℕ → List RmList → Option (List RmCall × RmList)
  | _, [] => none
  | needed, list :: lists =>
      if list.complete then some ([.getList handle needed], list)
      else (getListLoop handle list.needed lists).map fun (calls, last) =>
        (.getList handle needed :: calls, last)

/-- The entries of the applications whose process can be opened. -/
def listedProcesses (openProcess : ℕ → Option Str) (list : RmList) : List ProcessEntry :=
  (list.appList.take list.needed).filterMap fun app =>
    (openProcess app.processId).map fun path =>
      { id := app.processId, path := path, name := app.appName, restartable := app.restartable }

/-- `FindProcessesUsingModules_WinVista`: the calls, the result and `Processes`.  It does not
return while the answers ask for more room. -/
def findProcessesUsingModulesWinVista (modules : List Str) (answers : RmAnswers) :
    Option (List RmCall × UInt32 × List ProcessEntry) :=
  match answers.startSession with
  | none => some ([.startSession none], 0, [])
  | some handle =>
      let calls := [.startSession (some handle), .registerResources handle modules]
      if answers.registerResources = errorSuccess then
        (getListLoop handle 1 answers.getList).map fun (rounds, list) =>
          if list.success = errorSuccess ∧ 0 < list.needed then
            (calls ++ rounds, handle, listedProcesses answers.openProcess list)
          else (calls ++ rounds, 0, [])
      else some (calls, 0, [])

/-- Setup while its pages are shown and when it installs. -/
structure Wizard where
  /-- The global variable. -/
  sessionHandle : UInt32
  processes : List ProcessEntry
  /-- The items of `ProcessesListBox`. -/
  listBox : List Str
  calls : List RmCall
  /-- The messages logged so far, without their line numbers. -/
  log : List String

def Wizard.initial : Wizard where
  sessionHandle := 0
  processes := []
  listBox := []
  calls := []
  log := []

/-- The files that are looked for on Windows Vista and above. -/
def vistaModules (appDir : Str) : List Str :=
  ["\\bin\\msys-1.0.dll", "\\bin\\tcl85.dll", "\\bin\\tk85.dll",
    "\\git-cheetah\\git_shell_ext.dll", "\\git-cheetah\\git_shell_ext64.dll"].map
    fun file => appDir ++ file.toList

/-- The text that is shown for a process. -/
def processCaption (process : ProcessEntry) : Str :=
  process.name ++ " (PID ".toList ++ (toString process.id).toList ++
    (if process.restartable then ", closing is optional" else ", closing is required").toList ++
    [')']

/-- `RefreshProcessList` on Windows Vista and above; `fromButton` if `Sender` is not `NIL`.  Setup
has no `ContinueButton`. -/
def refreshProcessList (appDir : Str) (fromButton : Bool) (answers : RmAnswers) (w : Wizard) :
    Option Wizard :=
  (findProcessesUsingModulesWinVista (vistaModules appDir) answers).map
    fun (calls, handle, processes) =>
      { w with
        sessionHandle := handle
        processes := processes
        listBox := if fromButton = false ∨ 0 < handle then processes.map processCaption else []
        calls := w.calls ++ calls }

/-- What may happen while pages are shown. -/
inductive PageAction where
  /-- Setup asks whether to skip a page. -/
  | shouldSkipPage (pageId : ℕ) (answers : RmAnswers)
  | refreshClick (answers : RmAnswers)

/-- Which functions of the Restart Manager are supported; the others raise an exception. -/
structure RmSupport where
  shutdown : Bool
  restart : Bool
  endSession : Bool

/-- A run of setup. -/
structure Installation where
  appDir : Str
  /-- The identifier of `ProcessesPage`. -/
  processesPage : ℕ
  pages : List PageAction
  supported : RmSupport

/-- `ShouldSkipPage`: whether the page is skipped, and what it leaves behind. -/
def shouldSkipPage (i : Installation) (pageId : ℕ) (answers : RmAnswers) (w : Wizard) :
    Option (Bool × Wizard) :=
  if pageId = i.processesPage then
    (refreshProcessList i.appDir false answers w).map fun w => (w.processes.isEmpty, w)
  else some (false, w)

def pageAction (i : Installation) (w : Wizard) : PageAction → Option Wizard
  | .shouldSkipPage pageId answers => (shouldSkipPage i pageId answers w).map Prod.snd
  | .refreshClick answers => refreshProcessList i.appDir true answers w

/-- `CurStepChanged(ssInstall)`. -/
def curStepChangedInstall (supported : RmSupport) (w : Wizard) : Wizard :=
  if 0 < w.sessionHandle then
    if supported.shutdown then { w with calls := w.calls ++ [.shutdown w.sessionHandle] }
    else { w with log := w.log ++ ["RmShutdown not supported."] }
  else w

/-- The end of `CurStepChanged(ssPostInstall)`, where the processes are restarted. -/
def curStepChangedPostInstall (supported : RmSupport) (w : Wizard) : Wizard :=
  if 0 < w.sessionHandle then
    if supported.restart then
      if supported.endSession then
        { w with calls := w.calls ++ [.restart w.sessionHandle, .endSession w.sessionHandle] }
      else
        { w with
          calls := w.calls ++ [.restart w.sessionHandle]
          log := w.log ++ ["RmRestart not supported."] }
    else { w with log := w.log ++ ["RmRestart not supported."] }
  else w

/-- The pages, the installation and the post-install step. -/
def Installation.run (i : Installation) : Option Wizard :=
  (i.pages.foldlM (pageAction i) Wizard.initial).map fun w =>
    curStepChangedPostInstall i.supported (curStepChangedInstall i.supported w)

/-! ### The condition -/

/-- What a call does to the sessions. -/
def RmCall.sessionEvent : RmCall → Option (SessionEvent UInt32)
  | startSession handle => handle.map opened
  | endSession handle => some (closed handle)
  | _ => none

def sessionEvents (calls : List RmCall) : List (SessionEvent UInt32) :=
  calls.filterMap RmCall.sessionEvent

/-- The answers of an action that refreshes the list. -/
def Installation.refreshOf (i : Installation) : PageAction → Option RmAnswers
  | .shouldSkipPage pageId answers => if pageId = i.processesPage then some answers else none
  | .refreshClick answers => some answers

/-- The refreshes of a run, in order. -/
def Installation.refreshes (i : Installation) : List RmAnswers := i.pages.filterMap i.refreshOf

/-- The answers give a session and a process that uses one of the files. -/
structure RmAnswers.Finds (answers : RmAnswers) (session : UInt32) : Prop where
  started : answers.startSession = some session
  registered : answers.registerResources = errorSuccess
  listed : ∃ list, answers.getList.find? RmList.complete = some list ∧
    list.success = errorSuccess ∧ 0 < list.needed

/-- No refresh is given a session; or the last one is, with a handle that is not zero and with a
process to close, and the functions that restart processes and end sessions are supported. -/
def Installation.EndsItsSession (i : Installation) : Prop :=
  (∀ answers ∈ i.refreshes, answers.startSession = none) ∨
    ∃ earlier last session, i.refreshes = earlier ++ [last] ∧
      (∀ answers ∈ earlier, answers.startSession = none) ∧ last.Finds session ∧ 0 < session ∧
      i.supported.restart = true ∧ i.supported.endSession = true

/-! ### One refresh -/

@[simp] theorem sessionEvents_append (calls later : List RmCall) :
    sessionEvents (calls ++ later) = sessionEvents calls ++ sessionEvents later :=
  List.filterMap_append

/-- The loop asks for lists only, and ends with the first answer that is complete. -/
theorem getListLoop_eq {handle : UInt32} {needed : ℕ} {lists : List RmList}
    {calls : List RmCall} {last : RmList}
    (ended : getListLoop handle needed lists = some (calls, last)) :
    sessionEvents calls = [] ∧ lists.find? RmList.complete = some last := by
  induction lists generalizing needed calls with
  | nil => cases ended
  | cons list lists ih =>
      rw [getListLoop] at ended
      rw [List.find?_cons]
      split at ended
      · rename_i complete
        cases ended
        rw [complete]
        exact ⟨rfl, rfl⟩
      · rename_i incomplete
        obtain ⟨⟨later, last'⟩, rest, same⟩ := Option.map_eq_some_iff.mp ended
        obtain ⟨rfl, rfl⟩ := Prod.mk.inj same
        rw [Bool.eq_false_iff.mpr incomplete]
        obtain ⟨silent, found⟩ := ih rest
        exact ⟨silent, found⟩

/-- **One refresh.**  It opens the session it is given, and returns the handle of a session
only when it finds a process. -/
theorem findProcessesUsingModulesWinVista_spec {modules : List Str} {answers : RmAnswers}
    {calls : List RmCall} {handle : UInt32} {processes : List ProcessEntry}
    (returned : findProcessesUsingModulesWinVista modules answers =
      some (calls, handle, processes)) :
    sessionEvents calls = answers.startSession.toList.map opened ∧
      ∀ session, 0 < session → (handle = session ↔ answers.Finds session) := by
  rw [findProcessesUsingModulesWinVista] at returned
  have nothing : ∀ session : UInt32, 0 < session → ¬ (0 = session) := by
    rintro session positive rfl
    exact absurd positive (by decide)
  split at returned
  · rename_i unstarted
    cases returned
    refine ⟨by rw [unstarted]; rfl, fun session positive => ?_⟩
    refine iff_of_false (nothing session positive) fun finds => ?_
    cases unstarted.symm.trans finds.started
  · rename_i given started
    rw [started]
    split at returned
    · rename_i registered
      obtain ⟨⟨rounds, list⟩, ended, same⟩ := Option.map_eq_some_iff.mp returned
      obtain ⟨silent, found⟩ := getListLoop_eq ended
      dsimp only at same
      split at same
      · rename_i listed
        cases same
        refine ⟨by rw [sessionEvents_append, silent]; rfl, fun session _ => ⟨?_, ?_⟩⟩
        · rintro rfl
          exact ⟨started, registered, list, found, listed⟩
        · rintro ⟨started', -, -⟩
          exact Option.some.inj (started.symm.trans started')
      · rename_i unlisted
        cases same
        refine ⟨by rw [sessionEvents_append, silent]; rfl, fun session positive => ?_⟩
        refine iff_of_false (nothing session positive) fun finds => unlisted ?_
        obtain ⟨list', found', listed⟩ := finds.listed
        cases found.symm.trans found'
        exact listed
    · rename_i unregistered
      cases returned
      refine ⟨rfl, fun session positive => ?_⟩
      exact iff_of_false (nothing session positive) fun finds => unregistered finds.registered

/-! ### The pages -/

/-- What the refreshes so far have done: their sessions are open, and the global variable knows
the session of the last one if that found a process. -/
structure Wizard.Refreshed (w : Wizard) (refreshes : List RmAnswers) : Prop where
  events : sessionEvents w.calls = (refreshes.filterMap RmAnswers.startSession).map opened
  handle : ∀ session, 0 < session →
    (w.sessionHandle = session ↔ ∃ last ∈ refreshes.getLast?, last.Finds session)

theorem Wizard.initial_refreshed : Wizard.initial.Refreshed [] where
  events := rfl
  handle := by
    intro session positive
    refine iff_of_false ?_ ?_
    · rintro rfl
      exact absurd positive (by decide)
    · rintro ⟨last, none, -⟩
      cases none

theorem refreshProcessList_refreshed {appDir : Str} {fromButton : Bool} {answers : RmAnswers}
    {w w' : Wizard} {refreshes : List RmAnswers} (before : w.Refreshed refreshes)
    (refreshed : refreshProcessList appDir fromButton answers w = some w') :
    w'.Refreshed (refreshes ++ [answers]) := by
  obtain ⟨⟨calls, handle, processes⟩, returned, rfl⟩ := Option.map_eq_some_iff.mp refreshed
  obtain ⟨events, finds⟩ := findProcessesUsingModulesWinVista_spec returned
  constructor
  · rw [sessionEvents_append, before.events, events, List.filterMap_append, List.map_append]
    cases started : answers.startSession <;> simp [started]
  · intro session positive
    rw [finds session positive]
    simp

/-- One action of the page phase: a refresh, or nothing. -/
theorem pageAction_refreshed {i : Installation} {action : PageAction} {w w' : Wizard}
    {refreshes : List RmAnswers} (before : w.Refreshed refreshes)
    (acted : pageAction i w action = some w') :
    w'.Refreshed (refreshes ++ (i.refreshOf action).toList) := by
  cases action with
  | shouldSkipPage pageId answers =>
      rw [pageAction, shouldSkipPage] at acted
      rw [Installation.refreshOf]
      split at acted
      · rename_i page
        rw [if_pos page]
        rw [Option.map_map, Option.map_eq_some_iff] at acted
        obtain ⟨w'', refreshed, rfl⟩ := acted
        exact refreshProcessList_refreshed before refreshed
      · rename_i other
        rw [if_neg other, Option.toList_none, List.append_nil]
        cases acted
        exact before
  | refreshClick answers => exact refreshProcessList_refreshed before acted

theorem pages_refreshed {i : Installation} {pages : List PageAction} {w w' : Wizard}
    {refreshes : List RmAnswers} (before : w.Refreshed refreshes)
    (acted : pages.foldlM (pageAction i) w = some w') :
    w'.Refreshed (refreshes ++ pages.filterMap i.refreshOf) := by
  induction pages generalizing w refreshes with
  | nil =>
      cases acted
      rwa [List.filterMap_nil, List.append_nil]
  | cons action pages ih =>
      rw [List.foldlM_cons, Option.bind_eq_bind, Option.bind_eq_some_iff] at acted
      obtain ⟨w'', one, rest⟩ := acted
      have later := ih (pageAction_refreshed before one) rest
      rw [List.append_assoc] at later
      rw [List.filterMap_cons]
      cases refresh : i.refreshOf action <;> simpa [refresh] using later

/-! ### The whole run -/

/-- The session that the post-install step ends. -/
def endedSession (supported : RmSupport) (w : Wizard) : List UInt32 :=
  if 0 < w.sessionHandle ∧ supported.restart = true ∧ supported.endSession = true then
    [w.sessionHandle]
  else []

theorem sessionEvents_curStepChanged (supported : RmSupport) (w : Wizard) :
    sessionEvents (curStepChangedPostInstall supported (curStepChangedInstall supported w)).calls =
      sessionEvents w.calls ++ (endedSession supported w).map closed := by
  have kept : (curStepChangedInstall supported w).sessionHandle = w.sessionHandle ∧
      sessionEvents (curStepChangedInstall supported w).calls = sessionEvents w.calls := by
    rw [curStepChangedInstall]
    split
    · split
      · exact ⟨rfl, by rw [sessionEvents_append]; exact List.append_nil _⟩
      · exact ⟨rfl, rfl⟩
    · exact ⟨rfl, rfl⟩
  rw [curStepChangedPostInstall, endedSession, kept.1]
  by_cases positive : 0 < w.sessionHandle
  · have restarted : sessionEvents [.restart w.sessionHandle] = [] := rfl
    have ended : sessionEvents [.restart w.sessionHandle, .endSession w.sessionHandle] =
        [closed w.sessionHandle] := rfl
    cases supported.restart <;> cases supported.endSession <;>
      simp [positive, kept.2, restarted, ended]
  · rw [if_neg positive, if_neg fun all => positive all.1, kept.2]
    exact (List.append_nil _).symm

theorem mem_endedSession_iff {supported : RmSupport} {w : Wizard} {session : UInt32} :
    session ∈ endedSession supported w ↔ w.sessionHandle = session ∧ 0 < session ∧
      supported.restart = true ∧ supported.endSession = true := by
  rw [endedSession]
  split
  · rename_i ends
    rw [List.mem_singleton]
    exact ⟨fun same => ⟨same.symm, same ▸ ends⟩, fun ⟨same, _⟩ => same.symm⟩
  · rename_i unended
    refine iff_of_false List.not_mem_nil ?_
    rintro ⟨rfl, ends⟩
    exact unended ends

/-- **The sessions of a run**: those of all refreshes are opened, and at most the one that the
last refresh returned is closed. -/
theorem sessionEvents_run {i : Installation} {w : Wizard} (ran : i.run = some w) :
    ∃ w₀ : Wizard, w₀.Refreshed i.refreshes ∧
      sessionEvents w.calls = (i.refreshes.filterMap RmAnswers.startSession).map opened ++
        (endedSession i.supported w₀).map closed := by
  obtain ⟨w₀, pages, rfl⟩ := Option.map_eq_some_iff.mp ran
  have refreshed : w₀.Refreshed i.refreshes := pages_refreshed Wizard.initial_refreshed pages
  refine ⟨w₀, refreshed, ?_⟩
  rw [sessionEvents_curStepChanged, refreshed.events]

/-- **Ended sessions.**  In a run of setup at most one session is open at a time and all are
ended, if and only if no refresh was given a session, or only the last one, and it found a process
and the session has a handle that is not zero. -/
theorem wellKept_run_iff {i : Installation} {w : Wizard} (ran : i.run = some w) :
    WellKept (sessionEvents w.calls) ↔ i.EndsItsSession := by
  obtain ⟨w₀, refreshed, events⟩ := sessionEvents_run ran
  rw [events, wellKept_opened_closed_iff, List.filterMap_eq_nil_iff]
  refine or_congr Iff.rfl ?_
  constructor
  · rintro ⟨session, one, ended⟩
    obtain ⟨same, positive, supported⟩ := mem_endedSession_iff.mp ended
    obtain ⟨last, isLast, finds⟩ := (refreshed.handle session positive).mp same
    obtain ⟨earlier, split⟩ := List.getLast?_eq_some_iff.mp isLast
    refine ⟨earlier, last, session, split, ?_, finds, positive, supported⟩
    -- The only session is that of the last refresh.
    have alone : earlier.filterMap RmAnswers.startSession ++ [session] = [session] := by
      simpa [split, finds.started] using one
    exact List.filterMap_eq_nil_iff.mp (List.append_left_eq_self.mp alone)
  · rintro ⟨earlier, last, session, split, none, finds, positive, supported⟩
    refine ⟨session, ?_, ?_⟩
    · rw [split, List.filterMap_append, List.filterMap_eq_nil_iff.mpr none, List.nil_append]
      simp [finds.started]
    · have same := (refreshed.handle session positive).mpr ⟨last, by simp [split], finds⟩
      exact mem_endedSession_iff.mpr ⟨same, positive, supported⟩

/-- One visit of the page that finds a process which uses a file. -/
def oneVisit (processes : ℕ) : Installation where
  appDir := "C:\\Git".toList
  processesPage := 100
  pages :=
    [.shouldSkipPage 100
      { startSession := some 1
        registerResources := errorSuccess
        getList := [{
          success := errorSuccess
          needed := processes
          held := 1
          appList := [{ processId := 7, appName := "bash".toList, restartable := false }] }]
        openProcess := fun _ => some "C:\\Git\\bin\\sh.exe".toList }]
  supported := { shutdown := true, restart := true, endSession := true }

theorem wellKept_run_iff_oneVisit :
    ∃ w, (oneVisit 1).run = some w ∧ WellKept (sessionEvents w.calls) := by
  refine ⟨_, rfl, (wellKept_run_iff (i := oneVisit 1) rfl).mpr (Or.inr ?_)⟩
  refine ⟨[], _, 1, rfl, by simp, ⟨rfl, rfl, _, rfl, rfl, by decide⟩, by decide, rfl, rfl⟩

/-- A visit that finds nothing leaves its session open. -/
theorem session_left_open :
    ¬ ∀ (i : Installation) (w : Wizard), i.run = some w → WellKept (sessionEvents w.calls) := by
  intro all
  have ended := (all (oneVisit 0) _ rfl).2
  revert ended
  decide

end MsysGit.WinGit
