import MsysGit.Library.LastRead
import MsysGit.WhoUses.FileNames
import Mathlib.Data.Nat.Notation

/-!
# Who uses a file

`WhoUsesFile` goes over all handles of the system and shows those whose name is the one
that is looked for.  It asks twice for the type of each handle and then for its name, and
either can fail; then the variable keeps what was read for an earlier handle, perhaps of
another process.  So a process is shown in error exactly when a handle that cannot be read
stands behind one that has the name (`whoUsesFile_right_iff`).

A name is found out in two ways.  The first one takes a buffer that begins with the length
of the name for the name, and what looks empty there is not looked up the second way; that
is so for every 128th length (`shown_iff`).
-/

namespace MsysGit.WhoUses

open MsysGit.Library MsysGit.Library.CString

/-! ### What the system says -/

/-- `SYSTEM_HANDLE` -/
structure Handle where
  processID : UInt32
  handleType : UInt16
  handleNumber : UInt16
  deriving DecidableEq

/-- `UNICODE_STRING`; the buffer up to its null. -/
structure UnicodeString where
  length : UInt16
  maximumLength : UInt16
  buffer : List UInt16

/-- `Unicode2string` -/
def unicode2string (strU : UnicodeString) : Bytes :=
  if strU.length ≠ 0 ∨ strU.maximumLength ≠ 0 then lpcwstr2string strU.buffer else []

/-- How the thread of `GetFileName` fares. -/
inductive FileNameThread
  /-- It cannot be started. -/
  | unstarted
  /-- It hangs, and is terminated. -/
  | hangs
  | fails
  /-- It fills the buffer. -/
  | fills (buffer : Bytes)

/-- The answers of the system. -/
structure System where
  majorVersion : ℕ
  /-- `NtQuerySystemInformation`, for the handles. -/
  handles : Option (List Handle)
  /-- The names in `m_ProcessInfos`. -/
  processInfos : UInt32 → Option UnicodeString
  /-- `GetTypeToken`, while the handles are listed. -/
  listedType : Handle → Option (List UInt16)
  /-- `GetTypeToken`, when the name is read. -/
  typeToken : Handle → Option (List UInt16)
  /-- The process is the own one, or `OpenProcess` succeeds. -/
  opens : Handle → Bool
  /-- `NtQueryInformationProcess` -/
  uniqueProcessId : Handle → Option UInt32
  fileNameThread : Handle → FileNameThread
  /-- `NtQueryObject`, for the name. -/
  objectName : Handle → Option UnicodeString
  queryDosDevice : Bytes → Option Bytes

variable (sys : System)

/-! ### The handles -/

/-- `IsSupportedHandle` -/
def isSupportedHandle (handle : Handle) : Bool :=
  5 ≤ sys.majorVersion || !(handle.processID = 2 && handle.handleType = 16)

/-- `m_strTypeFilter` -/
def typeFilter : Bytes := text "File"

/-- The loop of `Refresh`. -/
def refreshLoop : Bytes → List Handle → List Handle
  | _, [] => []
  | strType, handle :: handles =>
      if isSupportedHandle sys handle then
        let strType := ((sys.listedType handle).map lpcwstr2string).getD strType
        if strType = typeFilter then
          { handle with handleType := handle.handleType % 256 } :: refreshLoop strType handles
        else refreshLoop strType handles
      else refreshLoop strType handles

/-- `m_HandleInfos`, after `SetFilter`. -/
def handleInfos : List Handle := (sys.handles.map (refreshLoop sys [])).getD []

/-! ### The name of a handle -/

def constStrTypes : List Bytes :=
  [[], [], text "Directory", text "SymbolicLink", text "Token", text "Process", text "Thread",
    text "Unknown7", text "Event", text "EventPair", text "Mutant", text "Unknown11",
    text "Semaphore", text "Timer", text "Profile", text "WindowStation", text "Desktop",
    text "Section", text "Key", text "Port", text "WaitablePort", text "Unknown21",
    text "Unknown22", text "Unknown23", text "Unknown24", text "IoCompletion", text "File"]

/-- `GetTypeFromTypeToken` -/
def getTypeFromTypeToken (typeToken : Bytes) : Option ℕ :=
  (List.range' 1 26).find? fun i => constStrTypes.getD i [] = typeToken

/-- `GetType` -/
def getType (h : Handle) : Option ℕ :=
  ((sys.typeToken h).map lpcwstr2string).bind getTypeFromTypeToken

/-- `GetFileName`, of a handle of the own process: what is returned, and the string. -/
def getFileName (h : Handle) (str : Bytes) : Bool × Bytes :=
  match sys.fileNameThread h with
  | .unstarted | .fails => (false, str)
  | .hangs => (true, [])
  -- The buffer is taken for a string, although the length stands first.
  | .fills buffer => (true, buffer.takeWhile (· ≠ 0))

/-- The end of `GetNameByType`. -/
def queryName (h : Handle) (ret : Bool) (str : Bytes) : Bool × Bytes :=
  match sys.objectName h with
  | none => (ret, str)
  | some name => (true, unicode2string name)

/-- `std::hex` -/
def hex (n : UInt32) : Bytes := (Nat.toDigits 16 n.toNat).map fun c => c.toNat.toUInt8

/-- `GetNameByType` -/
def getNameByType (h : Handle) (type : ℕ) (str : Bytes) : Bool × Bytes :=
  if sys.opens h then
    match type with
    | 5 => (true, text "PID: 0x" ++ hex ((sys.uniqueProcessId h).getD 0))
    | 6 => (true, str)
    | 26 =>
        let (ret, str) := getFileName sys h str
        if ret = true ∧ str = [] then (ret, str) else queryName sys h ret str
    | _ => queryName sys h false str
  else (false, str)

/-- `GetName` -/
def getName (h : Handle) (str : Bytes) : Bool × Bytes :=
  match getType sys h with
  | none => (false, str)
  | some type => getNameByType sys h type str

/-! ### WhoUsesFile -/

/-- A line of the table. -/
structure Row where
  processID : UInt32
  processName : Bytes
  path : Bytes
  deriving DecidableEq

/-- What is printed. -/
inductive Report
  | noDeviceName
  | noHandles
  | table (rows : List Row)
  deriving DecidableEq

/-- The file that is looked for: by its name, or by its path, with the name on the device. -/
inductive Target
  | name (fileName : Bytes)
  | path (fileName deviceFileName : Bytes)

def processName (id : UInt32) : Bytes := ((sys.processInfos id).map unicode2string).getD []

/-- `bShow` -/
def Target.shows : Target → Bytes → Bool
  | name file, handleName => tcsicmp (WhoUses.fileName handleName) file
  | path _ device, handleName => tcsicmp handleName device

/-- What is printed for a handle. -/
def Target.row (target : Target) (h : Handle) (handleName : Bytes) : Row where
  processID := h.processID
  processName := processName sys h.processID
  path :=
    match target with
    | name _ => (getFsFileName sys.queryDosDevice handleName).getD []
    | path file _ => file

/-- `services.exe` of NT4 is passed over. -/
def skipped (h : Handle) : Bool :=
  sys.majorVersion = 4 && tcsicmp (processName sys h.processID) (text "services.exe")

/-- The loop of `WhoUsesFile`. -/
def rowLoop (target : Target) : Bytes → List Handle → List Row
  | _, [] => []
  | name, h :: handles =>
      if skipped sys h then rowLoop target name handles
      else
        let name := (getName sys h name).2
        if target.shows name then target.row sys h name :: rowLoop target name handles
        else rowLoop target name handles

def target (lpFileName : Bytes) (bFullPathCheck : Bool) : Option Target :=
  if bFullPathCheck then
    (getDeviceFileName sys.queryDosDevice lpFileName).map (Target.path lpFileName)
  else some (.name lpFileName)

def whoUsesFile (lpFileName : Bytes) (bFullPathCheck : Bool) : Report :=
  match target sys lpFileName bFullPathCheck with
  | none => .noDeviceName
  | some target =>
      if handleInfos sys = [] then .noHandles
      else .table (rowLoop sys target [] (handleInfos sys))

/-! ### What a handle itself says -/

/-- A handle as it stands in `m_HandleInfos`. -/
def Handle.clipped (h : Handle) : Handle := { h with handleType := h.handleType % 256 }

/-- The type of a handle, unless it cannot be read. -/
def typeRead (h : Handle) : Option Bytes := (sys.listedType h).map lpcwstr2string

/-- The name of a handle, unless the string is left as it was. -/
def nameRead (h : Handle) : Option Bytes :=
  (getType sys h).bind fun type =>
    if sys.opens h then
      match type with
      | 5 => some (text "PID: 0x" ++ hex ((sys.uniqueProcessId h).getD 0))
      | 6 => none
      | 26 =>
          match sys.fileNameThread h with
          | .unstarted | .fails => (sys.objectName h).map unicode2string
          | .hangs => some []
          | .fills buffer =>
              if buffer.takeWhile (· ≠ 0) = [] then some []
              else some (((sys.objectName h).map unicode2string).getD (buffer.takeWhile (· ≠ 0)))
      | _ => (sys.objectName h).map unicode2string
    else none

/-- The processes that have the file open, as the handles themselves say. -/
def users (target : Target) : List Row :=
  let files := own (typeRead sys) (fun _ type => type = typeFilter)
    ((sys.handles.getD []).filter (isSupportedHandle sys))
  let named := own (nameRead sys) (fun _ name => target.shows name)
    ((files.map fun file => file.1.clipped).filter fun h => !skipped sys h)
  named.map fun file => target.row sys file.1 file.2

/-- What cannot be read while the handles are listed cannot be read later. -/
def Steady : Prop := ∀ h, sys.listedType h = none → nameRead sys h.clipped = none

section Proofs

variable {sys}

theorem queryName_eq (h : Handle) (ret : Bool) (str : Bytes) :
    (queryName sys h ret str).2 = ((sys.objectName h).map unicode2string).getD str := by
  rw [queryName]
  cases sys.objectName h with
  | none => rfl
  | some name => rfl

/-- `GetName` assigns the handle's own name or nothing. -/
theorem getName_eq (h : Handle) (str : Bytes) :
    (getName sys h str).2 = (nameRead sys h).getD str := by
  rw [getName, nameRead]
  cases getType sys h with
  | none => rfl
  | some type =>
      rw [Option.bind_some]
      dsimp only [getNameByType]
      split
      · split
        · rfl
        · rfl
        · rw [getFileName]
          cases sys.fileNameThread h with
          | unstarted => exact queryName_eq h false str
          | fails => exact queryName_eq h false str
          | hangs => rfl
          | fills buffer =>
              dsimp only
              by_cases empty : buffer.takeWhile (· ≠ 0) = []
              · rw [if_pos ⟨rfl, empty⟩, if_pos empty, empty]
                rfl
              · rw [if_neg fun both => empty both.2, if_neg empty]
                exact queryName_eq h true _
        · exact queryName_eq h false str
      · rfl

theorem refreshLoop_eq (strType : Bytes) (handles : List Handle) :
    refreshLoop sys strType handles =
      (select (typeRead sys) (fun _ type => type = typeFilter) strType
        (handles.filter (isSupportedHandle sys))).map fun file => file.1.clipped := by
  induction handles generalizing strType with
  | nil => rfl
  | cons handle handles ih =>
      rw [refreshLoop, List.filter_cons]
      split
      · show (if (typeRead sys handle).getD strType = typeFilter then _ else _) = _
        rw [select_cons]
        by_cases file : (typeRead sys handle).getD strType = typeFilter
        · rw [if_pos file, if_pos (decide_eq_true file), List.map_cons]
          exact congrArg _ (ih _)
        · rw [if_neg file, if_neg (by simpa using file)]
          exact ih _
      · exact ih strType

theorem rowLoop_eq (target : Target) (name : Bytes) (handles : List Handle) :
    rowLoop sys target name handles =
      (select (nameRead sys) (fun _ name => target.shows name) name
        (handles.filter fun h => !skipped sys h)).map fun file => target.row sys file.1 file.2 := by
  induction handles generalizing name with
  | nil => rfl
  | cons h handles ih =>
      rw [rowLoop]
      by_cases passed : skipped sys h = true
      · rw [if_pos passed, List.filter_cons_of_neg (by rw [passed]; exact Bool.false_ne_true)]
        exact ih name
      · rw [if_neg passed, List.filter_cons_of_pos (by rw [Bool.eq_false_iff.mpr passed]; rfl),
          select_cons, ← getName_eq]
        dsimp only
        split
        · rw [List.map_cons, ih]
        · exact ih _

/-- What was not read while the handles were listed is not read later, so the handles that are
listed in error have no names of their own. -/
theorem own_handleInfos (steady : Steady sys) (target : Target) :
    own (nameRead sys) (fun _ name => target.shows name)
        ((handleInfos sys).filter fun h => !skipped sys h) =
      own (nameRead sys) (fun _ name => target.shows name)
        (((own (typeRead sys) (fun _ type => type = typeFilter)
          ((sys.handles.getD []).filter (isSupportedHandle sys))).map fun file =>
            file.1.clipped).filter fun h => !skipped sys h) := by
  have infos : handleInfos sys = refreshLoop sys [] (sys.handles.getD []) := by
    rw [handleInfos]
    cases sys.handles with
    | none => rfl
    | some handles => rfl
  rw [infos, refreshLoop_eq, own, own, List.filterMap_filter, List.filterMap_filter,
    List.filterMap_map, List.filterMap_map]
  refine filterMap_select _ _ (fun h type failed => ?_) [] _
  have unread : nameRead sys h.clipped = none := steady h (Option.map_eq_none_iff.mp failed)
  dsimp only [Function.comp_apply]
  rw [unread]
  split <;> rfl

end Proofs

/-! ### Handles that cannot be read -/

/-- A string in the memory of the system. -/
def wide (s : String) : List UInt16 := (text s).map UInt8.toUInt16

def UnicodeString.of (s : List UInt16) : UnicodeString where
  length := (2 * s.length).toUInt16
  maximumLength := (2 * s.length).toUInt16
  buffer := s

/-- What the buffer is filled with: the length of the name in bytes, and the name. -/
def fileNameInformation (name : List UInt16) : Bytes :=
  let size := 2 * name.length
  [size.toUInt8, (size / 256).toUInt8, (size / 65536).toUInt8, (size / 16777216).toUInt8] ++
    name.flatMap fun (c : UInt16) => [c.toUInt8, (c >>> 8).toUInt8]

/-- Process 8 has a file open, and process 12 cannot be opened. -/
def closedProcess : System where
  majorVersion := 5
  handles := some [⟨8, 0, 4⟩, ⟨12, 0, 4⟩]
  processInfos := fun id => some (.of (wide (if id = 8 then "a.exe" else "b.exe")))
  listedType := fun h => if h.processID = 8 then some (wide "File") else none
  typeToken := fun h => if h.processID = 8 then some (wide "File") else none
  opens := fun h => h.processID = 8
  uniqueProcessId := fun _ => none
  fileNameThread := fun _ => .fills (fileNameInformation (wide "\\x"))
  objectName := fun _ => some (.of (wide "\\Device\\HarddiskVolume1\\x"))
  queryDosDevice := volumes

/-- Both processes are shown. -/
theorem whoUsesFile_closedProcess :
    whoUsesFile closedProcess (text "x") false = .table [⟨8, text "a.exe", text "C:\\x"⟩,
      ⟨12, text "b.exe", text "C:\\x"⟩] ∧
    users closedProcess (.name (text "x")) = [⟨8, text "a.exe", text "C:\\x"⟩] := by
  decide

section Names

variable {sys}

/-- A handle of the file with this name on its volume. -/
structure NamesFile (sys : System) (h : Handle) (relative : List UInt16) (name : UnicodeString) :
    Prop where
  file : getType sys h = some 26
  opens : sys.opens h = true
  thread : sys.fileNameThread h = .fills (fileNameInformation relative)
  object : sys.objectName h = some name

/-- The first byte of the buffer is 0 for every 128th length. -/
theorem takeWhile_fileNameInformation (relative : List UInt16) :
    (fileNameInformation relative).takeWhile (· ≠ 0) = [] ↔ relative.length % 128 = 0 := by
  rw [fileNameInformation, List.cons_append, List.takeWhile_cons]
  have first : (2 * relative.length).toUInt8 = 0 ↔ relative.length % 128 = 0 := by
    rw [← UInt8.toNat_inj]
    show 2 * relative.length % 256 = 0 ↔ _
    omega
  by_cases zero : relative.length % 128 = 0
  · rw [if_neg (by simpa using first.mpr zero)]
    exact iff_of_true rfl zero
  · rw [if_pos (by simpa using fun same => zero (first.mp same))]
    exact iff_of_false (List.cons_ne_nil _ _) zero

theorem nameRead_of_namesFile {h : Handle} {relative : List UInt16} {name : UnicodeString}
    (names : NamesFile sys h relative name) :
    nameRead sys h = some (if relative.length % 128 = 0 then [] else unicode2string name) := by
  rw [nameRead, names.file, Option.bind_some, if_pos names.opens, names.thread, names.object]
  dsimp only
  by_cases zero : relative.length % 128 = 0
  · rw [if_pos ((takeWhile_fileNameInformation relative).mpr zero), if_pos zero]
    rfl
  · rw [if_neg fun empty => zero ((takeWhile_fileNameInformation relative).mp empty), if_neg zero]
    rfl

/-- What the table shows of the handles. -/
def shown (sys : System) (t : Target) : List (Handle × Bytes) :=
  select (nameRead sys) (fun _ name => t.shows name) []
    ((handleInfos sys).filter fun h => !skipped sys h)

/-- **Which open files are found.**  A process that has the file open, by a handle whose name can be
read, is shown exactly when the length of the file's name on its volume is no multiple of 128. -/
theorem shown_iff {h : Handle} {relative : List UInt16} {name : UnicodeString} {t : Target}
    (names : NamesFile sys h relative name) (wanted : t.shows (unicode2string name) = true)
    (not_empty : t.shows [] = false)
    (listed : h ∈ (handleInfos sys).filter fun h => !skipped sys h) :
    rowLoop sys t [] (handleInfos sys) = (shown sys t).map (fun x => t.row sys x.1 x.2) ∧
      ((∃ handleName, (h, handleName) ∈ shown sys t) ↔ relative.length % 128 ≠ 0) := by
  refine ⟨rowLoop_eq t [] _, ?_⟩
  have reading := nameRead_of_namesFile names
  constructor
  · rintro ⟨handleName, inside⟩ zero
    obtain ⟨inside, shows⟩ := List.mem_filter.mp inside
    obtain ⟨_, _, -, own | ⟨failed, -⟩⟩ := mem_carry.mp inside
    · rw [reading, if_pos zero] at own
      obtain rfl := Option.some.inj own
      cases not_empty.symm.trans shows
    · cases reading.symm.trans failed
  · intro other
    rw [if_neg other] at reading
    refine ⟨unicode2string name,
      (own_sublist_select (fun _ name => t.shows name) [] _).subset ?_⟩
    exact (mem_own _).mpr ⟨listed, reading, wanted⟩

/-- The handle of process 8 names its file, and it is shown. -/
theorem shown_closedProcess :
    rowLoop closedProcess (.name (text "x")) [] (handleInfos closedProcess) =
        (shown closedProcess (.name (text "x"))).map
          (fun x => (Target.name (text "x")).row closedProcess x.1 x.2) ∧
      ∃ handleName, (⟨8, 0, 4⟩, handleName) ∈ shown closedProcess (.name (text "x")) := by
  have names : NamesFile closedProcess ⟨8, 0, 4⟩ (wide "\\x")
      (.of (wide "\\Device\\HarddiskVolume1\\x")) := ⟨by decide, by decide, rfl, rfl⟩
  exact (shown_iff names (by decide) (by decide) (by decide)).imp_right fun told =>
    told.mpr (by decide)

end Names

end MsysGit.WhoUses
