import MsysGit.Library.RepeatedSearch
import MsysGit.WinGit.Environment
import Mathlib.Data.List.GetD
import Mathlib.Data.List.Infix
import Mathlib.Data.Nat.Find

/-!
# Processes that use a module

`FindProcessesUsingModules_Win95` and `FindProcessesUsingModules_Win2000` list the
processes that must be closed before files can be replaced.  Both go over the
processes, their modules, and the names that are looked for.

In the innermost loop a match assigns the length of the result to the loop variable,
and on Windows 2000 also the path of the executable to the path that is being
matched.  So one match makes the loop go on with another name and another path, and
nothing ends the loops once a process is found.  How often a process is appended
depends on how many were found before it (`nameLoop_eq`).

A module of a process is known by the path that the system reports.
-/

namespace MsysGit.WinGit

open MsysGit.Library

/-! ### The code -/

/-- `Lowercase`. -/
def lowercase (s : Str) : Str := s.map Char.toLower

/-- `Pos`: where the first text begins in the second, counted from 1; 0 if it does not, or
if it is empty. -/
def pos (sub s : Str) : ℕ :=
  if sub = [] then 0
  else ((List.range s.length).find? fun k => sub.isPrefixOf (s.drop k)).elim 0 (· + 1)

/-- What stands behind the last backslash or colon. -/
def extractFileName (path : Str) : Str :=
  (path.reverse.takeWhile fun c => c ≠ '\\' && c ≠ ':').reverse

structure ProcessEntry where
  id : ℕ
  path : Str
  name : Str
  restartable : Bool
  deriving DecidableEq

/-- The entry that is made for a process. -/
def processEntry (getFileDescription : Str → Str) (id : ℕ) (path : Str) : ProcessEntry where
  id := id
  path := path
  name :=
    if (getFileDescription path).length = 0 then extractFileName path else getFileDescription path
  restartable := false

/-- A process as the system reports it. -/
structure RunningProcess where
  id : ℕ
  /-- The path of the executable, from `GetModuleFileNameEx`. -/
  executable : Str
  /-- The paths of its modules, unless they cannot be had. -/
  modules : Option (List Str)

/-- The running processes; no two have the same identifier. -/
structure ProcessTable where
  processes : List RunningProcess
  distinct : (processes.map RunningProcess.id).Nodup

/-- The loop over the names.  `after` is the path that is matched after a match. -/
def nameLoop (names : List Str) (entry : ProcessEntry) (after : Str) :
    ℕ → ℕ → Str → List ProcessEntry → Option (List ProcessEntry)
  | 0, _, _, _ => none
  | fuel + 1, i, path, processes =>
      if i < names.length then
        if 0 < pos (names.getD i []) (lowercase path) then
          -- `i` is the index of the new entry, and the loop adds one to it.
          nameLoop names entry after fuel (processes.length + 1) after (processes ++ [entry])
        else nameLoop names entry after fuel (i + 1) path processes
      else some processes

section Find

variable (getFileDescription : Str → Str) (fuel : ℕ)

/-- One process on Windows 95: the first module is taken for the executable itself. -/
def searchWin95 (names : List Str) (processes : List ProcessEntry) (process : RunningProcess) :
    Option (List ProcessEntry) :=
  if 0 < process.id then
    match process.modules with
    | some (procPath :: libraries) =>
        libraries.foldlM (fun processes modPath =>
          nameLoop names (processEntry getFileDescription process.id procPath) modPath fuel 0
            modPath processes) processes
    | _ => some processes
  else some processes

/-- One process on Windows 2000. -/
def searchWin2000 (names : List Str) (processes : List ProcessEntry) (process : RunningProcess) :
    Option (List ProcessEntry) :=
  match process.modules with
  | some modules =>
      modules.foldlM (fun processes path =>
        nameLoop names (processEntry getFileDescription process.id process.executable)
          process.executable fuel 0 path processes) processes
  | none => some processes

/-- `FindProcessesUsingModules_Win95`: the result and `Processes`. -/
def findProcessesUsingModulesWin95 (snapshot : Option ProcessTable) (modules : List Str) :
    Option (ℕ × List ProcessEntry) :=
  match snapshot with
  | none => some (0, [])
  | some table =>
      (table.processes.foldlM (searchWin95 getFileDescription fuel (modules.map lowercase)) []).map
        fun processes => (1, processes)

/-- `FindProcessesUsingModules_Win2000`. -/
def findProcessesUsingModulesWin2000 (list : Option ProcessTable) (modules : List Str) :
    Option (ℕ × List ProcessEntry) :=
  match list with
  | none => some (0, [])
  | some table =>
      (table.processes.foldlM (searchWin2000 getFileDescription fuel (modules.map lowercase))
        []).map fun processes => (1, processes)

end Find

/-! ### What they are meant to return -/

section Meant

variable (modules : List Str) (process : RunningProcess)

/-- The process has loaded a module whose path contains one of the names. -/
def RunningProcess.loads : Bool :=
  (process.modules.getD []).any fun path =>
    modules.any fun name => decide (lowercase name <:+: lowercase path)

/-- What Windows 95 lets inspect has an identifier. -/
def wantedWin95 : Bool := 0 < process.id && process.loads modules

def wantedWin2000 : Bool := process.loads modules

/-- The path of the executable on Windows 95: the first module. -/
def RunningProcess.procPath : Str := (process.modules.getD []).headD []

/-- With enough fuel the processes are returned, in some order. -/
def ReturnsExactly (find : ℕ → Option (ℕ × List ProcessEntry)) (expected : List ProcessEntry) :
    Prop :=
  ∃ processes enough, (∀ fuel, enough < fuel → find fuel = some (1, processes)) ∧
    processes.Perm expected

end Meant

/-! ### The condition -/

/-- The name at an index is found in the path. -/
def hit (names : List Str) (path : Str) (i : ℕ) : Bool :=
  i < names.length && 0 < pos (names.getD i []) (lowercase path)

/-- Some name is found in the path. -/
def usesAny (names : List Str) (path : Str) : Bool :=
  names.any fun name => 0 < pos name (lowercase path)

/-- A process is appended once: names are found in one of its modules only, and those that are
found in the path matched afterwards have indexes up to the number of processes before. -/
def FoundOnce (names : List Str) (after : Str → Str) (scanned : List Str) (earlier : ℕ) : Prop :=
  (scanned.filter (usesAny names)).length = 1 ∧
    ∀ path ∈ scanned, usesAny names path = true →
      ∀ i, hit names (after path) i = true → i ≤ earlier

/-! ### Texts -/

theorem pos_pos_iff {sub s : Str} : 0 < pos sub s ↔ sub ≠ [] ∧ sub <:+: s := by
  rw [pos]
  by_cases empty : sub = []
  · simp [empty]
  · rw [if_neg empty]
    have position : 0 < ((List.range s.length).find? fun k => sub.isPrefixOf (s.drop k)).elim 0
        (· + 1) ↔ ∃ k < s.length, sub <+: s.drop k := by
      cases found : (List.range s.length).find? fun k => sub.isPrefixOf (s.drop k) with
      | none =>
          rw [List.find?_eq_none] at found
          simp only [Option.elim_none, Nat.lt_irrefl, false_iff, not_exists, not_and]
          intro k inside begins
          exact found k (List.mem_range.mpr inside) (List.isPrefixOf_iff_prefix.mpr begins)
      | some k =>
          have begins : sub <+: s.drop k := by simpa using List.find?_some found
          have inside := List.mem_range.mp (List.mem_of_find?_eq_some found)
          exact iff_of_true (Nat.succ_pos k) ⟨k, inside, begins⟩
    rw [position]
    constructor
    · rintro ⟨k, -, begins⟩
      exact ⟨empty, begins.isInfix.trans (List.drop_suffix k s).isInfix⟩
    · rintro ⟨-, front, rest, split⟩
      refine ⟨front.length, ?_, rest, ?_⟩
      · rw [← split, List.length_append, List.length_append]
        have := List.length_pos_iff.mpr empty
        omega
      · rw [← split, List.append_assoc, List.drop_left]

theorem usesAny_iff {names : List Str} {path : Str} :
    usesAny names path = true ↔ ∃ i, hit names path i = true := by
  rw [usesAny, List.any_eq_true]
  constructor
  · rintro ⟨name, inside, found⟩
    obtain ⟨i, early, rfl⟩ := List.getElem_of_mem inside
    refine ⟨i, ?_⟩
    rw [hit, List.getD_eq_getElem _ _ early, decide_eq_true early]
    exact found
  · rintro ⟨i, found⟩
    rw [hit, Bool.and_eq_true, decide_eq_true_eq] at found
    obtain ⟨early, found⟩ := found
    rw [List.getD_eq_getElem _ _ early] at found
    exact ⟨names[i], List.getElem_mem early, found⟩

/-- A name that is found is contained, but for the case of letters. -/
theorem loads_of_usesAny {modules : List Str} {process : RunningProcess} {path : Str}
    (inside : path ∈ process.modules.getD []) (uses : usesAny (modules.map lowercase) path = true) :
    process.loads modules = true := by
  rw [usesAny, List.any_eq_true] at uses
  obtain ⟨name, listed, found⟩ := uses
  obtain ⟨name', listed', rfl⟩ := List.mem_map.mp listed
  refine List.any_eq_true.mpr ⟨path, inside, List.any_eq_true.mpr ⟨name', listed', ?_⟩⟩
  exact decide_eq_true (pos_pos_iff.mp (of_decide_eq_true found)).2

/-! ### The loop over the names -/

section NameLoop

variable (names : List Str)

theorem lt_of_hit {path : Str} {i : ℕ} (found : hit names path i = true) : i < names.length := by
  rw [hit, Bool.and_eq_true, decide_eq_true_eq] at found
  exact found.1

section Round

variable {names} {path after : Str} {entry : ProcessEntry} {fuel i : ℕ}
  {processes : List ProcessEntry}

/-- A match: the loop goes on behind the length of the result, with the other path. -/
theorem nameLoop_of_hit (found : hit names path i = true) :
    nameLoop names entry after (fuel + 1) i path processes =
      nameLoop names entry after fuel (processes.length + 1) after (processes ++ [entry]) := by
  have inside := lt_of_hit names found
  rw [hit, Bool.and_eq_true, decide_eq_true_eq, decide_eq_true_eq] at found
  rw [nameLoop, if_pos inside, if_pos found.2]

theorem nameLoop_of_miss (inside : i < names.length) (other : hit names path i = false) :
    nameLoop names entry after (fuel + 1) i path processes =
      nameLoop names entry after fuel (i + 1) path processes := by
  have none : ¬ 0 < pos (names.getD i []) (lowercase path) := by
    rw [hit, decide_eq_true inside, Bool.true_and] at other
    exact of_decide_eq_false other
  rw [nameLoop, if_pos inside, if_neg none]

theorem nameLoop_of_end (outside : ¬ i < names.length) :
    nameLoop names entry after (fuel + 1) i path processes = some processes := by
  rw [nameLoop, if_neg outside]

end Round

/-- One more than the index of the last name that is found in a path. -/
def hitBound (path : Str) : ℕ :=
  Nat.findGreatest (fun k => k ≠ 0 ∧ hit names path (k - 1) = true) names.length

variable {names} {path after : Str}

theorem hitBound_le_iff {k : ℕ} :
    hitBound names path ≤ k ↔ ∀ i, hit names path i = true → i < k := by
  constructor
  · intro bound i found
    have last : i + 1 ≤ hitBound names path :=
      Nat.le_findGreatest (lt_of_hit names found) ⟨Nat.succ_ne_zero i, found⟩
    omega
  · intro bound
    rcases Nat.eq_zero_or_pos (hitBound names path) with none | some
    · rw [none]
      exact Nat.zero_le k
    · have last := Nat.findGreatest_of_ne_zero rfl (Nat.ne_of_gt some)
      have := bound _ last.2
      rw [hitBound] at some ⊢
      omega

theorem hitBound_le_length : hitBound names path ≤ names.length := Nat.findGreatest_le _

/-- How often the loop appends an entry. -/
def pushes (names : List Str) (after path : Str) (len : ℕ) : ℕ :=
  if usesAny names path then 1 + (hitBound names after - (len + 1)) else 0

/-- After a match: the loop is at the length of the result, and goes on as long as there is a
name to be found from there on. -/
theorem nameLoop_after {entry : ProcessEntry} {fuel i : ℕ} {processes : List ProcessEntry}
    (behind : processes.length ≤ i)
    (none_between : ∀ j, processes.length ≤ j → j < i → hit names after j = false)
    (enough : (hitBound names after - processes.length) * (names.length + 1) +
      (names.length - i) < fuel) :
    nameLoop names entry after fuel i after processes =
      some (processes ++ List.replicate (hitBound names after - processes.length) entry) := by
  induction fuel generalizing i processes with
  | zero => exact absurd enough (Nat.not_lt_zero _)
  | succ fuel ih =>
      by_cases inside : i < names.length
      · cases here : hit names after i with
        | true =>
            have above : i < hitBound names after := by
              by_contra below
              exact Nat.lt_irrefl i (hitBound_le_iff.mp (Nat.le_of_not_lt below) i here)
            have shorter : (processes ++ [entry]).length = processes.length + 1 := by simp
            obtain ⟨more, count⟩ : ∃ more, hitBound names after - processes.length = more + 1 :=
              ⟨hitBound names after - processes.length - 1, by omega⟩
            have count' : hitBound names after - (processes.length + 1) = more := by omega
            rw [nameLoop_of_hit here, ih]
            · rw [shorter, count', count, List.append_assoc, List.replicate_succ]
              rfl
            · rw [shorter]
            · intro j low high
              rw [shorter] at low
              omega
            · rw [count, Nat.succ_mul] at enough
              rw [shorter, count']
              omega
        | false =>
            rw [nameLoop_of_miss inside here, ih (by omega)]
            · intro j low high
              rcases Nat.lt_succ_iff_lt_or_eq.mp high with before | rfl
              · exact none_between j low before
              · exact here
            · omega
      · have none_left : hitBound names after ≤ processes.length := by
          rw [hitBound_le_iff]
          intro j found
          by_contra late
          have early := lt_of_hit names found
          rw [none_between j (Nat.le_of_not_lt late) (by omega)] at found
          cases found
        rw [nameLoop_of_end inside, Nat.sub_eq_zero_of_le none_left, List.replicate_zero,
          List.append_nil]

/-- Fuel for the loop over so many names. -/
def enoughFor (n : ℕ) : ℕ := n * (n + 1) + 2 * n

/-- **The loop over the names**, from some name on. -/
theorem nameLoop_from {entry : ProcessEntry} {fuel i : ℕ} {processes : List ProcessEntry}
    (none_before : ∀ j < i, hit names path j = false)
    (enough : names.length * (names.length + 1) + names.length + (names.length - i) < fuel) :
    nameLoop names entry after fuel i path processes =
      some (processes ++ List.replicate (pushes names after path processes.length) entry) := by
  induction fuel generalizing i with
  | zero => exact absurd enough (Nat.not_lt_zero _)
  | succ fuel ih =>
      by_cases inside : i < names.length
      · cases here : hit names path i with
        | true =>
            have shorter : (processes ++ [entry]).length = processes.length + 1 := by simp
            have few : (hitBound names after - (processes.length + 1)) * (names.length + 1) ≤
                names.length * (names.length + 1) :=
              Nat.mul_le_mul_right _ (le_trans (Nat.sub_le _ _) hitBound_le_length)
            rw [nameLoop_of_hit here, nameLoop_after (by rw [shorter])]
            · rw [shorter, pushes, if_pos (usesAny_iff.mpr ⟨i, here⟩), List.append_assoc,
                Nat.add_comm 1, List.replicate_succ]
              rfl
            · intro j low high
              rw [shorter] at low
              omega
            · rw [shorter]
              omega
        | false =>
            rw [nameLoop_of_miss inside here, ih]
            · intro j high
              rcases Nat.lt_succ_iff_lt_or_eq.mp high with before | rfl
              · exact none_before j before
              · exact here
            · omega
      · have unused : usesAny names path = false := by
          rw [← Bool.not_eq_true, usesAny_iff]
          rintro ⟨j, found⟩
          have early := lt_of_hit names found
          rw [none_before j (by omega)] at found
          cases found
        rw [nameLoop_of_end inside, pushes, unused]
        simp

/-- The whole loop. -/
theorem nameLoop_eq {entry : ProcessEntry} {fuel : ℕ} {processes : List ProcessEntry}
    (enough : enoughFor names.length < fuel) :
    nameLoop names entry after fuel 0 path processes =
      some (processes ++ List.replicate (pushes names after path processes.length) entry) := by
  refine nameLoop_from (fun j early => absurd early (Nat.not_lt_zero j)) ?_
  rw [enoughFor] at enough
  omega

theorem pushes_pos (len : ℕ) : 0 < pushes names after path len ↔ usesAny names path = true := by
  rw [pushes]
  split
  · exact iff_of_true (by omega) ‹_›
  · exact iff_of_false (Nat.lt_irrefl 0) ‹_›

theorem pushes_eq_one (uses : usesAny names path = true) (len : ℕ) :
    pushes names after path len = 1 ↔ ∀ i, hit names after i = true → i ≤ len := by
  rw [pushes, if_pos uses]
  have bound := @hitBound_le_iff names after (len + 1)
  simp only [Nat.lt_succ_iff] at bound
  rw [← bound]
  omega

end NameLoop

/-! ### One process -/

section Process

variable {names scanned : List Str} {after : Str → Str} {len fuel : ℕ}

/-- How often the modules of a process make the loops append it. -/
def timesFound (names : List Str) (after : Str → Str) (scanned : List Str) (len : ℕ) : ℕ :=
  (repeated (fun path len => pushes names (after path) path len) scanned len).length

theorem scan_eq {entry : ProcessEntry} (enough : enoughFor names.length < fuel)
    (processes : List ProcessEntry) :
    scanned.foldlM (fun processes path =>
        nameLoop names entry (after path) fuel 0 path processes) processes =
      some (processes ++
        List.replicate (timesFound names after scanned processes.length) entry) := by
  have appends : ∀ found, ∀ path ∈ scanned,
      nameLoop names entry (after path) fuel 0 path found =
        some (found ++ List.replicate (pushes names (after path) path found.length) entry) :=
    fun found path _ => nameLoop_eq enough
  rw [foldlM_repeated appends, List.map_const', timesFound]

theorem pushes_pos_after (path : Str) (len : ℕ) :
    0 < pushes names (after path) path len ↔ usesAny names path = true :=
  pushes_pos len

theorem timesFound_eq_one : timesFound names after scanned len = 1 ↔
    FoundOnce names after scanned len := by
  rw [timesFound, length_repeated_eq_one pushes_pos_after, FoundOnce]
  refine and_congr_right fun _ => forall_congr' fun path => ?_
  exact ⟨fun once inside uses => (pushes_eq_one uses len).mp (once inside uses),
    fun few inside uses => (pushes_eq_one uses len).mpr (few inside uses)⟩

theorem timesFound_eq_zero (unused : ∀ path ∈ scanned, usesAny names path = false) :
    timesFound names after scanned len = 0 := by
  rw [timesFound, length_repeated_eq_zero pushes_pos_after, List.filter_eq_nil_iff]
  intro path inside
  rw [unused path inside]
  exact Bool.false_ne_true

/-- The modules in which Windows 95 looks for names. -/
def RunningProcess.libraries (process : RunningProcess) : List Str :=
  if 0 < process.id then (process.modules.getD []).tail else []

theorem searchWin95_eq {getFileDescription : Str → Str} (enough : enoughFor names.length < fuel)
    (processes : List ProcessEntry) (process : RunningProcess) :
    searchWin95 getFileDescription fuel names processes process =
      some (processes ++
        List.replicate (timesFound names id process.libraries processes.length)
          (processEntry getFileDescription process.id process.procPath)) := by
  rw [searchWin95, RunningProcess.libraries]
  split
  · cases loaded : process.modules with
    | none => simp [timesFound, repeated]
    | some modules =>
        cases modules with
        | nil => simp [timesFound, repeated]
        | cons procPath libraries =>
            rw [RunningProcess.procPath, loaded]
            exact @scan_eq names libraries id fuel _ enough processes
  · simp [timesFound, repeated]

theorem searchWin2000_eq {getFileDescription : Str → Str} (enough : enoughFor names.length < fuel)
    (processes : List ProcessEntry) (process : RunningProcess) :
    searchWin2000 getFileDescription fuel names processes process =
      some (processes ++
        List.replicate (timesFound names (fun _ => process.executable)
            (process.modules.getD []) processes.length)
          (processEntry getFileDescription process.id process.executable)) := by
  rw [searchWin2000]
  cases process.modules with
  | none => simp [timesFound, repeated]
  | some modules =>
      exact @scan_eq names modules (fun _ => process.executable) fuel _ enough processes

end Process

/-! ### All processes -/

section All

variable {table : ProcessTable} {step : ℕ → List ProcessEntry → RunningProcess →
  Option (List ProcessEntry)} {times : RunningProcess → ℕ → ℕ} {wanted : RunningProcess → Bool}
  {entry : RunningProcess → ProcessEntry} {enough : ℕ}

/-- The entries of different processes are different. -/
theorem entries_nodup (same_id : ∀ process, (entry process).id = process.id) :
    (table.processes.map entry).Nodup := by
  refine List.Nodup.of_map ProcessEntry.id ?_
  have ids : ProcessEntry.id ∘ entry = RunningProcess.id := funext same_id
  rw [List.map_map, ids]
  exact table.distinct

/-- **The search ends**, and appends each process as often as its modules make it. -/
theorem search_eq (appends : ∀ fuel, enough < fuel → ∀ found process,
      step fuel found process =
        some (found ++ List.replicate (times process found.length) (entry process)))
    {fuel : ℕ} (suffices_ : enough < fuel) :
    (table.processes.foldlM (step fuel) []).map (fun processes => (1, processes)) =
      some (1, (repeated times table.processes 0).map entry) := by
  rw [foldlM_repeated fun found process _ => appends fuel suffices_ found process]
  rfl

/-- What is returned is right when every process that is wanted is appended once. -/
theorem returnsExactly_iff (same_id : ∀ process, (entry process).id = process.id)
    (appends : ∀ fuel, enough < fuel → ∀ found process,
      step fuel found process =
        some (found ++ List.replicate (times process found.length) (entry process)))
    (unwanted : ∀ process len, wanted process = false → times process len = 0) :
    ReturnsExactly (fun fuel => (table.processes.foldlM (step fuel) []).map
        fun processes => (1, processes)) ((table.processes.filter wanted).map entry) ↔
      ∀ before process rest, table.processes = before ++ process :: rest →
        wanted process = true → times process (before.countP wanted) = 1 := by
  have once : ((repeated times table.processes 0).map entry).Perm
      ((table.processes.filter wanted).map entry) ↔
        ∀ before process rest, table.processes = before ++ process :: rest →
          wanted process = true → times process (before.countP wanted) = 1 := by
    rw [perm_filter_iff (entries_nodup same_id), once_iff]
    refine forall_congr' fun before => forall_congr' fun process => forall_congr' fun rest =>
      forall_congr' fun split => ?_
    rw [Nat.zero_add]
    cases want : wanted process with
    | true => simp
    | false => simp [unwanted process _ want]
  rw [← once]
  constructor
  · rintro ⟨processes, bound, returns, perm⟩
    have result := returns (max bound enough + 1) (by omega)
    dsimp only at result
    rw [search_eq appends (by omega)] at result
    obtain rfl := (Prod.mk.inj (Option.some.inj result)).2
    exact perm
  · intro perm
    exact ⟨_, enough, fun fuel suffices_ => search_eq appends suffices_, perm⟩

end All

/-! ### The two functions -/

section Main

variable (getFileDescription : Str → Str) (table : ProcessTable) (modules : List Str)

/-- The condition on Windows 95: each process to be found is found in exactly one module apart
from the first, at indexes up to the number of processes to be found before it. -/
def AloneWin95 : Prop :=
  ∀ before process rest, table.processes = before ++ process :: rest →
    wantedWin95 modules process = true →
      FoundOnce (modules.map lowercase) id process.libraries
        (before.countP (wantedWin95 modules))

/-- The condition on Windows 2000, where the path of the executable decides after a match. -/
def AloneWin2000 : Prop :=
  ∀ before process rest, table.processes = before ++ process :: rest →
    wantedWin2000 modules process = true →
      FoundOnce (modules.map lowercase) (fun _ => process.executable) (process.modules.getD [])
        (before.countP (wantedWin2000 modules))

/-- Both functions return the processes to be found, once each, and no other. -/
def FindsUsers : Prop :=
  ReturnsExactly
      (fun fuel => findProcessesUsingModulesWin95 getFileDescription fuel (some table) modules)
      ((table.processes.filter (wantedWin95 modules)).map fun process =>
        processEntry getFileDescription process.id process.procPath) ∧
    ReturnsExactly
      (fun fuel => findProcessesUsingModulesWin2000 getFileDescription fuel (some table) modules)
      ((table.processes.filter (wantedWin2000 modules)).map fun process =>
        processEntry getFileDescription process.id process.executable)

theorem returnsExactly_win95 :
    ReturnsExactly
      (fun fuel => findProcessesUsingModulesWin95 getFileDescription fuel (some table) modules)
      ((table.processes.filter (wantedWin95 modules)).map fun process =>
        processEntry getFileDescription process.id process.procPath) ↔
      AloneWin95 table modules := by
  simp only [AloneWin95, ← timesFound_eq_one]
  refine returnsExactly_iff (fun _ => rfl)
    (fun fuel suffices_ found process => searchWin95_eq suffices_ found process) ?_
  intro process len unwanted
  refine timesFound_eq_zero fun path inside => ?_
  rw [← Bool.not_eq_true]
  intro uses
  rw [RunningProcess.libraries] at inside
  split at inside
  · rename_i identified
    have loads := loads_of_usesAny (List.mem_of_mem_tail inside) uses
    rw [wantedWin95, decide_eq_true identified, loads] at unwanted
    cases unwanted
  · cases inside

theorem returnsExactly_win2000 :
    ReturnsExactly
      (fun fuel => findProcessesUsingModulesWin2000 getFileDescription fuel (some table) modules)
      ((table.processes.filter (wantedWin2000 modules)).map fun process =>
        processEntry getFileDescription process.id process.executable) ↔
      AloneWin2000 table modules := by
  simp only [AloneWin2000, ← timesFound_eq_one]
  refine returnsExactly_iff (fun _ => rfl)
    (fun fuel suffices_ found process => searchWin2000_eq suffices_ found process) ?_
  intro process len unwanted
  refine timesFound_eq_zero fun path inside => ?_
  rw [← Bool.not_eq_true]
  intro uses
  rw [wantedWin2000, loads_of_usesAny inside uses] at unwanted
  cases unwanted

/-- **When the processes are found exactly once**: when no process is found in two modules, nor
by a name whose index is above the number of processes found before. -/
theorem findsUsers_iff : FindsUsers getFileDescription table modules ↔
    AloneWin95 table modules ∧ AloneWin2000 table modules :=
  and_congr (returnsExactly_win95 getFileDescription table modules)
    (returnsExactly_win2000 getFileDescription table modules)

/-- Whether or not the condition holds, both functions return. -/
theorem find_returns {fuel : ℕ} (suffices_ : enoughFor modules.length < fuel) :
    (∃ processes, findProcessesUsingModulesWin95 getFileDescription fuel (some table) modules =
      some (1, processes)) ∧
    ∃ processes, findProcessesUsingModulesWin2000 getFileDescription fuel (some table) modules =
      some (1, processes) := by
  have same : (modules.map lowercase).length = modules.length := List.length_map lowercase
  rw [← same] at suffices_
  exact ⟨⟨_, search_eq (fun fuel enough found process => searchWin95_eq enough found process)
      suffices_⟩,
    ⟨_, search_eq (fun fuel enough found process => searchWin2000_eq enough found process)
      suffices_⟩⟩

end Main

/-! ### An instance -/

/-- A process with two of the modules. -/
def twoModules : ProcessTable where
  processes := [⟨1, ['e'], some [['e'], ['a'], ['b']]⟩]
  distinct := List.nodup_singleton 1

/-- It is returned twice. -/
theorem not_findsUsers_twoModules : ¬ ∀ (table : ProcessTable) (modules : List Str),
    FindsUsers id table modules := by
  intro always
  have found := (returnsExactly_win95 id twoModules [['a'], ['b']]).mp (always _ _).1
  have once := found [] _ [] rfl rfl
  exact absurd once.1 (by decide)

end MsysGit.WinGit
