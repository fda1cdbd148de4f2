import Mathlib.Algebra.Group.Int.Defs
import Mathlib.Algebra.Group.Nat.Defs
import Mathlib.Data.Int.Notation
import Mathlib.Tactic.Common

/-!
# Lists of processes and modules

`GetProcessList` and `GetModuleList` ask the system for identifiers, with room for twice as
many as the last call reported, until there was room to spare.  `EnumProcesses` reports the
bytes that it stored, `EnumProcessModules` those that it would need.

The size of the buffer is a signed number of 32 bits (`longint`).  A round that does not end
the loop at least doubles it, and `lists_complete` says what the loop returns.
-/

namespace MsysGit.WinGit

/-! ### The code -/

/-- `IdList` -/
abbrev IdList := List UInt32

/-- What the system says the `k`-th time it is asked: the identifiers, if it does not fail. -/
abbrev Answers := ℕ → Option IdList

/-- What a call reports: the bytes it stored, or the bytes it would need. -/
inductive Reports
  | stored
  | needed
  deriving DecidableEq

/-- A call that does not fail: the list behind it, and the number it reports. -/
def enumerate (reports : Reports) (ids list : IdList) (size : ℕ) : IdList × ℕ :=
  let n := min ids.length (size / 4)
  (ids.take n ++ list.drop n,
    match reports with
    | .stored => 4 * n
    | .needed => 4 * ids.length % 2 ^ 32)

/-- `SetArrayLength` -/
def IdList.setArrayLength (list : IdList) (n : ℕ) : IdList := (list ++ List.replicate n 0).take n

/-- The value of an assignment to a `Longint`. -/
def longint (n : ℤ) : ℤ := n.bmod (2 ^ 32)

/-- How the functions end. -/
inductive ListEnding
  | returned (result : Bool) (list : IdList)
  /-- The exception of an array with a negative length. -/
  | outOfRange
  /-- The fuel ran out: the loop is still running. -/
  | running
  deriving DecidableEq

/-- The loop that both functions have, from the `k`-th call on. -/
def getList (reports : Reports) (answers : Answers) : ℕ → ℕ → ℕ → IdList → ListEnding
  | 0, _, _, _ => .running
  | fuel + 1, k, bytes, list =>
      let size := longint (bytes * 2)
      if size < 0 then .outOfRange
      else
        let room := IdList.setArrayLength list (size.toNat / 4)
        match answers k with
        | none => .returned false (IdList.setArrayLength room 0)
        | some ids =>
            let (list, bytes) := enumerate reports ids room size.toNat
            if bytes < size.toNat then .returned true (IdList.setArrayLength list (bytes / 4))
            else getList reports answers fuel (k + 1) bytes list

/-- `GetProcessList` -/
def getProcessList (enumProcesses : Answers) (list : IdList) (fuel : ℕ) : ListEnding :=
  getList .stored enumProcesses fuel 0 (32 * 4) list

/-- `GetModuleList` -/
def getModuleList (enumProcessModules : UInt32 → Answers) (process : UInt32) (list : IdList)
    (fuel : ℕ) : ListEnding :=
  getList .needed (enumProcessModules process) fuel 0 (32 * 4) list

example : getProcessList (fun _ => some [8, 4]) [] 1 = .returned true [8, 4] := by decide

/-! ### One round -/

/-- What is to be returned for an answer: all of it. -/
def whole : Option IdList → ListEnding
  | none => .returned false []
  | some ids => .returned true ids

/-- Where there was room to spare, the array is cut down to what was stored. -/
theorem IdList.setArrayLength_stored (ids list : IdList) :
    IdList.setArrayLength (ids ++ list) ids.length = ids := by
  rw [IdList.setArrayLength, List.append_assoc, List.take_left]

/-- The number that is reported, if it is less than the size, counts all identifiers. -/
theorem enumerate_of_lt {reports : Reports} {ids list : IdList} {size : ℕ} (multiple : 4 ∣ size)
    (fits : ids.length < 2 ^ 30) (spare : (enumerate reports ids list size).2 < size) :
    (enumerate reports ids list size).2 = 4 * ids.length ∧ ids.length < size / 4 := by
  obtain ⟨n, rfl⟩ := multiple
  cases reports with
  | stored =>
      simp only [enumerate] at spare ⊢
      omega
  | needed =>
      simp only [enumerate] at spare ⊢
      omega

/-- Then the list is complete. -/
theorem enumerate_complete {reports : Reports} {ids room : IdList} {size : ℕ}
    (spare : ids.length < size / 4) :
    IdList.setArrayLength (enumerate reports ids room size).1 ids.length = ids := by
  show IdList.setArrayLength (ids.take (min ids.length (size / 4)) ++ room.drop _) _ = ids
  rw [Nat.min_eq_left (Nat.le_of_lt spare), List.take_length]
  exact IdList.setArrayLength_stored ids _

theorem enumerate_reported (reports : Reports) (ids list : IdList) (size : ℕ) :
    4 ∣ (enumerate reports ids list size).2 ∧
      (enumerate reports ids list size).2 ≤ 4 * ids.length := by
  cases reports with
  | stored =>
      simp only [enumerate]
      omega
  | needed =>
      simp only [enumerate]
      omega

/-- One round, with room for a number of bytes. -/
theorem getList_succ {reports : Reports} {answers : Answers} {fuel k bytes size : ℕ}
    {list : IdList} (sized : longint (bytes * 2) = size) :
    getList reports answers (fuel + 1) k bytes list =
      match answers k with
      | none => .returned false []
      | some ids =>
          let (list, bytes) :=
            enumerate reports ids (IdList.setArrayLength list (size / 4)) size
          if bytes < size then .returned true (IdList.setArrayLength list (bytes / 4))
          else getList reports answers fuel (k + 1) bytes list := by
  rw [getList, sized]
  rfl

/-- One round, with a size that does not fit. -/
theorem getList_of_neg {reports : Reports} {answers : Answers} {fuel k bytes : ℕ}
    {list : IdList} (negative : longint (bytes * 2) < 0) :
    getList reports answers (fuel + 1) k bytes list = .outOfRange := by
  rw [getList]
  simp only [negative, if_true]

/-- **A round** asks once.  It returns all that it was told, or goes on with a number that is
at least the size, and a multiple of four. -/
theorem round_cases {reports : Reports} {answers : Answers} {k bytes size : ℕ} {list : IdList}
    (sized : longint (bytes * 2) = size) (multiple : 4 ∣ size)
    (fits : ∀ ids, answers k = some ids → ids.length < 2 ^ 30) :
    (∀ fuel, getList reports answers (fuel + 1) k bytes list = whole (answers k)) ∨
      ∃ ids bytes' list', answers k = some ids ∧ size ≤ bytes' ∧ 4 ∣ bytes' ∧
        bytes' ≤ 4 * ids.length ∧
        ∀ fuel, getList reports answers (fuel + 1) k bytes list =
          getList reports answers fuel (k + 1) bytes' list' := by
  simp only [getList_succ sized]
  cases answer : answers k with
  | none => exact Or.inl fun _ => rfl
  | some ids =>
      dsimp only
      by_cases spare : (enumerate reports ids (IdList.setArrayLength list (size / 4)) size).2 < size
      · refine Or.inl fun _ => ?_
        obtain ⟨reported, room⟩ := enumerate_of_lt multiple (fits ids answer) spare
        rw [if_pos spare, reported, Nat.mul_div_cancel_left _ (by decide),
          enumerate_complete room]
        rfl
      · obtain ⟨aligned, counted⟩ := enumerate_reported reports ids
          (IdList.setArrayLength list (size / 4)) size
        exact Or.inr ⟨ids, _, _, rfl, Nat.le_of_not_lt spare, aligned, counted,
          fun _ => if_neg spare⟩

/-! ### A run -/

/-- The number fits into a `Longint`, twice. -/
theorem longint_of_lt {bytes : ℕ} (low : bytes < 2 ^ 30) :
    longint (bytes * 2) = (2 * bytes : ℕ) := by
  rw [longint, Int.bmod_eq_of_le (by omega) (by omega)]
  omega

/-- A size is a multiple of four, also when it does not fit. -/
theorem dvd_of_longint {bytes size : ℕ} (multiple : 4 ∣ bytes)
    (sized : longint (bytes * 2) = size) : 4 ∣ size := by
  have aligned : (4 : ℤ) ∣ longint (bytes * 2) := by
    rw [longint, Int.bmod_def]
    split_ifs <;> omega
  rw [sized] at aligned
  exact Int.natCast_dvd_natCast.mp aligned

/-- The answers are reported in 32 bits. -/
def Representable (answers : Answers) : Prop :=
  ∀ k ids, answers k = some ids → ids.length < 2 ^ 30

/-- Twice the bytes of an answer fit into a `Longint`. -/
def Few (answers : Answers) : Prop := ∀ k ids, answers k = some ids → ids.length < 2 ^ 28

/-- What is returned behind a call is all that it said. -/
def NeverTruncated (answers : Answers) (run : ℕ → ListEnding) : Prop :=
  ∀ k result list, run k = .running → run (k + 1) = .returned result list →
    .returned result list = whole (answers k)

/-- The loop ends behind some call, and returns all that it said. -/
def Completes (answers : Answers) (run : ℕ → ListEnding) : Prop :=
  ∃ k, (∀ fuel ≤ k, run fuel = .running) ∧ ∀ fuel, k < fuel → run fuel = whole (answers k)

section Run

variable {reports : Reports} {answers : Answers} {bytes k : ℕ} {list : IdList}

theorem whole_ne_running (answer : Option IdList) : whole answer ≠ .running := by
  cases answer with
  | none => exact nofun
  | some ids => exact nofun

variable (reports k list) in
/-- A round ends the loop by an exception, or by returning all, or goes on. -/
theorem round_or_negative (fits : Representable answers) (multiple : 4 ∣ bytes) :
    longint (bytes * 2) < 0 ∨
      (∀ fuel, getList reports answers (fuel + 1) k bytes list = whole (answers k)) ∨
      ∃ (ids : IdList) (bytes' : ℕ) (list' : IdList), answers k = some ids ∧
        longint (bytes * 2) ≤ bytes' ∧ 4 ∣ bytes' ∧ bytes' ≤ 4 * ids.length ∧
        ∀ fuel, getList reports answers (fuel + 1) k bytes list =
          getList reports answers fuel (k + 1) bytes' list' := by
  rcases Int.lt_or_le (longint (bytes * 2)) 0 with negative | above
  · exact Or.inl negative
  · obtain ⟨size, sized⟩ := Int.eq_ofNat_of_zero_le above
    refine Or.inr ((round_cases sized (dvd_of_longint multiple sized) (fits k)).imp_right ?_)
    rintro ⟨ids, bytes', list', told, more, aligned, counted, next⟩
    have more : longint (bytes * 2) ≤ bytes' :=
      Int.le_trans (Int.le_of_eq sized) (Int.ofNat_le.mpr more)
    exact ⟨ids, bytes', list', told, more, aligned, counted, next⟩

/-- A call that returns was told all that is returned: the induction is on the calls before. -/
theorem getList_neverTruncated (fits : Representable answers) (multiple : 4 ∣ bytes) {n : ℕ}
    {result : Bool} {list' : IdList}
    (runs : getList reports answers n k bytes list = .running)
    (returns : getList reports answers (n + 1) k bytes list = .returned result list') :
    .returned result list' = whole (answers (k + n)) := by
  induction n generalizing k bytes list with
  | zero =>
      rcases round_or_negative reports k list fits multiple with negative | ends | goes_on
      · rw [getList_of_neg negative] at returns
        cases returns
      · exact returns.symm.trans (ends 0)
      · obtain ⟨ids, bytes', list₁, -, -, -, -, next⟩ := goes_on
        rw [next] at returns
        cases returns
  | succ n ih =>
      rcases round_or_negative reports k list fits multiple with negative | ends | goes_on
      · rw [getList_of_neg negative] at returns
        cases returns
      · rw [ends n] at runs
        exact absurd runs (whole_ne_running _)
      · obtain ⟨ids, bytes', list₁, -, -, aligned, -, next⟩ := goes_on
        rw [next] at runs returns
        rw [show k + (n + 1) = k + 1 + n by omega]
        exact ih aligned runs returns

variable (reports k list) in
/-- The induction is on how often the bytes can be doubled. -/
theorem getList_completes (few : Few answers) (multiple : 4 ∣ bytes) {d : ℕ}
    (low : bytes < 2 ^ 30) (near : 2 ^ 30 ≤ bytes * 2 ^ d) :
    ∃ m, (∀ fuel ≤ m, getList reports answers fuel k bytes list = .running) ∧
      ∀ fuel, m < fuel → getList reports answers fuel k bytes list = whole (answers (k + m)) := by
  induction d generalizing k bytes list with
  | zero => omega
  | succ d ih =>
      have fits : Representable answers := fun k ids told =>
        Nat.lt_trans (few k ids told) (by decide)
      rcases round_or_negative reports k list fits multiple with
        negative | ends | ⟨ids, bytes', list', told, more, aligned, counted, next⟩
      · rw [longint_of_lt low] at negative
        omega
      · refine ⟨0, fun fuel none => ?_, fun fuel some_fuel => ?_⟩
        · rw [Nat.le_zero.mp none]
          rfl
        · obtain ⟨fuel, rfl⟩ := Nat.exists_eq_succ_of_ne_zero (Nat.ne_of_gt some_fuel)
          exact ends fuel
      · rw [longint_of_lt low] at more
        have short := few k ids told
        have nearer : 2 ^ 30 ≤ bytes' * 2 ^ d := by
          calc 2 ^ 30 ≤ bytes * 2 ^ (d + 1) := near
            _ = 2 * bytes * 2 ^ d := by rw [Nat.pow_succ', ← Nat.mul_assoc, Nat.mul_comm bytes]
            _ ≤ bytes' * 2 ^ d := Nat.mul_le_mul_right _ (by omega)
        obtain ⟨m, runs, ended⟩ := ih (k + 1) list' aligned (by omega) nearer
        refine ⟨m + 1, fun fuel before => ?_, fun fuel behind => ?_⟩
        · cases fuel with
          | zero => rfl
          | succ fuel => exact (next fuel).trans (runs fuel (by omega))
        · obtain ⟨fuel, rfl⟩ : ∃ n, fuel = n + 1 := ⟨fuel - 1, by omega⟩
          rw [next, ended fuel (by omega), show k + (m + 1) = k + 1 + m by omega]

/-- The loop, from its first round on. -/
theorem neverTruncated_getList (fits : Representable answers) :
    NeverTruncated answers (getList reports answers · 0 (32 * 4) list) := by
  intro k result list' runs returns
  have all := getList_neverTruncated fits (by decide) runs returns
  rwa [Nat.zero_add] at all

theorem completes_getList (few : Few answers) :
    Completes answers (getList reports answers · 0 (32 * 4) list) := by
  obtain ⟨m, runs, ended⟩ := getList_completes reports 0 list few
    (show 4 ∣ 32 * 4 by decide) (d := 23) (by decide) (by decide)
  rw [Nat.zero_add] at ended
  exact ⟨m, runs, ended⟩

end Run

/-- **What the two functions return**: never less than the last call said; and if twice the
bytes of each answer fit into a `Longint`, there is a last call. -/
theorem lists_complete (enumProcesses : Answers) (enumProcessModules : UInt32 → Answers)
    (process : UInt32) (list : IdList) (processes : Representable enumProcesses)
    (modules : Representable (enumProcessModules process)) :
    NeverTruncated enumProcesses (getProcessList enumProcesses list) ∧
      NeverTruncated (enumProcessModules process)
        (getModuleList enumProcessModules process list) ∧
      (Few enumProcesses → Completes enumProcesses (getProcessList enumProcesses list)) ∧
      (Few (enumProcessModules process) → Completes (enumProcessModules process)
        (getModuleList enumProcessModules process list)) :=
  ⟨neverTruncated_getList processes, neverTruncated_getList modules, completes_getList,
    completes_getList⟩

/-- Where each call is answered alike, the answer decides. -/
theorem length_of_constant {ids : IdList} {n : ℕ} (few : ids.length < n) (k : ℕ) (ids' : IdList)
    (same : (fun _ => some ids : Answers) k = some ids') : ids'.length < n := by
  rw [← Option.some.inj same]
  exact few

/-- The identifiers of sixty-four processes: as many as the first buffer has room for. -/
def sixtyFour : IdList := (List.range 64).map fun n => UInt32.ofNat (4 * n)

/-- The first call fills the buffer and does not end the loop, the second one does. -/
theorem lists_complete_sixtyFour :
    getProcessList (fun _ => some sixtyFour) [] 1 = .running ∧
      Completes (fun _ => some sixtyFour) (getProcessList (fun _ => some sixtyFour) []) := by
  have processes := lists_complete (fun _ => some sixtyFour) (fun _ _ => some [1]) 8 []
    (length_of_constant (by decide)) (length_of_constant (by decide))
  exact ⟨by decide, processes.2.2.1 (length_of_constant (by decide))⟩

/-- A round in which the buffer is full goes on with twice the bytes. -/
theorem getList_of_full (ids list : IdList) (k : ℕ) {bytes : ℕ} (low : bytes < 2 ^ 30)
    (multiple : 4 ∣ bytes) (many : 2 * bytes ≤ 4 * ids.length) :
    ∃ list', ∀ fuel, getList .stored (fun _ => some ids) (fuel + 1) k bytes list =
      getList .stored (fun _ => some ids) fuel (k + 1) (2 * bytes) list' := by
  have full (room : IdList) : (enumerate .stored ids room (2 * bytes)).2 = 2 * bytes := by
    simp only [enumerate]
    omega
  refine ⟨(enumerate .stored ids
    (IdList.setArrayLength list (2 * bytes / 4)) (2 * bytes)).1, fun fuel => ?_⟩
  rw [getList_succ (longint_of_lt low)]
  dsimp only
  rw [full, if_neg (Nat.lt_irrefl _)]

/-- With as many identifiers, the buffer is doubled until its size does not fit. -/
theorem getList_doubles {ids : IdList} (many : ids.length = 2 ^ 28) {i : ℕ} (le : i ≤ 23) :
    ∃ list, ∀ fuel, getList .stored (fun _ => some ids) (fuel + i) 0 (32 * 4) [] =
      getList .stored (fun _ => some ids) fuel i (2 ^ (7 + i)) list := by
  induction i with
  | zero => exact ⟨[], fun _ => rfl⟩
  | succ i ih =>
      obtain ⟨list, before⟩ := ih (Nat.le_of_succ_le le)
      have low : 2 ^ (7 + i) ≤ 2 ^ 29 := Nat.pow_le_pow_right (by decide) (by omega)
      have multiple : 4 ∣ 2 ^ (7 + i) := ⟨2 ^ (5 + i), by rw [Nat.pow_add, Nat.pow_add]; omega⟩
      obtain ⟨list', next⟩ := getList_of_full ids list i (Nat.lt_of_le_of_lt low (by decide))
        multiple (by omega)
      refine ⟨list', fun fuel => ?_⟩
      rw [show fuel + (i + 1) = fuel + 1 + i by omega, before, next, ← Nat.pow_succ']
      rfl

/-- As many processes as make the size of the buffer negative. -/
theorem not_completes_full :
    ¬∀ enumProcesses : Answers, Representable enumProcesses →
      Completes enumProcesses (getProcessList enumProcesses []) := by
  intro all
  obtain ⟨ids, many⟩ : ∃ ids : IdList, ids.length = 2 ^ 28 :=
    ⟨List.replicate (2 ^ 28) 0, List.length_replicate ..⟩
  obtain ⟨k, runs, ended⟩ := all (fun _ => some ids)
    (length_of_constant (many ▸ by decide))
  obtain ⟨list, doubled⟩ := getList_doubles many (Nat.le_refl 23)
  have fails : getProcessList (fun _ => some ids) [] (1 + 23) = .outOfRange :=
    (doubled 1).trans (getList_of_neg (by decide))
  rcases Nat.lt_or_ge k (1 + 23) with behind | before
  · rw [ended _ behind] at fails
    cases fails
  · rw [runs _ before] at fails
    cases fails

end MsysGit.WinGit
