import MsysGit.Depends.Image
import MsysGit.Library.CountingSearch
import MsysGit.Library.Numeral
import MsysGit.Library.Program

/-!
# Searching an import table

`SearchImportWithImageHlp` looks for the first descriptor that names the library, and then
through the thunks of this descriptor.  The two loops are searches for the first place
where the loop stops (`findModule_eq`, `thunkLoop_eq`).

What is meant is about all descriptors of the library, and about the number that is asked
for (`Imported`); `search_right_iff` says when the search reports just that.
-/

namespace MsysGit.Depends

open MsysGit.Library MsysGit.Library.CString

/-! ### What a search does -/

/-- What can be seen of a search. -/
inductive Event
  /-- A successful `MapAndLoad`. -/
  | mapped
  /-- A call of `UnMapAndLoad`. -/
  | unmapped
  /-- A line on `stdout`. -/
  | print (line : Bytes)
  /-- A line on `stderr`. -/
  | error (line : Bytes)
  deriving DecidableEq

/-- Why a search stopped without returning. -/
inductive Stop
  /-- `exit(0)` -/
  | exit
  /-- A null pointer was followed. -/
  | nullPointer
  /-- The fuel of a loop ran out: the loop is still running. -/
  | running
  deriving DecidableEq

/-- A computation that leaves a log. -/
abbrev Logged := Program (List Event) Stop

/-- The calls of ImageHlp. -/
structure ImageHlp where
  /-- `MapAndLoad`, of a file in a directory. -/
  mapAndLoad : Bytes → Bytes → Option LoadedImage
  /-- The error code of `UnMapAndLoad`, where it fails. -/
  unMapAndLoad : LoadedImage → Option UInt32

/-- Add to the log. -/
def log (e : Event) : Logged Unit := Program.update fun events => events ++ [e]

/-- What `%08lx` prints. -/
def hex (n : UInt32) : Bytes :=
  (((Nat.toDigits 16 n.toNat).map fun c => c.toNat.toUInt8).reverse.rightpad 8 48).reverse

/-- `UnMapAndLoad`, with its message; the flag is whether it succeeds. -/
def unMap (hlp : ImageHlp) (filename : Bytes) (image : LoadedImage) : Logged Bool := do
  log .unmapped
  match hlp.unMapAndLoad image with
  | none => pure true
  | some code => do
      log (.error (text "Error unloading " ++ filename ++ text " (error code 0x" ++ hex code ++
        text ")\n"))
      pure false

/-- `UnMapAndLoad`, and the return value behind it. -/
def leave (hlp : ImageHlp) (filename : Bytes) (image : LoadedImage) (value : ℤ) : Logged ℤ := do
  let _ ← unMap hlp filename image
  pure value

/-- A message, `UnMapAndLoad`, and -1. -/
def fail (hlp : ImageHlp) (filename : Bytes) (image : LoadedImage) (message : Bytes) :
    Logged ℤ := do
  log (.error message)
  leave hlp filename image (-1)

/-- The directory and the name in a path, split at the last backslash. -/
def splitPath (path : Bytes) : Option (Bytes × Bytes) :=
  (strrchr path 92).map fun rest => (path.take (path.length - rest.length), rest.tail)

/-- `_stricmp (s, t) == 0` -/
def stricmpEq (s t : Bytes) : Bool := s.map tolower = t.map tolower

/-! ### `CompareFilenames` -/

/-- The loop: what is left of `target` behind a copy of `source`. -/
def compareLoop : Bytes → Bytes → Option Bytes
  | target, [] => some target
  | target, c :: source =>
      if tolower (target.headD 0) ≠ tolower c then none else compareLoop target.tail source

/-- `CompareFilenames` -/
def compareFilenames (target source : Bytes) : Bool :=
  if target = [] ∨ source = [] then false
  else
    let hasExtension := (strchr source 46).isSome
    if hasExtension ∧ target.length ≠ source.length then false
    else
      match compareLoop target source with
      | none => false
      | some rest => if hasExtension then rest = [] else rest.head? = some 46

example : compareFilenames (text "KERNEL32.dll") (text "kernel32") = true := by decide

/-! ### `SearchImportWithImageHlp` -/

/-- Where a descriptor has the name of its library. -/
def moduleName (image : LoadedImage) (descriptor : UInt32) : UInt32 :=
  getAddressFromRVA image (image.dword (descriptor + 12))

/-- The loop over the descriptors, with `n` rounds to go. -/
def findModule (image : LoadedImage) (importDLL : Bytes) : ℕ → UInt32 → Option UInt32
  | 0, _ => none
  | n + 1, descriptor =>
      let name := moduleName image descriptor
      if name = 0 ∨ image.memory name = 0 then none
      else if compareFilenames (image.string name) importDLL then some descriptor
      else findModule image importDLL n (descriptor + 20)

/-- `ImportOrdinal`, where the function is given as one. -/
inductive OrdinalText
  | name
  | ordinal (n : UInt16)
  | invalid
  deriving DecidableEq

/-- What is behind `ord_`. -/
def ordinalText (importFunction : Bytes) : OrdinalText :=
  if strncmpEq importFunction (text "ord_") 4 then
    let importOrdinal := UInt16.ofInt (atoi (importFunction.drop 4))
    if importOrdinal = 0 ∧ (importFunction.drop 4).headD 0 ≠ 48 then .invalid
    else .ordinal importOrdinal
  else .name

/-- `IMAGE_ORDINAL_FLAG` -/
abbrev ordinalFlag : UInt32 := 0x80000000

/-- The thunk is an ordinal. -/
def ByOrdinal (thunk : UInt32) : Prop := thunk &&& ordinalFlag ≠ 0

instance (thunk : UInt32) : Decidable (ByOrdinal thunk) :=
  inferInstanceAs (Decidable (_ ≠ _))

section Search

variable (hlp : ImageHlp) (dir filename importDLL : Bytes) (image : LoadedImage)

/-- The loop over the thunks. -/
def thunkLoop (importFunction : Bytes) (importOrdinal : Option UInt16) :
    ℕ → UInt32 → Logged ℤ
  | 0, _ => Program.halt .running
  | fuel + 1, p => do
      let thunk := image.dword p
      if thunk = 0 then leave hlp filename image 0
      else if importOrdinal.isSome ∧ ByOrdinal thunk then
        if importOrdinal.map UInt16.toUInt32 = some (thunk &&& 0xffff) then do
          log (.print (text "Match found: " ++ dir ++ text "\\" ++ filename ++
            text " imports ordinal " ++ text (toString (thunk &&& 0xffff).toNat) ++
            text " from " ++ importDLL ++ text "\n"))
          leave hlp filename image 1
        else thunkLoop importFunction importOrdinal fuel (p + 4)
      else
        let ordinalName := getAddressFromRVA image thunk
        if ordinalName = 0 then thunkLoop importFunction importOrdinal fuel (p + 4)
        else if stricmpEq (image.string (ordinalName + 2)) importFunction then do
          log (.print (text "Match found: " ++ dir ++ text "\\" ++ filename ++ text " imports " ++
            importDLL ++ text "!" ++ image.string (ordinalName + 2) ++ text "\n"))
          leave hlp filename image 1
        else thunkLoop importFunction importOrdinal fuel (p + 4)

/-- The thunks of a descriptor: the address of the array that is read, and whether both are
there. -/
def thunkArrays (descriptor : UInt32) : UInt32 × Bool :=
  let thunkIAT := getAddressFromRVA image (image.dword (descriptor + 16))
  let thunk :=
    if image.dword descriptor = 0 then thunkIAT
    else getAddressFromRVA image (image.dword descriptor)
  (thunk, thunk ≠ 0 && thunkIAT ≠ 0)

/-- Look for the function in the thunks of the descriptor. -/
def searchThunks (importFunction : Bytes) (fuel : ℕ) (descriptor : UInt32)
    (importOrdinal : Option UInt16) : Logged ℤ :=
  let (thunk, found) := thunkArrays image descriptor
  if found then thunkLoop hlp dir filename importDLL image importFunction importOrdinal fuel thunk
  else fail hlp filename image (text "Error loading " ++ filename ++
    text ": invalid import descriptor table (neither thunk is set)\n")

/-- What is done with the descriptor of the library. -/
def searchModule (importFunction : Option Bytes) (fuel : ℕ) (descriptor : UInt32) :
    Logged ℤ := do
  match importFunction with
  | none => do
      log (.print (text "Match found: " ++ dir ++ text "\\" ++ filename ++
        text " imports the library " ++ importDLL ++ text "\n"))
      leave hlp filename image 1
  | some importFunction =>
      match ordinalText importFunction with
      | .invalid => do
          log (.error (text "Error: you passed an invalid ordinal\n"))
          fail hlp filename image
            (text "Should be in the format ord_1234 where 1234 is a decimal number\n")
      | .ordinal n =>
          searchThunks hlp dir filename importDLL image importFunction fuel descriptor (some n)
      | .name => searchThunks hlp dir filename importDLL image importFunction fuel descriptor none

/-- The search in an image that is mapped. -/
def searchImportTable (importFunction : Option Bytes) (fuel : ℕ) : Logged ℤ := do
  let directory := image.importDirectory
  if directory.virtualAddress = 0 then pure 0
  else if directory.size < 20 then
    fail hlp filename image (text "Error loading " ++ filename ++
      text ": invalid import descriptor table (size < sizeof(IMAGE_IMPORT_DESCRIPTOR))\n")
  else
    let descriptors := getAddressFromRVA image directory.virtualAddress
    if descriptors = 0 then
      fail hlp filename image (text "Error loading " ++ filename ++
        text ": invalid import descriptor table (invalid RVA)\n")
    else
      match findModule image importDLL (directory.size / 20).toNat descriptors with
      | none => do
          let unmapped ← unMap hlp filename image
          pure (if unmapped then -1 else 0)
      | some descriptor =>
          searchModule hlp dir filename importDLL image importFunction fuel descriptor

end Search

/-- `SearchImportWithImageHlp` -/
def searchImportWithImageHlp (hlp : ImageHlp) (inputPath importDLL : Bytes)
    (importFunction : Option Bytes) (fuel : ℕ) : Logged ℤ := do
  match splitPath inputPath with
  | none => do
      log (.error (text "Error: unexpected file \"" ++ inputPath ++ text "\"\n"))
      pure (-1)
  | some (dir, filename) =>
      match hlp.mapAndLoad filename dir with
      | none => do
          log (.error (text "Unable to map and load " ++ filename ++ text "\n"))
          pure (-1)
      | some image => do
          log .mapped
          searchImportTable hlp dir filename importDLL image importFunction fuel

/-! ### The loops as searches -/

section Loops

variable {hlp : ImageHlp} {dir filename importDLL : Bytes} {image : LoadedImage}

/-- The `k`-th descriptor of an array. -/
def nthDescriptor (descriptors : UInt32) (k : ℕ) : UInt32 := descriptors + 20 * .ofNat k

/-- The descriptor is not the one that ends the table: it has the name of a library. -/
def Listed (image : LoadedImage) (descriptor : UInt32) : Prop :=
  moduleName image descriptor ≠ 0 ∧ image.memory (moduleName image descriptor) ≠ 0

instance (image : LoadedImage) (descriptor : UInt32) : Decidable (Listed image descriptor) :=
  inferInstanceAs (Decidable (_ ∧ _))

/-- The descriptor names the library. -/
def names (image : LoadedImage) (importDLL : Bytes) (descriptor : UInt32) : Bool :=
  compareFilenames (image.string (moduleName image descriptor)) importDLL

theorem nthDescriptor_succ (descriptors : UInt32) (k : ℕ) :
    nthDescriptor descriptors (k + 1) = nthDescriptor descriptors k + 20 := by
  rw [nthDescriptor, nthDescriptor, UInt32.ofNat_add]
  grind

/-- The loop over the descriptors stops: at the end of the table, or at the library. -/
def stopsAt (image : LoadedImage) (importDLL : Bytes) (descriptor : UInt32) : Bool :=
  !decide (Listed image descriptor) || names image importDLL descriptor

theorem findModule_eq (image : LoadedImage) (importDLL : Bytes) (descriptors : UInt32) (n i : ℕ) :
    findModule image importDLL n (nthDescriptor descriptors i) =
      match firstFrom (fun k => stopsAt image importDLL (nthDescriptor descriptors k)) n i with
      | none => none
      | some k =>
          if Listed image (nthDescriptor descriptors k) then some (nthDescriptor descriptors k)
          else none := by
  induction n generalizing i with
  | zero => rfl
  | succ n ih =>
      have round : findModule image importDLL (n + 1) (nthDescriptor descriptors i) =
          if ¬Listed image (nthDescriptor descriptors i) then none
          else if names image importDLL (nthDescriptor descriptors i) then
            some (nthDescriptor descriptors i)
          else findModule image importDLL n (nthDescriptor descriptors (i + 1)) := by
        simp only [findModule, Listed, names, nthDescriptor_succ, ← not_or, not_not]
      rw [round]
      by_cases listed : Listed image (nthDescriptor descriptors i)
      · rw [if_neg (not_not.mpr listed)]
        by_cases named : names image importDLL (nthDescriptor descriptors i)
        · rw [if_pos named, firstFrom_of_good (by simp [stopsAt, named])]
          exact (if_pos listed).symm
        · rw [if_neg named, firstFrom_of_not (by simp [stopsAt, listed, named]), ih]
      · rw [if_pos listed, firstFrom_of_good (by simp [stopsAt, listed])]
        exact (if_neg listed).symm

/-- The `m`-th thunk of an array. -/
def thunkAt (image : LoadedImage) (array : UInt32) (m : ℕ) : UInt32 :=
  image.dword (array + 4 * .ofNat m)

/-- The thunk is taken for an import of the function. -/
def takes (image : LoadedImage) (importFunction : Bytes) (importOrdinal : Option UInt16)
    (thunk : UInt32) : Bool :=
  if importOrdinal.isSome ∧ ByOrdinal thunk then
    importOrdinal.map UInt16.toUInt32 = some (thunk &&& 0xffff)
  else
    getAddressFromRVA image thunk ≠ 0 &&
      stricmpEq (image.string (getAddressFromRVA image thunk + 2)) importFunction

/-- The line that is printed for it. -/
def matchLine (dir filename importDLL : Bytes) (image : LoadedImage)
    (importOrdinal : Option UInt16) (thunk : UInt32) : Bytes :=
  if importOrdinal.isSome ∧ ByOrdinal thunk then
    text "Match found: " ++ dir ++ text "\\" ++ filename ++ text " imports ordinal " ++
      text (toString (thunk &&& 0xffff).toNat) ++ text " from " ++ importDLL ++ text "\n"
  else
    text "Match found: " ++ dir ++ text "\\" ++ filename ++ text " imports " ++ importDLL ++
      text "!" ++ image.string (getAddressFromRVA image thunk + 2) ++ text "\n"

/-- What is done where the loop over the thunks stops. -/
def atThunk (hlp : ImageHlp) (dir filename importDLL : Bytes) (image : LoadedImage)
    (importOrdinal : Option UInt16) (thunk : UInt32) : Logged ℤ :=
  if thunk = 0 then leave hlp filename image 0
  else do
    log (.print (matchLine dir filename importDLL image importOrdinal thunk))
    leave hlp filename image 1

/-- The loop over the thunks stops: at the end of the array, or at a thunk that is taken. -/
def stopsAtThunk (image : LoadedImage) (importFunction : Bytes) (importOrdinal : Option UInt16)
    (thunk : UInt32) : Bool :=
  thunk = 0 || takes image importFunction importOrdinal thunk

theorem thunkLoop_eq (hlp : ImageHlp) (dir filename importDLL : Bytes) (image : LoadedImage)
    (importFunction : Bytes) (importOrdinal : Option UInt16) (array : UInt32) (fuel i : ℕ) :
    thunkLoop hlp dir filename importDLL image importFunction importOrdinal fuel
        (array + 4 * .ofNat i) =
      match firstFrom (fun m => stopsAtThunk image importFunction importOrdinal
          (thunkAt image array m)) fuel i with
      | none => Program.halt .running
      | some m =>
          atThunk hlp dir filename importDLL image importOrdinal (thunkAt image array m) := by
  induction fuel generalizing i with
  | zero => rfl
  | succ fuel ih =>
      have round : thunkLoop hlp dir filename importDLL image importFunction importOrdinal
          (fuel + 1) (array + 4 * .ofNat i) =
          if stopsAtThunk image importFunction importOrdinal (thunkAt image array i) then
            atThunk hlp dir filename importDLL image importOrdinal (thunkAt image array i)
          else thunkLoop hlp dir filename importDLL image importFunction importOrdinal fuel
            (array + 4 * .ofNat (i + 1)) := by
        have next : array + 4 * .ofNat (i + 1) = array + 4 * .ofNat i + 4 := by
          rw [UInt32.ofNat_add]
          grind
        rw [thunkLoop, next, thunkAt]
        generalize image.dword (array + 4 * .ofNat i) = thunk
        dsimp only
        by_cases ended : thunk = 0
        · rw [if_pos ended, if_pos (by simp [stopsAtThunk, ended]), atThunk, if_pos ended]
        rw [if_neg ended, atThunk, if_neg ended, stopsAtThunk, decide_eq_false ended,
          Bool.false_or, takes, matchLine]
        by_cases ordinal : importOrdinal.isSome ∧ ByOrdinal thunk
        · rw [if_pos ordinal, if_pos ordinal, if_pos ordinal]
          simp only [decide_eq_true_eq]
        · rw [if_neg ordinal, if_neg ordinal, if_neg ordinal]
          by_cases null : getAddressFromRVA image thunk = 0
          · simp [null]
          · rw [if_neg null]
            simp [null]
      rw [round]
      cases stops : stopsAtThunk image importFunction importOrdinal (thunkAt image array i) with
      | true => rw [if_pos rfl, firstFrom_of_good stops]
      | false => rw [if_neg Bool.false_ne_true, firstFrom_of_not stops, ih]

end Loops

/-! ### What a search reports -/

/-- The calls that map and unmap, in order. -/
def mapping (events : List Event) : List Event :=
  events.filter fun e => e = .mapped || e = .unmapped

/-- There is a line on `stdout`. -/
def Printed (events : List Event) : Prop := ∃ line, .print line ∈ events

theorem mapping_append (events more : List Event) :
    mapping (events ++ more) = mapping events ++ mapping more := List.filter_append ..

theorem printed_append {events more : List Event} :
    Printed (events ++ more) ↔ Printed events ∨ Printed more := by
  simp [Printed, exists_or]

@[simp] theorem not_printed_nil : ¬Printed [] := fun ⟨_, inside⟩ => List.not_mem_nil inside

@[simp] theorem printed_cons {e : Event} {events : List Event} :
    Printed (e :: events) ↔ (∃ line, e = .print line) ∨ Printed events := by
  simp only [Printed, List.mem_cons, exists_or, eq_comm]

section Steps

variable {hlp : ImageHlp} {dir filename importDLL : Bytes} {image : LoadedImage}
  {events : List Event} {E : Stop → List Event → Prop}

/-- `UnMapAndLoad` is called once, and nothing is printed. -/
structure Unmaps (more : List Event) : Prop where
  mapping : mapping more = [.unmapped]
  silent : ¬Printed more

theorem wp_unMap {Q : Bool → List Event → Prop}
    (ok : ∀ unmapped more, Unmaps more → Q unmapped (events ++ more)) :
    (unMap hlp filename image).wp events Q E := by
  rw [unMap, Program.wp_bind, log, Program.wp_update]
  cases hlp.unMapAndLoad image with
  | none => exact ok true [.unmapped] ⟨rfl, by simp⟩
  | some code =>
      show Q false (events ++ [.unmapped] ++ [.error _])
      rw [List.append_assoc]
      exact ok false _ ⟨rfl, by simp⟩

theorem wp_leave {value : ℤ} {Q : ℤ → List Event → Prop}
    (ok : ∀ more, Unmaps more → Q value (events ++ more)) :
    (leave hlp filename image value).wp events Q E := by
  rw [leave, Program.wp_bind]
  exact wp_unMap fun _ more unmaps => ok more unmaps

theorem wp_fail {message : Bytes} {Q : ℤ → List Event → Prop}
    (ok : ∀ more, Unmaps more → Q (-1) (events ++ more)) :
    (fail hlp filename image message).wp events Q E := by
  rw [fail, Program.wp_bind, log, Program.wp_update]
  refine wp_leave fun more unmaps => ?_
  rw [List.append_assoc]
  refine ok _ ⟨unmaps.mapping, ?_⟩
  rw [printed_append]
  exact not_or.mpr ⟨by simp, unmaps.silent⟩

/-- A line, and then `UnMapAndLoad`. -/
theorem wp_print_leave {line : Bytes} {value : ℤ} {Q : ℤ → List Event → Prop}
    (ok : ∀ more, mapping more = [.unmapped] → Printed more → Q value (events ++ more)) :
    (do log (.print line); leave hlp filename image value : Logged ℤ).wp events Q E := by
  rw [Program.wp_bind, log, Program.wp_update]
  refine wp_leave fun more unmaps => ?_
  rw [List.append_assoc]
  exact ok _ unmaps.mapping ⟨line, by simp⟩

/-- The `m`-th thunk of the descriptor is before the end, and is taken. -/
def TakenThunk (image : LoadedImage) (importFunction : Bytes) (importOrdinal : Option UInt16)
    (descriptor : UInt32) (m : ℕ) : Prop :=
  (thunkArrays image descriptor).2 = true ∧
    (∀ j ≤ m, thunkAt image (thunkArrays image descriptor).1 j ≠ 0) ∧
    takes image importFunction importOrdinal
      (thunkAt image (thunkArrays image descriptor).1 m) = true

/-- The thunk is taken for an import of the function, if that is not refused as an ordinal. -/
def IsTaken (image : LoadedImage) (importFunction : Bytes) (thunk : UInt32) : Prop :=
  match ordinalText importFunction with
  | .invalid => False
  | .ordinal n => takes image importFunction (some n) thunk = true
  | .name => takes image importFunction none thunk = true

/-- The `m`-th thunk of the descriptor is taken for an import of the function. -/
def TakenAt (image : LoadedImage) (importFunction : Bytes) (descriptor : UInt32) (m : ℕ) : Prop :=
  (thunkArrays image descriptor).2 = true ∧
    (∀ j ≤ m, thunkAt image (thunkArrays image descriptor).1 j ≠ 0) ∧
    IsTaken image importFunction (thunkAt image (thunkArrays image descriptor).1 m)

/-- The first thunk where the loop stops is the end, or one that is taken. -/
theorem thunk_ne_zero_iff {importFunction : Bytes} {importOrdinal : Option UInt16}
    {array : UInt32} {fuel m : ℕ}
    (stops : firstFrom (fun m => stopsAtThunk image importFunction importOrdinal
      (thunkAt image array m)) fuel 0 = some m) :
    thunkAt image array m ≠ 0 ↔ ∃ m, (∀ j ≤ m, thunkAt image array j ≠ 0) ∧
      takes image importFunction importOrdinal (thunkAt image array m) = true := by
  obtain ⟨-, -, here, before⟩ := firstFrom_eq_some_iff.mp stops
  have goes_on {j : ℕ} (below : j < m) : thunkAt image array j ≠ 0 ∧
      takes image importFunction importOrdinal (thunkAt image array j) = false := by
    simpa [stopsAtThunk] using before j (Nat.zero_le j) below
  constructor
  · intro some_thunk
    refine ⟨m, fun j le => ?_, by simpa [stopsAtThunk, some_thunk] using here⟩
    rcases Nat.lt_or_eq_of_le le with below | rfl
    · exact (goes_on below).1
    · exact some_thunk
  · rintro ⟨m', all, taken⟩
    by_cases below : m' < m
    · rw [(goes_on below).2] at taken
      cases taken
    · exact all m (Nat.le_of_not_lt below)

theorem wp_searchThunks {importFunction : Bytes} {importOrdinal : Option UInt16} {fuel : ℕ}
    {descriptor : UInt32} :
    (searchThunks hlp dir filename importDLL image importFunction fuel descriptor
        importOrdinal).wp events
      (fun _ events' => ∃ more, events' = events ++ more ∧ mapping more = [.unmapped] ∧
        (Printed more ↔ ∃ m, TakenThunk image importFunction importOrdinal descriptor m))
      (fun why events' => why = .running ∧ events' = events ∧
        ∀ m < fuel, ¬TakenThunk image importFunction importOrdinal descriptor m) := by
  rw [searchThunks]
  cases found : (thunkArrays image descriptor).2 with
  | false =>
      have none : ¬∃ m, TakenThunk image importFunction importOrdinal descriptor m := by
        rintro ⟨m, both, -⟩
        rw [found] at both
        cases both
      dsimp only
      rw [found, if_neg Bool.false_ne_true]
      exact wp_fail fun more unmaps =>
        ⟨more, rfl, unmaps.mapping, iff_of_false unmaps.silent none⟩
  | true =>
      dsimp only
      rw [found, if_pos rfl]
      have run := thunkLoop_eq hlp dir filename importDLL image importFunction importOrdinal
        (thunkArrays image descriptor).1 fuel 0
      rw [show (thunkArrays image descriptor).1 + 4 * .ofNat 0 =
        (thunkArrays image descriptor).1 by grind] at run
      rw [run]
      cases stops : firstFrom (fun m => stopsAtThunk image importFunction importOrdinal
          (thunkAt image (thunkArrays image descriptor).1 m)) fuel 0 with
      | none =>
          refine ⟨rfl, rfl, fun m below taken => ?_⟩
          have goes_on := firstFrom_eq_none_iff.mp stops m (Nat.zero_le m) (by omega)
          rw [stopsAtThunk, taken.2.2, Bool.or_true] at goes_on
          cases goes_on
      | some m =>
          have same := thunk_ne_zero_iff stops
          simp only [TakenThunk, found, true_and]
          rw [← same, atThunk]
          by_cases ended : thunkAt image (thunkArrays image descriptor).1 m = 0
          · rw [if_pos ended]
            exact wp_leave fun more unmaps =>
              ⟨more, rfl, unmaps.mapping, iff_of_false unmaps.silent (not_not.mpr ended)⟩
          · rw [if_neg ended]
            exact wp_print_leave fun more unmaps printed =>
              ⟨more, rfl, unmaps, iff_of_true printed ended⟩

/-- The search in the descriptor of the library. -/
def Taken (image : LoadedImage) (importFunction : Option Bytes) (descriptor : UInt32) : Prop :=
  ∀ f, importFunction = some f → ∃ m, TakenAt image f descriptor m

theorem wp_searchModule {importFunction : Option Bytes} {fuel : ℕ} {descriptor : UInt32} :
    (searchModule hlp dir filename importDLL image importFunction fuel descriptor).wp events
      (fun _ events' => ∃ more, events' = events ++ more ∧ mapping more = [.unmapped] ∧
        (Printed more ↔ Taken image importFunction descriptor))
      (fun why events' => why = .running ∧ events' = events ∧
        ∃ f, importFunction = some f ∧ ∀ m < fuel, ¬TakenAt image f descriptor m) := by
  cases importFunction with
  | none =>
      exact wp_print_leave fun more unmaps printed =>
        ⟨more, rfl, unmaps, iff_of_true printed nofun⟩
  | some f =>
      simp only [Taken, Option.some.injEq, forall_eq', exists_eq_left', TakenAt, IsTaken]
      rw [searchModule]
      cases ordinalText f with
      | invalid =>
          dsimp only
          rw [Program.wp_bind, log, Program.wp_update]
          refine wp_fail fun more unmaps => ⟨.error _ :: more, List.append_assoc .., ?_, ?_⟩
          · exact unmaps.mapping
          · exact iff_of_false (fun ⟨line, on⟩ => unmaps.silent ⟨line, by simpa using on⟩) (by simp)
      | ordinal n => exact wp_searchThunks
      | name => exact wp_searchThunks

end Steps

/-! ### The first descriptor of the library -/

section First

variable {hlp : ImageHlp} {dir filename importDLL : Bytes} {image : LoadedImage}
  {events : List Event}

/-- There is an import table, in a section. -/
def HasImports (image : LoadedImage) : Prop :=
  image.importDirectory.virtualAddress ≠ 0 ∧
    getAddressFromRVA image image.importDirectory.virtualAddress ≠ 0

/-- The `k`-th descriptor of the import table. -/
def descriptorOf (image : LoadedImage) (k : ℕ) : UInt32 :=
  nthDescriptor (getAddressFromRVA image image.importDirectory.virtualAddress) k

/-- The `k`-th descriptor is before the one that ends the table, and names the library. -/
def NamesLibrary (image : LoadedImage) (importDLL : Bytes) (k : ℕ) : Prop :=
  HasImports image ∧ (∀ j ≤ k, Listed image (descriptorOf image j)) ∧
    names image importDLL (descriptorOf image k) = true

/-- The `k`-th descriptor is the first that names the library. -/
def FirstOfLibrary (image : LoadedImage) (importDLL : Bytes) (k : ℕ) : Prop :=
  IsLeast {k | NamesLibrary image importDLL k} k

/-- The `k`-th descriptor is within the size of the table. -/
def InSize (image : LoadedImage) (k : ℕ) : Prop := k < (image.importDirectory.size / 20).toNat

theorem findModule_eq_some_iff (imports : HasImports image) {descriptor : UInt32} :
    findModule image importDLL (image.importDirectory.size / 20).toNat
        (getAddressFromRVA image image.importDirectory.virtualAddress) = some descriptor ↔
      ∃ k, FirstOfLibrary image importDLL k ∧ InSize image k ∧
        descriptor = descriptorOf image k := by
  have run := findModule_eq image importDLL
    (getAddressFromRVA image image.importDirectory.virtualAddress)
    (image.importDirectory.size / 20).toNat 0
  rw [show nthDescriptor _ 0 = getAddressFromRVA image image.importDirectory.virtualAddress by
    rw [nthDescriptor]; grind] at run
  rw [run]
  constructor
  · cases stops : firstFrom _ _ 0 with
    | none => exact nofun
    | some k =>
        obtain ⟨-, below, here, before⟩ := firstFrom_eq_some_iff.mp stops
        dsimp only
        split_ifs with listed
        · intro same
          have goes_on {j : ℕ} (earlier : j < k) : Listed image (descriptorOf image j) ∧
              names image importDLL (descriptorOf image j) = false := by
            simpa [stopsAt, descriptorOf] using before j (Nat.zero_le j) earlier
          refine ⟨k, ⟨⟨imports, fun j le => ?_,
            by simpa [stopsAt, listed, descriptorOf] using here⟩, ?_⟩,
            by simpa [InSize] using below, (Option.some.inj same).symm⟩
          · rcases Nat.lt_or_eq_of_le le with earlier | rfl
            · exact (goes_on earlier).1
            · exact listed
          · rintro j ⟨-, -, named⟩
            by_contra earlier
            rw [(goes_on (Nat.lt_of_not_le earlier)).2] at named
            cases named
        · exact nofun
  · rintro ⟨k, ⟨⟨-, listed, named⟩, least⟩, below, rfl⟩
    have stops : firstFrom (fun k => stopsAt image importDLL (nthDescriptor
        (getAddressFromRVA image image.importDirectory.virtualAddress) k))
        (image.importDirectory.size / 20).toNat 0 = some k := by
      refine firstFrom_eq_some_iff.mpr ⟨Nat.zero_le k, by simpa [InSize] using below, ?_,
        fun j _ earlier => ?_⟩
      · exact Bool.or_eq_true_iff.mpr (Or.inr named)
      · have other : ¬names image importDLL (descriptorOf image j) = true := fun named' =>
          absurd (least ⟨imports, fun i le => listed i (by omega), named'⟩) (by omega)
        have listed := listed j (Nat.le_of_lt earlier)
        simp only [descriptorOf] at other listed
        simp [stopsAt, listed, other]
    rw [stops]
    exact if_pos (listed k (Nat.le_refl k))

/-- The search reports an import: of the first descriptor of the library. -/
def FoundByCode (image : LoadedImage) (importDLL : Bytes) (importFunction : Option Bytes) : Prop :=
  ∃ k, FirstOfLibrary image importDLL k ∧ InSize image k ∧
    Taken image importFunction (descriptorOf image k)

/-- **The search in an image.**  `UnMapAndLoad` is called, unless there are no imports. -/
theorem wp_searchImportTable {importFunction : Option Bytes} {fuel : ℕ} :
    (searchImportTable hlp dir filename importDLL image importFunction fuel).wp events
      (fun _ events' => ∃ more, events' = events ++ more ∧
        mapping more =
          (if image.importDirectory.virtualAddress = 0 then [] else [.unmapped]) ∧
        (Printed more ↔ FoundByCode image importDLL importFunction))
      (fun why events' => why = .running ∧ events' = events ∧
        ∃ k, FirstOfLibrary image importDLL k ∧ ∃ f, importFunction = some f ∧
          ∀ m < fuel, ¬TakenAt image f (descriptorOf image k) m) := by
  have silent {more : List Event} (unmaps : Unmaps more)
      (none : ¬FoundByCode image importDLL importFunction) :
      Printed more ↔ FoundByCode image importDLL importFunction :=
    iff_of_false unmaps.silent none
  rw [searchImportTable]
  dsimp only
  by_cases imports : image.importDirectory.virtualAddress = 0
  · rw [if_pos imports, if_pos imports]
    refine ⟨[], (List.append_nil _).symm, rfl, iff_of_false (by simp) ?_⟩
    rintro ⟨k, first, -⟩
    exact first.1.1.1 imports
  rw [if_neg imports, if_neg imports]
  by_cases short : image.importDirectory.size < 20
  · rw [if_pos short]
    refine wp_fail fun more unmaps => ⟨more, rfl, unmaps.mapping, silent unmaps ?_⟩
    rintro ⟨k, -, below, -⟩
    rw [InSize, UInt32.toNat_div] at below
    rw [UInt32.lt_iff_toNat_lt] at short
    change _ < 20 at short
    change _ < _ / 20 at below
    omega
  rw [if_neg short]
  by_cases null : getAddressFromRVA image image.importDirectory.virtualAddress = 0
  · rw [if_pos null]
    refine wp_fail fun more unmaps => ⟨more, rfl, unmaps.mapping, silent unmaps ?_⟩
    rintro ⟨k, first, -⟩
    exact first.1.1.2 null
  rw [if_neg null]
  have found := @findModule_eq_some_iff importDLL image ⟨imports, null⟩
  cases result : findModule image importDLL (image.importDirectory.size / 20).toNat
      (getAddressFromRVA image image.importDirectory.virtualAddress) with
  | none =>
      dsimp only
      rw [Program.wp_bind]
      refine wp_unMap fun unmapped more unmaps => ⟨more, rfl, unmaps.mapping, silent unmaps ?_⟩
      rintro ⟨k, first, below, -⟩
      have some_module := found.mpr ⟨k, first, below, rfl⟩
      rw [result] at some_module
      cases some_module
  | some descriptor =>
      obtain ⟨k, first, below, rfl⟩ := found.mp result
      refine Program.wp_mono wp_searchModule (fun _ events' run => ?_) fun why events' run => ?_
      · obtain ⟨more, whole, unmaps, printed⟩ := run
        refine ⟨more, whole, unmaps, printed.trans ⟨fun taken => ⟨k, first, below, taken⟩, ?_⟩⟩
        rintro ⟨k', first', -, taken⟩
        rwa [first.unique first']
      · obtain ⟨rfl, same, none⟩ := run
        exact ⟨rfl, same, k, first, none⟩

/-- The search prints a match. -/
def Reports (hlp : ImageHlp) (inputPath importDLL : Bytes) (importFunction : Option Bytes) : Prop :=
  ∃ fuel, (searchImportWithImageHlp hlp inputPath importDLL importFunction fuel).wp []
    (fun _ events => Printed events) (fun _ events => Printed events)

/-- What is reported, in terms of the table. -/
theorem reports_iff_found {inputPath : Bytes} {importFunction : Option Bytes}
    (splits : splitPath inputPath = some (dir, filename))
    (maps : hlp.mapAndLoad filename dir = some image) :
    Reports hlp inputPath importDLL importFunction ↔
      FoundByCode image importDLL importFunction := by
  have silent : ¬Printed [.mapped] := by simp
  have run (fuel : ℕ) : searchImportWithImageHlp hlp inputPath importDLL importFunction fuel [] =
      searchImportTable hlp dir filename importDLL image importFunction fuel [.mapped] := by
    rw [searchImportWithImageHlp, splits]
    dsimp only
    rw [maps]
    rfl
  constructor
  · rintro ⟨fuel, printed⟩
    rw [Program.wp, run, ← Program.wp] at printed
    refine Program.wp_elim printed wp_searchImportTable (fun _ events printed ended => ?_)
      fun why events printed stopped => ?_
    · obtain ⟨more, rfl, -, found⟩ := ended
      exact found.mp ((printed_append.mp printed).resolve_left silent)
    · exact absurd (stopped.2.1 ▸ printed) silent
  · rintro ⟨k, first, below, taken⟩
    obtain ⟨fuel, enough⟩ : ∃ fuel, ∀ f, importFunction = some f →
        ∃ m < fuel, TakenAt image f (descriptorOf image k) m := by
      cases importFunction with
      | none => exact ⟨0, nofun⟩
      | some f =>
          obtain ⟨m, here⟩ := taken f rfl
          exact ⟨m + 1, fun f' same => ⟨m, Nat.lt_succ_self m, Option.some.inj same ▸ here⟩⟩
    refine ⟨fuel, ?_⟩
    rw [Program.wp, run, ← Program.wp]
    refine Program.wp_mono wp_searchImportTable (fun _ events ended => ?_)
      fun why events stopped => ?_
    · obtain ⟨more, rfl, -, found⟩ := ended
      exact printed_append.mpr (Or.inr (found.mpr ⟨k, first, below, taken⟩))
    · obtain ⟨-, -, k', first', f, asked, none⟩ := stopped
      obtain rfl := first.unique first'
      obtain ⟨m, below, here⟩ := enough f asked
      exact absurd here (none m below)

end First

/-! ### What is meant -/

/-- The number that is asked for as an ordinal. -/
def askedOrdinal (importFunction : Bytes) : Option ℕ :=
  if (text "ord_").isPrefixOf importFunction ∧ Numeral (importFunction.drop 4) then
    some (digits (importFunction.drop 4))
  else none

/-- The thunk imports the function by its name, or the ordinal that is asked for. -/
def Imports (image : LoadedImage) (importFunction : Bytes) (thunk : UInt32) : Prop :=
  ¬ByOrdinal thunk ∧ getAddressFromRVA image thunk ≠ 0 ∧
      stricmpEq (image.string (getAddressFromRVA image thunk + 2)) importFunction = true ∨
    ByOrdinal thunk ∧ askedOrdinal importFunction = some (thunk &&& 0xffff).toNat

instance (image : LoadedImage) (importFunction : Bytes) (thunk : UInt32) :
    Decidable (Imports image importFunction thunk) :=
  inferInstanceAs (Decidable (_ ∧ _ ∨ _ ∧ _))

/-- One of the descriptor's thunks, before the end of its array. -/
def HasThunk (image : LoadedImage) (descriptor : UInt32) (P : UInt32 → Prop) : Prop :=
  ∃ m, (∀ j ≤ m, thunkAt image (thunkArrays image descriptor).1 j ≠ 0) ∧
    P (thunkAt image (thunkArrays image descriptor).1 m)

/-- One of the descriptor's thunks imports the function. -/
def ImportedBy (image : LoadedImage) (importFunction : Bytes) (descriptor : UInt32) : Prop :=
  (thunkArrays image descriptor).1 ≠ 0 ∧ HasThunk image descriptor (Imports image importFunction)

/-- Some descriptor names the library and, if a function is asked for, imports it. -/
def Imported (image : LoadedImage) (importDLL : Bytes) (importFunction : Option Bytes) : Prop :=
  ∃ k, NamesLibrary image importDLL k ∧
    ∀ f, importFunction = some f → ImportedBy image f (descriptorOf image k)

section Meant

variable {hlp : ImageHlp} {dir filename inputPath importDLL : Bytes} {image : LoadedImage}
  {importFunction : Option Bytes}

theorem NamesLibrary.exists_first {k : ℕ} (named : NamesLibrary image importDLL k) :
    ∃ first, FirstOfLibrary image importDLL first := by
  classical
  exact ⟨Nat.find ⟨k, named⟩, Nat.find_spec ⟨k, named⟩, fun _ other => Nat.find_min' _ other⟩

/-! ### The thunks that are taken -/

/-- The text is refused as an ordinal. -/
def Refused (importFunction : Bytes) : Prop := ordinalText importFunction = .invalid

/-- An ordinal that is taken for the import without being it: for a number that is narrowed
or is no number, or as the address of a name. -/
def Misread (image : LoadedImage) (importFunction : Bytes) (thunk : UInt32) : Prop :=
  ByOrdinal thunk ∧
    match ordinalText importFunction with
    | .ordinal n =>
        n.toUInt32 = thunk &&& 0xffff ∧
          askedOrdinal importFunction ≠ some (thunk &&& 0xffff).toNat
    | .name =>
        getAddressFromRVA image thunk ≠ 0 ∧
          stricmpEq (image.string (getAddressFromRVA image thunk + 2)) importFunction = true
    | .invalid => False

theorem ordinal_toNat_lt (thunk : UInt32) : (thunk &&& 0xffff).toNat < 2 ^ 16 := by
  rw [UInt32.toNat_and]
  exact Nat.and_lt_two_pow _ (by decide)

/-- An ordinal that is asked for is read as that number. -/
theorem ordinalText_of_asked {f : Bytes} {n : ℕ} (asked : askedOrdinal f = some n)
    (low : n < 2 ^ 16) : ordinalText f = .ordinal (UInt16.ofNat n) := by
  rw [askedOrdinal] at asked
  split_ifs at asked with form
  obtain ⟨start, numeral⟩ := form
  have value : UInt16.ofInt (atoi (f.drop 4)) = UInt16.ofNat n := by
    have read := numeral.atoi stops_nil
    rw [List.append_nil, Option.some.inj asked] at read
    rw [read, ofInt_bmod_uint16]
  have prefixed : strncmpEq f (text "ord_") 4 = true := (strncmpEq_isPrefixOf f _).trans start
  have allowed : ¬(UInt16.ofNat n = 0 ∧ (f.drop 4).headD 0 ≠ 48) := by
    rintro ⟨zero, other⟩
    have zero := congrArg UInt16.toNat zero
    rw [UInt16.toNat_ofNat', Nat.mod_eq_of_lt low] at zero
    exact other (numeral.headD_of_zero ((Option.some.inj asked).trans zero))
  rw [ordinalText, if_pos prefixed, value, if_neg allowed]

/-- **What is taken** is an import, or is misread. -/
theorem isTaken_iff {f : Bytes} (thunk : UInt32) (valid : ¬Refused f) :
    IsTaken image f thunk ↔ Imports image f thunk ∨ Misread image f thunk := by
  have read (asked : askedOrdinal f = some (thunk &&& 0xffff).toNat) :=
    ordinalText_of_asked asked (ordinal_toNat_lt thunk)
  rw [IsTaken, Imports, Misread]
  cases form : ordinalText f with
  | invalid => exact absurd form valid
  | name =>
      have not_asked : askedOrdinal f ≠ some (thunk &&& 0xffff).toNat := by
        intro asked
        rw [read asked] at form
        cases form
      by_cases ordinal : ByOrdinal thunk
      · simp [takes, ordinal, not_asked, -UInt32.toNat_and]
      · simp [takes, ordinal]
  | ordinal n =>
      by_cases ordinal : ByOrdinal thunk
      · by_cases asked : askedOrdinal f = some (thunk &&& 0xffff).toNat
        · have same := read asked
          rw [form, OrdinalText.ordinal.injEq] at same
          have whole : n.toUInt32 = thunk &&& 0xffff := by
            apply UInt32.toNat_inj.mp
            rw [UInt16.toNat_toUInt32, same, UInt16.toNat_ofNat',
              Nat.mod_eq_of_lt (ordinal_toNat_lt thunk)]
          simp [takes, ordinal, asked, whole]
        · simp [takes, ordinal, asked, -UInt32.toNat_and]
      · simp [takes, ordinal]

/-- The descriptor's thunks are looked through. -/
def Searched (image : LoadedImage) (importFunction : Bytes) (descriptor : UInt32) : Prop :=
  ¬Refused importFunction ∧ (thunkArrays image descriptor).2 = true

theorem takenAt_iff {f : Bytes} {descriptor : UInt32} :
    (∃ m, TakenAt image f descriptor m) ↔ Searched image f descriptor ∧
      HasThunk image descriptor fun thunk => Imports image f thunk ∨ Misread image f thunk := by
  constructor
  · rintro ⟨m, both, all, taken⟩
    have valid : ¬Refused f := by
      intro refused
      rw [IsTaken, refused] at taken
      exact taken
    exact ⟨⟨valid, both⟩, m, all, (isTaken_iff _ valid).mp taken⟩
  · rintro ⟨⟨valid, both⟩, m, all, taken⟩
    exact ⟨m, both, all, (isTaken_iff _ valid).mpr taken⟩

/-- Where both arrays are there, the one that is read is. -/
theorem thunkArrays_ne_zero {descriptor : UInt32} (both : (thunkArrays image descriptor).2 = true) :
    (thunkArrays image descriptor).1 ≠ 0 := by
  simp only [thunkArrays, Bool.and_eq_true, decide_eq_true_eq] at both ⊢
  exact both.1

/-- **When the search is right**: the library has no descriptor; or its first one is within the
size of the table, and has an import of the function or a thunk that is misread as one, if any
descriptor of the library has the import; and has no thunk that is misread, if none has. -/
theorem search_right_iff (splits : splitPath inputPath = some (dir, filename))
    (maps : hlp.mapAndLoad filename dir = some image) :
    (Reports hlp inputPath importDLL importFunction ↔ Imported image importDLL importFunction) ↔
      ∀ k, FirstOfLibrary image importDLL k →
        (Imported image importDLL importFunction →
          InSize image k ∧ ∀ f, importFunction = some f → Searched image f (descriptorOf image k) ∧
            HasThunk image (descriptorOf image k) fun thunk =>
              Imports image f thunk ∨ Misread image f thunk) ∧
        (¬Imported image importDLL importFunction →
          InSize image k → ∀ f, importFunction = some f → Searched image f (descriptorOf image k) →
            ¬HasThunk image (descriptorOf image k) (Misread image f)) := by
  rw [reports_iff_found splits maps]
  have found {k : ℕ} (first : FirstOfLibrary image importDLL k) :
      FoundByCode image importDLL importFunction ↔
        InSize image k ∧ ∀ f, importFunction = some f → Searched image f (descriptorOf image k) ∧
          HasThunk image (descriptorOf image k) fun thunk =>
            Imports image f thunk ∨ Misread image f thunk := by
    simp only [FoundByCode, Taken, takenAt_iff]
    exact ⟨fun ⟨_, first', here⟩ => first.unique first' ▸ here, fun here => ⟨k, first, here⟩⟩
  constructor
  · intro right k first
    refine ⟨fun imported => (found first).mp (right.mpr imported),
      fun other below f asked searched misread => ?_⟩
    obtain ⟨m, all, wrong⟩ := misread
    refine other (right.mp ((found first).mpr ⟨below, fun f' asked' => ?_⟩))
    obtain rfl := Option.some.inj (asked.symm.trans asked')
    exact ⟨searched, m, all, Or.inr wrong⟩
  · intro condition
    constructor
    · rintro here
      obtain ⟨k, first, below, -⟩ := id here
      by_contra other
      cases importFunction with
      | none => exact other ⟨k, first.1, nofun⟩
      | some f =>
          obtain ⟨searched, m, all, import_or_wrong⟩ := ((found first).mp here).2 f rfl
          rcases import_or_wrong with imports | wrong
          · exact other ⟨k, first.1, fun f' same => Option.some.inj same ▸
              ⟨thunkArrays_ne_zero searched.2, m, all, imports⟩⟩
          · exact (condition k first).2 other below f rfl searched ⟨m, all, wrong⟩
    · intro imported
      obtain ⟨k, named, -⟩ := id imported
      obtain ⟨first, least⟩ := named.exists_first
      exact (found least).mpr ((condition first least).1 imported)

end Meant

/-! ### A table with two descriptors for one library -/

/-- The first descriptor imports `f` from `k.dll`, the second one `g`. -/
def twoDescriptors : LoadedImage := .ofBytes ⟨0x1000, 60⟩ ⟨0, 0⟩
  (([0x1060, 0, 0, 0x1050, 0x1060].flatMap LoadedImage.dwordBytes) ++
    ([0x1070, 0, 0, 0x1050, 0x1070].flatMap LoadedImage.dwordBytes) ++ List.replicate 40 0 ++
    text "k.dll" ++ List.replicate 11 0 ++
    ([0x1080, 0, 0, 0].flatMap LoadedImage.dwordBytes) ++
    ([0x1088, 0, 0, 0].flatMap LoadedImage.dwordBytes) ++
    [0, 0, 102, 0, 0, 0, 0, 0] ++ [0, 0, 103, 0])

theorem namesLibrary_twoDescriptors (k : ℕ) (few : k ≤ 1) :
    NamesLibrary twoDescriptors (text "k.dll") k := by
  have both : ∀ k ≤ 1, Listed twoDescriptors (descriptorOf twoDescriptors k) ∧
      names twoDescriptors (text "k.dll") (descriptorOf twoDescriptors k) = true := by
    decide +kernel
  exact ⟨⟨by decide +kernel, by decide +kernel⟩, fun j le => (both j (by omega)).1, (both k few).2⟩

theorem first_twoDescriptors {k : ℕ}
    (first : FirstOfLibrary twoDescriptors (text "k.dll") k) : k = 0 :=
  Nat.le_zero.mp (first.2 (namesLibrary_twoDescriptors 0 (by decide)))

/-- The import of the first descriptor is reported. -/
theorem reports_twoDescriptors :
    Reports ⟨fun _ _ => some twoDescriptors, fun _ => none⟩ (text "d\\a.exe") (text "k.dll")
      (some (text "F")) := by
  have here : HasThunk twoDescriptors (descriptorOf twoDescriptors 0)
      (Imports twoDescriptors (text "F")) :=
    ⟨0, by decide +kernel, by decide +kernel⟩
  have imported : Imported twoDescriptors (text "k.dll") (some (text "F")) :=
    ⟨0, namesLibrary_twoDescriptors 0 (by decide), fun f asked =>
      Option.some.inj asked ▸ ⟨by decide +kernel, here⟩⟩
  refine ((search_right_iff rfl rfl).mpr fun k first => ⟨fun _ => ?_, fun none => ?_⟩).mpr imported
  · obtain rfl := first_twoDescriptors first
    refine ⟨by unfold InSize; decide +kernel, fun f asked => ?_⟩
    obtain rfl := Option.some.inj asked
    obtain ⟨m, all, imports⟩ := here
    exact ⟨⟨by unfold Refused; decide +kernel, by decide +kernel⟩, m, all, Or.inl imports⟩
  · exact absurd imported none

/-- The import of the second descriptor is not. -/
theorem not_search_right_second :
    ¬(Reports ⟨fun _ _ => some twoDescriptors, fun _ => none⟩ (text "d\\a.exe") (text "k.dll")
      (some (text "g")) ↔ Imported twoDescriptors (text "k.dll") (some (text "g"))) := by
  have imported : Imported twoDescriptors (text "k.dll") (some (text "g")) := by
    refine ⟨1, namesLibrary_twoDescriptors 1 (by decide), fun f asked => ?_⟩
    obtain rfl := Option.some.inj asked
    exact ⟨by decide +kernel, 0, by decide +kernel, by decide +kernel⟩
  intro right
  obtain ⟨k, first, -, taken⟩ := (reports_iff_found rfl rfl).mp (right.mpr imported)
  obtain rfl := first_twoDescriptors first
  obtain ⟨m, -, all, here⟩ := taken _ rfl
  cases m with
  | zero =>
      rw [IsTaken, show ordinalText (text "g") = .name by decide +kernel] at here
      revert here
      decide +kernel
  | succ m =>
      exact all 1 (by omega) (by decide +kernel)

end MsysGit.Depends
