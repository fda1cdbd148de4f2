import MsysGit.Depends.ImportSearch
import MsysGit.Library.ShortLoop

/-!
# Searching an export table

`SearchExportWithImageHlp` looks at every used slot of the array of functions, and for each at
all names.  Both loops count with 16 bits, up to numbers of 32 bits from the file.  The first
match ends the process by `exit(0)`.

`exportLoops_cases` says what the loops come to, and `loopsEnd_iff` when they end at all.
-/

namespace MsysGit.Depends

open MsysGit.Library MsysGit.Library.CString

/-! ### The code -/

/-- The arrays of an export table, and how long it says they are. -/
structure ExportArrays where
  functions : UInt32
  nameOrdinals : UInt32
  names : UInt32
  numberOfFunctions : UInt32
  numberOfNames : UInt32
  deriving DecidableEq

/-- The arrays of the `IMAGE_EXPORT_DIRECTORY` at an address. -/
def exportArrays (image : LoadedImage) (exportTable : UInt32) : ExportArrays where
  functions := getAddressFromRVA image (image.dword (exportTable + 28))
  nameOrdinals := getAddressFromRVA image (image.dword (exportTable + 36))
  names := getAddressFromRVA image (image.dword (exportTable + 32))
  numberOfFunctions := image.dword (exportTable + 20)
  numberOfNames := image.dword (exportTable + 24)

section Search

variable (hlp : ImageHlp) (dir filename exportFunction : Bytes) (image : LoadedImage)
  (arrays : ExportArrays)

/-- `GetAddressFromRVA (Image, pNames[j])` -/
def functionName (j : UInt16) : UInt32 :=
  getAddressFromRVA image (image.dword (arrays.names + 4 * j.toUInt32))

/-- The line for a match. -/
def exportLine (name : Bytes) : Bytes :=
  text "Match found: " ++ dir ++ text "\\" ++ filename ++ text " exports " ++ name ++ text "\n"

/-- The body of the loop over the names. -/
def nameRound (i j : UInt16) : Logged Unit :=
  if i = image.word (arrays.nameOrdinals + 2 * j.toUInt32) then
    let functionName := functionName image arrays j
    -- `_stricmp` follows the pointer whatever it is.
    if functionName = 0 then Program.halt .nullPointer
    else if stricmpEq (image.string functionName) exportFunction then do
      log (.print (exportLine dir filename (image.string functionName)))
      -- What comes behind `exit(0)`, with `UnMapAndLoad`, is not reached.
      Program.halt .exit
    else pure ()
  else pure ()

/-- The body of the loop over the functions. -/
def functionRound (fuel : ℕ) (i : UInt16) : Logged Unit :=
  if image.dword (arrays.functions + 4 * i.toUInt32) = 0 then pure ()
  else shortLoop .running arrays.numberOfNames.toNat
    (nameRound dir filename exportFunction image arrays i) fuel 0

/-- The two loops. -/
def exportLoops (fuel : ℕ) : Logged Unit :=
  shortLoop .running arrays.numberOfFunctions.toNat
    (functionRound dir filename exportFunction image arrays fuel) fuel 0

/-- The search in an image that is mapped. -/
def searchExportTable (fuel : ℕ) : Logged ℤ := do
  let directory := image.exportDirectory
  if directory.virtualAddress = 0 then pure 0
  else if directory.size < 40 then
    fail hlp filename image (text "Error loading " ++ filename ++
      text ": invalid export table (size < sizeof(IMAGE_EXPORT_DIRECTORY))\n")
  else
    let exportTable := getAddressFromRVA image directory.virtualAddress
    if exportTable = 0 then
      fail hlp filename image (text "Error loading " ++ filename ++
        text ": invalid export table (invalid RVA)\n")
    else
      let arrays := exportArrays image exportTable
      if arrays.functions = 0 ∨ arrays.nameOrdinals = 0 ∨ arrays.names = 0 then
        fail hlp filename image (text "Error loading " ++ filename ++
          text ": invalid export table (invalid name/function/ordinal RVAs)\n")
      else do
        exportLoops dir filename exportFunction image arrays fuel
        pure 0

end Search

/-- `SearchExportWithImageHlp` -/
def searchExportWithImageHlp (hlp : ImageHlp) (inputPath exportFunction : Bytes) (fuel : ℕ) :
    Logged ℤ := do
  match splitPath inputPath with
  | none => do
      log (.error (text "Error: unexpected file \"" ++ inputPath ++ text "\"\n"))
      pure (-1)
  | some (dir, filename) => do
      log (.print (text "Loading " ++ filename ++ text "\n"))
      match hlp.mapAndLoad filename dir with
      | none => do
          log (.error (text "Unable to map and load " ++ filename ++ text "\n"))
          pure (-1)
      | some image => do
          log .mapped
          searchExportTable hlp dir filename exportFunction image fuel

/-! ### What the loops come to -/

section Loops

variable {dir filename exportFunction : Bytes} {image : LoadedImage} {arrays : ExportArrays}
  {events : List Event} {i j : UInt16}

/-- The slot holds a function. -/
def Used (image : LoadedImage) (arrays : ExportArrays) (i : UInt16) : Prop :=
  image.dword (arrays.functions + 4 * i.toUInt32) ≠ 0

/-- The `j`-th name belongs to the slot. -/
def BelongsTo (image : LoadedImage) (arrays : ExportArrays) (i j : UInt16) : Prop :=
  i = image.word (arrays.nameOrdinals + 2 * j.toUInt32)

/-- The `j`-th name is the one that is looked for. -/
def IsNamed (image : LoadedImage) (arrays : ExportArrays) (exportFunction : Bytes) (j : UInt16) :
    Prop :=
  functionName image arrays j ≠ 0 ∧
    stricmpEq (image.string (functionName image arrays j)) exportFunction = true

/-- The `j`-th name ends the search in the slot: it is in no section, or a match. -/
def StopsAt (image : LoadedImage) (arrays : ExportArrays) (exportFunction : Bytes)
    (i j : UInt16) : Prop :=
  BelongsTo image arrays i j ∧
    (functionName image arrays j = 0 ∨ IsNamed image arrays exportFunction j)

theorem nameRound_of_not_stops (goes_on : ¬StopsAt image arrays exportFunction i j) :
    nameRound dir filename exportFunction image arrays i j events = .returned () events := by
  rw [nameRound]
  dsimp only
  split_ifs with belongs null same
  · exact absurd ⟨belongs, Or.inl null⟩ goes_on
  · exact absurd ⟨belongs, Or.inr ⟨null, same⟩⟩ goes_on
  · rfl
  · rfl

theorem nameRound_of_null (belongs : BelongsTo image arrays i j)
    (null : functionName image arrays j = 0) :
    nameRound dir filename exportFunction image arrays i j events =
      .halted .nullPointer events := by
  have round : nameRound dir filename exportFunction image arrays i j =
      Program.halt .nullPointer := by
    rw [BelongsTo] at belongs
    rw [nameRound, if_pos belongs]
    exact if_pos null
  rw [round]
  rfl

theorem nameRound_of_named (belongs : BelongsTo image arrays i j)
    (named : IsNamed image arrays exportFunction j) :
    nameRound dir filename exportFunction image arrays i j events =
      .halted .exit (events ++
        [.print (exportLine dir filename (image.string (functionName image arrays j)))]) := by
  have round : nameRound dir filename exportFunction image arrays i j = (do
      log (.print (exportLine dir filename (image.string (functionName image arrays j))))
      Program.halt .exit) := by
    rw [BelongsTo] at belongs
    rw [nameRound, if_pos belongs]
    exact (if_neg named.1).trans (if_pos named.2)
  rw [round]
  rfl

/-- The loop over the names ends, and finds nothing, if it is started at all. -/
def Passes (image : LoadedImage) (arrays : ExportArrays) (exportFunction : Bytes) (i : UInt16) :
    Prop :=
  Used image arrays i → arrays.numberOfNames.toNat < 2 ^ 16 ∧
    ∀ j : UInt16, j.toNat < arrays.numberOfNames.toNat → ¬StopsAt image arrays exportFunction i j

theorem functionRound_of_used (used : Used image arrays i) (fuel : ℕ) :
    functionRound dir filename exportFunction image arrays fuel i =
      shortLoop .running arrays.numberOfNames.toNat
        (nameRound dir filename exportFunction image arrays i) fuel 0 := if_neg used

theorem functionRound_ends (passes : Passes image arrays exportFunction i) :
    Ends .running (functionRound dir filename exportFunction image arrays · i) events
      (.returned () events) := by
  by_cases used : Used image arrays i
  · simp only [functionRound_of_used used]
    exact ends_returned (fun _ => nameRound dir filename exportFunction image arrays i)
      (passes used).1 fun j below => .const (nameRound_of_not_stops ((passes used).2 j below))
  · have round (fuel : ℕ) : functionRound dir filename exportFunction image arrays fuel i = _ :=
      if_pos (not_not.mp used)
    simp only [round]
    exact .const rfl

/-- The search ends in the slot `i`, at the name `j`. -/
structure FirstStop (image : LoadedImage) (arrays : ExportArrays) (exportFunction : Bytes)
    (i j : UInt16) : Prop where
  used : Used image arrays i
  inside : i.toNat < arrays.numberOfFunctions.toNat
  named : j.toNat < arrays.numberOfNames.toNat
  stops : StopsAt image arrays exportFunction i j
  first : ∀ j' : UInt16, j'.toNat < j.toNat → ¬StopsAt image arrays exportFunction i j'
  before : ∀ i' : UInt16, i'.toNat < i.toNat → Passes image arrays exportFunction i'

/-- The search comes to its first stop, and ends as it says. -/
theorem exportLoops_of_firstStop {why : Stop} {events' : List Event}
    (stop : FirstStop image arrays exportFunction i j)
    (halts : nameRound dir filename exportFunction image arrays i j events =
      .halted why events') :
    Ends .running (exportLoops dir filename exportFunction image arrays) events
      (.halted why events') := by
  refine ends_halted _ stop.inside (fun i' below => functionRound_ends (stop.before i' below)) ?_
  simp only [functionRound_of_used stop.used]
  exact ends_halted (fun _ => nameRound dir filename exportFunction image arrays i)
    stop.named (fun j' below => .const (nameRound_of_not_stops (stop.first j' below)))
    (.const halts)

/-- A slot with too many names, none of which ends the search, is never left. -/
theorem functionRound_running (used : Used image arrays i)
    (wide : 2 ^ 16 ≤ arrays.numberOfNames.toNat)
    (none : ∀ j, ¬StopsAt image arrays exportFunction i j) :
    Ends .running (functionRound dir filename exportFunction image arrays · i) events
      (.halted .running events) := by
  simp only [functionRound_of_used used]
  exact ends_running (fun _ => nameRound dir filename exportFunction image arrays i) wide
    fun j => .const (nameRound_of_not_stops (none j))

/-- The first used slot that is not passed has more than 65535 names to look at, and none of
them ends the search. -/
structure Trapped (image : LoadedImage) (arrays : ExportArrays) (exportFunction : Bytes)
    (i : UInt16) : Prop where
  used : Used image arrays i
  inside : i.toNat < arrays.numberOfFunctions.toNat
  wide : 2 ^ 16 ≤ arrays.numberOfNames.toNat
  none : ∀ j, ¬StopsAt image arrays exportFunction i j
  before : ∀ i' : UInt16, i'.toNat < i.toNat → Passes image arrays exportFunction i'

/-- **What the loops come to**: they pass, they stop, or one of them never ends. -/
theorem exportLoops_cases (image : LoadedImage) (arrays : ExportArrays) (exportFunction : Bytes) :
    (∀ i : UInt16, i.toNat < arrays.numberOfFunctions.toNat →
        Passes image arrays exportFunction i) ∨
      (∃ i j, FirstStop image arrays exportFunction i j) ∨
      ∃ i, Trapped image arrays exportFunction i := by
  by_cases all : ∀ i : UInt16, i.toNat < arrays.numberOfFunctions.toNat →
      Passes image arrays exportFunction i
  · exact Or.inl all
  refine Or.inr ?_
  obtain ⟨i, fails⟩ := not_forall.mp all
  obtain ⟨i, fails, before⟩ := exists_first (P := fun i : UInt16 =>
    i.toNat < arrays.numberOfFunctions.toNat ∧ ¬Passes image arrays exportFunction i)
    (Classical.not_imp.mp fails)
  have before : ∀ i' : UInt16, i'.toNat < i.toNat → Passes image arrays exportFunction i' :=
    fun i' below => by_contra fun fails' => before i' below ⟨by omega, fails'⟩
  obtain ⟨inside, fails⟩ := fails
  obtain ⟨used, fails⟩ := Classical.not_imp.mp fails
  by_cases some_stop : ∃ j : UInt16, j.toNat < arrays.numberOfNames.toNat ∧
      StopsAt image arrays exportFunction i j
  · obtain ⟨j, here⟩ := some_stop
    obtain ⟨j, ⟨below, stops⟩, first⟩ := exists_first (P := fun j : UInt16 =>
      j.toNat < arrays.numberOfNames.toNat ∧ StopsAt image arrays exportFunction i j) here
    exact Or.inl ⟨i, j, used, inside, below, stops,
      fun j' less stops' => first j' less ⟨by omega, stops'⟩, before⟩
  · have none (j : UInt16) (below : j.toNat < arrays.numberOfNames.toNat) :
        ¬StopsAt image arrays exportFunction i j := fun stops => some_stop ⟨j, below, stops⟩
    have wide : 2 ^ 16 ≤ arrays.numberOfNames.toNat :=
      Nat.le_of_not_lt fun short => fails ⟨short, none⟩
    exact Or.inr ⟨i, used, inside, wide,
      fun j => none j (Nat.lt_of_lt_of_le j.toNat_lt wide), before⟩

theorem exportLoops_of_passes (short : arrays.numberOfFunctions.toNat < 2 ^ 16)
    (all : ∀ i : UInt16, i.toNat < arrays.numberOfFunctions.toNat →
      Passes image arrays exportFunction i) :
    Ends .running (exportLoops dir filename exportFunction image arrays) events
      (.returned () events) :=
  ends_returned _ short fun i inside => functionRound_ends (all i inside)

theorem exportLoops_of_wide (wide : 2 ^ 16 ≤ arrays.numberOfFunctions.toNat)
    (all : ∀ i : UInt16, i.toNat < arrays.numberOfFunctions.toNat →
      Passes image arrays exportFunction i) :
    Ends .running (exportLoops dir filename exportFunction image arrays) events
      (.halted .running events) :=
  ends_running _ wide fun i => functionRound_ends (all i (Nat.lt_of_lt_of_le i.toNat_lt wide))

theorem exportLoops_of_trapped (trapped : Trapped image arrays exportFunction i) :
    Ends .running (exportLoops dir filename exportFunction image arrays) events
      (.halted .running events) :=
  ends_halted _ trapped.inside (fun i' below => functionRound_ends (trapped.before i' below))
    (functionRound_running trapped.used trapped.wide trapped.none)

end Loops

/-! ### When the loops end -/

/-- The loops end: with enough fuel they are not still running. -/
def LoopsEnd (image : LoadedImage) (arrays : ExportArrays) (exportFunction : Bytes) : Prop :=
  ∀ dir filename events, ∃ fuel,
    exportLoops dir filename exportFunction image arrays fuel events ≠ .halted .running events

section LoopsEnd

variable {image : LoadedImage} {arrays : ExportArrays} {exportFunction : Bytes}

theorem loopsEnd_of_returned
    (ends : ∀ dir filename events, Ends .running
      (exportLoops dir filename exportFunction image arrays) events (.returned () events)) :
    LoopsEnd image arrays exportFunction := fun dir filename events =>
  (ends dir filename events).ne_running_iff.mpr nofun

theorem loopsEnd_of_firstStop {i j : UInt16} (stop : FirstStop image arrays exportFunction i j) :
    LoopsEnd image arrays exportFunction := by
  intro dir filename events
  obtain ⟨belongs, null | named⟩ := stop.stops
  · exact (exportLoops_of_firstStop stop (nameRound_of_null belongs null)).ne_running_iff.mpr nofun
  · exact (exportLoops_of_firstStop stop (nameRound_of_named belongs named)).ne_running_iff.mpr
      nofun

theorem not_loopsEnd_of_running
    (ends : Ends .running (exportLoops [] [] exportFunction image arrays) []
      (.halted .running [])) : ¬LoopsEnd image arrays exportFunction := fun terminates =>
  ends.ne_running_iff.mp (terminates [] [] []) rfl

/-- **When the loops end**: there are at most 65535 functions and, if any slot is used, at most
65535 names; or some name of a used slot ends the search, and if a slot before it is used,
there are at most 65535 names. -/
theorem loopsEnd_iff (image : LoadedImage) (arrays : ExportArrays) (exportFunction : Bytes) :
    LoopsEnd image arrays exportFunction ↔
      (arrays.numberOfFunctions.toNat < 2 ^ 16 ∧
        ∀ i : UInt16, i.toNat < arrays.numberOfFunctions.toNat → Used image arrays i →
          arrays.numberOfNames.toNat < 2 ^ 16) ∨
      ∃ i j : UInt16, i.toNat < arrays.numberOfFunctions.toNat ∧ Used image arrays i ∧
        j.toNat < arrays.numberOfNames.toNat ∧ StopsAt image arrays exportFunction i j ∧
        ∀ i' : UInt16, i'.toNat < i.toNat → Used image arrays i' →
          arrays.numberOfNames.toNat < 2 ^ 16 := by
  rcases exportLoops_cases image arrays exportFunction with all | ⟨i, j, stop⟩ | ⟨i, trapped⟩
  · by_cases short : arrays.numberOfFunctions.toNat < 2 ^ 16
    · refine iff_of_true (loopsEnd_of_returned fun _ _ _ => exportLoops_of_passes short all) ?_
      exact Or.inl ⟨short, fun i inside used => (all i inside used).1⟩
    · refine iff_of_false
        (not_loopsEnd_of_running (exportLoops_of_wide (Nat.le_of_not_lt short) all)) ?_
      rintro (⟨few, -⟩ | ⟨i, j, inside, used, named, stops, -⟩)
      · exact short few
      · exact (all i inside used).2 j named stops
  · refine iff_of_true (loopsEnd_of_firstStop stop) (Or.inr ⟨i, j, stop.inside, stop.used,
      stop.named, stop.stops, fun i' below used => (stop.before i' below used).1⟩)
  · refine iff_of_false (not_loopsEnd_of_running (exportLoops_of_trapped trapped)) ?_
    have wide := trapped.wide
    rintro (⟨-, few⟩ | ⟨i', j, inside, used, named, stops, few⟩)
    · have := few i trapped.inside trapped.used
      omega
    · rcases Nat.lt_trichotomy i'.toNat i.toNat with before | same | behind
      · have := (trapped.before i' before used).1
        omega
      · obtain rfl := UInt16.toNat_inj.mp same
        exact trapped.none j stops
      · have := few i behind trapped.used
        omega

end LoopsEnd

/-- A table that says it has 65536 functions, and no names; the slots are empty. -/
def wideTable : LoadedImage where
  mappedAddress := 0x400000
  fileSize := 0x80000
  sections := [⟨0x1000, 0x80000, 0x80000, 0⟩]
  importDirectory := ⟨0, 0⟩
  exportDirectory := ⟨0x1000, 40⟩
  memory := fun p => ([0, 0, 0, 0, 0, 0x10000, 0, 0x1040, 0x1040, 0x1040].flatMap
    LoadedImage.dwordBytes).getD (p - 0x400000).toNat 0
  fits := by decide

/-- The counter of the functions begins again before it reaches 65536. -/
theorem not_loopsEnd_wide :
    ¬LoopsEnd wideTable (exportArrays wideTable 0x400000) (text "f") := by
  have arrays : exportArrays wideTable 0x400000 = ⟨0x400040, 0x400040, 0x400040, 0x10000, 0⟩ := by
    decide +kernel
  rw [arrays]
  refine not_loopsEnd_of_running (exportLoops_of_wide (by decide) fun i _ used => absurd ?_ used)
  have empty (k : UInt32) (behind : 40 ≤ k.toNat) : wideTable.memory (0x400000 + k) = 0 := by
    have offset : (0x400000 + k - 0x400000 : UInt32) = k := by grind
    show List.getD _ (0x400000 + k - 0x400000 : UInt32).toNat 0 = 0
    rw [offset, List.getD_eq_getElem?_getD, List.getElem?_eq_none behind]
    rfl
  refine LoadedImage.dword_of_zero fun k inside => ?_
  have low : k.toNat < 4 := by
    simp only [List.mem_cons, List.not_mem_nil, or_false] at inside
    rcases inside with rfl | rfl | rfl | rfl <;> decide
  have index := i.toNat_lt
  have place : (0x400040 + 4 * i.toUInt32 + k : UInt32) =
      0x400000 + (0x40 + 4 * i.toUInt32 + k) := by grind
  rw [place]
  refine empty _ ?_
  rw [UInt32.toNat_add, UInt32.toNat_add, UInt32.toNat_mul, UInt16.toNat_toUInt32]
  change 40 ≤ ((64 + 4 * i.toNat % 2 ^ 32) % 2 ^ 32 + k.toNat) % 2 ^ 32
  omega

end MsysGit.Depends
