import MsysGit.Depends.Directory
import MsysGit.Depends.Mappings

/-!
# Searching a tree for an export

`SearchExport` searches the executables of a tree, one after the other.  A match ends the
process, so that there is at most one line, for the first file that has one.

`wp_searchFiles_exports` says what is printed, and `searchExport_right_iff` when that is a
match for each file that exports the function.
-/

namespace MsysGit.Depends

open MsysGit.Library MsysGit.Library.CString Filter

/-! ### The code -/

/-- `EXECUTABLES` -/
def executables : Bytes := text "*.exe;*.dll;*.sys;*.pyd"

/-- `SearchExport`, of a directory with these entries. -/
def searchExport (hlp : ImageHlp) (exportFunction sourcePath : Bytes) (readable : Bool)
    (entries : List Tree) (failure : Option UInt32) (fuel : ℕ) : Logged ℤ :=
  match (do
    directoryOpen sourcePath readable
    directorySearch (some executables) sourcePath entries failure : Except Failure _) with
  | .error failure => do
      log (.error failure.message)
      pure (-1)
  | .ok results => do
      searchFiles hlp (.exports exportFunction) fuel results
      pure 0

/-! ### Lines -/

section Lines

variable {exportFunction : Bytes}

/-- The line says that the file at the path exports the function. -/
def IsMatchLine (exportFunction path line : Bytes) : Prop :=
  ∃ dir filename name, splitPath path = some (dir, filename) ∧
    stricmpEq name exportFunction = true ∧ line = exportLine dir filename name

/-- A match for the file is printed. -/
def PrintsMatch (exportFunction : Bytes) (events : List Event) (path : Bytes) : Prop :=
  ∃ line, IsMatchLine exportFunction path line ∧ .print line ∈ events

/-- A path is its two parts with a backslash between them. -/
theorem eq_of_splitPath {path dir filename : Bytes}
    (splits : splitPath path = some (dir, filename)) : path = dir ++ 92 :: filename := by
  rw [splitPath, Option.map_eq_some_iff] at splits
  obtain ⟨rest, found, same⟩ := splits
  have inside : 92 ∈ path := by
    by_contra none
    rw [strrchr_of_notMem none] at found
    cases found
  obtain ⟨before, after, split, last⟩ := List.eq_append_cons_of_mem (List.mem_reverse.mpr inside)
  obtain rfl : path = after.reverse ++ 92 :: before.reverse := by
    rw [← List.reverse_reverse path, split]
    simp
  rw [strrchr_append fun inside => last (List.mem_reverse.mp inside)] at found
  obtain rfl := Option.some.inj found
  obtain ⟨rfl, rfl⟩ := Prod.mk.inj same
  simp

/-- A line belongs to one path. -/
theorem IsMatchLine.unique {path path' line : Bytes} (here : IsMatchLine exportFunction path line)
    (there : IsMatchLine exportFunction path' line) : path = path' := by
  obtain ⟨dir, filename, name, splits, same, rfl⟩ := here
  obtain ⟨dir', filename', name', splits', same', equal⟩ := there
  rw [eq_of_splitPath splits, eq_of_splitPath splits']
  have length : name.length = name'.length := by
    have := congrArg List.length ((of_decide_eq_true same).trans (of_decide_eq_true same').symm)
    rwa [List.length_map, List.length_map] at this
  have named := (List.append_inj' equal rfl).1
  have exported := (List.append_inj' named length).1
  have found := (List.append_inj' exported rfl).1
  simp only [List.append_assoc] at found
  exact List.append_cancel_left found

/-- The first line of a search is no match. -/
theorem not_isMatchLine_loading {path filename : Bytes} :
    ¬IsMatchLine exportFunction path (text "Loading " ++ filename ++ text "\n") := by
  rintro ⟨dir, filename', name, -, -, same⟩
  have first := congrArg List.head? same
  simp [exportLine, text] at first

end Lines

/-! ### What is printed for a file -/

/-- A file is passed over: it has no export table, or a broken one, or nothing is found. -/
def PassedOver (hlp : ImageHlp) (exportFunction path : Bytes) : Prop :=
  ∀ image, Maps hlp path image → image.exportDirectory.virtualAddress = 0 ∨ Malformed image ∨
    FindsNothing image exportFunction

/-- There is an export table, and it is not refused. -/
def HasExports (image : LoadedImage) : Prop :=
  image.exportDirectory.virtualAddress ≠ 0 ∧ ¬Malformed image

/-- The search in the file comes to a match. -/
def IsHit (hlp : ImageHlp) (exportFunction path : Bytes) : Prop :=
  ∃ image, Maps hlp path image ∧ HasExports image ∧ FindsMatch image exportFunction

section File

variable {hlp : ImageHlp} {exportFunction path : Bytes} {events : List Event}

theorem Maps.unique {image image' : LoadedImage} (maps : Maps hlp path image)
    (maps' : Maps hlp path image') : image = image' := by
  obtain ⟨dir, filename, splits, loaded⟩ := maps
  obtain ⟨dir', filename', splits', loaded'⟩ := maps'
  obtain ⟨rfl, rfl⟩ := Prod.mk.inj (Option.some.inj (splits.symm.trans splits'))
  exact Option.some.inj (loaded.symm.trans loaded')

/-- Lines that are no matches. -/
def NoMatch (exportFunction : Bytes) (more : List Event) : Prop :=
  ∀ path, ¬PrintsMatch exportFunction more path

theorem printsMatch_append {more : List Event} : PrintsMatch exportFunction (events ++ more) path ↔
    PrintsMatch exportFunction events path ∨ PrintsMatch exportFunction more path := by
  simp only [PrintsMatch, List.mem_append, and_or_left, exists_or]

theorem NoMatch.of_silent {more : List Event} (silent : ¬Printed more) :
    NoMatch exportFunction more := fun _ ⟨line, _, inside⟩ => silent ⟨line, inside⟩

theorem NoMatch.nil : NoMatch exportFunction [] := .of_silent not_printed_nil

theorem NoMatch.of_preface {lines : List Event} (preface : Preface lines) :
    NoMatch exportFunction lines := by
  rintro path ⟨line, here, inside⟩
  obtain ⟨filename, rfl⟩ := preface.loading line inside
  exact not_isMatchLine_loading here

/-- Behind lines that are no matches, nothing new is printed. -/
theorem NoMatch.printsMatch {more : List Event} (none : NoMatch exportFunction more)
    (prints : PrintsMatch exportFunction (events ++ more) path) :
    PrintsMatch exportFunction events path :=
  (printsMatch_append.mp prints).resolve_right (none path)

/-- The search in an image returns without a match, or ends at one. -/
theorem wp_searchExportTable {dir filename : Bytes} {image : LoadedImage} {fuel : ℕ} :
    (searchExportTable hlp dir filename exportFunction image fuel).wp events
      (fun _ events' => (image.exportDirectory.virtualAddress = 0 ∨ Malformed image ∨
          FindsNothing image exportFunction) ∧
        ∃ more, events' = events ++ more ∧ NoMatch exportFunction more)
      (fun _ events' => events' = events ∨ HasExports image ∧ FindsMatch image exportFunction ∧
        ∃ name, stricmpEq name exportFunction = true ∧
          events' = events ++ [.print (exportLine dir filename name)]) := by
  by_cases exports : image.exportDirectory.virtualAddress = 0
  · rw [searchExportTable_of_none _ _ _ exports]
    exact ⟨Or.inl exports, [], (List.append_nil _).symm, .nil⟩
  by_cases malformed : Malformed image
  · obtain ⟨message, run⟩ :=
      searchExportTable_of_malformed exportFunction hlp dir filename exports malformed
    rw [run]
    exact wp_fail fun more unmaps =>
      ⟨Or.inr (Or.inl malformed), more, rfl, .of_silent unmaps.silent⟩
  rw [searchExportTable_of_sound _ _ _ exports malformed, Program.wp_bind]
  have running {why : Stop} (halts : exportLoops dir filename exportFunction image
      (arraysOf image) fuel events = .halted why events) {Q : Unit → List Event → Prop}
      {P : List Event → Prop} :
      (exportLoops dir filename exportFunction image (arraysOf image) fuel).wp events Q
        (fun _ events' => events' = events ∨ P events') := by
    rw [Program.wp, halts]
    exact Or.inl rfl
  by_cases nothing : FindsNothing image exportFunction
  · rcases (nothing.returns dir filename events).early fuel with runs | returns
    · exact running runs
    · rw [Program.wp, returns]
      exact ⟨Or.inr (Or.inr nothing), [], (List.append_nil _).symm,
        .nil⟩
  by_cases found : FindsMatch image exportFunction
  · obtain ⟨name, same, ends⟩ := found.exits dir filename events
    rcases ends.early fuel with runs | exits
    · exact running runs
    · rw [Program.wp, exits]
      exact Or.inr ⟨⟨exports, malformed⟩, found, name, same, rfl⟩
  · obtain ⟨why, -, halts⟩ := exportLoops_halts dir filename events nothing found fuel
    exact running halts

/-- **What is printed for a file**: only where the search in it comes to a match, one for the
file itself. -/
theorem wp_search_exports {fuel : ℕ} :
    (searchWithImageHlp hlp (.exports exportFunction) path fuel).wp events
      (fun _ events' => PassedOver hlp exportFunction path ∧
        ∀ other, PrintsMatch exportFunction events' other →
          PrintsMatch exportFunction events other)
      (fun _ events' => ∀ other, PrintsMatch exportFunction events' other →
        PrintsMatch exportFunction events other ∨
          other = path ∧ IsHit hlp exportFunction path) := by
  by_cases mapped : ∃ image, Maps hlp path image
  · obtain ⟨image, maps⟩ := mapped
    obtain ⟨dir, filename, splits, loaded⟩ := id maps
    obtain ⟨lines, preface, run⟩ :=
      searchWithImageHlp_of_maps (.exports exportFunction) splits loaded
    have before {other : Bytes} (prints : PrintsMatch exportFunction
        (events ++ lines ++ [.mapped]) other) : PrintsMatch exportFunction events other :=
      NoMatch.printsMatch (.of_preface preface)
        (NoMatch.printsMatch (.of_silent (by simp)) prints)
    rw [Program.wp, run, ← Program.wp]
    refine Program.wp_mono wp_searchExportTable (fun _ events' returned => ?_)
      fun _ events' halted => ?_
    · obtain ⟨skipped, more, rfl, none⟩ := returned
      exact ⟨fun image' maps' => maps.unique maps' ▸ skipped,
        fun other prints => before (none.printsMatch prints)⟩
    · intro other prints
      rcases halted with rfl | ⟨exports, found, name, same, rfl⟩
      · exact Or.inl (before prints)
      · refine (printsMatch_append.mp prints).imp before ?_
        rintro ⟨line, here, inside⟩
        obtain rfl : line = exportLine dir filename name := by simpa using inside
        exact ⟨here.unique ⟨dir, filename, name, splits, same, rfl⟩, image, maps, exports, found⟩
  · obtain ⟨lines, preface, run⟩ :=
      searchWithImageHlp_of_none (.exports exportFunction) mapped
    rw [Program.wp, run]
    exact ⟨fun image maps => absurd ⟨image, maps⟩ mapped,
      fun other prints => NoMatch.printsMatch (.of_preface preface) prints⟩

/-- A search that comes to a match says so, with enough fuel. -/
theorem IsHit.prints (hit : IsHit hlp exportFunction path) (events : List Event) :
    ∀ᶠ fuel in atTop, ∃ events', searchWithImageHlp hlp (.exports exportFunction) path fuel events =
      .halted .exit events' ∧ PrintsMatch exportFunction events' path := by
  obtain ⟨image, ⟨dir, filename, splits, loaded⟩, ⟨exports, sound⟩, found⟩ := hit
  obtain ⟨lines, -, run⟩ :=
    searchWithImageHlp_of_maps (.exports exportFunction) splits loaded
  obtain ⟨name, same, ends⟩ := found.exits dir filename (events ++ lines ++ [.mapped])
  refine ends.late.mono fun fuel exits =>
    ⟨events ++ lines ++ [.mapped] ++ [.print (exportLine dir filename name)], ?_, ?_⟩
  · rw [run, searchTable, searchExportTable_of_sound _ _ _ exports sound,
      Program.bind_of_halted exits]
  · exact ⟨_, ⟨dir, filename, name, splits, same, rfl⟩,
      List.mem_append_right _ List.mem_cons_self⟩

/-- A file that is passed over leaves the same log, with enough fuel. -/
theorem PassedOver.returns (skipped : PassedOver hlp exportFunction path) (events : List Event) :
    ∃ events', ∀ᶠ fuel in atTop, ∃ value,
      searchWithImageHlp hlp (.exports exportFunction) path fuel events =
        .returned value events' := by
  by_cases mapped : ∃ image, Maps hlp path image
  · obtain ⟨image, maps⟩ := mapped
    obtain ⟨dir, filename, splits, loaded⟩ := id maps
    obtain ⟨lines, -, run⟩ :=
      searchWithImageHlp_of_maps (.exports exportFunction) splits loaded
    simp only [run, searchTable]
    by_cases exports : image.exportDirectory.virtualAddress = 0
    · exact ⟨_, .of_forall fun fuel => ⟨0, by rw [searchExportTable_of_none _ _ _ exports]; rfl⟩⟩
    by_cases malformed : Malformed image
    · obtain ⟨message, fails⟩ :=
        searchExportTable_of_malformed exportFunction hlp dir filename exports malformed
      simp only [fails]
      cases ended : fail hlp filename image message (events ++ lines ++ [.mapped]) with
      | returned value events' => exact ⟨events', .of_forall fun _ => ⟨value, rfl⟩⟩
      | halted why events' =>
          have never : (fail hlp filename image message).wp (events ++ lines ++ [.mapped])
              (fun _ _ => True) fun _ _ => False := wp_fail fun _ _ => trivial
          rw [Program.wp, ended] at never
          exact never.elim
    · have nothing := ((skipped image maps).resolve_left exports).resolve_left malformed
      have ends := nothing.returns dir filename (events ++ lines ++ [.mapped])
      refine ⟨events ++ lines ++ [.mapped], ends.late.mono fun fuel returns => ⟨0, ?_⟩⟩
      rw [searchExportTable_of_sound _ _ _ exports malformed, Program.bind_of_returned returns]
      rfl
  · obtain ⟨lines, -, run⟩ :=
      searchWithImageHlp_of_none (.exports exportFunction) mapped
    exact ⟨_, .of_forall fun fuel => ⟨-1, run fuel events⟩⟩

end File

/-! ### What is printed for a list of files -/

/-- The file is the first of the list that the search comes to a match in, and all files before
it are passed over. -/
def FirstHit (hlp : ImageHlp) (exportFunction : Bytes) (results : List Bytes) (path : Bytes) :
    Prop :=
  ∃ before after, results = before ++ path :: after ∧
    (∀ other ∈ before, PassedOver hlp exportFunction other) ∧ IsHit hlp exportFunction path

section Files

variable {hlp : ImageHlp} {exportFunction path : Bytes} {results : List Bytes}

/-- **What is printed for the files**: a match for the first hit, at most. -/
theorem wp_searchFiles_exports {fuel : ℕ} {events : List Event} :
    (searchFiles hlp (.exports exportFunction) fuel results).wp events
      (fun _ events' => ∀ path, PrintsMatch exportFunction events' path →
        PrintsMatch exportFunction events path ∨ FirstHit hlp exportFunction results path)
      (fun _ events' => ∀ path, PrintsMatch exportFunction events' path →
        PrintsMatch exportFunction events path ∨ FirstHit hlp exportFunction results path) := by
  induction results generalizing events with
  | nil => exact fun path prints => Or.inl prints
  | cons file results ih =>
      rw [searchFiles, Program.wp_bind]
      refine Program.wp_mono wp_search_exports (fun _ events₁ returned => ?_)
        fun _ events₁ halted path prints => (halted path prints).imp_right ?_
      · obtain ⟨skipped, before⟩ := returned
        have later (path : Bytes) (hit : FirstHit hlp exportFunction results path) :
            FirstHit hlp exportFunction (file :: results) path := by
          obtain ⟨front, after, rfl, passed, here⟩ := hit
          exact ⟨file :: front, after, rfl, List.forall_mem_cons.mpr ⟨skipped, passed⟩, here⟩
        exact Program.wp_mono ih
          (fun _ _ run path prints => (run path prints).imp (before path) (later path))
          fun _ _ run path prints => (run path prints).imp (before path) (later path)
      · rintro ⟨rfl, hit⟩
        exact ⟨[], results, rfl, fun _ none => absurd none List.not_mem_nil, hit⟩

/-- The first hit is printed, with enough fuel. -/
theorem FirstHit.prints (first : FirstHit hlp exportFunction results path) (events : List Event) :
    ∀ᶠ fuel in atTop, ∃ events', searchFiles hlp (.exports exportFunction) fuel results events =
      .halted .exit events' ∧ PrintsMatch exportFunction events' path := by
  obtain ⟨before, after, rfl, passed, hit⟩ := first
  induction before generalizing events with
  | nil =>
      refine (hit.prints events).mono fun fuel ⟨events', exits, prints⟩ => ⟨events', ?_, prints⟩
      exact Program.bind_of_halted exits
  | cons file before ih =>
      obtain ⟨skipped, passed⟩ := List.forall_mem_cons.mp passed
      obtain ⟨events₁, returns⟩ := skipped.returns events
      filter_upwards [returns, ih events₁ passed] with fuel ⟨value, here⟩ ⟨events', exits, prints⟩
      refine ⟨events', ?_, prints⟩
      rw [List.cons_append, searchFiles, Program.bind_of_returned here, exits]

end Files

/-! ### What is asked for -/

/-- The table of the image gives the name to a used slot; the two numbers have 32 bits. -/
def ExportsName (image : LoadedImage) (exportFunction : Bytes) : Prop :=
  HasExports image ∧ ∃ i j : UInt32,
    i.toNat < (arraysOf image).numberOfFunctions.toNat ∧
    image.dword ((arraysOf image).functions + 4 * i) ≠ 0 ∧
    j.toNat < (arraysOf image).numberOfNames.toNat ∧
    (image.word ((arraysOf image).nameOrdinals + 2 * j)).toUInt32 = i ∧
    getAddressFromRVA image (image.dword ((arraysOf image).names + 4 * j)) ≠ 0 ∧
    stricmpEq (image.string (getAddressFromRVA image
      (image.dword ((arraysOf image).names + 4 * j)))) exportFunction = true

/-- The file at the path exports the function. -/
def ExportedBy (hlp : ImageHlp) (exportFunction path : Bytes) : Prop :=
  ∃ image, Maps hlp path image ∧ ExportsName image exportFunction

section Right

variable {hlp : ImageHlp} {exportFunction sourcePath path : Bytes} {readable : Bool}
  {entries : List Tree} {failure : Option UInt32}

/-- A match is printed for each file of the tree that exports the function. -/
def FindsAll (hlp : ImageHlp) (exportFunction sourcePath : Bytes) (readable : Bool)
    (entries : List Tree) (failure : Option UInt32) : Prop :=
  ∀ file ∈ filesIn sourcePath false entries, ExportedBy hlp exportFunction file.path →
    ∃ fuel, (searchExport hlp exportFunction sourcePath readable entries failure fuel).wp []
      (fun _ events => PrintsMatch exportFunction events file.path)
      fun _ events => PrintsMatch exportFunction events file.path

/-- What `executables` is read as. -/
def executableWildcards : Option (List Bytes) :=
  some [text "*.exe", text "*.dll", text "*.sys", text "*.pyd"]

/-- The directories of the tree can be read, and the paths of its executables are short. -/
structure Searchable (sourcePath : Bytes) (readable : Bool) (entries : List Tree)
    (failure : Option UInt32) : Prop where
  opens : Opens sourcePath readable
  listed : failure = none
  readable : ReadableIn sourcePath entries
  short : PickedShort executableWildcards (filesIn sourcePath false entries)

/-- The executables of the tree, in the order of the search. -/
def executablesIn (sourcePath : Bytes) (entries : List Tree) : List Bytes :=
  picked executableWildcards (filesIn sourcePath false entries)

theorem results_eq_ok {results : List Bytes} :
    (do directoryOpen sourcePath readable
        directorySearch (some executables) sourcePath entries failure : Except Failure _) =
        .ok results ↔
      Searchable sourcePath readable entries failure ∧
        results = executablesIn sourcePath entries := by
  have parsed : splitWildcards (some executables) = .ok executableWildcards := by decide
  rw [bind_eq_ok_iff]
  simp only [directoryOpen_eq_ok, directorySearch_eq_ok parsed]
  constructor
  · rintro ⟨_, opens, ⟨listed, readable', short⟩, whole⟩
    exact ⟨⟨opens, listed, readable', short⟩, whole⟩
  · rintro ⟨⟨opens, listed, readable', short⟩, whole⟩
    exact ⟨(), opens, ⟨listed, readable', short⟩, whole⟩

/-- A file of the tree is reported if and only if the search comes to a match in it. -/
theorem reported_iff :
    (∃ fuel, (searchExport hlp exportFunction sourcePath readable entries failure fuel).wp []
      (fun _ events => PrintsMatch exportFunction events path)
      fun _ events => PrintsMatch exportFunction events path) ↔
    Searchable sourcePath readable entries failure ∧
      FirstHit hlp exportFunction (executablesIn sourcePath entries) path := by
  simp only [searchExport]
  cases result : (do
      directoryOpen sourcePath readable
      directorySearch (some executables) sourcePath entries failure : Except Failure _) with
  | error error =>
      refine iff_of_false ?_ fun both => ?_
      · rintro ⟨fuel, prints⟩
        exact NoMatch.of_silent (by simp) path prints
      · rw [results_eq_ok.mpr ⟨both.1, rfl⟩] at result
        cases result
  | ok results =>
      obtain ⟨searchable, rfl⟩ := results_eq_ok.mp result
      simp only [and_iff_right searchable, Program.wp_bind, Program.wp_pure]
      constructor
      · rintro ⟨fuel, prints⟩
        exact Program.wp_elim prints wp_searchFiles_exports
          (fun _ _ here run => (run path here).resolve_left (NoMatch.nil path))
          fun _ _ here run => (run path here).resolve_left (NoMatch.nil path)
      · intro first
        obtain ⟨fuel, events, exits, prints⟩ := (first.prints []).exists
        refine ⟨fuel, ?_⟩
        rw [Program.wp, exits]
        exact prints

/-- **When a match is printed for each file that exports the function**: it is the first of the
executables that the search comes to a match in, and the tree can be searched. -/
theorem searchExport_right_iff (hlp : ImageHlp) (exportFunction sourcePath : Bytes)
    (readable : Bool) (entries : List Tree) (failure : Option UInt32) :
    FindsAll hlp exportFunction sourcePath readable entries failure ↔
      ∀ file ∈ filesIn sourcePath false entries, ExportedBy hlp exportFunction file.path →
        Searchable sourcePath readable entries failure ∧
          FirstHit hlp exportFunction (executablesIn sourcePath entries) file.path :=
  forall₃_congr fun _ _ _ => reported_iff

end Right

/-- Where nothing is found, there was nothing to find. -/
theorem FindsNothing.not_exportsName {image : LoadedImage} {exportFunction : Bytes}
    (nothing : FindsNothing image exportFunction) : ¬ExportsName image exportFunction := by
  rintro ⟨-, i, j, inside, used, named, rfl, there, same⟩
  obtain ⟨few, passes⟩ := nothing
  rw [UInt16.toNat_toUInt32] at inside
  obtain ⟨short, none⟩ := passes _ inside used
  have whole : (UInt16.ofNat j.toNat).toUInt32 = j := by
    apply UInt32.toNat_inj.mp
    rw [UInt16.toNat_toUInt32, UInt16.toNat_ofNat_of_lt' (Nat.lt_trans named short)]
  have index : (UInt16.ofNat j.toNat).toNat = j.toNat :=
    UInt16.toNat_ofNat_of_lt' (Nat.lt_trans named short)
  refine none (UInt16.ofNat j.toNat) (index.symm ▸ named) ⟨?_, Or.inr ⟨?_, ?_⟩⟩
  · rw [BelongsTo, whole]
  · rw [functionName, whole]
    exact there
  · rw [functionName, whole]
    exact same

/-- A library that exports `f`. -/
def exportsF : LoadedImage := .ofBytes ⟨0, 0⟩ ⟨0x1000, 40⟩
  ([0, 0, 0, 0, 0, 1, 1, 0x1028, 0x102c, 0x1030, 0x1000, 0x1034, 0].flatMap
    LoadedImage.dwordBytes ++ text "f" ++ [0])

theorem exportsName_exportsF : ExportsName exportsF (text "f") := by
  refine ⟨⟨by decide, ?_⟩, 0, 0, by decide +kernel⟩
  unfold Malformed
  decide +kernel

/-- Of two libraries that export the function, the second one is not reported. -/
theorem not_findsAll_second :
    ¬FindsAll ⟨fun _ _ => some exportsF, fun _ => none⟩ (text "f") (text "d") true
      [.file (text "a.dll"), .file (text "b.dll")] none := by
  intro all
  have exported {path dir filename : Bytes} (splits : splitPath path = some (dir, filename)) :
      Maps ⟨fun _ _ => some exportsF, fun _ => none⟩ path exportsF := ⟨dir, filename, splits, rfl⟩
  have second := all ⟨text "d", text "b.dll", false⟩ (by simp [filesIn, filesOf])
    ⟨exportsF, exported rfl, exportsName_exportsF⟩
  obtain ⟨-, before, after, split, passed, -⟩ := reported_iff.mp second
  have files : executablesIn (text "d") [.file (text "a.dll"), .file (text "b.dll")] =
      [text "d\\a.dll", text "d\\b.dll"] := by decide
  rw [files] at split
  rcases List.cons_eq_append_iff.mp split with ⟨-, same⟩ | ⟨others, rfl, -⟩
  · exact absurd (List.cons.inj same).1 (by decide)
  · have first := passed (text "d\\a.dll") List.mem_cons_self exportsF (exported rfl)
    obtain ⟨exports, sound⟩ := exportsName_exportsF.1
    exact ((first.resolve_left exports).resolve_left sound).not_exportsName exportsName_exportsF

end MsysGit.Depends
