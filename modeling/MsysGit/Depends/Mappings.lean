import MsysGit.Depends.ExportSearch

/-!
# What stays mapped

Both searches map an image and clean up by hand wherever they return.  A log is `Paired` if
each mapping in it is followed by one `UnMapAndLoad`, before the next; `mappings_paired_iff`
says for which images a call keeps to that, and that a search over files that are all of this
kind never holds more than one image.
-/

namespace MsysGit.Depends

open MsysGit.Library MsysGit.Library.CString

/-! ### A search over files -/

/-- What is looked for; `main` decides by the `-e`. -/
inductive Asked
  | imports (importDLL : Bytes) (importFunction : Option Bytes)
  | exports (exportFunction : Bytes)

/-- The search in one file. -/
def searchWithImageHlp (hlp : ImageHlp) (asked : Asked) (inputPath : Bytes) (fuel : ℕ) :
    Logged ℤ :=
  match asked with
  | .imports importDLL importFunction =>
      searchImportWithImageHlp hlp inputPath importDLL importFunction fuel
  | .exports exportFunction => searchExportWithImageHlp hlp inputPath exportFunction fuel

/-- The loop of `SearchImport` and `SearchExport` over the results of `DirectorySearch`. -/
def searchFiles (hlp : ImageHlp) (asked : Asked) (fuel : ℕ) : List Bytes → Logged Unit
  | [] => pure ()
  | filePath :: results => do
      let _ ← searchWithImageHlp hlp asked filePath fuel
      searchFiles hlp asked fuel results

/-! ### Logs -/

/-- A number of mappings, each with its `UnMapAndLoad`. -/
def turns (n : ℕ) : List Event := (List.replicate n [.mapped, .unmapped]).flatten

/-- Each mapping is followed by one `UnMapAndLoad`, before the next mapping. -/
def Paired (events : List Event) : Prop := ∃ n, mapping events = turns n

/-- At no time is more than one image mapped. -/
def HoldsOne (events : List Event) : Prop :=
  ∀ earlier, earlier <+: events → earlier.count .mapped ≤ earlier.count .unmapped + 1

/-- The mappings take turns; the last one may still be there. -/
def InTurn (events : List Event) : Prop := ∃ n, mapping events <+: turns n

theorem turns_succ (n : ℕ) : turns (n + 1) = .mapped :: .unmapped :: turns n := rfl

theorem turns_add (n m : ℕ) : turns (n + m) = turns n ++ turns m := by
  rw [turns, List.replicate_add, List.flatten_append]
  rfl

theorem Paired.of_silent {events : List Event} (none : mapping events = []) : Paired events :=
  ⟨0, none⟩

theorem Paired.of_turn {events : List Event} (one : mapping events = [.mapped, .unmapped]) :
    Paired events := ⟨1, one⟩

/-- A mapping alone is not paired. -/
theorem not_paired_of_mapped {events : List Event} (one : mapping events = [.mapped]) :
    ¬Paired events := by
  rintro ⟨n, whole⟩
  cases n with
  | zero => exact absurd (one.symm.trans whole) (List.cons_ne_nil _ _)
  | succ n =>
      have tail := (List.cons.inj (one.symm.trans whole)).2
      exact absurd tail.symm (List.cons_ne_nil _ _)

theorem Paired.append {events more : List Event} (paired : Paired events) (later : Paired more) :
    Paired (events ++ more) := by
  obtain ⟨n, before⟩ := paired
  obtain ⟨m, after⟩ := later
  exact ⟨n + m, by rw [mapping_append, before, after, turns_add]⟩

theorem Paired.append_inTurn {events more : List Event} (paired : Paired events)
    (later : InTurn more) : InTurn (events ++ more) := by
  obtain ⟨n, before⟩ := paired
  obtain ⟨m, after⟩ := later
  refine ⟨n + m, ?_⟩
  rw [mapping_append, before, turns_add]
  exact List.prefix_append_right_inj _ |>.mpr after

theorem Paired.inTurn {events : List Event} (paired : Paired events) : InTurn events := by
  obtain ⟨n, whole⟩ := paired
  exact ⟨n, whole ▸ List.prefix_refl _⟩

theorem count_of_prefix_turns {events : List Event} {n : ℕ} (part : events <+: turns n) :
    events.count .mapped ≤ events.count .unmapped + 1 := by
  induction n generalizing events with
  | zero =>
      rw [List.prefix_nil.mp part]
      decide
  | succ n ih =>
      rw [turns_succ] at part
      rcases List.prefix_cons_iff.mp part with rfl | ⟨tail, rfl, behind⟩
      · decide
      rcases List.prefix_cons_iff.mp behind with rfl | ⟨rest, rfl, others⟩
      · decide
      · have := ih others
        simp only [List.count_cons_self, List.count_cons_of_ne, ne_eq, reduceCtorEq,
          not_false_eq_true]
        omega

/-- Where the mappings take turns, only one is there at a time. -/
theorem InTurn.holdsOne {events : List Event} (turn : InTurn events) : HoldsOne events := by
  obtain ⟨n, part⟩ := turn
  intro earlier first
  have counted (e : Event) (seen : (decide (e = .mapped) || decide (e = .unmapped)) = true) :
      (mapping earlier).count e = earlier.count e := List.count_filter seen
  rw [← counted .mapped rfl, ← counted .unmapped rfl]
  exact count_of_prefix_turns ((first.filter _).trans part)

/-! ### The search in an export table -/

section Exports

variable {exportFunction : Bytes} {image : LoadedImage}

/-- The arrays of the export table of an image. -/
def arraysOf (image : LoadedImage) : ExportArrays :=
  exportArrays image (getAddressFromRVA image image.exportDirectory.virtualAddress)

/-- The export table is refused, with a message. -/
def Malformed (image : LoadedImage) : Prop :=
  image.exportDirectory.size < 40 ∨
    getAddressFromRVA image image.exportDirectory.virtualAddress = 0 ∨
    (arraysOf image).functions = 0 ∨ (arraysOf image).nameOrdinals = 0 ∨
    (arraysOf image).names = 0

/-- The loops come to their end, and find nothing. -/
def FindsNothing (image : LoadedImage) (exportFunction : Bytes) : Prop :=
  (arraysOf image).numberOfFunctions.toNat < 2 ^ 16 ∧
    ∀ i : UInt16, i.toNat < (arraysOf image).numberOfFunctions.toNat →
      Passes image (arraysOf image) exportFunction i

/-- The loops come to a match. -/
def FindsMatch (image : LoadedImage) (exportFunction : Bytes) : Prop :=
  ∃ i j, FirstStop image (arraysOf image) exportFunction i j ∧ IsNamed image (arraysOf image)
    exportFunction j

variable (hlp : ImageHlp) (dir filename : Bytes) (events : List Event)

theorem searchExportTable_of_none (none : image.exportDirectory.virtualAddress = 0) (fuel : ℕ) :
    searchExportTable hlp dir filename exportFunction image fuel = pure 0 := if_pos none

variable (exportFunction) in
theorem searchExportTable_of_malformed (exports : image.exportDirectory.virtualAddress ≠ 0)
    (malformed : Malformed image) :
    ∃ message, ∀ fuel, searchExportTable hlp dir filename exportFunction image fuel =
      fail hlp filename image message := by
  have run (fuel : ℕ) : searchExportTable hlp dir filename exportFunction image fuel = _ :=
    if_neg exports
  simp only [run]
  split_ifs with short null broken
  · exact ⟨_, fun _ => rfl⟩
  · exact ⟨_, fun _ => rfl⟩
  · exact ⟨_, fun _ => rfl⟩
  · exact absurd malformed (not_or.mpr ⟨short, not_or.mpr ⟨null, broken⟩⟩)

theorem searchExportTable_of_sound (exports : image.exportDirectory.virtualAddress ≠ 0)
    (sound : ¬Malformed image) (fuel : ℕ) :
    searchExportTable hlp dir filename exportFunction image fuel = (do
      exportLoops dir filename exportFunction image (arraysOf image) fuel
      pure 0) := by
  obtain ⟨long, there, arrays⟩ : _ ∧ _ ∧ _ := by
    simpa only [Malformed, not_or] using sound
  rw [searchExportTable]
  dsimp only
  rw [if_neg exports, if_neg long, if_neg there]
  exact if_neg (by simpa only [arraysOf, not_or] using arrays)

theorem FindsNothing.returns (nothing : FindsNothing image exportFunction) :
    Ends .running (exportLoops dir filename exportFunction image (arraysOf image)) events
      (.returned () events) := exportLoops_of_passes nothing.1 nothing.2

/-- The first match is printed, and ends the process. -/
theorem FindsMatch.exits (found : FindsMatch image exportFunction) :
    ∃ name, stricmpEq name exportFunction = true ∧
      Ends .running (exportLoops dir filename exportFunction image (arraysOf image)) events
        (.halted .exit (events ++ [.print (exportLine dir filename name)])) := by
  obtain ⟨i, j, stop, named⟩ := found
  exact ⟨_, named.2, exportLoops_of_firstStop stop (nameRound_of_named stop.stops.1 named)⟩

/-- Where nothing is found and nothing matches, the process crashes or never ends. -/
theorem exportLoops_halts (more : ¬FindsNothing image exportFunction)
    (other : ¬FindsMatch image exportFunction) (fuel : ℕ) :
    ∃ why, why ≠ .exit ∧
      exportLoops dir filename exportFunction image (arraysOf image) fuel events =
        .halted why events := by
  have running (ends : Ends .running
      (exportLoops dir filename exportFunction image (arraysOf image)) events
      (.halted .running events)) : exportLoops dir filename exportFunction image (arraysOf image)
        fuel events = .halted .running events := (ends.early fuel).elim id id
  rcases exportLoops_cases image (arraysOf image) exportFunction with all | ⟨i, j, stop⟩ | ⟨i, in_i⟩
  · have wide := Nat.le_of_not_lt fun short => more ⟨short, all⟩
    exact ⟨.running, nofun, running (exportLoops_of_wide wide all)⟩
  · obtain ⟨belongs, null | named⟩ := stop.stops
    · rcases (exportLoops_of_firstStop stop (nameRound_of_null belongs null)).early fuel with
        runs | crashed
      · exact ⟨.running, nofun, runs⟩
      · exact ⟨.nullPointer, nofun, crashed⟩
    · exact absurd ⟨i, j, stop, named⟩ other
  · exact ⟨.running, nofun, running (exportLoops_of_trapped in_i)⟩

end Exports

/-! ### What a call leaves mapped -/

/-- The image is mapped for the path. -/
def Maps (hlp : ImageHlp) (inputPath : Bytes) (image : LoadedImage) : Prop :=
  ∃ dir filename, splitPath inputPath = some (dir, filename) ∧
    hlp.mapAndLoad filename dir = some image

/-- The search in the image neither returns nor exits without `UnMapAndLoad`. -/
def Releases : Asked → LoadedImage → Prop
  | .imports _ _, image => image.importDirectory.virtualAddress ≠ 0
  | .exports exportFunction, image =>
      image.exportDirectory.virtualAddress ≠ 0 ∧
        (Malformed image ∨ ¬FindsNothing image exportFunction ∧ ¬FindsMatch image exportFunction)

/-- Whenever the search returns, or ends the process by `exit`, its mappings are paired. -/
def PairsMappings (search : ℕ → Logged ℤ) : Prop :=
  ∀ fuel, (search fuel).wp [] (fun _ events => Paired events)
    fun why events => why = .exit → Paired events

section Calls

variable {hlp : ImageHlp} {asked : Asked} {inputPath : Bytes} {events : List Event}

/-- The search in an image that is mapped. -/
def searchTable (hlp : ImageHlp) (asked : Asked) (dir filename : Bytes) (image : LoadedImage)
    (fuel : ℕ) : Logged ℤ :=
  match asked with
  | .imports importDLL importFunction =>
      searchImportTable hlp dir filename importDLL image importFunction fuel
  | .exports exportFunction => searchExportTable hlp dir filename exportFunction image fuel

/-- What may be said before an image is mapped. -/
structure Preface (lines : List Event) : Prop where
  silent : mapping lines = []
  loading : ∀ line, .print line ∈ lines →
    ∃ filename, line = text "Loading " ++ filename ++ text "\n"

variable (asked) in
theorem searchWithImageHlp_of_maps {dir filename : Bytes} {image : LoadedImage}
    (splits : splitPath inputPath = some (dir, filename))
    (maps : hlp.mapAndLoad filename dir = some image) :
    ∃ lines, Preface lines ∧ ∀ fuel events,
      searchWithImageHlp hlp asked inputPath fuel events =
        searchTable hlp asked dir filename image fuel (events ++ lines ++ [.mapped]) := by
  cases asked with
  | imports importDLL importFunction =>
      refine ⟨[], ⟨rfl, by simp⟩, fun fuel events => ?_⟩
      rw [searchWithImageHlp, searchImportWithImageHlp, splits]
      dsimp only
      rw [maps, List.append_nil]
      rfl
  | exports exportFunction =>
      refine ⟨[.print (text "Loading " ++ filename ++ text "\n")],
        ⟨rfl, fun line inside => ⟨filename, by simpa using inside⟩⟩, fun fuel events => ?_⟩
      have run : searchExportWithImageHlp hlp inputPath exportFunction fuel = (do
          log (.print (text "Loading " ++ filename ++ text "\n"))
          log .mapped
          searchExportTable hlp dir filename exportFunction image fuel) := by
        rw [searchExportWithImageHlp, splits]
        dsimp only
        rw [maps]
      rw [searchWithImageHlp, run]
      rfl

variable (asked) in
/-- Where no image is mapped, there are only messages. -/
theorem searchWithImageHlp_of_none (unseen : ¬∃ image, Maps hlp inputPath image) :
    ∃ lines, Preface lines ∧ ∀ fuel events,
      searchWithImageHlp hlp asked inputPath fuel events = .returned (-1) (events ++ lines) := by
  cases splits : splitPath inputPath with
  | none =>
      refine ⟨[.error (text "Error: unexpected file \"" ++ inputPath ++ text "\"\n")],
        ⟨rfl, by simp⟩, fun fuel events => ?_⟩
      cases asked with
      | imports =>
          rw [searchWithImageHlp, searchImportWithImageHlp, splits]
          rfl
      | exports =>
          rw [searchWithImageHlp, searchExportWithImageHlp, splits]
          rfl
  | some place =>
      obtain ⟨dir, filename⟩ := place
      have unmapped : hlp.mapAndLoad filename dir = none :=
        Option.eq_none_iff_forall_ne_some.mpr fun image maps =>
          unseen ⟨image, dir, filename, splits, maps⟩
      cases asked with
      | imports =>
          refine ⟨[.error (text "Unable to map and load " ++ filename ++ text "\n")],
            ⟨rfl, by simp⟩, fun fuel events => ?_⟩
          rw [searchWithImageHlp, searchImportWithImageHlp, splits]
          dsimp only
          rw [unmapped]
          rfl
      | exports exportFunction =>
          refine ⟨[.print (text "Loading " ++ filename ++ text "\n"),
            .error (text "Unable to map and load " ++ filename ++ text "\n")],
            ⟨rfl, fun line inside => ⟨filename, by simpa using inside⟩⟩,
            fun fuel events => ?_⟩
          have run : searchExportWithImageHlp hlp inputPath exportFunction fuel = (do
              log (.print (text "Loading " ++ filename ++ text "\n"))
              log (.error (text "Unable to map and load " ++ filename ++ text "\n"))
              pure (-1)) := by
            rw [searchExportWithImageHlp, splits]
            dsimp only
            rw [unmapped]
          rw [searchWithImageHlp, run]
          show Ending.returned (-1) (events ++ _ ++ _) = _
          rw [List.append_assoc]
          rfl

theorem wp_searchTable_of_releases {dir filename : Bytes} {image : LoadedImage} {fuel : ℕ}
    (releases : Releases asked image) :
    (searchTable hlp asked dir filename image fuel).wp events
      (fun _ events' => ∃ more, events' = events ++ more ∧ mapping more = [.unmapped])
      (fun why events' => why ≠ .exit ∧ events' = events) := by
  cases asked with
  | imports importDLL importFunction =>
      refine Program.wp_mono wp_searchImportTable (fun _ events' returned => ?_)
        fun why events' halted => ⟨halted.1 ▸ nofun, halted.2.1⟩
      obtain ⟨more, whole, unmaps, -⟩ := returned
      exact ⟨more, whole, unmaps.trans (if_neg releases)⟩
  | exports exportFunction =>
      obtain ⟨exports, refused⟩ := releases
      rw [searchTable]
      by_cases malformed : Malformed image
      · obtain ⟨message, run⟩ :=
          searchExportTable_of_malformed exportFunction hlp dir filename exports malformed
        rw [run]
        exact wp_fail fun more unmaps => ⟨more, rfl, unmaps.mapping⟩
      · obtain ⟨nothing, noMatch⟩ := refused.resolve_left malformed
        obtain ⟨why, other, halts⟩ :=
          exportLoops_halts dir filename events nothing noMatch fuel
        rw [searchExportTable_of_sound _ _ _ exports malformed, Program.wp,
          Program.bind_of_halted halts]
        exact ⟨other, rfl⟩

variable (hlp events) in
/-- Where the search in an image does not release it, it returns or exits without. -/
theorem searchTable_of_not_releases (dir filename : Bytes) {image : LoadedImage}
    (keeps : ¬Releases asked image) :
    ∃ fuel more, mapping more = [] ∧
      ((∃ value, searchTable hlp asked dir filename image fuel events =
          .returned value (events ++ more)) ∨
        searchTable hlp asked dir filename image fuel events = .halted .exit (events ++ more)) := by
  cases asked with
  | imports importDLL importFunction =>
      refine ⟨0, [], rfl, Or.inl ⟨0, ?_⟩⟩
      have run : searchImportTable hlp dir filename importDLL image importFunction 0 = pure 0 :=
        if_pos (not_not.mp keeps)
      rw [searchTable, run, List.append_nil]
      rfl
  | exports exportFunction =>
      simp only [searchTable]
      by_cases exports : image.exportDirectory.virtualAddress = 0
      · refine ⟨0, [], rfl, Or.inl ⟨0, ?_⟩⟩
        rw [searchExportTable_of_none _ _ _ exports, List.append_nil]
        rfl
      obtain ⟨sound, loops⟩ : ¬Malformed image ∧
          (FindsNothing image exportFunction ∨ FindsMatch image exportFunction) := by
        have keeps := not_and.mp keeps exports
        exact ⟨fun malformed => keeps (Or.inl malformed), by_contra fun neither =>
          keeps (Or.inr (not_or.mp neither))⟩
      rcases loops with nothing | found
      · obtain ⟨fuel, returns⟩ := (nothing.returns dir filename events).late.exists
        refine ⟨fuel, [], rfl, Or.inl ⟨0, ?_⟩⟩
        rw [searchExportTable_of_sound _ _ _ exports sound, Program.bind_of_returned returns,
          List.append_nil]
        rfl
      · obtain ⟨name, -, ends⟩ := found.exits dir filename events
        obtain ⟨fuel, exits⟩ := ends.late.exists
        refine ⟨fuel, [.print (exportLine dir filename name)], rfl, Or.inr ?_⟩
        rw [searchExportTable_of_sound _ _ _ exports sound, Program.bind_of_halted exits]

/-- A call in which every image is released: the mapping comes with its `UnMapAndLoad`, or the
process crashes or goes on with one image mapped. -/
theorem wp_searchWithImageHlp_of_releases {fuel : ℕ}
    (releases : ∀ image, Maps hlp inputPath image → Releases asked image) :
    (searchWithImageHlp hlp asked inputPath fuel).wp events
      (fun _ events' => ∃ more, events' = events ++ more ∧ Paired more)
      (fun why events' => why ≠ .exit ∧ ∃ more, events' = events ++ more ∧ InTurn more) := by
  by_cases mapped : ∃ image, Maps hlp inputPath image
  · obtain ⟨image, dir, filename, splits, maps⟩ := mapped
    obtain ⟨lines, preface, run⟩ := searchWithImageHlp_of_maps asked splits maps
    rw [Program.wp, run, ← Program.wp]
    refine Program.wp_mono (wp_searchTable_of_releases
      (releases image ⟨dir, filename, splits, maps⟩)) (fun _ events' returned => ?_)
      fun why events' halted => ?_
    · obtain ⟨more, rfl, unmaps⟩ := returned
      refine ⟨lines ++ [.mapped] ++ more, by simp only [List.append_assoc], .of_turn ?_⟩
      rw [mapping_append, mapping_append, preface.silent, unmaps]
      rfl
    · obtain ⟨other, rfl⟩ := halted
      refine ⟨other, lines ++ [.mapped], List.append_assoc .., 1, ?_⟩
      rw [mapping_append, preface.silent]
      exact ⟨[.unmapped], rfl⟩
  · obtain ⟨lines, preface, run⟩ := searchWithImageHlp_of_none asked mapped
    rw [Program.wp, run]
    exact ⟨lines, rfl, .of_silent preface.silent⟩

theorem pairsMappings_iff : PairsMappings (searchWithImageHlp hlp asked inputPath) ↔
    ∀ image, Maps hlp inputPath image → Releases asked image := by
  constructor
  · intro pairs image maps
    by_contra keeps
    obtain ⟨dir, filename, splits, maps⟩ := maps
    obtain ⟨lines, preface, run⟩ := searchWithImageHlp_of_maps asked splits maps
    obtain ⟨fuel, more, none, ends⟩ :=
      searchTable_of_not_releases hlp ([] ++ lines ++ [.mapped]) dir filename keeps
    have odd : ¬Paired ([] ++ lines ++ [.mapped] ++ more) := by
      refine not_paired_of_mapped ?_
      rw [mapping_append, mapping_append, List.nil_append, preface.silent, none]
      rfl
    have paired := pairs fuel
    rw [Program.wp, run] at paired
    rcases ends with ⟨value, returns⟩ | exits
    · rw [returns] at paired
      exact odd paired
    · rw [exits] at paired
      exact odd (paired rfl)
  · intro releases fuel
    refine Program.wp_mono (wp_searchWithImageHlp_of_releases releases) (fun _ events' run => ?_)
      fun why events' run exited => absurd exited run.1
    obtain ⟨more, rfl, paired⟩ := run
    exact paired

/-- The files of the search are all released: the induction is on what is left of them. -/
theorem wp_searchFiles {fuel : ℕ} {paths : List Bytes} (paired : Paired events)
    (releases : ∀ path ∈ paths, ∀ image, Maps hlp path image → Releases asked image) :
    (searchFiles hlp asked fuel paths).wp events (fun _ events' => Paired events')
      (fun why events' => why ≠ .exit ∧ InTurn events') := by
  induction paths generalizing events with
  | nil => exact paired
  | cons path paths ih =>
      rw [searchFiles, Program.wp_bind]
      refine Program.wp_mono (wp_searchWithImageHlp_of_releases (releases path (by simp)))
        (fun _ events' run => ?_) fun why events' run => ?_
      · obtain ⟨more, rfl, later⟩ := run
        exact ih (paired.append later) fun path' listed => releases path' (by simp [listed])
      · obtain ⟨other, more, rfl, turn⟩ := run
        exact ⟨other, paired.append_inTurn turn⟩

end Calls

/-- The search over the files never holds more than one image mapped, and none behind its end. -/
def MapsInTurn (search : ℕ → Logged Unit) : Prop :=
  ∀ fuel, (search fuel).wp [] (fun _ events => Paired events ∧ HoldsOne events)
    fun why events => (why = .exit → Paired events) ∧ HoldsOne events

/-- **When mappings are paired**: a call pairs its mapping if and only if the image it maps is
released; and where that is so of all files, a search over them maps one image at a time. -/
theorem mappings_paired_iff (hlp : ImageHlp) (asked : Asked) :
    (∀ path, PairsMappings (searchWithImageHlp hlp asked path) ↔
      ∀ image, Maps hlp path image → Releases asked image) ∧
    ∀ paths, (∀ path ∈ paths, ∀ image, Maps hlp path image → Releases asked image) →
      MapsInTurn (searchFiles hlp asked · paths) := by
  refine ⟨fun path => pairsMappings_iff, fun paths releases fuel => ?_⟩
  refine Program.wp_mono (wp_searchFiles (.of_silent rfl) releases) (fun _ events paired => ?_)
    fun why events halted => ?_
  · exact ⟨paired, paired.inTurn.holdsOne⟩
  · exact ⟨fun exited => absurd exited halted.1, halted.2.holdsOne⟩

/-- Two executables with imports are mapped one after the other. -/
theorem mapsInTurn_twoDescriptors :
    MapsInTurn (searchFiles ⟨fun _ _ => some twoDescriptors, fun _ => none⟩
      (.imports (text "k.dll") none) · [text "d\\a.exe", text "d\\b.exe"]) := by
  refine (mappings_paired_iff _ _).2 _ fun path listed image maps => ?_
  obtain ⟨dir, filename, -, same⟩ := maps
  obtain rfl := Option.some.inj same
  exact (by decide : (0x1000 : UInt32) ≠ 0)

/-- An image without imports stays mapped, and a second one with it. -/
theorem not_paired_noImports :
    ¬PairsMappings (searchWithImageHlp ⟨fun _ _ => some wideTable, fun _ => none⟩
        (.imports (text "k.dll") none) (text "d\\a.exe")) ∧
      ¬MapsInTurn (searchFiles ⟨fun _ _ => some wideTable, fun _ => none⟩
        (.imports (text "k.dll") none) · [text "d\\a.exe", text "d\\b.exe"]) := by
  constructor
  · intro pairs
    exact not_paired_of_mapped rfl (pairs 0)
  · intro turns
    have two : HoldsOne [.mapped, .mapped] := (turns 0).2
    exact absurd (two _ (List.prefix_refl _)) (by decide)

end MsysGit.Depends
