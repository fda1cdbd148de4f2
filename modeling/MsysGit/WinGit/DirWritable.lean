import MsysGit.Library.Volume
import MsysGit.WinGit.Environment

/-!
# Whether a directory is writable

`IsDirWritable` climbs from the directory to the first one that exists, makes the missing
ones, writes and deletes a file, and removes the directories again.

* It climbs for ever if the drive or share of the name is not there (`climb_terminates_iff`).
* It does not try anything in a directory that exists already (`tellsWritable_iff`).

A directory is the list of its names below the root, the deepest first, as the file system
folds them; the root stays what it is when `ExtractFileDir` is applied to it.
-/

namespace MsysGit.WinGit

open MsysGit.Library

/-! ### The code -/

abbrev Dir := List Str

/-- The volume that the name is on. -/
abbrev Drive := Volume Str Str

/-- `ExtractFileDir` -/
def extractFileDir (dir : Dir) : Dir := dir.tail

/-- The loop: `FirstExistingDir` and `FirstCreatedDir` in the end. -/
def climb (fs : Drive) : ℕ → Dir → Option Dir → Option (Dir × Option Dir)
  | 0, _, _ => none
  | fuel + 1, firstExisting, firstCreated =>
      if fs.dirExists firstExisting then some (firstExisting, firstCreated)
      else climb fs fuel (extractFileDir firstExisting) (some firstExisting)

/-- `ForceDirectories`: what is missing is made from the top down, up to the first failure. -/
def forceDirectories (creates : Dir → Bool) (fs : Drive) : Dir → Bool × Drive
  | [] => (true, fs)
  | name :: dir =>
      if fs.dirExists (name :: dir) then (true, fs)
      else match forceDirectories creates fs dir with
        | (false, made) => (false, made)
        | (true, made) =>
            match made.createDir (creates (name :: dir)) (name :: dir) with
            | some made => (true, made)
            | none => (false, made)

/-- What `DelTree` does when it is told to leave files alone: it removes a directory with all
directories below it, or says that it could not. -/
structure DelTreeRules (delTree : Drive → Dir → Bool × Drive) : Prop where
  outside : ∀ fs top path, ¬ top <:+ path → (delTree fs top).2.entry path = fs.entry path
  removes : ∀ fs top path, (delTree fs top).1 = true → top <:+ path →
    (delTree fs top).2.entry path = none
  leaves : ∀ fs top, (delTree fs top).1 = false → fs.entry top ≠ none →
    (delTree fs top).2.entry top ≠ none
  keeps_files : ∀ fs top path content, fs.entry path = some (.file content) →
    (delTree fs top).2.entry path = some (.file content)
  only_removes : ∀ fs top path, fs.entry path = none → (delTree fs top).2.entry path = none

/-- A call of `IsDirWritable`, the volume, and what the calls are answered with. -/
structure DirTest where
  fs : Drive
  dir : Dir
  creates : Dir → Bool
  /-- `GenerateUniqueName` -/
  unique : Str
  fresh : fs.entry (unique :: dir) = none
  /-- `SaveStringToFile`, which leaves no file behind when it fails. -/
  saves : Bool
  deletes : Bool
  delTree : Drive → Dir → Bool × Drive
  rules : DelTreeRules delTree

namespace DirTest

variable (t : DirTest)

def made : Bool × Drive := forceDirectories t.creates t.fs t.dir

/-- The test in the directory, and the volume afterwards. -/
def tryToWrite : Bool × Drive :=
  if t.made.1 then
    match t.made.2.createFile t.saves "This file is writable.".toList (t.unique :: t.dir) with
    | none => (false, t.made.2)
    | some written =>
        match written.deleteFile t.deletes (t.unique :: t.dir) with
        | none => (false, written)
        | some deleted => (true, deleted)
  else (false, t.made.2)

/-- `IsDirWritable`, and the volume afterwards. -/
def isDirWritable (fuel : ℕ) : Option (Bool × Drive) :=
  (climb t.fs fuel t.dir none).map fun climbed =>
    match climbed.2 with
    | none => (true, t.fs)
    | some firstCreated =>
        let removed := t.delTree t.tryToWrite.2 firstCreated
        (t.tryToWrite.1 && removed.1, removed.2)

/-! ### What is meant -/

/-- After making what is missing, a file can be written and deleted. -/
def CanWrite : Prop := t.made.1 = true ∧ t.saves = true ∧ t.deletes = true

/-- The answer is right, and nothing is left behind. -/
def TellsWritable (outcome : Bool × Drive) : Prop :=
  (outcome.1 = true ↔ t.CanWrite) ∧ outcome.2 = t.fs

/-- `first` is the directory that has to be made first. -/
structure IsFirstMissing (first : Dir) : Prop where
  above : first <:+ t.dir
  missing : t.fs.dirExists first = false
  inside : t.fs.dirExists (extractFileDir first) = true

/-- A directory that exists already can be written to.  One that does not is removed again
with those that were made above it, and where a file can be written, it can be deleted. -/
def Traceless : Prop :=
  if t.fs.dirExists t.dir then t.saves = true ∧ t.deletes = true
  else (t.made.1 = true → t.saves = true → t.deletes = true) ∧
    ∀ first, t.IsFirstMissing first → t.made.2.dirExists first = true →
      (t.delTree t.made.2 first).1 = true

end DirTest

/-! ### Climbing -/

section Climb

variable {fs : Drive} {fuel : ℕ} {dir top first : Dir} {created created' : Option Dir}

/-- Where the loop stops. -/
theorem climb_eq_some (stopped : climb fs fuel dir created = some (top, created')) :
    fs.dirExists top = true ∧ (created' = created ∧ top = dir ∨
      ∃ first, created' = some first ∧ first <:+ dir ∧ fs.dirExists first = false ∧
        extractFileDir first = top) := by
  induction fuel generalizing dir created with
  | zero => cases stopped
  | succ fuel ih =>
      rw [climb] at stopped
      split_ifs at stopped with here
      · cases stopped
        exact ⟨here, Or.inl ⟨rfl, rfl⟩⟩
      · obtain ⟨inside, ⟨rfl, rfl⟩ | ⟨first, rfl, above, missing, parent⟩⟩ := ih stopped
        · exact ⟨inside, Or.inr ⟨dir, rfl, List.suffix_refl _, Bool.eq_false_iff.mpr here, rfl⟩⟩
        · exact ⟨inside, Or.inr ⟨first, rfl, above.trans (List.tail_suffix dir), missing, parent⟩⟩

/-- With the root there, it stops. -/
theorem exists_climb (root : fs.dirExists [] = true) (dir : Dir) (created : Option Dir) :
    ∃ out, climb fs (dir.length + 1) dir created = some out := by
  induction dir generalizing created with
  | nil => exact ⟨_, if_pos root⟩
  | cons name dir ih =>
      rw [List.length_cons, climb]
      split_ifs
      · exact ⟨_, rfl⟩
      · exact ih _

/-- **The loop ends exactly if the drive or share is there.** -/
theorem climb_terminates_iff (fs : Drive) (dir : Dir) :
    (∃ fuel out, climb fs fuel dir none = some out) ↔ fs.dirExists [] = true := by
  constructor
  · rintro ⟨fuel, ⟨top, created⟩, stopped⟩
    exact Volume.dirExists_suffix List.nil_suffix (climb_eq_some stopped).1
  · intro root
    exact ⟨_, exists_climb root dir none⟩

end Climb

/-- A drive that is not there. -/
def absentDrive : Drive := ⟨fun _ => none, fun _ _ some_entry => absurd rfl some_entry⟩

/-- `Z:\Git`, with no drive `Z:`. -/
theorem not_climb_terminates :
    ¬ ∃ fuel out, climb absentDrive fuel ["Git".toList] none = some out := by
  rintro ⟨fuel, ⟨top, created⟩, stopped⟩
  cases (climb_eq_some stopped).1

/-! ### Making what is missing -/

section Force

variable {creates : Dir → Bool} {fs : Drive} {dir first : Dir}

theorem forceDirectories_of_dirExists (here : fs.dirExists dir = true) :
    forceDirectories creates fs dir = (true, fs) := by
  cases dir with
  | nil => rfl
  | cons name dir => exact if_pos here

/-- What `ForceDirectories` changes, from the first missing directory down. -/
structure Forced (fs : Drive) (dir first : Dir) (made : Bool × Drive) : Prop where
  changes : ∀ path, made.2.entry path ≠ fs.entry path → first <:+ path ∧ path <:+ dir
  starts : made = (false, fs) ∨
    fs.entry first = none ∧ made.2.entry first = some .directory
  complete : made.1 = true → made.2.dirExists dir = true

section Step

variable {ok able : Bool} {made made' : Drive} {name : Str}

/-- The first missing directory is made. -/
theorem forced_of_createDir (done : fs.createDir able dir = some made) :
    Forced fs dir dir (true, made) := by
  obtain ⟨free, entry⟩ := Volume.createDir_eq_some done
  have here : made.entry dir = some .directory := by rw [entry, Function.update_self]
  refine ⟨fun path changed => ?_, Or.inr ⟨free, here⟩, fun _ => Volume.dirExists_iff.mpr here⟩
  have same : path = dir := by
    by_contra other
    exact changed (by rw [entry, Function.update_of_ne other])
  exact ⟨same ▸ List.suffix_refl _, same ▸ List.suffix_refl _⟩

/-- Nothing is made below. -/
theorem Forced.stop (forced : Forced fs dir first (ok, made)) (name : Str) :
    Forced fs (name :: dir) first (false, made) where
  changes path changed :=
    ⟨(forced.changes path changed).1,
      (forced.changes path changed).2.trans (List.suffix_cons name dir)⟩
  starts := by
    rcases forced.starts with nothing | begun
    · exact Or.inl (congrArg (Prod.mk false) (congrArg Prod.snd nothing))
    · exact Or.inr begun
  complete := nofun

/-- The next directory is made. -/
theorem Forced.next (forced : Forced fs dir first (true, made)) (above : first <:+ dir)
    (done : made.createDir able (name :: dir) = some made') :
    Forced fs (name :: dir) first (true, made') := by
  obtain ⟨-, entry⟩ := Volume.createDir_eq_some done
  have here : made'.entry (name :: dir) = some .directory := by rw [entry, Function.update_self]
  have begun := forced.starts.resolve_left fun same => by cases same
  have shorter : first ≠ name :: dir := by
    rintro rfl
    exact absurd above.length_le (by simp)
  refine ⟨fun path changed => ?_, Or.inr ⟨begun.1, ?_⟩, fun _ => Volume.dirExists_iff.mpr here⟩
  · by_cases same : path = name :: dir
    · exact ⟨same ▸ above.trans (List.suffix_cons name dir), same ▸ List.suffix_refl _⟩
    · have changed' : made.entry path ≠ fs.entry path := by
        rwa [entry, Function.update_of_ne same] at changed
      obtain ⟨low, high⟩ := forced.changes path changed'
      exact ⟨low, high.trans (List.suffix_cons name dir)⟩
  · rw [entry, Function.update_of_ne shorter]
    exact begun.2

end Step

theorem forced (above : first <:+ dir) (missing : fs.dirExists first = false)
    (inside : fs.dirExists (extractFileDir first) = true) :
    Forced fs dir first (forceDirectories creates fs dir) := by
  induction dir with
  | nil =>
      rw [List.suffix_nil.mp above] at missing inside
      exact absurd inside (Bool.eq_false_iff.mp missing)
  | cons name dir ih =>
      have absent : ¬ fs.dirExists (name :: dir) = true := fun here => by
        rw [Volume.dirExists_suffix above here] at missing
        cases missing
      rw [forceDirectories, if_neg absent]
      rcases List.suffix_cons_iff.mp above with rfl | above'
      · -- The first missing directory is the last one to be made.
        have parent : fs.dirExists dir = true := inside
        rw [forceDirectories_of_dirExists parent]
        dsimp only
        cases done : fs.createDir (creates (name :: dir)) (name :: dir) with
        | none => exact ⟨fun path changed => absurd rfl changed, Or.inl rfl, nofun⟩
        | some made => exact forced_of_createDir done
      · have parent := ih above'
        cases run : forceDirectories creates fs dir with
        | mk ok made =>
            rw [run] at parent
            cases ok with
            | false => exact parent.stop name
            | true =>
                dsimp only
                cases done : made.createDir (creates (name :: dir)) (name :: dir) with
                | none => exact parent.stop name
                | some made' => exact parent.next above' done

end Force

/-! ### The test -/

namespace DirTest

variable {t : DirTest} {first : Dir}

/-- There is only one directory to begin with. -/
theorem IsFirstMissing.unique {other : Dir} (here : t.IsFirstMissing first)
    (there : t.IsFirstMissing other) : first = other := by
  have unique {a b : Dir} (ha : t.IsFirstMissing a) (hb : t.IsFirstMissing b) (below : a <:+ b) :
      a = b := by
    cases b with
    | nil => exact List.suffix_nil.mp below
    | cons name b =>
        refine (List.suffix_cons_iff.mp below).resolve_right fun shorter => ?_
        have inside := Volume.dirExists_suffix shorter hb.inside
        rw [ha.missing] at inside
        cases inside
  rcases List.suffix_or_suffix_of_suffix here.above there.above with below | below
  · exact unique here there below
  · exact (unique there here below).symm

/-- Where the directory exists, nothing is made. -/
theorem made_of_dirExists (here : t.fs.dirExists t.dir = true) : t.made = (true, t.fs) :=
  forceDirectories_of_dirExists here

/-- `DelTree` has nothing to do where nothing was made. -/
theorem delTree_missing (missing : t.fs.dirExists first = false) :
    (t.delTree t.fs first).2 = t.fs := by
  apply Volume.ext_entry
  funext path
  by_cases below : first <:+ path
  · cases found : t.fs.entry path with
    | none => exact t.rules.only_removes _ _ _ found
    | some e =>
        obtain ⟨front, rfl⟩ := below
        by_cases here : front = []
        · subst here
          cases e with
          | file content => exact t.rules.keeps_files _ _ _ _ found
          | directory =>
              rw [List.nil_append] at found
              rw [Volume.dirExists_iff.mpr found] at missing
              cases missing
        · rw [Volume.entry_below here missing] at found
          cases found
  · exact t.rules.outside _ _ _ below

section Missing

variable (above : t.IsFirstMissing first)

include above

theorem IsFirstMissing.forced : Forced t.fs t.dir first t.made :=
  WinGit.forced above.above above.missing above.inside

/-- The name of the file is free where the directories were made. -/
theorem IsFirstMissing.free : t.made.2.entry (t.unique :: t.dir) = none := by
  by_contra changed
  rw [← t.fresh] at changed
  have longer := (above.forced.changes _ changed).2.length_le
  rw [List.length_cons] at longer
  omega

/-- What was made is gone again exactly if it could be removed. -/
theorem IsFirstMissing.delTree_eq_iff (begun : t.made.2.entry first = some .directory)
    (free : t.fs.entry first = none) :
    (t.delTree t.made.2 first).2 = t.fs ↔ (t.delTree t.made.2 first).1 = true := by
  constructor
  · intro same
    by_contra failed
    refine t.rules.leaves t.made.2 first (Bool.eq_false_iff.mpr failed) ?_ (same ▸ free)
    rw [begun]
    exact Option.some_ne_none _
  · intro removed
    apply Volume.ext_entry
    funext path
    by_cases below : first <:+ path
    · rw [t.rules.removes _ _ _ removed below]
      obtain ⟨front, rfl⟩ := below
      by_cases here : front = []
      · rw [here]
        exact free.symm
      · exact (Volume.entry_below here above.missing).symm
    · rw [t.rules.outside _ _ _ below]
      by_contra changed
      exact below (above.forced.changes path changed).1

/-- The test in directories that were made. -/
theorem IsFirstMissing.tryToWrite_eq (complete : t.made.1 = true) :
    t.saves = false ∧ t.tryToWrite = (false, t.made.2) ∨
      t.saves = true ∧ t.deletes = true ∧ t.tryToWrite = (true, t.made.2) ∨
      t.saves = true ∧ t.deletes = false ∧ t.tryToWrite.1 = false ∧
        ∃ content, t.tryToWrite.2.entry (t.unique :: t.dir) = some (.file content) := by
  have inside := above.forced.complete complete
  have free : t.made.2.dirExists (t.unique :: t.dir) = false := by
    rw [Bool.eq_false_iff]
    intro there
    rw [Volume.dirExists_iff, above.free] at there
    cases there
  unfold tryToWrite
  rw [if_pos complete, Volume.createFile_cons inside free]
  cases t.saves with
  | false => exact Or.inl ⟨rfl, rfl⟩
  | true =>
      rw [if_pos rfl]
      dsimp only
      rw [Volume.deleteFile_add inside above.free free]
      cases t.deletes with
      | true => exact Or.inr (Or.inl ⟨rfl, rfl, rfl⟩)
      | false => exact Or.inr (Or.inr ⟨rfl, rfl, rfl, _, Function.update_self _ _ _⟩)

end Missing

theorem IsFirstMissing.dirExists (above : t.IsFirstMissing first) :
    t.fs.dirExists t.dir = false := by
  rw [Bool.eq_false_iff]
  intro here
  have inside := Volume.dirExists_suffix above.above here
  rw [above.missing] at inside
  cases inside

theorem traceless_iff (above : t.IsFirstMissing first) :
    t.Traceless ↔ (t.made.1 = true → t.saves = true → t.deletes = true) ∧
      (t.made.2.entry first = some .directory → (t.delTree t.made.2 first).1 = true) := by
  unfold Traceless
  rw [above.dirExists, if_neg Bool.false_ne_true]
  refine and_congr_right fun _ => ⟨fun all begun => ?_, fun removed other missing begun => ?_⟩
  · exact all first above (Volume.dirExists_iff.mpr begun)
  · rw [missing.unique above] at begun ⊢
    exact removed (Volume.dirExists_iff.mp begun)

/-- A directory that has to be made. -/
theorem tellsWritable_missing (above : t.IsFirstMissing first) :
    t.TellsWritable (t.tryToWrite.1 && (t.delTree t.tryToWrite.2 first).1,
      (t.delTree t.tryToWrite.2 first).2) ↔ t.Traceless := by
  have starts := above.forced.starts
  rw [traceless_iff above]
  unfold TellsWritable CanWrite
  cases complete : t.made.1 with
  | false =>
      have failed : t.tryToWrite = (false, t.made.2) := by
        rw [tryToWrite, complete]
        rfl
      rw [failed]
      simp only [Bool.false_and, Bool.false_eq_true, false_and, iff_self, true_and, false_imp_iff]
      rcases starts with same | ⟨free, begun⟩
      · rw [same]
        refine iff_of_true (delTree_missing above.missing) fun begun => ?_
        have missing := above.missing
        rw [Volume.dirExists_iff.mpr begun] at missing
        cases missing
      · rw [above.delTree_eq_iff begun free]
        exact ⟨fun removed _ => removed, fun removed => removed begun⟩
  | true =>
      obtain ⟨free, begun⟩ := starts.resolve_left fun same => by
        rw [same] at complete
        cases complete
      have gone := above.delTree_eq_iff begun free
      rcases above.tryToWrite_eq complete with ⟨saves, test⟩ | ⟨saves, deletes, test⟩ |
          ⟨saves, deletes, -, content, left⟩
      · rw [test, saves]
        simp only [Bool.false_and, Bool.false_eq_true, false_and, and_false, iff_self, true_and,
          false_imp_iff, imp_true_iff, gone]
        exact ⟨fun removed _ => removed, fun removed => removed begun⟩
      · rw [test, saves, deletes]
        simp only [Bool.true_and, and_self, iff_true, imp_true_iff, true_and, gone]
        exact ⟨fun removed _ => removed, fun removed => removed begun⟩
      · -- The file is left.
        rw [saves, deletes]
        refine iff_of_false ?_ fun clean => Bool.false_ne_true (clean.1 rfl rfl)
        rintro ⟨-, same⟩
        have kept := t.rules.keeps_files _ first _ _ left
        rw [same, t.fresh] at kept
        cases kept

/-- **When the answer is right and leaves no trace.** -/
theorem tellsWritable_iff {fuel : ℕ} {outcome : Bool × Drive}
    (returned : t.isDirWritable fuel = some outcome) :
    t.TellsWritable outcome ↔ t.Traceless := by
  obtain ⟨⟨top, created⟩, stopped, rfl⟩ := Option.map_eq_some_iff.mp returned
  obtain ⟨inside, ⟨rfl, rfl⟩ | ⟨first, rfl, above, missing, parent⟩⟩ := climb_eq_some stopped
  · have made := made_of_dirExists inside
    unfold TellsWritable CanWrite Traceless
    rw [made, if_pos inside]
    simp only [true_iff, true_and, and_true]
  · exact tellsWritable_missing ⟨above, missing, parent ▸ inside⟩

end DirTest

/-! ### Two calls -/

open Classical in
/-- A `DelTree` that may remove every directory. -/
noncomputable def removeTree (fs : Drive) (top : Dir) : Bool × Drive :=
  if fs.dirExists top = true ∧ ∀ path, top <:+ path → fs.fileExists path = false then
    (true, fs.without top)
  else (false, fs)

theorem removeTree_rules : DelTreeRules removeTree where
  outside fs top path apart := by
    unfold removeTree
    split_ifs
    · exact if_neg apart
    · rfl
  removes fs top path removed below := by
    unfold removeTree at removed ⊢
    split_ifs at removed ⊢
    exact if_pos below
  leaves fs top failed some_entry := by
    unfold removeTree at failed ⊢
    split_ifs at failed ⊢
    exact some_entry
  keeps_files fs top path content file := by
    unfold removeTree
    split_ifs with clear
    · refine (if_neg fun below => ?_).trans file
      have none := clear.2 path below
      rw [Volume.fileExists_iff.mpr ⟨content, file⟩] at none
      cases none
    · exact file
  only_removes fs top path free := by
    unfold removeTree
    split_ifs
    · show (if _ then _ else fs.entry path) = none
      rw [free, ite_self]
    · exact free

/-- A drive with nothing on it. -/
def emptyDrive : Drive where
  entry path := if path = [] then some .directory else none
  parents _ _ some_entry := absurd (if_neg (List.cons_ne_nil _ _)) some_entry

/-- `Git` on the empty drive, with every permission. -/
noncomputable def freshTest : DirTest where
  fs := emptyDrive
  dir := ["Git".toList]
  creates _ := true
  unique := "is-1A2B3.txt".toList
  fresh := rfl
  saves := true
  deletes := true
  delTree := removeTree
  rules := removeTree_rules

/-- There is no file on the drive when the directory is made. -/
theorem freshTest_fileExists (path : Dir) : freshTest.made.2.fileExists path = false := by
  rw [Bool.eq_false_iff]
  intro file
  obtain ⟨content, found⟩ := Volume.fileExists_iff.mp file
  have entry : freshTest.made.2.entry =
      Function.update emptyDrive.entry ["Git".toList] (some .directory) := rfl
  rw [entry] at found
  by_cases here : path = ["Git".toList]
  · rw [here, Function.update_self] at found
    cases found
  · rw [Function.update_of_ne here] at found
    unfold emptyDrive at found
    dsimp only at found
    split_ifs at found
    cases found

/-- The directory is the only one that has to be made, and can be removed again. -/
theorem freshTest_traceless : freshTest.Traceless := by
  have above : freshTest.IsFirstMissing ["Git".toList] := ⟨List.suffix_refl _, rfl, rfl⟩
  refine (DirTest.traceless_iff above).mpr ⟨fun _ _ => rfl, fun begun => ?_⟩
  have clear : freshTest.made.2.dirExists ["Git".toList] = true ∧
      ∀ path, ["Git".toList] <:+ path → freshTest.made.2.fileExists path = false :=
    ⟨Volume.dirExists_iff.mpr begun, fun path _ => freshTest_fileExists path⟩
  exact congrArg Prod.fst (if_pos clear)

/-- So it is said to be writable, and is gone again. -/
theorem tellsWritable_iff_fresh :
    freshTest.TellsWritable
      (freshTest.tryToWrite.1 && (removeTree freshTest.tryToWrite.2 ["Git".toList]).1,
        (removeTree freshTest.tryToWrite.2 ["Git".toList]).2) :=
  (DirTest.tellsWritable_iff (show freshTest.isDirWritable 2 = some _ from rfl)).mpr
    freshTest_traceless

/-- `Git` exists, and nothing may be written there. -/
noncomputable def readOnlyTest : DirTest where
  fs := emptyDrive.add "Git".toList [] .directory rfl rfl
  dir := ["Git".toList]
  creates _ := false
  unique := "is-1A2B3.txt".toList
  fresh := rfl
  saves := false
  deletes := false
  delTree := removeTree
  rules := removeTree_rules

/-- It is said to be writable. -/
theorem not_tellsWritable :
    ¬ ∀ fuel outcome, readOnlyTest.isDirWritable fuel = some outcome →
      readOnlyTest.TellsWritable outcome := by
  intro all
  have writable := (all 1 (true, readOnlyTest.fs) rfl).1.mp rfl
  cases writable.2.1

end MsysGit.WinGit
