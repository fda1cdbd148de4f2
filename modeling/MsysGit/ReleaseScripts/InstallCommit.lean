import MsysGit.Library.FileTree

/-!
# Committing what an installation changed

`pre-install.sh` copies the index and adds the working tree to the copy; an
installation changes the working tree; `post-install.sh` lists what differs from the
copy, updates those paths in the real index, and commits it.

The commit is computed one path at a time (`PathState`): everything that decides it
is what the four trees have at the path, whether it is excluded, whether its stat
information changed, and whether a file was in its way.  The scripts compute exactly
that (`postInstall_get`).

Contents stand for what is at a path, mode included; submodules, which
`--ignore-submodules` leaves out, are not among the paths.
-/

namespace MsysGit.ReleaseScripts

open MsysGit.Library

abbrev Path := List (List Char)

abbrev Content := List Char

abbrev Tree := FileTree (List Char) Content

/-! ### The commands of git -/

/-- `git add .`: every file that is tracked or not excluded.  A file that is missing stays in
the index, unless one that is added is in its way. -/
def gitAdd (excluded : Path → Bool) (work index : Tree) : Tree :=
  (work.restrict fun p => (index.get p).isSome || !excluded p).overlay index

/-- `git diff-files --name-only`: the paths of the index at which the working tree has
something else, or nothing.  It looks at the stat information and not at the contents: a file
that was written again with the same content is among them. -/
def diffFiles (touched : Path → Bool) (work index : Tree) (p : Path) : Bool :=
  (index.get p).isSome && (touched p || work.get p ≠ index.get p)

/-- `git ls-files --exclude-standard --others`. -/
def lsFilesOthers (excluded : Path → Bool) (work index : Tree) (p : Path) : Bool :=
  (index.get p).isNone && (work.get p).isSome && !excluded p

/-- `git update-index --add --remove --stdin`: the listed paths are made what they are in the
working tree.  It fails when a file of the index is in the way. -/
def updateIndex (work : Tree) (listed : Path → Bool) (index : Tree) : Option Tree :=
  (work.restrict listed).tryJoin (index.restrict fun p => !listed p)

/-- `git commit`, which refuses to commit the tree of `HEAD` again. -/
def gitCommit (head index : Tree) : Option Tree := if head.same index then none else some index

/-- What is committed is the index, and it differs from `HEAD`. -/
theorem gitCommit_eq_some_iff {head index commit : Tree} :
    gitCommit head index = some commit ↔
      index = commit ∧ ∃ p, head.get p ≠ index.get p := by
  have differs : ¬ head.same index = true ↔ ∃ p, head.get p ≠ index.get p :=
    (not_congr FileTree.same_iff).trans not_forall
  rw [gitCommit, ← differs]
  by_cases same : head.same index = true
  · simp [same]
  · simp [same]

/-! ### The scripts -/

/-- The repository before `pre-install.sh`, and what an installation makes of the working
tree.  It may change the rules of what is excluded as well. -/
structure Installation where
  head : Tree
  index : Tree
  before : Tree
  after : Tree
  excludedBefore : Path → Bool
  excludedAfter : Path → Bool
  /-- The stat information of a file changed. -/
  touched : Path → Bool
  /-- It tells every change. -/
  seen : ∀ p, touched p = false → before.get p = after.get p

namespace Installation

variable (s : Installation)

/-- The index that `pre-install.sh` leaves under the name it prints. -/
def preInstall : Tree := gitAdd s.excludedBefore s.before s.index

/-- The paths that `post-install.sh` pipes into `git update-index`. -/
def listed (snapshot : Tree) (p : Path) : Bool :=
  diffFiles s.touched s.after snapshot p || lsFilesOthers s.excludedAfter s.after snapshot p

/-- The tree that `post-install.sh` commits, if it gets that far. -/
def postInstall (snapshot : Tree) : Option Tree :=
  (updateIndex s.after (s.listed snapshot) s.index).bind (gitCommit s.head)

end Installation

/-! ### One path at a time -/

/-- What there is at one path. -/
structure PathState where
  head : Option Content
  index : Option Content
  before : Option Content
  after : Option Content
  excludedBefore : Bool
  excludedAfter : Bool
  touched : Bool
  seen : touched = false → before = after
  /-- A file that `git add` adds is in the way: the path is a directory, or lies below a file. -/
  displaced : Bool
  /-- Then there is no file at the path. -/
  apart : displaced = true → before = none

namespace PathState

variable (s : PathState)

/-- What the snapshot has. -/
def snapshot : Option Content :=
  if s.before.isSome && (s.index.isSome || !s.excludedBefore) then s.before
  else if s.displaced then none else s.index

def listed : Bool :=
  if s.snapshot.isSome then s.touched || s.after ≠ s.snapshot
  else s.after.isSome && !s.excludedAfter

/-- What is committed. -/
def committed : Option Content := if s.listed then s.after else s.index

/-- The working tree changed between the two scripts. -/
def changed : Bool := s.before ≠ s.after

/-- Neither in the index nor to be added to it. -/
def ignored : Bool := s.index.isNone && s.excludedAfter

/-- What the commit is meant to have: the new content where it changed, else that of `HEAD`. -/
def intended : Option Content := if s.changed && !s.ignored then s.after else s.head

/-- What the commit has at a path that the installation did not change or that is ignored.
The real index decides, except that a file which was already missing is removed, that a file
which was written again is taken as it is, and that a file which was excluded only
before is compared with the wrong snapshot. -/
def kept : Option Content :=
  if s.index.isSome then
    if s.before.isNone then if s.displaced then s.index else none
    else if s.touched then s.after else s.index
  else if s.before.isSome &&
      (s.excludedBefore && !s.excludedAfter || !s.excludedBefore && s.touched)
    then s.after
  else none

/-- **The condition at one path.**  Where the installation changed nothing, or the path is
ignored, what is kept is what `HEAD` has.  Where it did, the new content is always taken,
except for one oddity: a tracked file that had been replaced by a directory and comes back
although it is excluded. -/
def Undisturbed : Prop :=
  if s.changed && !s.ignored then
    s.index.isSome = true → s.displaced = true → s.excludedAfter = true → s.index = s.after
  else s.kept = s.head

/-- **What is committed**, without the snapshot. -/
theorem committed_eq : s.committed =
    if s.changed && !s.ignored then
      if s.index.isSome && s.displaced && s.excludedAfter then s.index else s.after
    else s.kept := by
  obtain ⟨head, index, before, after, excludedBefore, excludedAfter, touched, unseen, displaced,
    apart⟩ := s
  have written (different : before ≠ after) : touched = true :=
    (Bool.not_eq_false touched).mp fun untouched => different (unseen untouched)
  cases index with
  | some tracked =>
      cases before with
      | some present =>
          -- The snapshot has the file, so it is listed exactly when it was touched.
          have clear : displaced = false := by simpa using apart
          by_cases same : after = some present
          · cases touched <;> simp [committed, listed, snapshot, changed, ignored, kept, same]
          · have touched := written (Ne.symm same)
            simp [committed, listed, snapshot, changed, ignored, clear, touched, Ne.symm same]
      | none =>
          -- The snapshot has the entry of the index, or none when a file is in the way.
          cases displaced with
          | false =>
              cases after with
              | none => simp [committed, listed, snapshot, changed, ignored, kept]
              | some now =>
                  have touched := written (Option.some_ne_none now).symm
                  simp [committed, listed, snapshot, changed, ignored, touched]
          | true =>
              cases after with
              | none => simp [committed, listed, snapshot, changed, ignored, kept]
              | some now =>
                  cases excludedAfter <;>
                    simp [committed, listed, snapshot, changed, ignored]
  | none =>
      cases before with
      | some present =>
          cases excludedBefore with
          | false =>
              by_cases same : after = some present
              · cases touched <;> cases excludedAfter <;>
                  simp [committed, listed, snapshot, changed, ignored, kept, same]
              · have touched := written (Ne.symm same)
                cases excludedAfter <;>
                  simp [committed, listed, snapshot, changed, ignored, kept, touched, Ne.symm same]
          | true =>
              cases after with
              | none => cases excludedAfter <;>
                  simp [committed, listed, snapshot, changed, ignored, kept]
              | some now =>
                  cases excludedAfter <;>
                    simp [committed, listed, snapshot, changed, ignored, kept]
      | none =>
          cases after with
          | none => simp [committed, listed, snapshot, changed, ignored, kept]
          | some now =>
              cases excludedAfter <;>
                simp [committed, listed, snapshot, changed, ignored, kept]

theorem committed_eq_intended_iff : s.committed = s.intended ↔ s.Undisturbed := by
  rw [committed_eq, intended, Undisturbed]
  split
  · by_cases odd : (s.index.isSome && s.displaced && s.excludedAfter) = true
    · rw [if_pos odd]
      simp only [Bool.and_eq_true] at odd
      exact ⟨fun same _ _ _ => same, fun same => same odd.1.1 odd.1.2 odd.2⟩
    · rw [if_neg odd]
      simp only [Bool.and_eq_true, not_and] at odd
      exact ⟨fun _ tracked way excluded => absurd excluded (odd ⟨tracked, way⟩), fun _ => rfl⟩
  · exact Iff.rfl

/-- A path at which nothing is staged or missing, nothing other than the content of `HEAD` was
written again, and the rules did not change. -/
theorem undisturbed_of_clean (unstaged : s.index = s.head)
    (present : s.index.isSome = true → s.before.isSome = true)
    (written : ∀ c, s.before = some c → (s.index.isSome || !s.excludedBefore) = true →
      s.touched = true → s.after = some c → s.head = some c)
    (same : s.excludedBefore = s.excludedAfter) : s.Undisturbed := by
  rw [Undisturbed]
  split
  · -- No file can be in the way of one that is there.
    intro tracked way
    rw [s.apart way] at present
    exact absurd (present tracked) Bool.false_ne_true
  · rename_i alone
    rw [Bool.and_eq_true, not_and, changed, decide_eq_true_iff, ignored, ← same] at alone
    rw [kept, ← unstaged]
    rw [← unstaged] at written
    cases tracked : s.index with
    | some c =>
        rw [tracked] at present written alone
        obtain ⟨here, before⟩ := Option.isSome_iff_exists.mp (present rfl)
        have after : s.before = s.after := by
          by_contra different
          exact alone different rfl
        rw [before] at after written ⊢
        cases touched : s.touched with
        | false => rfl
        | true => exact after.symm.trans (written here rfl rfl touched after.symm).symm
    | none =>
        rw [tracked] at written alone
        rw [Option.isSome_none, if_neg Bool.false_ne_true, ← same]
        refine if_neg fun taken => ?_
        rw [Bool.and_eq_true, Bool.and_not_self, Bool.false_or, Bool.and_eq_true,
          Bool.not_eq_true'] at taken
        obtain ⟨there, plain, touched⟩ := taken
        obtain ⟨c, before⟩ := Option.isSome_iff_exists.mp there
        have after : s.before = s.after := by
          by_contra different
          exact alone different (by rw [plain]; rfl)
        cases written c before (by rw [plain]; rfl) touched (after.symm.trans before)

end PathState

/-! ### The scripts, path by path -/

namespace Installation

variable (s : Installation)

/-- The files that `pre-install.sh` adds. -/
def added : Tree := s.before.restrict fun p => (s.index.get p).isSome || !s.excludedBefore p

/-- What there is at a path. -/
def pathState (p : Path) : PathState where
  head := s.head.get p
  index := s.index.get p
  before := s.before.get p
  after := s.after.get p
  excludedBefore := s.excludedBefore p
  excludedAfter := s.excludedAfter p
  touched := s.touched p
  seen := s.seen p
  displaced := s.added.hits p
  apart := fun way => FileTree.get_of_hits (FileTree.hits_of_restrict way)

theorem preInstall_get (p : Path) : s.preInstall.get p = (s.pathState p).snapshot := by
  rw [preInstall, gitAdd, FileTree.get_overlay, FileTree.get_restrict, PathState.snapshot]
  show _ = if ((s.before.get p).isSome && ((s.index.get p).isSome || !s.excludedBefore p)) = true
    then s.before.get p else if s.added.hits p = true then none else s.index.get p
  by_cases taken : ((s.index.get p).isSome || !s.excludedBefore p) = true
  · rw [if_pos taken, taken, Bool.and_true]
    cases s.before.get p with
    | none => rfl
    | some c => rfl
  · rw [if_neg taken, if_neg fun both => taken (Bool.and_eq_true_iff.mp both).2]
    rfl

theorem listed_eq (p : Path) : s.listed s.preInstall p = (s.pathState p).listed := by
  rw [listed, diffFiles, lsFilesOthers, preInstall_get, PathState.listed]
  cases (s.pathState p).snapshot with
  | none => rfl
  | some c =>
      rw [Option.isSome_some, Bool.true_and, Option.isNone_some, Bool.false_and, Bool.false_and,
        Bool.or_false, if_pos rfl]
      rfl

/-- **The scripts compute the commit one path at a time.** -/
theorem postInstall_get {commit : Tree} (made : s.postInstall s.preInstall = some commit)
    (p : Path) : commit.get p = (s.pathState p).committed := by
  rw [postInstall, Option.bind_eq_some_iff] at made
  obtain ⟨index, updated, made⟩ := made
  obtain ⟨rfl, -⟩ := gitCommit_eq_some_iff.mp made
  rw [FileTree.get_tryJoin updated, FileTree.get_restrict, FileTree.get_restrict, listed_eq,
    PathState.committed]
  cases (s.pathState p).listed with
  | true => exact Option.or_none
  | false => rfl

/-- The commit is `HEAD` with the new contents of the paths that the installation changed. -/
def CommitsChanges (commit : Tree) : Prop := ∀ p, commit.get p = (s.pathState p).intended

/-- It is so when nothing is staged, no tracked file is missing, a file that is written again
unchanged has the content of `HEAD`, and the rules of what is excluded stay the same. -/
theorem undisturbed_of_clean (unstaged : ∀ p, s.index.get p = s.head.get p)
    (present : ∀ p, (s.index.get p).isSome = true → (s.before.get p).isSome = true)
    (written : ∀ p c, s.added.get p = some c → s.touched p = true → s.after.get p = some c →
      s.head.get p = some c)
    (same : s.excludedBefore = s.excludedAfter) (p : Path) : (s.pathState p).Undisturbed := by
  refine PathState.undisturbed_of_clean _ (unstaged p) (present p) ?_ (congrFun same p)
  intro c here added touched after
  refine written p c ?_ touched after
  rw [Installation.added, FileTree.get_restrict]
  exact (if_pos added).trans here

end Installation

/-! ### Two installations -/

/-- No file. -/
def noFile : Tree := ⟨[], by decide⟩

/-- The file `a` with this content. -/
def fileA (content : Content) : Tree where
  entries := [([['a']], content)]
  apart := by
    intro e inside e' inside'
    obtain rfl := List.mem_singleton.mp inside
    obtain rfl := List.mem_singleton.mp inside'
    exact conflict_self _

theorem get_fileA {content : Content} {p : Path} (other : p ≠ [['a']]) :
    (fileA content).get p = none := by
  rw [Option.eq_none_iff_forall_not_mem]
  intro c found
  exact other (congrArg Prod.fst (List.mem_singleton.mp (FileTree.mem_of_get found)))

/-- A clean checkout of `a`, in which an installation replaces the content. -/
def replaceA : Installation where
  head := fileA ['1']
  index := fileA ['1']
  before := fileA ['1']
  after := fileA ['2']
  excludedBefore := fun _ => false
  excludedAfter := fun _ => false
  touched := fun p => p = [['a']]
  seen := by
    intro p untouched
    have other := of_decide_eq_false untouched
    rw [get_fileA other, get_fileA other]

/-- A checkout from which `a` had been deleted, with an installation that does nothing. -/
def missingA : Installation where
  head := fileA ['1']
  index := fileA ['1']
  before := noFile
  after := noFile
  excludedBefore := fun _ => false
  excludedAfter := fun _ => false
  touched := fun _ => false
  seen := fun _ _ => rfl

end MsysGit.ReleaseScripts
