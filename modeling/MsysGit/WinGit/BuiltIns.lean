import MsysGit.Library.Folder
import MsysGit.WinGit.ModuleUsers

/-!
# The built-ins

The post-install step makes every file of `fileList-builtins.txt` an alias of
`bin\git.exe`.  It goes over the list twice, first to delete scripts in `bin` and then to
link or copy, and over `libexec\git-core` once, to delete from `bin` what is there too.
The last pass does not know the list: an alias in `bin` with the name of a file in
`libexec\git-core` is deleted again (`created_iff`).

Names are compared through `upcase`, the table of the file system.  What a call is
answered with is part of the entry it is made for.
-/

namespace MsysGit.WinGit

open MsysGit.Library

/-! ### The code -/

/-- The two directories of AppDir in which built-ins lie. -/
inductive AppFolder where
  | bin
  | gitCore
  deriving DecidableEq

/-- An entry of a directory: a file with its content, or another directory. -/
inductive Node (C : Type) where
  | file (content : C)
  | directory
  deriving DecidableEq

/-- A file in one of the two directories.  As an entry of the list, the name is what
`ExtractFileName` returns. -/
structure BuiltIn where
  folder : AppFolder
  name : Str
  deriving DecidableEq

/-- `bin\git.exe`. -/
def gitExe : BuiltIn := ⟨.bin, "git.exe".toList⟩

/-- An entry of the list, and what the calls made for it are answered with. -/
structure ListedBuiltIn extends BuiltIn where
  deletesScript : Bool
  deletesExisting : Bool
  /-- What `CreateHardLink` returns, unless it throws an exception. -/
  createsLink : Option Bool
  copies : Bool

/-- The messages that are logged, and shown if the list cannot be read. -/
inductive BuiltInMessage where
  | unableToDeleteScript (script : BuiltIn)
  | unableToDeleteExisting (builtIn : BuiltIn)
  | hardLinkFailed (builtIn : BuiltIn)
  | copyFailed (builtIn : BuiltIn)
  | unableToDeleteDupe (dupe : BuiltIn)
  | unableToReadList
  deriving DecidableEq

/-- `ChangeFileExt(Name,'')`: the name without its last dot and what follows. -/
def withoutExt (name : Str) : Str :=
  if '.' ∈ name then ((name.reverse.dropWhile (· ≠ '.')).drop 1).reverse else name

section Code

variable (upcase : Char → Char) (C : Type)

/-- The entries of both directories. -/
abbrev AppFiles := AppFolder → Folder (List.map upcase) (Node C)

/-- The directories and the messages so far. -/
structure BuiltInsState where
  files : AppFiles upcase C
  log : List BuiltInMessage

variable {upcase C}

namespace BuiltInsState

variable (s : BuiltInsState upcase C)

def report (message : BuiltInMessage) : BuiltInsState upcase C :=
  { s with log := s.log ++ [message] }

/-- The content of a file, if it exists. -/
def fileAt (file : BuiltIn) : Option C :=
  match (s.files file.folder).get file.name with
  | some (.file content) => some content
  | _ => none

def delete (file : BuiltIn) : BuiltInsState upcase C :=
  { s with files := Function.update s.files file.folder ((s.files file.folder).delete file.name) }

def write (file : BuiltIn) (content : C) : BuiltInsState upcase C :=
  { s with
    files :=
      Function.update s.files file.folder ((s.files file.folder).put file.name (.file content)) }

/-- `not (FileExists(FileName) and (not DeleteFile(FileName)))`, and the message otherwise. -/
def deleteFile (file : BuiltIn) (deletes : Bool) (message : BuiltInMessage) :
    Bool × BuiltInsState upcase C :=
  if (s.fileAt file).isSome then
    if deletes then (true, s.delete file) else (false, s.report message)
  else (true, s)

/-- The first pass, for one entry: the script of that name. -/
def deleteScript (entry : ListedBuiltIn) : BuiltInsState upcase C :=
  let script := ⟨.bin, withoutExt entry.name⟩
  (s.deleteFile script entry.deletesScript (.unableToDeleteScript script)).2

/-- A hard link to `bin\git.exe`.  There must be such a file, and nothing under the new name. -/
def createHardLink (entry : ListedBuiltIn) : Bool × BuiltInsState upcase C :=
  match entry.createsLink, s.fileAt gitExe, (s.files entry.folder).get entry.name with
  | none, _, _ => (false, s.report (.hardLinkFailed entry.toBuiltIn))
  | some true, some content, none => (true, s.write entry.toBuiltIn content)
  | some _, _, _ => (false, s)

/-- A copy of `bin\git.exe`.  A directory is not replaced. -/
def fileCopy (entry : ListedBuiltIn) : Bool × BuiltInsState upcase C :=
  match entry.copies, s.fileAt gitExe, (s.files entry.folder).get entry.name with
  | true, some _, some .directory => (false, s)
  | true, some content, _ => (true, s.write entry.toBuiltIn content)
  | _, _, _ => (false, s)

/-- The second pass, for one entry. -/
def createBuiltIn (entry : ListedBuiltIn) : BuiltInsState upcase C :=
  match s.deleteFile entry.toBuiltIn entry.deletesExisting
      (.unableToDeleteExisting entry.toBuiltIn) with
  | (false, s) => s
  | (true, s) =>
      match s.createHardLink entry with
      | (true, s) => s
      | (false, s) =>
          match s.fileCopy entry with
          | (true, s) => s
          | (false, s) => s.report (.copyFailed entry.toBuiltIn)

/-- The third pass, for an entry found in `libexec\git-core`. -/
def deleteDupe (deletes : Str → Bool) (found : Str × Node C) : BuiltInsState upcase C :=
  match found.2 with
  | .directory => s
  | .file _ =>
      if pos found.1 gitExe.name ≠ 1 then
        (s.deleteFile ⟨.bin, found.1⟩ (deletes found.1) (.unableToDeleteDupe ⟨.bin, found.1⟩)).2
      else s

/-- The built-ins part of `CurStepChanged(ssPostInstall)`, with the list unless it cannot be
read. -/
def createBuiltIns (list : Option (List ListedBuiltIn)) (deletesDupe : Str → Bool) :
    BuiltInsState upcase C :=
  match list with
  | none => s.report .unableToReadList
  | some builtIns =>
      let s := builtIns.foldl deleteScript s
      let s := builtIns.foldl createBuiltIn s
      (s.files .gitCore).entries.foldl (fun s found => s.deleteDupe deletesDupe found) s

/-- Every delete succeeded, and for every built-in the link or the copy. -/
def AllSucceeded : Prop := ∀ message ∈ s.log, ∃ builtIn, message = .hardLinkFailed builtIn

end BuiltInsState

end Code

/-! ### The condition -/

section Condition

variable (upcase : Char → Char) {C : Type}

/-- Both names mean the same file. -/
def BuiltIn.Same (a b : BuiltIn) : Prop :=
  a.folder = b.folder ∧ a.name.map upcase = b.name.map upcase

instance (a b : BuiltIn) : Decidable (a.Same upcase b) :=
  inferInstanceAs (Decidable (_ ∧ _))

/-- The names of the entries that lie in a directory. -/
def namesIn (folder : AppFolder) (builtIns : List ListedBuiltIn) : List Str :=
  (builtIns.filter fun entry => entry.folder = folder).map fun entry => entry.name

variable {upcase}

/-- The name of a file that the third pass finds in `libexec\git-core`: one of the list, as it is
spelled last, or of a file that is there before and not in the list. -/
def FoundInGitCore (files : AppFiles upcase C) (builtIns : List ListedBuiltIn) (name : Str) :
    Prop :=
  Folder.IsLast (List.map upcase) name (namesIn .gitCore builtIns) ∨
    ((∃ content, (name, .file content) ∈ (files .gitCore).entries) ∧
      name.map upcase ∉ (namesIn .gitCore builtIns).map (List.map upcase))

/-- Nothing in `libexec\git-core` has the name of `git.exe` or of an entry of the list in `bin`,
unless it is spelled like the beginning of `git.exe`. -/
def NoDupes (files : AppFiles upcase C) (builtIns : List ListedBuiltIn) : Prop :=
  ∀ name, FoundInGitCore files builtIns name → pos name gitExe.name ≠ 1 →
    ¬ gitExe.Same upcase ⟨.bin, name⟩ ∧
      ∀ entry ∈ builtIns, ¬ entry.toBuiltIn.Same upcase ⟨.bin, name⟩

end Condition

/-! ### One file -/

namespace BuiltInsState

section Steps

variable {upcase : Char → Char} {C : Type} {s : BuiltInsState upcase C}

theorem allSucceeded_report {message : BuiltInMessage} :
    (s.report message).AllSucceeded ↔
      s.AllSucceeded ∧ ∃ builtIn, message = .hardLinkFailed builtIn := by
  rw [AllSucceeded, AllSucceeded, report, List.forall_mem_append, List.forall_mem_singleton]

theorem fileAt_eq_some_iff {file : BuiltIn} {content : C} :
    s.fileAt file = some content ↔ (s.files file.folder).get file.name = some (.file content) := by
  rw [fileAt]
  split
  · rename_i content' there
    rw [there]
    simp
  · rename_i other
    refine iff_of_false (Option.some_ne_none content).symm fun there => other content there

theorem get_delete {file : BuiltIn} {folder : AppFolder} {name : Str} :
    ((s.delete file).files folder).get name =
      if (⟨folder, name⟩ : BuiltIn).Same upcase file then none else (s.files folder).get name := by
  rw [delete]
  by_cases here : folder = file.folder
  · subst here
    dsimp only
    rw [Function.update_self, Folder.get_delete]
    simp [BuiltIn.Same]
  · simp [BuiltIn.Same, here]

theorem get_write {file : BuiltIn} {content : C} {folder : AppFolder} {name : Str} :
    ((s.write file content).files folder).get name =
      if (⟨folder, name⟩ : BuiltIn).Same upcase file then some (.file content)
      else (s.files folder).get name := by
  rw [write]
  by_cases here : folder = file.folder
  · subst here
    dsimp only
    rw [Function.update_self, Folder.get_put]
    simp [BuiltIn.Same]
  · simp [BuiltIn.Same, here]

/-- What `deleteFile` leaves when nothing fails. -/
def without (s : BuiltInsState upcase C) (file : BuiltIn) : BuiltInsState upcase C :=
  if (s.fileAt file).isSome then s.delete file else s

theorem allSucceeded_without {file : BuiltIn} :
    (s.without file).AllSucceeded ↔ s.AllSucceeded := by
  rw [without]
  split <;> exact Iff.rfl

/-- What exists afterwards was there before, and is another file. -/
theorem fileAt_without {file other : BuiltIn} {content : C} :
    (s.without file).fileAt other = some content ↔
      s.fileAt other = some content ∧ ¬ other.Same upcase file := by
  rw [without]
  split
  · rw [fileAt_eq_some_iff, fileAt_eq_some_iff, get_delete]
    split
    · rename_i same
      exact iff_of_false (Option.some_ne_none _).symm fun both => both.2 same
    · rename_i different
      exact (and_iff_left different).symm
  · rename_i absent
    refine (and_iff_left_of_imp fun there same => absent ?_).symm
    -- The file itself would exist under the other name.
    rw [fileAt_eq_some_iff] at there
    have here : s.fileAt file = some content := by
      rw [fileAt_eq_some_iff, ← same.1, Folder.get, ← same.2]
      exact there
    rw [here]
    rfl

theorem deleteFile_cases (s : BuiltInsState upcase C) (file : BuiltIn) (deletes : Bool)
    (message : BuiltInMessage) :
    s.deleteFile file deletes message = (true, s.without file) ∨
      s.deleteFile file deletes message = (false, s.report message) := by
  rw [deleteFile, without]
  split
  · cases deletes
    · exact Or.inr rfl
    · exact Or.inl rfl
  · exact Or.inl rfl

/-- A deletion whose failure would be logged as one. -/
theorem deleteFile_spec {file : BuiltIn} {deletes : Bool} {message : BuiltInMessage}
    (failure : ∀ builtIn, message ≠ .hardLinkFailed builtIn)
    (ok : (s.deleteFile file deletes message).2.AllSucceeded) :
    s.AllSucceeded ∧ (s.deleteFile file deletes message).2 = s.without file := by
  rcases deleteFile_cases s file deletes message with deleted | failed
  · rw [deleted] at ok ⊢
    exact ⟨allSucceeded_without.mp ok, rfl⟩
  · rw [failed] at ok
    obtain ⟨builtIn, same⟩ := (allSucceeded_report.mp ok).2
    exact absurd same (failure builtIn)

theorem createHardLink_cases (s : BuiltInsState upcase C) (entry : ListedBuiltIn) :
    (∃ content, s.fileAt gitExe = some content ∧
      s.createHardLink entry = (true, s.write entry.toBuiltIn content)) ∨
    ∃ s', s.createHardLink entry = (false, s') ∧ s'.files = s.files ∧
      (s'.AllSucceeded ↔ s.AllSucceeded) := by
  rw [createHardLink]
  split
  · refine Or.inr ⟨_, rfl, rfl, ?_⟩
    rw [allSucceeded_report]
    exact and_iff_left ⟨entry.toBuiltIn, rfl⟩
  · rename_i content _ there _
    exact Or.inl ⟨content, there, rfl⟩
  · exact Or.inr ⟨s, rfl, rfl, Iff.rfl⟩

theorem fileCopy_cases (s : BuiltInsState upcase C) (entry : ListedBuiltIn) :
    (∃ content, s.fileAt gitExe = some content ∧
      s.fileCopy entry = (true, s.write entry.toBuiltIn content)) ∨
    s.fileCopy entry = (false, s) := by
  rw [fileCopy]
  split
  · exact Or.inr rfl
  · rename_i content _ there _
    exact Or.inl ⟨content, there, rfl⟩
  · exact Or.inr rfl

theorem write_without {file : BuiltIn} {content : C} :
    (s.without file).write file content = s.write file content := by
  rw [without]
  split
  · simp [write, delete, Folder.put_delete]
  · rfl

/-- **One built-in.**  If nothing fails, `bin\git.exe` is another file that exists, and the
built-in has its content. -/
theorem createBuiltIn_spec {entry : ListedBuiltIn} (ok : (s.createBuiltIn entry).AllSucceeded) :
    s.AllSucceeded ∧ ∃ content, s.fileAt gitExe = some content ∧
      ¬ gitExe.Same upcase entry.toBuiltIn ∧
      (s.createBuiltIn entry).files = (s.write entry.toBuiltIn content).files := by
  rw [createBuiltIn] at ok ⊢
  rcases deleteFile_cases s entry.toBuiltIn entry.deletesExisting
      (.unableToDeleteExisting entry.toBuiltIn) with deleted | failed
  · rw [deleted] at ok ⊢
    dsimp only at ok ⊢
    rcases createHardLink_cases (s.without entry.toBuiltIn) entry with
      ⟨content, there, linked⟩ | ⟨s', unlinked, files, log⟩
    · rw [linked] at ok ⊢
      have before := fileAt_without.mp there
      refine ⟨allSucceeded_without.mp ok, content, before.1, before.2, ?_⟩
      dsimp only
      rw [write_without]
    · rw [unlinked] at ok ⊢
      dsimp only at ok ⊢
      rcases fileCopy_cases s' entry with ⟨content, there, copied⟩ | uncopied
      · rw [copied] at ok ⊢
        have there' : (s.without entry.toBuiltIn).fileAt gitExe = some content := by
          rw [fileAt, ← files]
          exact there
        have before := fileAt_without.mp there'
        refine ⟨allSucceeded_without.mp (log.mp ok), content, before.1, before.2, ?_⟩
        have written : (s'.write entry.toBuiltIn content).files =
            ((s.without entry.toBuiltIn).write entry.toBuiltIn content).files := by
          simp only [write, files]
        dsimp only
        rw [written, write_without]
      · rw [uncopied] at ok
        obtain ⟨-, builtIn, same⟩ := allSucceeded_report.mp ok
        cases same
  · rw [failed] at ok
    obtain ⟨-, builtIn, same⟩ := allSucceeded_report.mp ok
    cases same

/-! ### The three passes -/

/-- A failure is not forgotten. -/
theorem foldl_allSucceeded {E : Type} {f : BuiltInsState upcase C → E → BuiltInsState upcase C}
    (step : ∀ s e, (f s e).AllSucceeded → s.AllSucceeded) {es : List E}
    (ok : (es.foldl f s).AllSucceeded) : s.AllSucceeded := by
  induction es generalizing s with
  | nil => exact ok
  | cons e es ih => exact step s e (ih ok)

theorem deleteScript_spec {entry : ListedBuiltIn} (ok : (s.deleteScript entry).AllSucceeded) :
    s.AllSucceeded ∧ s.deleteScript entry = s.without ⟨.bin, withoutExt entry.name⟩ :=
  deleteFile_spec (fun _ => BuiltInMessage.noConfusion) ok

theorem files_without_bin {name : Str} :
    (s.without ⟨.bin, name⟩).files .gitCore = s.files .gitCore := by
  rw [without]
  split
  · simp [delete]
  · rfl

/-- The first pass deletes files in `bin` only. -/
theorem deleteScripts_spec {builtIns : List ListedBuiltIn}
    (ok : (builtIns.foldl deleteScript s).AllSucceeded) :
    (builtIns.foldl deleteScript s).files .gitCore = s.files .gitCore ∧
      ∀ file content, (builtIns.foldl deleteScript s).fileAt file = some content →
        s.fileAt file = some content := by
  induction builtIns generalizing s with
  | nil => exact ⟨rfl, fun _ _ there => there⟩
  | cons entry builtIns ih =>
      rw [List.foldl_cons] at ok ⊢
      have here := foldl_allSucceeded (fun _ _ ok => (deleteScript_spec ok).1) ok
      obtain ⟨gitCore, files⟩ := ih ok
      rw [(deleteScript_spec here).2] at gitCore files ⊢
      refine ⟨gitCore.trans files_without_bin, fun file content there => ?_⟩
      exact (fileAt_without.mp (files file content there)).1

theorem namesIn_cons {folder : AppFolder} {entry : ListedBuiltIn} {builtIns : List ListedBuiltIn} :
    namesIn folder (entry :: builtIns) =
      if entry.folder = folder then entry.name :: namesIn folder builtIns
      else namesIn folder builtIns := by
  rw [namesIn, List.filter_cons]
  by_cases inside : entry.folder = folder
  · rw [if_pos (decide_eq_true inside), if_pos inside]
    rfl
  · rw [if_neg (by simpa using inside), if_neg inside]
    rfl

/-- **The second pass** puts the content of `bin\git.exe` under every name of the list. -/
theorem createAll_spec {builtIns : List ListedBuiltIn} {content : C}
    (ok : (builtIns.foldl createBuiltIn s).AllSucceeded)
    (git : s.fileAt gitExe = some content) (folder : AppFolder) :
    (builtIns.foldl createBuiltIn s).files folder =
      (s.files folder).putAll (namesIn folder builtIns) (.file content) := by
  induction builtIns generalizing s with
  | nil => rfl
  | cons entry builtIns ih =>
      rw [List.foldl_cons] at ok ⊢
      have here := foldl_allSucceeded (fun _ _ ok => (createBuiltIn_spec ok).1) ok
      obtain ⟨-, content', there, different, written⟩ := createBuiltIn_spec here
      obtain rfl : content' = content := Option.some.inj (there.symm.trans git)
      have git' : (s.createBuiltIn entry).fileAt gitExe = some content' := by
        rw [fileAt_eq_some_iff] at git ⊢
        rw [written, get_write, if_neg different]
        exact git
      rw [ih ok git', written, write, namesIn_cons]
      dsimp only
      split
      · rename_i inside
        subst inside
        rw [Function.update_self]
        rfl
      · rename_i outside
        rw [Function.update_of_ne (Ne.symm outside)]

theorem deleteDupe_spec {deletes : Str → Bool} {found : Str × Node C}
    (ok : (s.deleteDupe deletes found).AllSucceeded) :
    s.AllSucceeded ∧ ∀ file content, (s.deleteDupe deletes found).fileAt file = some content ↔
      s.fileAt file = some content ∧ ∀ content', found.2 = .file content' →
        pos found.1 gitExe.name ≠ 1 → ¬ file.Same upcase ⟨.bin, found.1⟩ := by
  obtain ⟨name, node⟩ := found
  rw [deleteDupe] at ok ⊢
  cases node with
  | directory => exact ⟨ok, fun file content => (and_iff_left nofun).symm⟩
  | file content' =>
      dsimp only at ok ⊢
      split at ok
      · rename_i dupe
        obtain ⟨before, deleted⟩ := deleteFile_spec (fun _ => BuiltInMessage.noConfusion) ok
        refine ⟨before, fun file content => ?_⟩
        rw [if_pos dupe, deleted, fileAt_without]
        exact and_congr_right fun _ => ⟨fun different _ _ _ => different, fun all => all _ rfl dupe⟩
      · rename_i spared
        refine ⟨ok, fun file content => ?_⟩
        rw [if_neg spared]
        exact (and_iff_left fun _ _ dupe => absurd dupe spared).symm

/-- **The third pass** keeps the files that have the name of no file it finds, or of one spelled
like the beginning of `git.exe`. -/
theorem deleteDupes_spec {deletes : Str → Bool} {found : List (Str × Node C)}
    (ok : (found.foldl (fun s found => s.deleteDupe deletes found) s).AllSucceeded)
    (file : BuiltIn) (content : C) :
    (found.foldl (fun s found => s.deleteDupe deletes found) s).fileAt file = some content ↔
      s.fileAt file = some content ∧ ∀ name content', (name, .file content') ∈ found →
        pos name gitExe.name ≠ 1 → ¬ file.Same upcase ⟨.bin, name⟩ := by
  induction found generalizing s with
  | nil => exact (and_iff_left fun _ _ inside => absurd inside List.not_mem_nil).symm
  | cons first found ih =>
      rw [List.foldl_cons] at ok ⊢
      have here := foldl_allSucceeded (fun _ _ ok => (deleteDupe_spec ok).1) ok
      rw [ih ok, (deleteDupe_spec here).2, and_assoc]
      refine and_congr_right fun _ => ⟨?_, ?_⟩
      · rintro ⟨apart, later⟩ name content' inside
        rcases List.mem_cons.mp inside with rfl | inside
        · exact apart content' rfl
        · exact later name content' inside
      · intro all
        refine ⟨fun content' isFile => all first.1 content' ?_, fun name content' inside =>
          all name content' (List.mem_cons_of_mem _ inside)⟩
        rw [← isFile]
        exact List.mem_cons_self

/-! ### The result -/

/-- `bin\git.exe` still has its content, and so has every file of the list. -/
def Created (s : BuiltInsState upcase C) (builtIns : List ListedBuiltIn) (content : C) : Prop :=
  s.fileAt gitExe = some content ∧ ∀ entry ∈ builtIns, s.fileAt entry.toBuiltIn = some content

/-- **The first two passes.**  Git and the files of the list have its content, and the files in
`libexec\git-core` are those that were there and those of the list. -/
theorem createPasses_spec {builtIns : List ListedBuiltIn} {content : C}
    (git : s.fileAt gitExe = some content)
    (ok : (builtIns.foldl createBuiltIn (builtIns.foldl deleteScript s)).AllSucceeded) :
    (∀ file : BuiltIn, file = gitExe ∨ (∃ entry ∈ builtIns, file = entry.toBuiltIn) →
      (builtIns.foldl createBuiltIn (builtIns.foldl deleteScript s)).fileAt file =
        some content) ∧
    ∀ name, (∃ content', (name, Node.file content') ∈
      ((builtIns.foldl createBuiltIn (builtIns.foldl deleteScript s)).files .gitCore).entries) ↔
        FoundInGitCore s.files builtIns name := by
  have ok₁ := foldl_allSucceeded (fun _ _ ok => (createBuiltIn_spec ok).1) ok
  obtain ⟨gitCore, files⟩ := deleteScripts_spec ok₁
  have git₁ : (builtIns.foldl deleteScript s).fileAt gitExe = some content := by
    cases builtIns with
    | nil => exact git
    | cons entry builtIns =>
        -- The first link would fail if the first pass had deleted `git.exe`.
        have here := foldl_allSucceeded (fun _ _ ok => (createBuiltIn_spec ok).1)
          (show (builtIns.foldl createBuiltIn _).AllSucceeded from ok)
        obtain ⟨-, content', there, -⟩ := createBuiltIn_spec here
        have same := (files gitExe content' there).symm.trans git
        rwa [same] at there
  have written := createAll_spec ok git₁
  constructor
  · intro file wanted
    rw [fileAt_eq_some_iff, written, Folder.get_putAll]
    split
    · rfl
    · rename_i unlisted
      rcases wanted with rfl | ⟨entry, listed, rfl⟩
      · exact fileAt_eq_some_iff.mp git₁
      · refine absurd (List.mem_map_of_mem (List.mem_map.mpr ⟨entry, ?_, rfl⟩)) unlisted
        exact List.mem_filter.mpr ⟨listed, decide_eq_true rfl⟩
  · intro name
    simp only [written, gitCore, Folder.mem_putAll, Node.file.injEq, exists_or, exists_and_right,
      exists_and_left, exists_eq, and_true, FoundInGitCore]

/-- **The aliases.**  If every delete, and for every entry the link or the copy, succeeds, then
`bin\git.exe` is as before and all files of the list have its content, if and only if nothing in
`libexec\git-core` makes the third pass delete one of them. -/
theorem created_iff {builtIns : List ListedBuiltIn} {deletes : Str → Bool} {content : C}
    (git : s.fileAt gitExe = some content)
    (ok : (s.createBuiltIns (some builtIns) deletes).AllSucceeded) :
    (s.createBuiltIns (some builtIns) deletes).Created builtIns content ↔
      NoDupes s.files builtIns := by
  rw [createBuiltIns] at ok ⊢
  obtain ⟨there, found⟩ := createPasses_spec git
    (foldl_allSucceeded (fun _ _ ok => (deleteDupe_spec ok).1) ok)
  rw [Created, deleteDupes_spec ok, and_iff_right (there _ (Or.inl rfl))]
  constructor
  · rintro ⟨gitKept, kept⟩ name inside dupe
    obtain ⟨content', inside⟩ := (found name).mpr inside
    refine ⟨gitKept name content' inside dupe, fun entry listed => ?_⟩
    exact ((deleteDupes_spec ok _ _).mp (kept entry listed)).2 name content' inside dupe
  · intro none
    have apart := fun name content' inside dupe =>
      none name ((found name).mp ⟨content', inside⟩) dupe
    refine ⟨fun name content' inside dupe => (apart name content' inside dupe).1, ?_⟩
    intro entry listed
    rw [deleteDupes_spec ok]
    exact ⟨there _ (Or.inr ⟨entry, listed, rfl⟩), fun name content' inside dupe =>
      (apart name content' inside dupe).2 entry listed⟩

end Steps

/-- `bin\git.exe` with the content 7, and nothing else. -/
def onlyGit : BuiltInsState Char.toUpper ℕ where
  files
    | .bin => ⟨[(gitExe.name, .file 7)], List.nodup_singleton _⟩
    | .gitCore => ⟨[], List.nodup_nil⟩
  log := []

/-- `git-upload-archive.exe` in one of the directories; all calls for it succeed. -/
def uploadArchive (folder : AppFolder) : ListedBuiltIn where
  folder := folder
  name := "git-upload-archive.exe".toList
  deletesScript := true
  deletesExisting := true
  createsLink := some true
  copies := true

theorem allSucceeded_of_log {upcase : Char → Char} {C : Type} {s : BuiltInsState upcase C}
    (log : s.log = []) : s.AllSucceeded := by
  intro message inside
  rw [log] at inside
  exact absurd inside List.not_mem_nil

/-- Another built-in, in `bin`. -/
def receivePack : ListedBuiltIn :=
  { uploadArchive .bin with name := "git-receive-pack.exe".toList }

/-- One alias in each directory, with different names. -/
theorem created_iff_uploadArchive :
    (onlyGit.createBuiltIns (some [uploadArchive .gitCore, receivePack]) fun _ => true).Created
      [uploadArchive .gitCore, receivePack] 7 := by
  refine (created_iff rfl (allSucceeded_of_log rfl)).mpr ?_
  rintro name (⟨earlier, later, split, -⟩ | ⟨⟨content, inside⟩, -⟩) -
  · have listed : name ∈ namesIn .gitCore [uploadArchive .gitCore, receivePack] := by
      rw [split]
      exact List.mem_append_right _ List.mem_cons_self
    obtain rfl : name = (uploadArchive .gitCore).name := List.mem_singleton.mp listed
    decide
  · exact absurd inside List.not_mem_nil

/-- An alias that is listed for both directories, as the release has it, is deleted from `bin`. -/
theorem not_created_uploadArchive :
    ¬ ∀ (s : BuiltInsState Char.toUpper ℕ) (builtIns : List ListedBuiltIn) (deletes : Str → Bool)
      (content : ℕ), (∀ entry ∈ builtIns, entry.toBuiltIn ≠ gitExe) →
        s.fileAt gitExe = some content →
        (s.createBuiltIns (some builtIns) deletes).AllSucceeded →
        (s.createBuiltIns (some builtIns) deletes).Created builtIns content := by
  intro all
  have created := all onlyGit [uploadArchive .bin, uploadArchive .gitCore] (fun _ => true) 7
    (by decide) rfl (allSucceeded_of_log rfl)
  have there := created.2 (uploadArchive .bin) List.mem_cons_self
  revert there
  decide

end BuiltInsState

end MsysGit.WinGit
