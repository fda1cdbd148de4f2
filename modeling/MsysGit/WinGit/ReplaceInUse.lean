import MsysGit.WinGit.BuiltIns

/-!
# Replacing a file that is in use

`ReplaceInUseFile` deletes the file, or gives it a temporary name, and then gives the new
file its name.  Before that it deletes the temporary files of earlier replacements, which it
finds by their extension: the name of the file without its own extension.  Any other file with
that extension is deleted as well; where the new file is one, nothing is left to put in
the place of the old one (`replacesSafely_iff`).

Both files are in one directory.  What the calls are answered with is part of the
replacement, and so is what the wildcard finds, which Windows compares with short names as well.
-/

namespace MsysGit.WinGit

open MsysGit.Library

section Code

variable (upcase : Char → Char) (C : Type)

/-- The entries of the directory. -/
abbrev Files := Folder (List.map upcase) (Node C)

/-- A call of `ReplaceInUseFile`, the directory, and what the calls are answered with. -/
structure Replacement where
  before : Files upcase C
  /-- `CurFileName` -/
  curFile : Str
  /-- `NewFileName` -/
  newFile : Str
  register : Bool
  /-- The names that `GenerateUniqueName` puts in front of an extension. -/
  generated : Str → Prop
  /-- The one that it finds this time. -/
  unique : Str
  unique_generated : generated unique
  fresh : before.get (unique ++ '.' :: withoutExt curFile) = none
  /-- What `*.` and the extension find. -/
  finds : Str → Bool
  /-- The files that `DelTree` is able to delete. -/
  cleans : Str → Bool
  unregisters : Bool
  deletes : Bool
  renamesAway : Bool
  renames : Bool
  /-- `RegisterServer` throws an exception otherwise. -/
  registers : Bool

variable {upcase C}

/-- Two spellings of one name. -/
def SameFile (upcase : Char → Char) (name other : Str) : Prop :=
  name.map upcase = other.map upcase

instance (name other : Str) : Decidable (SameFile upcase name other) :=
  inferInstanceAs (Decidable (_ = _))

namespace Files

variable (dir : Files upcase C)

def fileExists (name : Str) : Bool :=
  match dir.get name with
  | some (.file _) => true
  | _ => false

def deleteFile (allowed : Bool) (name : Str) : Option (Files upcase C) :=
  if dir.fileExists name && allowed then some (dir.delete name) else none

/-- `RenameFile` does not replace another file. -/
def renameFile (allowed : Bool) (name newName : Str) : Option (Files upcase C) :=
  match dir.get name with
  | none => none
  | some node =>
      if allowed = true ∧ ((dir.get newName).isNone = true ∨ SameFile upcase name newName) then
        some ((dir.delete name).put newName node)
      else none

end Files

/-- What the function returns (nothing after an exception), the directory and the message. -/
structure Replaced (upcase : Char → Char) (C : Type) where
  result : Option Bool
  files : Files upcase C
  shown : Option Str

namespace Replacement

variable (r : Replacement upcase C)

def curFileStem : Str := withoutExt r.curFile

def curFileTemp : Str := r.unique ++ '.' :: r.curFileStem

/-- `DelTree` deletes what is found. -/
def cleaned : Files upcase C :=
  r.before.keep fun name node =>
    match node with
    | .file _ => !(r.finds name && r.cleans name)
    | .directory => true

/-- `RenameFailed`, and the directory, after the attempts to get the file out of the way. -/
def moveAside (dir : Files upcase C) : Bool × Files upcase C :=
  if dir.fileExists r.curFile then
    match dir.deleteFile r.deletes r.curFile with
    | some dir => (false, dir)
    | none =>
        match dir.renameFile r.renamesAway r.curFile r.curFileTemp with
        | some dir => (false, dir)
        | none => (true, dir)
  else (false, dir)

def aside : Files upcase C := (r.moveAside r.cleaned).2

/-- `UnregisterFailed` -/
def unregisterFailed : Bool :=
  r.cleaned.fileExists r.curFile && (r.register && !r.unregisters)

/-- The message for the user. -/
def message : Str :=
  "Unable to install a new version of \"".toList ++ r.curFile ++ "\". ".toList ++
    "Please finish the installation manually by following theses steps on the command line:".toList
    ++ ['\r', '\r'] ++
    (if r.aside.fileExists r.curFile then
      (if r.unregisterFailed then
        "- run \"regsvr32 /u ".toList ++ r.curFile ++ "\",\r".toList else []) ++
      (if (r.moveAside r.cleaned).1 then
        "- rename \"".toList ++ r.curFile ++ "\" to something else,\r".toList else [])
    else []) ++
    "- rename \"".toList ++ r.newFile ++ "\" to \"".toList ++ r.curFile ++ "\",\r".toList ++
    "- run \"regsvr32 ".toList ++ r.curFile ++ "\".".toList

/-- `ReplaceInUseFile` -/
def replaceInUseFile : Replaced upcase C :=
  if ¬ r.before.fileExists r.newFile then ⟨some false, r.before, none⟩
  else match r.aside.renameFile r.renames r.newFile r.curFile with
    | none => ⟨some false, r.aside, some r.message⟩
    | some dir =>
        if r.register && !r.registers then ⟨none, dir, none⟩ else ⟨some true, dir, none⟩

/-! ### What is meant -/

/-- A temporary name that a replacement of this file can give. -/
def IsTemp (name : Str) : Prop :=
  ∃ unique, r.generated unique ∧ SameFile upcase name (unique ++ '.' :: r.curFileStem)

/-- The new file gets the name, or stays, and no other file is touched. -/
structure ReplacesSafely : Prop where
  replaced : r.replaceInUseFile.result = some true →
    ∃ content, r.before.get r.newFile = some (.file content) ∧
      r.replaceInUseFile.files.get r.curFile = some (.file content)
  kept : r.replaceInUseFile.result = some false →
    r.replaceInUseFile.files.get r.newFile = r.before.get r.newFile
  others : ∀ name, ¬ SameFile upcase name r.curFile → ¬ SameFile upcase name r.newFile →
    ¬ r.IsTemp name → r.replaceInUseFile.files.get name = r.before.get name

/-- The clean-up deletes nothing but temporary files and the old one, and the new file is neither
among them nor what is deleted or renamed as the old one. -/
structure Harmless : Prop where
  spares : ∀ name content, (name, Node.file content) ∈ r.before.entries →
    r.finds name = true → r.cleans name = true → ¬ SameFile upcase name r.newFile
  own : ∀ name content, (name, Node.file content) ∈ r.before.entries →
    r.finds name = true → r.cleans name = true → ¬ SameFile upcase name r.curFile →
    r.IsTemp name
  apart : SameFile upcase r.newFile r.curFile → r.deletes = false ∧ r.renamesAway = false

end Replacement

/-! ### The calls -/

namespace Files

variable {dir dir' : Files upcase C} {name newName : Str} {allowed : Bool}

theorem fileExists_iff :
    dir.fileExists name = true ↔ ∃ content, dir.get name = some (.file content) := by
  unfold fileExists
  split
  · rename_i content found
    exact iff_of_true rfl ⟨content, found⟩
  · rename_i other
    refine iff_of_false Bool.false_ne_true ?_
    rintro ⟨content, found⟩
    exact other content found

theorem get_deleteFile (done : dir.deleteFile allowed name = some dir') (other : Str) :
    dir'.get other = if SameFile upcase other name then none else dir.get other := by
  unfold deleteFile at done
  split_ifs at done
  cases done
  exact Folder.get_delete

/-- What stands under the names after a file was renamed. -/
theorem get_renameFile (done : dir.renameFile allowed name newName = some dir') :
    ∃ node, dir.get name = some node ∧ ∀ other, dir'.get other =
      if SameFile upcase other newName then some node
      else if SameFile upcase other name then none else dir.get other := by
  unfold renameFile at done
  cases found : dir.get name with
  | none =>
      rw [found] at done
      cases done
  | some node =>
      rw [found] at done
      dsimp only at done
      split_ifs at done
      cases done
      refine ⟨node, rfl, fun other => ?_⟩
      rw [Folder.get_put, Folder.get_delete]
      rfl

theorem renameFile_of_none (gone : dir.get name = none) :
    dir.renameFile allowed name newName = none := by
  rw [renameFile, gone]

end Files

/-! ### Getting the old file out of the way -/

namespace Replacement

variable {r : Replacement upcase C} {name : Str}

theorem isTemp_curFileTemp (same : SameFile upcase name r.curFileTemp) : r.IsTemp name :=
  ⟨r.unique, r.unique_generated, same⟩

theorem isTemp_congr {other : Str} (same : SameFile upcase other name) (temp : r.IsTemp other) :
    r.IsTemp name := by
  obtain ⟨unique, given, spelled⟩ := temp
  exact ⟨unique, given, same.symm.trans spelled⟩

theorem get_curFileTemp (r : Replacement upcase C) : r.cleaned.get r.curFileTemp = none := by
  rw [Option.eq_none_iff_forall_not_mem]
  intro node found
  have before := Folder.get_of_get_keep found
  rw [curFileTemp, curFileStem, r.fresh] at before
  cases before

/-- Only two names are touched. -/
theorem get_aside (cur : ¬ SameFile upcase name r.curFile)
    (temp : ¬ SameFile upcase name r.curFileTemp) : r.aside.get name = r.cleaned.get name := by
  unfold aside moveAside
  split
  · split
    · rename_i dir deleted
      rw [Files.get_deleteFile deleted, if_neg cur]
    · split
      · rename_i dir renamed
        obtain ⟨node, -, after⟩ := Files.get_renameFile renamed
        rw [after, if_neg temp, if_neg cur]
      · rfl
  · rfl

/-- What is deleted by the clean-up does not come back, but for a temporary file. -/
theorem get_aside_of_none (gone : r.cleaned.get name = none)
    (temp : ¬ SameFile upcase name r.curFileTemp) : r.aside.get name = none := by
  by_cases cur : SameFile upcase name r.curFile
  · have absent : r.cleaned.fileExists r.curFile = false := by
      rw [Bool.eq_false_iff]
      intro there
      obtain ⟨content, found⟩ := Files.fileExists_iff.mp there
      rw [← Folder.get_congr cur, gone] at found
      cases found
    unfold aside moveAside
    rw [absent]
    exact gone
  · rw [get_aside cur temp, gone]

/-- The old file is out of the way when it was deleted or renamed. -/
theorem get_aside_curFile (there : r.cleaned.fileExists r.curFile = true)
    (moved : r.deletes = true ∨ r.renamesAway = true) : r.aside.get r.curFile = none := by
  have temp : ¬ SameFile upcase r.curFile r.curFileTemp := by
    intro same
    obtain ⟨content, found⟩ := Files.fileExists_iff.mp there
    rw [Folder.get_congr same, get_curFileTemp] at found
    cases found
  unfold aside moveAside
  rw [if_pos there]
  split
  · rename_i dir deleted
    exact (Files.get_deleteFile deleted _).trans (if_pos rfl)
  · rename_i kept
    have away : r.renamesAway = true := moved.resolve_left fun deletes => by
      rw [Files.deleteFile, there, deletes] at kept
      cases kept
    split
    · rename_i dir renamed
      obtain ⟨node, -, after⟩ := Files.get_renameFile renamed
      rw [after, if_neg temp]
      exact if_pos rfl
    · rename_i stayed
      obtain ⟨content, found⟩ := Files.fileExists_iff.mp there
      rw [Files.renameFile, found, get_curFileTemp] at stayed
      dsimp only at stayed
      rw [if_pos ⟨away, Or.inl rfl⟩] at stayed
      cases stayed

theorem aside_of_failures (deletes : r.deletes = false) (away : r.renamesAway = false) :
    r.aside = r.cleaned := by
  have not_deleted : r.cleaned.deleteFile false r.curFile = none := by
    rw [Files.deleteFile, Bool.and_false]
    rfl
  have not_renamed : r.cleaned.renameFile false r.curFile r.curFileTemp = none := by
    unfold Files.renameFile
    split
    · rfl
    · exact if_neg fun h => Bool.false_ne_true h.1
  unfold aside moveAside
  rw [deletes, away, not_deleted, not_renamed]
  split <;> rfl

/-! ### What the clean-up does -/

theorem get_cleaned_of_deleted {other : Str} {content : C}
    (inside : (other, Node.file content) ∈ r.before.entries) (found : r.finds other = true)
    (deleted : r.cleans other = true) (same : SameFile upcase other name) :
    r.cleaned.get name = none := by
  refine Folder.get_keep_of_dropped inside same ?_
  show (!(r.finds other && r.cleans other)) = false
  rw [found, deleted]
  rfl

theorem get_cleaned_of_kept
    (kept : ∀ other content, (other, Node.file content) ∈ r.before.entries →
      r.finds other = true → r.cleans other = true → ¬ SameFile upcase other name) :
    r.cleaned.get name = r.before.get name := by
  refine Folder.get_keep_of_kept fun other node inside same => ?_
  cases node with
  | directory => rfl
  | file content =>
      show (!(r.finds other && r.cleans other)) = true
      rw [Bool.not_eq_true', Bool.and_eq_false_iff]
      by_contra both
      rw [not_or, Bool.not_eq_false, Bool.not_eq_false] at both
      exact kept other content inside both.1 both.2 same

/-! ### The whole replacement -/

section Whole

variable {content : C}

theorem replaceInUseFile_of_missing (missing : r.before.fileExists r.newFile = false) :
    r.replaceInUseFile = ⟨some false, r.before, none⟩ := by
  unfold replaceInUseFile
  rw [missing]
  rfl

/-- Nothing but the two files and a temporary one is touched behind the clean-up. -/
theorem get_replaceInUseFile (there : r.before.get r.newFile = some (.file content))
    (cur : ¬ SameFile upcase name r.curFile) (new : ¬ SameFile upcase name r.newFile)
    (temp : ¬ r.IsTemp name) : r.replaceInUseFile.files.get name = r.cleaned.get name := by
  have exists_new : r.before.fileExists r.newFile = true := Files.fileExists_iff.mpr ⟨_, there⟩
  have away := get_aside cur fun same => temp (isTemp_curFileTemp same)
  unfold replaceInUseFile
  rw [if_neg (not_not_intro exists_new)]
  split
  · exact away
  · rename_i dir renamed
    obtain ⟨node, -, after⟩ := Files.get_renameFile renamed
    have here : dir.get name = r.cleaned.get name := by
      rw [after, if_neg cur, if_neg new, away]
    split
    · exact here
    · exact here

/-- If the new file is lost on the way, there is nothing left to rename. -/
theorem replaceInUseFile_of_lost (exists_new : r.before.fileExists r.newFile = true)
    (lost : r.aside.get r.newFile = none) :
    r.replaceInUseFile = ⟨some false, r.aside, some r.message⟩ := by
  unfold replaceInUseFile
  rw [if_neg (not_not_intro exists_new), Files.renameFile_of_none lost]

/-- A new file that is there when it is renamed is not lost. -/
theorem replaced_or_kept (exists_new : r.before.fileExists r.newFile = true)
    (ready : r.aside.get r.newFile = some (.file content)) :
    (r.replaceInUseFile.result = some false ∧ r.replaceInUseFile.files = r.aside) ∨
      r.replaceInUseFile.result ≠ some false ∧
        r.replaceInUseFile.files.get r.curFile = some (.file content) := by
  unfold replaceInUseFile
  rw [if_neg (not_not_intro exists_new)]
  split
  · exact Or.inl ⟨rfl, rfl⟩
  · rename_i dir renamed
    obtain ⟨node, found, after⟩ := Files.get_renameFile renamed
    rw [ready] at found
    cases found
    have placed : dir.get r.curFile = some (.file content) := (after _).trans (if_pos rfl)
    split
    · exact Or.inr ⟨by simp, placed⟩
    · exact Or.inr ⟨by simp, placed⟩

end Whole

theorem newFile_ne_temp {content : C} (there : r.before.get r.newFile = some (.file content)) :
    ¬ SameFile upcase r.newFile r.curFileTemp := by
  intro same
  rw [Folder.get_congr same, curFileTemp, curFileStem, r.fresh] at there
  cases there

/-- A safe replacement is a harmless one. -/
theorem harmless_of_safe {content : C} (there : r.before.get r.newFile = some (.file content))
    (safe : r.ReplacesSafely) : r.Harmless := by
  have exists_new : r.before.fileExists r.newFile = true := Files.fileExists_iff.mpr ⟨_, there⟩
  have ready : r.aside.get r.newFile ≠ none := by
    intro lost
    have kept := safe.kept (congrArg Replaced.result (replaceInUseFile_of_lost exists_new lost))
    rw [replaceInUseFile_of_lost exists_new lost, there] at kept
    rw [lost] at kept
    cases kept
  have spares : ∀ name content, (name, Node.file content) ∈ r.before.entries →
      r.finds name = true → r.cleans name = true → ¬ SameFile upcase name r.newFile :=
    fun name content inside found deleted same => ready <|
      get_aside_of_none (get_cleaned_of_deleted inside found deleted same) (newFile_ne_temp there)
  have stays : r.cleaned.get r.newFile = some (.file content) :=
    (get_cleaned_of_kept spares).trans there
  refine ⟨spares, fun name content inside found deleted cur => ?_, fun same => ?_⟩
  · by_contra temp
    have new := spares name content inside found deleted
    have after := (get_replaceInUseFile there cur new temp).symm.trans
      (safe.others name cur new temp)
    rw [get_cleaned_of_deleted inside found deleted rfl] at after
    have before : r.before.get name = some (.file content) :=
      Folder.get_eq_some_iff.mpr ⟨name, inside, rfl⟩
    rw [before] at after
    cases after
  · by_contra moved
    rw [not_and_or, Bool.not_eq_false, Bool.not_eq_false] at moved
    have exists_cur : r.cleaned.fileExists r.curFile = true :=
      Files.fileExists_iff.mpr ⟨content, (Folder.get_congr same).symm.trans stays⟩
    exact ready ((Folder.get_congr same).trans (get_aside_curFile exists_cur moved))

/-- A harmless one is safe. -/
theorem safe_of_harmless {content : C} (there : r.before.get r.newFile = some (.file content))
    (harmless : r.Harmless) : r.ReplacesSafely := by
  have exists_new : r.before.fileExists r.newFile = true := Files.fileExists_iff.mpr ⟨_, there⟩
  have stays : r.cleaned.get r.newFile = some (.file content) :=
    (get_cleaned_of_kept harmless.spares).trans there
  have ready : r.aside.get r.newFile = some (.file content) := by
    by_cases same : SameFile upcase r.newFile r.curFile
    · obtain ⟨deletes, away⟩ := harmless.apart same
      rw [aside_of_failures deletes away, stays]
    · rw [get_aside same (newFile_ne_temp there), stays]
  have others : ∀ name, ¬ SameFile upcase name r.curFile → ¬ SameFile upcase name r.newFile →
      ¬ r.IsTemp name → r.replaceInUseFile.files.get name = r.before.get name := by
    intro name cur new temp
    refine (get_replaceInUseFile there cur new temp).trans (get_cleaned_of_kept ?_)
    intro other content inside found deleted same
    have own := harmless.own other content inside found deleted fun same' =>
      cur (same.symm.trans same')
    exact temp (isTemp_congr same own)
  rcases replaced_or_kept exists_new ready with ⟨result, files⟩ | ⟨result, placed⟩
  · refine ⟨fun replaced => ?_, fun _ => ?_, others⟩
    · rw [result] at replaced
      cases replaced
    · rw [files, ready, there]
  · exact ⟨fun _ => ⟨content, there, placed⟩, fun kept => absurd kept result, others⟩

/-- **When a replacement is safe**: there is no new file, or the clean-up and the way the old
file is removed do no harm. -/
theorem replacesSafely_iff (r : Replacement upcase C) :
    r.ReplacesSafely ↔ r.before.fileExists r.newFile = false ∨ r.Harmless := by
  by_cases exists_new : r.before.fileExists r.newFile = true
  · obtain ⟨content, there⟩ := Files.fileExists_iff.mp exists_new
    rw [or_iff_right (ne_true_of_eq_false · exists_new)]
    exact ⟨harmless_of_safe there, safe_of_harmless there⟩
  · have missing := Bool.eq_false_iff.mpr exists_new
    refine iff_of_true ?_ (Or.inl missing)
    have run := replaceInUseFile_of_missing missing
    refine ⟨fun replaced => ?_, fun _ => ?_, fun name _ _ _ => ?_⟩
    · rw [run] at replaced
      cases replaced
    · rw [run]
    · rw [run]

end Replacement

end Code

/-- `new.dll` and its new version; `*.new` finds the new version, and every call succeeds. -/
def newDll : Replacement Char.toUpper ℕ where
  before :=
    { entries := [("new.dll".toList, .file 1), ("new.dll.new".toList, .file 2)]
      distinct := by decide }
  curFile := "new.dll".toList
  newFile := "new.dll.new".toList
  register := true
  generated := fun name =>
    "is-".toList <+: name ∧ name.length = 8 ∧ (name.drop 3).all Char.isAlphanum = true
  unique := "is-1A2B3".toList
  unique_generated := by decide
  fresh := by decide
  finds := fun name => ".NEW".toList <:+ name.map Char.toUpper
  cleans := fun _ => true
  unregisters := true
  deletes := true
  renamesAway := true
  renames := true
  registers := true

/-- Both files are gone in the end. -/
theorem not_replacesSafely : ¬ newDll.ReplacesSafely := by
  intro safe
  have kept := safe.kept (by decide +kernel)
  revert kept
  decide +kernel

end MsysGit.WinGit
