import Mathlib.Data.List.Infix
import Mathlib.Logic.Function.Basic
import Mathlib.Tactic.Common

/-!
# Volumes

A volume has a root and below it directories and files.  A path lists the names from the
deepest one up, so that the parent of a path is its tail and the root is `[]`.  What lies
above an entry is a directory; the operations keep that, so no volume is without it.

A volume whose root is missing is empty: a drive that is not there.
-/

namespace MsysGit.Library

universe u v

/-- What stands under a path. -/
inductive Entry (C : Type v) where
  | file (content : C)
  | directory
  deriving DecidableEq

/-- The entries of a volume. -/
structure Volume (N : Type u) (C : Type v) where
  entry : List N → Option (Entry C)
  parents : ∀ name dir, entry (name :: dir) ≠ none → entry dir = some .directory

namespace Volume

variable {N : Type u} {C : Type v}

theorem ext_entry {fs fs' : Volume N C} (same : fs.entry = fs'.entry) : fs = fs' := by
  cases fs
  cases fs'
  cases same
  rfl

section Reading

variable (fs : Volume N C)

def dirExists (dir : List N) : Bool :=
  match fs.entry dir with
  | some .directory => true
  | _ => false

def fileExists (path : List N) : Bool :=
  match fs.entry path with
  | some (.file _) => true
  | _ => false

variable {fs} {dir top path : List N}

theorem dirExists_iff : fs.dirExists dir = true ↔ fs.entry dir = some .directory := by
  unfold dirExists
  split
  · rename_i found
    exact iff_of_true rfl found
  · rename_i other
    exact iff_of_false Bool.false_ne_true other

theorem fileExists_iff :
    fs.fileExists path = true ↔ ∃ content, fs.entry path = some (.file content) := by
  unfold fileExists
  split
  · rename_i content found
    exact iff_of_true rfl ⟨content, found⟩
  · rename_i other
    exact iff_of_false Bool.false_ne_true fun ⟨content, found⟩ => other content found

/-- Whatever lies above an entry is a directory. -/
theorem entry_of_append {front : List N} (below : front ≠ [])
    (some_entry : fs.entry (front ++ top) ≠ none) :
    fs.entry top = some .directory := by
  induction front with
  | nil => exact absurd rfl below
  | cons name front ih =>
      have parent := fs.parents name (front ++ top) some_entry
      by_cases here : front = []
      · rwa [here, List.nil_append] at parent
      · exact ih here (by rw [parent]; exact Option.some_ne_none _)

/-- Below a path that is no directory there is nothing. -/
theorem entry_below {front : List N} (below : front ≠ []) (missing : fs.dirExists top = false) :
    fs.entry (front ++ top) = none := by
  by_contra some_entry
  rw [dirExists_iff.mpr (entry_of_append below some_entry)] at missing
  cases missing

theorem dirExists_suffix (above : top <:+ dir) (here : fs.dirExists dir = true) :
    fs.dirExists top = true := by
  obtain ⟨front, rfl⟩ := above
  by_cases below : front = []
  · rwa [below] at here
  · refine dirExists_iff.mpr (entry_of_append below ?_)
    rw [dirExists_iff.mp here]
    exact Option.some_ne_none _

end Reading

/-! ### Operations -/

section Operations

variable [DecidableEq N] (fs : Volume N C)

/-- Put an entry into a directory, where no other directory is. -/
def add (name : N) (dir : List N) (e : Entry C) (inside : fs.dirExists dir = true)
    (free : fs.dirExists (name :: dir) = false) : Volume N C where
  entry := Function.update fs.entry (name :: dir) (some e)
  parents := by
    intro name' dir' some_entry
    by_cases same : name' :: dir' = name :: dir
    · cases same
      rw [Function.update_of_ne (List.cons_ne_self _ _).symm]
      exact dirExists_iff.mp inside
    · rw [Function.update_of_ne same] at some_entry
      have parent := fs.parents name' dir' some_entry
      rw [Function.update_of_ne, parent]
      rintro rfl
      rw [dirExists_iff.mpr parent] at free
      cases free

/-- Make a directory. -/
def createDir (allowed : Bool) : List N → Option (Volume N C)
  | [] => none
  | name :: dir =>
      if inside : fs.dirExists dir = true then
        if free : fs.dirExists (name :: dir) = false then
          if allowed && (fs.entry (name :: dir)).isNone then
            some (fs.add name dir .directory inside free)
          else none
        else none
      else none

/-- Write a file, or write it anew. -/
def createFile (allowed : Bool) (content : C) : List N → Option (Volume N C)
  | [] => none
  | name :: dir =>
      if inside : fs.dirExists dir = true then
        if free : fs.dirExists (name :: dir) = false then
          if allowed then some (fs.add name dir (.file content) inside free) else none
        else none
      else none

/-- Take a file away. -/
def removeFile (path : List N) (file : fs.fileExists path = true) : Volume N C where
  entry := Function.update fs.entry path none
  parents := by
    intro name dir some_entry
    have other : name :: dir ≠ path := by
      rintro rfl
      exact some_entry (Function.update_self _ _ _)
    rw [Function.update_of_ne other] at some_entry
    have parent := fs.parents name dir some_entry
    rw [Function.update_of_ne, parent]
    rintro rfl
    obtain ⟨content, found⟩ := fileExists_iff.mp file
    rw [parent] at found
    cases found

def deleteFile (allowed : Bool) (path : List N) : Option (Volume N C) :=
  if file : fs.fileExists path = true then
    if allowed then some (fs.removeFile path file) else none
  else none

/-- Take a directory away with everything below it. -/
def without (top : List N) : Volume N C where
  entry path := if top <:+ path then none else fs.entry path
  parents := by
    intro name dir some_entry
    by_cases above : top <:+ name :: dir
    · rw [if_pos above] at some_entry
      exact absurd rfl some_entry
    · rw [if_neg above] at some_entry
      rw [if_neg fun inside => above (inside.trans (List.suffix_cons name dir))]
      exact fs.parents name dir some_entry

variable {fs} {fs' : Volume N C} {allowed : Bool} {name : N} {dir path : List N} {content : C}

/-- What a new directory changes. -/
theorem createDir_eq_some (made : fs.createDir allowed path = some fs') :
    fs.entry path = none ∧ fs'.entry = Function.update fs.entry path (some .directory) := by
  cases path with
  | nil => cases made
  | cons name dir =>
      rw [createDir] at made
      split_ifs at made with inside free able
      cases made
      rw [Bool.and_eq_true] at able
      exact ⟨Option.isNone_iff_eq_none.mp able.2, rfl⟩

/-- A file can be written in a directory exactly when that is allowed. -/
theorem createFile_cons (inside : fs.dirExists dir = true)
    (free : fs.dirExists (name :: dir) = false) :
    fs.createFile allowed content (name :: dir) =
      if allowed then some (fs.add name dir (.file content) inside free) else none := by
  rw [createFile, dif_pos inside, dif_pos free]

/-- Deleting the file that was written leaves nothing of it. -/
theorem deleteFile_add (inside : fs.dirExists dir = true) (free : fs.entry (name :: dir) = none)
    (free' : fs.dirExists (name :: dir) = false) :
    (fs.add name dir (.file content) inside free').deleteFile allowed (name :: dir) =
      if allowed then some fs else none := by
  have file : (fs.add name dir (.file content) inside free').fileExists (name :: dir) = true :=
    fileExists_iff.mpr ⟨content, Function.update_self _ _ _⟩
  rw [deleteFile, dif_pos file]
  have same :
      (fs.add name dir (.file content) inside free').removeFile (name :: dir) file = fs := by
    apply ext_entry
    funext path
    show Function.update (Function.update fs.entry (name :: dir) _) (name :: dir) none path = _
    rw [Function.update_idem, ← free, Function.update_eq_self]
  rw [same]

end Operations

end Volume

end MsysGit.Library
