import MsysGit.Library.SeparatedText
import Mathlib.Logic.Function.Basic

/-!
# Environment variables of the installer

The registry holds the variables of all users and of the current user, every
installation directory a `setup.ini` with what was changed there, and the running
process an environment of its own.  `getEnvStrings` and `setEnvStrings` are the
two functions through which the installer and the uninstaller read and write
variables.

A registry value carries who wrote it.  No function of the code reads that: it is
there for statements about what is deleted.
-/

namespace MsysGit.WinGit

open MsysGit.Library

/-- A Pascal string. -/
abbrev Str := List Char

inductive Variable
  | gitSsh
  | svnSsh
  | path
  | home
  | homeDrive
  | homePath
  deriving DecidableEq

/-- The name of the variable. -/
def Variable.name : Variable → String
  | gitSsh => "GIT_SSH"
  | svnSsh => "SVN_SSH"
  | path => "PATH"
  | home => "HOME"
  | homeDrive => "HOMEDRIVE"
  | homePath => "HOMEPATH"

inductive Writer
  | installer
  | user
  deriving DecidableEq

/-- A registry value, and who wrote it. -/
structure Entry where
  value : Str
  writer : Writer
  deriving DecidableEq

/-- A registry value that was deleted. -/
structure Deletion where
  allUsers : Bool
  name : Variable
  entry : Entry
  deriving DecidableEq

/-- The keys of an ini file's section `Environment`. -/
abbrev IniFile := Variable → Option Str

/-- What outlives a run of the installer.  The registry is indexed by `AllUsers`,
the ini files by their names. -/
structure Machine where
  registry : Bool → Variable → Option Entry
  setupIni : Str → Option IniFile

/-- `GetIniString`, with an empty default. -/
def Machine.getIniString (m : Machine) (v : Variable) (fileName : Str) : Str :=
  ((m.setupIni fileName).bind fun file => file v).getD []

/-- A running installer or uninstaller. -/
structure Setup extends Machine where
  /-- The environment of the process; an undefined variable expands to nothing. -/
  environment : Variable → Str
  /-- The registry values deleted so far. -/
  deleted : List Deletion
  /-- The messages shown and logged so far, without their line numbers. -/
  log : List String

/-- A process that has done nothing yet. -/
def Setup.start (m : Machine) (environment : Variable → Str) : Setup where
  toMachine := m
  environment := environment
  deleted := []
  log := []

/-! ### Library functions -/

/-- Quotes at both ends are removed. -/
def removeQuotes (s : Str) : Str :=
  ((s.dropWhile (· = '"')).reverse.dropWhile (· = '"')).reverse

/-- `SetArrayLength`; new elements are empty. -/
def setArrayLength (strings : List Str) (n : ℕ) : List Str :=
  strings.take n ++ List.replicate (n - strings.length) []

namespace Setup

variable (s : Setup)

/-- The value read, or nothing when there is none. -/
def regQueryStringValue (allUsers : Bool) (v : Variable) : Str :=
  ((s.registry allUsers v).map Entry.value).getD []

def regWriteStringValue (allUsers : Bool) (v : Variable) (value : Str) : Setup :=
  { s with registry := fun a w =>
      if a = allUsers ∧ w = v then some ⟨value, .installer⟩ else s.registry a w }

def regDeleteValue (allUsers : Bool) (v : Variable) : Setup :=
  { s with
    registry := fun a w => if a = allUsers ∧ w = v then none else s.registry a w
    deleted := s.deleted ++
      ((s.registry allUsers v).map fun entry => ⟨allUsers, v, entry⟩).toList }

/-- `SetIniString`, which creates the file if need be.  What is stored is what will
be read: `readBack` stands for the blanks and quotes that are lost on the way. -/
def setIniString (readBack : Str → Str) (ok : Bool) (v : Variable) (value fileName : Str) :
    Bool × Setup :=
  let file := (s.setupIni fileName).getD fun _ => none
  let file := Function.update file v (some (readBack value))
  (ok, if ok then { s with setupIni := Function.update s.setupIni fileName (some file) } else s)

/-- `DeleteFile`. -/
def deleteFile (ok : Bool) (fileName : Str) : Bool × Setup :=
  (ok, if ok then { s with setupIni := Function.update s.setupIni fileName none } else s)

/-- Go on after a call, with a message when it failed. -/
def orLog (message : String) (result : Bool × Setup) : Setup :=
  if result.1 then result.2 else { result.2 with log := result.2.log ++ [message] }

end Setup

/-! ### Reading a variable -/

/-- The loop of `GetEnvStrings`: `strings` is the result so far, `i` the number of
entries in it.  An entry is made room for before it is known to be empty. -/
def splitLoop : ℕ → List Str → ℕ → Str → List Str
  | 0, strings, _, _ => strings
  | fuel + 1, strings, i, path =>
    if ';' ∈ path then
      let p := path.idxOf ';' + 1
      let strings := setArrayLength strings (i + 1)
      if 1 < p then splitLoop fuel (strings.set i (path.take (p - 1))) (i + 1) (path.drop p)
      else splitLoop fuel strings i (path.drop p)
    else strings

/-- What `GetEnvStrings` makes of a text. -/
def splitStrings (path : Str) : List Str :=
  let path := path ++ [';']
  splitLoop (path.length + 1) [] 0 path

/-- The text of a variable: the registry value, or that of the process when it is
missing or empty. -/
def Setup.envText (s : Setup) (v : Variable) (allUsers : Bool) : Str :=
  let path := s.regQueryStringValue allUsers v
  if path.length = 0 then s.environment v else path

def Setup.getEnvStrings (s : Setup) (v : Variable) (allUsers : Bool) : List Str :=
  splitStrings (s.envText v allUsers)

/-- The element that is left at the end when the last parts are empty: room was made
for an entry that never came. -/
def spare : List Str → List Str → List Str
  | room, [] => room
  | _, part :: parts => spare (if part = [] then [[]] else []) parts

theorem spare_eq {room : List Str} (at_most_one : room = [] ∨ room = [[]]) (parts : List Str) :
    spare room parts = [] ∨ spare room parts = [[]] := by
  induction parts generalizing room with
  | nil => exact at_most_one
  | cons part parts ih =>
      rw [spare]
      refine ih ?_
      split
      · exact Or.inr rfl
      · exact Or.inl rfl

theorem spare_of_filter_eq_nil {room : List Str} {parts : List Str} (some_part : parts ≠ [])
    (empty : parts.filter (· ≠ []) = []) : spare room parts = [[]] := by
  induction parts generalizing room with
  | nil => exact absurd rfl some_part
  | cons part parts ih =>
      rw [List.filter_eq_nil_iff] at empty
      have here : part = [] := by simpa using empty part List.mem_cons_self
      rw [spare, if_pos here]
      cases parts with
      | nil => rfl
      | cons next parts =>
          refine ih (List.cons_ne_nil _ _) ?_
          rw [List.filter_eq_nil_iff]
          exact fun p inside => empty p (List.mem_cons_of_mem _ inside)

theorem setArrayLength_room {found room : List Str} (at_most_one : room = [] ∨ room = [[]]) :
    setArrayLength (found ++ room) (found.length + 1) = found ++ [[]] := by
  rcases at_most_one with rfl | rfl
  · simp [setArrayLength, List.take_of_length_le]
  · simp [setArrayLength, List.take_of_length_le]

/-- One entry after the other is found. -/
theorem splitLoop_terminated {parts : List Str} (clean : ∀ part ∈ parts, ';' ∉ part) :
    ∀ (fuel : ℕ) (found room : List Str), parts.length < fuel → (room = [] ∨ room = [[]]) →
      splitLoop fuel (found ++ room) found.length (terminated ';' parts) =
        found ++ parts.filter (· ≠ []) ++ spare room parts := by
  induction parts with
  | nil =>
      intro fuel found room enough _
      obtain ⟨fuel, rfl⟩ := Nat.exists_eq_add_of_lt enough
      simp [splitLoop, terminated, spare]
  | cons part parts ih =>
      intro fuel found room enough at_most_one
      have free : ';' ∉ part := clean part List.mem_cons_self
      have later : ∀ p ∈ parts, ';' ∉ p := fun p inside => clean p (List.mem_cons_of_mem _ inside)
      obtain ⟨fuel, rfl⟩ : ∃ k, fuel = k + 1 := ⟨fuel - 1, by omega⟩
      have more : parts.length < fuel := by
        rw [List.length_cons] at enough
        omega
      have position : (part ++ ';' :: terminated ';' parts).idxOf ';' = part.length := by
        rw [List.idxOf_append_of_notMem free, List.idxOf_cons_self, Nat.add_zero]
      have left : (part ++ ';' :: terminated ';' parts).drop (part.length + 1) =
          terminated ';' parts := by simp
      rw [terminated_cons, splitLoop, if_pos (by simp)]
      dsimp only
      rw [position, left, setArrayLength_room at_most_one, Nat.add_sub_cancel, List.take_left]
      by_cases empty : part = []
      · -- Room was made for an entry that does not come.
        subst empty
        rw [if_neg (by simp), ih later fuel found [[]] more (Or.inr rfl)]
        simp [spare]
      · -- The entry takes the place made for it, and the next round makes a new one.
        have positive := List.length_pos_iff.mpr empty
        rw [if_pos (by omega), List.set_append_right _ _ (Nat.le_refl _), Nat.sub_self]
        have next := ih later fuel (found ++ [part]) [] more (Or.inl rfl)
        rw [List.append_nil, List.length_append, List.length_singleton] at next
        show splitLoop fuel (found ++ [part]) _ _ = _
        rw [next]
        simp [spare, empty]

/-- **What `GetEnvStrings` returns**: the non-empty entries, and an empty string when
the text ends in an empty part. -/
theorem splitStrings_eq (path : Str) :
    splitStrings path = entries ';' path ++ spare [] (path.splitOn ';') := by
  have enough : (path.splitOn ';').length < (path ++ [';']).length + 1 := by
    rw [← terminated_splitOn]
    exact Nat.lt_succ_of_le (length_le_terminated _)
  have clean : ∀ part ∈ path.splitOn ';', ';' ∉ part := fun _ => notMem_of_mem_splitOn
  have loop := splitLoop_terminated clean _ [] [] enough (Or.inl rfl)
  rw [terminated_splitOn] at loop
  exact loop

/-! ### Writing a variable -/

/-- The registry part of `SetEnvStrings`.  `ok` is the outcome of the registry
operation. -/
def Setup.storeString (s : Setup) (ok : Bool) (v : Variable) (allUsers deleteIfEmpty : Bool)
    (path : Str) : Bool × Setup :=
  if deleteIfEmpty ∧ path.length = 0 then
    if (s.registry allUsers v).isSome then (ok, if ok then s.regDeleteValue allUsers v else s)
    else (true, s)
  else (ok, if ok then s.regWriteStringValue allUsers v path else s)

/-- `SetEnvironmentVariable`. -/
def Setup.setEnvironmentVariable (s : Setup) (v : Variable) (value : Str) : Setup :=
  { s with environment := Function.update s.environment v value }

/-- `SetEnvStrings`: the registry, then the environment of the current process. -/
def Setup.setEnvStrings (s : Setup) (ok : Bool) (v : Variable) (allUsers deleteIfEmpty : Bool)
    (dirStrings : List Str) : Bool × Setup :=
  let path := merge ';' dirStrings
  let result := s.storeString ok v allUsers deleteIfEmpty path
  (result.1, result.2.setEnvironmentVariable v path)

/-! ### Lemmas -/

/-- Whatever the room at the end, the non-empty strings are the entries. -/
theorem filter_splitStrings (path : Str) :
    (splitStrings path).filter (· ≠ []) = entries ';' path := by
  rw [splitStrings_eq, List.filter_append]
  have whole : (entries ';' path).filter (· ≠ []) = entries ';' path :=
    List.filter_eq_self.mpr (fun _ inside => decide_eq_true (ne_nil_of_mem_entries inside))
  have room : (spare [] (path.splitOn ';')).filter (· ≠ []) = [] := by
    rcases spare_eq (Or.inl rfl) (path.splitOn ';') with none | one
    · rw [none]
      rfl
    · rw [one]
      rfl
  rw [whole, room, List.append_nil]

/-- There is always a string, if only an empty one. -/
theorem splitStrings_ne_nil (path : Str) : splitStrings path ≠ [] := by
  rw [splitStrings_eq]
  intro empty
  obtain ⟨no_entry, no_room⟩ := List.append_eq_nil_iff.mp empty
  rw [spare_of_filter_eq_nil (List.splitOn_ne_nil _ _) no_entry] at no_room
  cases no_room

namespace Setup

variable {s : Setup} {ok : Bool} {v : Variable} {allUsers deleteIfEmpty : Bool}
  {dirStrings : List Str}

/-- What a call of `SetEnvStrings` can do to the registry: nothing, write the merged
text, or delete a value when that text is empty. -/
theorem setEnvStrings_cases (s : Setup) (ok : Bool) (v : Variable) (allUsers : Bool)
    (dirStrings : List Str) :
    let s' := (s.setEnvStrings ok v allUsers true dirStrings).2
    (s'.registry = s.registry ∧ s'.deleted = s.deleted ∧
        (merge ';' dirStrings = [] ∧ s.registry allUsers v = none ∨ ok = false)) ∨
      (s'.registry = (s.regWriteStringValue allUsers v (merge ';' dirStrings)).registry ∧
        s'.deleted = s.deleted ∧ merge ';' dirStrings ≠ [] ∧ ok = true) ∨
      (s'.registry = (s.regDeleteValue allUsers v).registry ∧
        s'.deleted = (s.regDeleteValue allUsers v).deleted ∧ merge ';' dirStrings = [] ∧
        (s.registry allUsers v).isSome ∧ ok = true) := by
  dsimp only [setEnvStrings, storeString, setEnvironmentVariable]
  by_cases empty : merge ';' dirStrings = []
  · rw [if_pos ⟨rfl, List.length_eq_zero_iff.mpr empty⟩]
    cases stored : s.registry allUsers v with
    | none => exact Or.inl ⟨rfl, rfl, Or.inl ⟨empty, rfl⟩⟩
    | some entry =>
        cases ok with
        | false => exact Or.inl ⟨rfl, rfl, Or.inr rfl⟩
        | true => exact Or.inr (Or.inr ⟨rfl, rfl, empty, rfl, rfl⟩)
  · rw [if_neg fun both => empty (List.length_eq_zero_iff.mp both.2)]
    cases ok with
    | false => exact Or.inl ⟨rfl, rfl, Or.inr rfl⟩
    | true => exact Or.inr (Or.inl ⟨rfl, rfl, empty, rfl⟩)

theorem setEnvStrings_setupIni :
    (s.setEnvStrings ok v allUsers deleteIfEmpty dirStrings).2.setupIni = s.setupIni := by
  dsimp only [setEnvStrings, storeString, setEnvironmentVariable]
  split_ifs <;> rfl

/-- The variables of the other scope and the other variables keep their values. -/
theorem setEnvStrings_registry {a : Bool} {w : Variable} (other : ¬ (a = allUsers ∧ w = v)) :
    (s.setEnvStrings ok v allUsers true dirStrings).2.registry a w = s.registry a w := by
  rcases setEnvStrings_cases s ok v allUsers dirStrings with ⟨kept, _⟩ | ⟨written, _⟩ | ⟨gone, _⟩
  · rw [kept]
  · rw [written]
    exact if_neg other
  · rw [gone]
    exact if_neg other

/-- A successful call with an entry writes it. -/
theorem setEnvStrings_write (entry : merge ';' dirStrings ≠ []) :
    (s.setEnvStrings true v allUsers true dirStrings).2.registry allUsers v =
      some ⟨merge ';' dirStrings, .installer⟩ := by
  rcases setEnvStrings_cases s true v allUsers dirStrings with
    ⟨_, _, ⟨none, _⟩ | failed⟩ | ⟨written, _⟩ | ⟨_, _, none, _⟩
  · exact absurd none entry
  · cases failed
  · rw [written]
    exact if_pos ⟨rfl, rfl⟩
  · exact absurd none entry

/-- A message changes nothing else. -/
theorem orLog_toMachine (message : String) (result : Bool × Setup) :
    (orLog message result).toMachine = result.2.toMachine := by
  rw [orLog]
  split <;> rfl

end Setup

end MsysGit.WinGit
