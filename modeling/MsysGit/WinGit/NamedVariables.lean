import MsysGit.WinGit.Environment

/-!
# Variables of any name

`GetEnvStrings` and `SetEnvStrings` take the name of the variable as an argument.  Here
they are once more, over any type of names and without what only statements about the
installer need; the installer's own are these for its six names
(`getEnvStrings_store`, `setEnvStrings_store`).

What is read back has an empty string at the end if the text ends in an empty part, the
empty text included.
-/

namespace MsysGit.WinGit

open MsysGit.Library

variable {Name : Type*} [DecidableEq Name]

/-- The values in the registry, by `AllUsers`, and the environment of the process. -/
structure EnvironmentStore (Name : Type*) where
  registry : Bool → Name → Option Str
  environment : Name → Str

namespace EnvironmentStore

/-! ### The code -/

def envText (s : EnvironmentStore Name) (varName : Name) (allUsers : Bool) : Str :=
  let path := (s.registry allUsers varName).getD []
  if path.length = 0 then s.environment varName else path

/-- `GetEnvStrings` -/
def getEnvStrings (s : EnvironmentStore Name) (varName : Name) (allUsers : Bool) : List Str :=
  splitStrings (s.envText varName allUsers)

/-- The value in the registry becomes another one, or is deleted. -/
def setRegistry (s : EnvironmentStore Name) (varName : Name) (allUsers : Bool)
    (value : Option Str) : EnvironmentStore Name :=
  { s with registry := fun a name =>
      if a = allUsers ∧ name = varName then value else s.registry a name }

/-- `SetEnvStrings`; `ok` is the outcome of the registry operation. -/
def setEnvStrings (s : EnvironmentStore Name) (ok : Bool) (varName : Name)
    (allUsers deleteIfEmpty : Bool) (dirStrings : List Str) : Bool × EnvironmentStore Name :=
  let path := merge ';' dirStrings
  let result :=
    if deleteIfEmpty ∧ path.length = 0 then
      if (s.registry allUsers varName).isSome then
        (ok, if ok then s.setRegistry varName allUsers none else s)
      else (true, s)
    else (ok, if ok then s.setRegistry varName allUsers (some path) else s)
  (result.1, { result.2 with environment := Function.update s.environment varName path })

end EnvironmentStore

/-! ### The installer's variables -/

/-- What the two functions see of a running installer. -/
def Setup.store (s : Setup) : EnvironmentStore Variable where
  registry allUsers v := (s.registry allUsers v).map Entry.value
  environment := s.environment

theorem getEnvStrings_store (s : Setup) (v : Variable) (allUsers : Bool) :
    s.getEnvStrings v allUsers = s.store.getEnvStrings v allUsers := rfl

theorem store_setEnvironmentVariable (s : Setup) (v : Variable) (value : Str) :
    (s.setEnvironmentVariable v value).store =
      { s.store with environment := Function.update s.environment v value } := rfl

theorem store_regWriteStringValue (s : Setup) (allUsers : Bool) (v : Variable) (value : Str) :
    (s.regWriteStringValue allUsers v value).store =
      s.store.setRegistry v allUsers (some value) := by
  rw [Setup.store, EnvironmentStore.setRegistry, EnvironmentStore.mk.injEq]
  refine ⟨?_, rfl⟩
  funext a name
  rw [Setup.regWriteStringValue]
  dsimp only
  split <;> rfl

theorem store_regDeleteValue (s : Setup) (allUsers : Bool) (v : Variable) :
    (s.regDeleteValue allUsers v).store = s.store.setRegistry v allUsers none := by
  rw [Setup.store, EnvironmentStore.setRegistry, EnvironmentStore.mk.injEq]
  refine ⟨?_, rfl⟩
  funext a name
  rw [Setup.regDeleteValue]
  dsimp only
  split <;> rfl

theorem setEnvStrings_store (s : Setup) (ok : Bool) (v : Variable)
    (allUsers deleteIfEmpty : Bool) (dirStrings : List Str) :
    s.store.setEnvStrings ok v allUsers deleteIfEmpty dirStrings =
      ((s.setEnvStrings ok v allUsers deleteIfEmpty dirStrings).1,
        (s.setEnvStrings ok v allUsers deleteIfEmpty dirStrings).2.store) := by
  have present : (s.store.registry allUsers v).isSome = (s.registry allUsers v).isSome :=
    Option.isSome_map
  rw [Setup.setEnvStrings, EnvironmentStore.setEnvStrings, Setup.storeString]
  dsimp only
  rw [present]
  split
  · split
    · cases ok
      · rfl
      · rw [store_setEnvironmentVariable]
        dsimp only
        rw [if_pos rfl, if_pos rfl, store_regDeleteValue]
        rfl
    · rfl
  · cases ok
    · rfl
    · rw [store_setEnvironmentVariable]
      dsimp only
      rw [if_pos rfl, if_pos rfl, store_regWriteStringValue]
      rfl

/-! ### Reading back -/

namespace EnvironmentStore

/-- There is no extra element unless the last part is empty. -/
theorem spare_eq_nil_iff {room parts : List Str} (some_part : parts ≠ []) :
    spare room parts = [] ↔ parts.getLast? ≠ some [] := by
  induction parts generalizing room with
  | nil => exact absurd rfl some_part
  | cons part parts ih =>
      rw [spare]
      cases parts with
      | nil => by_cases empty : part = [] <;> simp [spare, empty]
      | cons next parts =>
          rw [ih (List.cons_ne_nil _ _), List.getLast?_cons_cons]

/-- **What is read** of a text is its entries, if it does not end in an empty part. -/
theorem splitStrings_eq_entries_iff (path : Str) :
    splitStrings path = entries ';' path ↔ path ≠ [] ∧ path.getLast? ≠ some ';' := by
  rw [splitStrings_eq, List.append_right_eq_self, spare_eq_nil_iff (List.splitOn_ne_nil _ _),
    Ne, getLast?_splitOn, not_or]

omit [DecidableEq Name] in
theorem envText_of_value {s : EnvironmentStore Name} {varName : Name} {allUsers : Bool}
    {path : Str} (stored : s.registry allUsers varName = some path) (nonempty : path ≠ []) :
    s.envText varName allUsers = path := by
  rw [envText, stored]
  exact if_neg fun zero => nonempty (List.length_eq_zero_iff.mp zero)

/-- A successful call leaves the joined strings in the registry, or nothing if there are none; the
process has them in any case. -/
theorem setEnvStrings_spec {s : EnvironmentStore Name} {ok : Bool} {varName : Name}
    {allUsers : Bool} {dirStrings : List Str}
    (success : (s.setEnvStrings ok varName allUsers true dirStrings).1 = true) :
    (s.setEnvStrings ok varName allUsers true dirStrings).2.registry allUsers varName =
        (if merge ';' dirStrings = [] then none else some (merge ';' dirStrings)) ∧
      (s.setEnvStrings ok varName allUsers true dirStrings).2.environment varName =
        merge ';' dirStrings := by
  refine ⟨?_, Function.update_self ..⟩
  rw [setEnvStrings] at success ⊢
  dsimp only at success ⊢
  by_cases empty : merge ';' dirStrings = []
  · rw [if_pos ⟨rfl, List.length_eq_zero_iff.mpr empty⟩] at success ⊢
    rw [if_pos empty]
    split at success
    · rename_i present
      rw [if_pos present]
      obtain rfl : ok = true := success
      exact if_pos ⟨rfl, rfl⟩
    · rename_i absent
      rw [if_neg absent]
      exact Option.not_isSome_iff_eq_none.mp absent
  · have lengthy : ¬ (true = true ∧ (merge ';' dirStrings).length = 0) := fun both =>
      empty (List.length_eq_zero_iff.mp both.2)
    rw [if_neg lengthy] at success ⊢
    rw [if_neg empty]
    obtain rfl : ok = true := success
    exact if_pos ⟨rfl, rfl⟩

theorem getEnvStrings_setEnvStrings_iff {s : EnvironmentStore Name} {ok : Bool} {varName : Name}
    {allUsers : Bool} {dirStrings : List Str} (clean : ∀ dir ∈ dirStrings, ';' ∉ dir)
    (success : (s.setEnvStrings ok varName allUsers true dirStrings).1 = true) :
    (s.setEnvStrings ok varName allUsers true dirStrings).2.getEnvStrings varName allUsers =
        dirStrings.filter (· ≠ []) ↔ ∃ dir ∈ dirStrings, dir ≠ [] := by
  obtain ⟨registry, environment⟩ := setEnvStrings_spec success
  have nonempty : ∀ dir ∈ dirStrings.filter (· ≠ []), dir ≠ [] := fun dir inside => by
    simpa using (List.mem_filter.mp inside).2
  have clean' : ∀ dir ∈ dirStrings.filter (· ≠ []), ';' ∉ dir := fun dir inside =>
    clean dir (List.mem_of_mem_filter inside)
  have some_iff : (∃ dir ∈ dirStrings, dir ≠ []) ↔ dirStrings.filter (· ≠ []) ≠ [] := by
    rw [Ne, List.filter_eq_nil_iff]
    simp
  have text : (s.setEnvStrings ok varName allUsers true dirStrings).2.envText varName allUsers =
      merge ';' dirStrings := by
    by_cases empty : merge ';' dirStrings = []
    · rw [envText, registry, environment, if_pos empty]
      rfl
    · rw [if_neg empty] at registry
      exact envText_of_value registry empty
  rw [getEnvStrings, text, merge_eq_join, some_iff]
  constructor
  · intro same none
    rw [none] at same
    exact splitStrings_ne_nil _ same
  · intro some_dir
    have read := entries_join nonempty clean'
    refine Eq.trans ?_ read
    rw [splitStrings_eq_entries_iff]
    have parts := List.splitOn_intercalate ';' clean' some_dir
    have last : ((join ';' (dirStrings.filter (· ≠ []))).splitOn ';').getLast? ≠ some [] := by
      rw [join, parts]
      exact fun empty => nonempty [] (List.mem_of_mem_getLast? empty) rfl
    rwa [Ne, getLast?_splitOn, not_or] at last

/-- **Reading back.**  After a successful call with strings that have no semicolon, exactly those
that are not empty are read, if and only if there is one.  Of a stored text, exactly its entries
are read, if and only if it is not empty and does not end with a semicolon. -/
theorem getEnvStrings_iff (s : EnvironmentStore Name) (varName : Name) (allUsers : Bool) :
    (∀ ok dirStrings, (∀ dir ∈ dirStrings, ';' ∉ dir) →
      (s.setEnvStrings ok varName allUsers true dirStrings).1 = true →
      ((s.setEnvStrings ok varName allUsers true dirStrings).2.getEnvStrings varName allUsers =
        dirStrings.filter (· ≠ []) ↔ ∃ dir ∈ dirStrings, dir ≠ [])) ∧
    ∀ path, s.registry allUsers varName = some path →
      (s.getEnvStrings varName allUsers = entries ';' path ↔
        path ≠ [] ∧ path.getLast? ≠ some ';') := by
  refine ⟨fun ok dirStrings => getEnvStrings_setEnvStrings_iff, fun path stored => ?_⟩
  by_cases empty : path = []
  · subst empty
    exact iff_of_false (splitStrings_ne_nil _) fun both => both.1 rfl
  · rw [getEnvStrings, envText_of_value stored empty]
    exact splitStrings_eq_entries_iff path

/-- Nothing is stored. -/
def blank : EnvironmentStore String where
  registry _ _ := none
  environment _ := []

theorem getEnvStrings_iff_git :
    (blank.setEnvStrings true "GIT_SSH" false true ["a".toList, []]).2.getEnvStrings "GIT_SSH"
      false = ["a".toList] :=
  ((getEnvStrings_iff blank "GIT_SSH" false).1 true ["a".toList, []] (by decide) rfl).mpr
    ⟨"a".toList, List.mem_cons_self, by decide⟩

/-- A deleted variable is read as one empty string. -/
theorem not_getEnvStrings_eq :
    ¬ ∀ (s : EnvironmentStore String) (ok : Bool) (varName : String) (allUsers : Bool)
      (dirStrings : List Str), (∀ dir ∈ dirStrings, ';' ∉ dir) →
      (s.setEnvStrings ok varName allUsers true dirStrings).1 = true →
      (s.setEnvStrings ok varName allUsers true dirStrings).2.getEnvStrings varName allUsers =
        dirStrings.filter (· ≠ []) := by
  intro all
  have read := all blank true "GIT_SSH" false [] (by simp) rfl
  exact splitStrings_ne_nil _ read

end EnvironmentStore

end MsysGit.WinGit
