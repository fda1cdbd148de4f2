import Mathlib.Data.List.Nodup

/-!
# Folders

A folder lists its entries under the names they were given.  Two names mean the same
entry if their keys are equal; a folder that ignores the case of letters has the folded
name for a key.  An entry that is put anew is listed under the new name.
-/

namespace MsysGit.Library

universe u v w

variable {N : Type u} {K : Type v} {V : Type w}

/-- The entries of a folder; no two have the same key. -/
structure Folder (key : N → K) (V : Type w) where
  entries : List (N × V)
  distinct : (entries.map fun entry => key entry.1).Nodup

namespace Folder

variable [DecidableEq K] {key : N → K} (folder : Folder key V)

/-- What stands under a name. -/
def get (name : N) : Option V :=
  (folder.entries.find? fun entry => key entry.1 = key name).map Prod.snd

def delete (name : N) : Folder key V where
  entries := folder.entries.filter fun entry => key entry.1 ≠ key name
  distinct := folder.distinct.sublist (List.filter_sublist.map _)

/-- Put an entry in the place of the one that has the same key. -/
def put (name : N) (value : V) : Folder key V where
  entries := (folder.delete name).entries ++ [(name, value)]
  distinct := by
    rw [List.map_append, List.nodup_append]
    refine ⟨(folder.delete name).distinct, List.nodup_singleton _, ?_⟩
    intro k inside k' new same
    obtain ⟨entry, kept, rfl⟩ := List.mem_map.mp inside
    have other := of_decide_eq_true (List.mem_filter.mp kept).2
    exact other (same.trans (List.mem_singleton.mp new))

omit [DecidableEq K] in
/-- The entries that are to be kept. -/
def keep (kept : N → V → Bool) : Folder key V where
  entries := folder.entries.filter fun entry => kept entry.1 entry.2
  distinct := folder.distinct.sublist (List.filter_sublist.map _)

variable {folder} {name other : N} {value : V}

theorem get_eq_some_iff :
    folder.get name = some value ↔ ∃ n, (n, value) ∈ folder.entries ∧ key n = key name := by
  rw [get, Option.map_eq_some_iff]
  constructor
  · rintro ⟨⟨n, value'⟩, found, rfl⟩
    exact ⟨n, List.mem_of_find?_eq_some found, by simpa using List.find?_some found⟩
  · rintro ⟨n, inside, same⟩
    have some_entry : (folder.entries.find? fun entry => key entry.1 = key name).isSome :=
      List.find?_isSome.mpr ⟨_, inside, by simpa using same⟩
    obtain ⟨entry, found⟩ := Option.isSome_iff_exists.mp some_entry
    have same' : key entry.1 = key name := by simpa using List.find?_some found
    have equal : entry = (n, value) :=
      List.inj_on_of_nodup_map folder.distinct (List.mem_of_find?_eq_some found) inside
        (same'.trans same.symm)
    exact ⟨entry, found, by rw [equal]⟩

theorem mem_delete {n : N} :
    (n, value) ∈ (folder.delete name).entries ↔
      (n, value) ∈ folder.entries ∧ key n ≠ key name := by
  rw [delete, List.mem_filter, decide_eq_true_eq]

theorem mem_put {n : N} {value' : V} :
    (n, value') ∈ (folder.put name value).entries ↔
      (n, value') ∈ folder.entries ∧ key n ≠ key name ∨ n = name ∧ value' = value := by
  rw [put, List.mem_append, mem_delete, List.mem_singleton, Prod.mk.injEq]

theorem get_delete :
    (folder.delete name).get other = if key other = key name then none else folder.get other := by
  apply Option.ext
  intro value
  rw [get_eq_some_iff]
  simp only [mem_delete]
  split
  · rename_i same
    refine iff_of_false ?_ (Option.some_ne_none value).symm
    rintro ⟨n, ⟨-, different⟩, same'⟩
    exact different (same'.trans same)
  · rename_i different
    rw [get_eq_some_iff]
    constructor
    · rintro ⟨n, ⟨inside, -⟩, same'⟩
      exact ⟨n, inside, same'⟩
    · rintro ⟨n, inside, same'⟩
      exact ⟨n, ⟨inside, fun same => different (same'.symm.trans same)⟩, same'⟩

theorem get_put :
    (folder.put name value).get other =
      if key other = key name then some value else folder.get other := by
  apply Option.ext
  intro value'
  rw [get_eq_some_iff]
  simp only [mem_put]
  split
  · rename_i same
    rw [Option.some_inj]
    constructor
    · rintro ⟨n, ⟨-, different⟩ | ⟨-, rfl⟩, same'⟩
      · exact absurd (same'.trans same) different
      · rfl
    · rintro rfl
      exact ⟨name, Or.inr ⟨rfl, rfl⟩, same.symm⟩
  · rename_i different
    rw [get_eq_some_iff]
    constructor
    · rintro ⟨n, ⟨inside, -⟩ | ⟨rfl, rfl⟩, same'⟩
      · exact ⟨n, inside, same'⟩
      · exact absurd same'.symm different
    · rintro ⟨n, inside, same'⟩
      exact ⟨n, Or.inl ⟨inside, fun same => different (same'.symm.trans same)⟩, same'⟩

/-- Only the key of a name matters. -/
theorem get_congr (same : key name = key other) : folder.get name = folder.get other := by
  rw [get, get, same]

section Keep

variable {kept : N → V → Bool}

theorem get_of_get_keep (found : (folder.keep kept).get name = some value) :
    folder.get name = some value := by
  obtain ⟨n, kept_here, same⟩ := get_eq_some_iff.mp found
  exact get_eq_some_iff.mpr ⟨n, (List.mem_filter.mp kept_here).1, same⟩

/-- Names under which everything is kept. -/
theorem get_keep_of_kept
    (all : ∀ n v, (n, v) ∈ folder.entries → key n = key name → kept n v = true) :
    (folder.keep kept).get name = folder.get name := by
  apply Option.ext
  intro value
  rw [get_eq_some_iff, get_eq_some_iff]
  refine exists_congr fun n => and_congr_left fun same => ?_
  rw [keep, List.mem_filter]
  exact and_iff_left_of_imp fun inside => all n value inside same

/-- A name whose entry is not. -/
theorem get_keep_of_dropped (inside : (other, value) ∈ folder.entries)
    (same : key other = key name) (dropped : kept other value = false) :
    (folder.keep kept).get name = none := by
  rw [Option.eq_none_iff_forall_not_mem]
  intro value' found
  obtain ⟨n, kept_here, same'⟩ := get_eq_some_iff.mp found
  obtain ⟨inside', kept_n⟩ := List.mem_filter.mp kept_here
  have equal : (other, value) = (n, value') :=
    List.inj_on_of_nodup_map folder.distinct inside inside' (same.trans same'.symm)
  cases equal
  rw [dropped] at kept_n
  cases kept_n

end Keep

/-- What is put makes no difference to what is deleted before. -/
theorem put_delete : (folder.delete name).put name value = folder.put name value := by
  simp [put, delete, List.filter_filter]

/-! ### The same value under many names -/

/-- Put a value under each of the names. -/
def putAll (names : List N) (value : V) (folder : Folder key V) : Folder key V :=
  names.foldl (fun folder name => folder.put name value) folder

/-- A name occurs, and behind its last place there is no other with its key. -/
def IsLast (key : N → K) (name : N) (names : List N) : Prop :=
  ∃ earlier later, names = earlier ++ name :: later ∧ key name ∉ later.map key

omit [DecidableEq K] in
theorem isLast_cons {names : List N} :
    IsLast key name (other :: names) ↔
      IsLast key name names ∨ name = other ∧ key name ∉ names.map key := by
  constructor
  · rintro ⟨earlier, later, split, last⟩
    rcases List.cons_eq_append_iff.mp split with ⟨rfl, here⟩ | ⟨earlier', rfl, rest⟩
    · cases here
      exact Or.inr ⟨rfl, last⟩
    · exact Or.inl ⟨earlier', later, rest, last⟩
  · rintro (⟨earlier, later, rfl, last⟩ | ⟨rfl, last⟩)
    · exact ⟨other :: earlier, later, rfl, last⟩
    · exact ⟨[], names, rfl, last⟩

variable {names : List N}

theorem get_putAll :
    (folder.putAll names value).get name =
      if key name ∈ names.map key then some value else folder.get name := by
  induction names generalizing folder with
  | nil => simp [putAll]
  | cons first names ih =>
      rw [putAll, List.foldl_cons, ← putAll, ih, get_put, List.map_cons]
      by_cases later : key name ∈ names.map key
      · rw [if_pos later, if_pos (List.mem_cons_of_mem _ later)]
      · by_cases same : key name = key first
        · rw [if_neg later, if_pos same, if_pos (same ▸ List.mem_cons_self)]
        · rw [if_neg later, if_neg same, if_neg]
          rw [List.mem_cons]
          exact not_or.mpr ⟨same, later⟩

/-- The entries afterwards: each of the names as it was spelled last, and those that have no
name in the list. -/
theorem mem_putAll {value' : V} :
    (name, value') ∈ (folder.putAll names value).entries ↔
      (IsLast key name names ∧ value' = value) ∨
        ((name, value') ∈ folder.entries ∧ key name ∉ names.map key) := by
  induction names generalizing folder with
  | nil =>
      have never : ¬ IsLast key name [] := by
        rintro ⟨earlier, later, split, -⟩
        simp at split
      simp [putAll, never]
  | cons first names ih =>
      rw [putAll, List.foldl_cons, ← putAll, ih, mem_put, isLast_cons, List.map_cons,
        List.mem_cons]
      by_cases later : key name ∈ names.map key
      · simp [later]
      · by_cases same : name = first
        · subst same
          simp [later]
        · by_cases sameKey : key name = key first <;> simp [later, same, sameKey]

end Folder

end MsysGit.Library
