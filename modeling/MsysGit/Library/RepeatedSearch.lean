import Mathlib.Data.List.Count
import Mathlib.Data.List.Perm.Basic
import Mathlib.Data.List.Dedup
import Mathlib.Tactic.Common

/-!
# Searches whose repetitions depend on what was found

A search goes over items and appends each of them to its result a number of times,
`times a len`, that depends on the length `len` of the result so far.

* `repeated` is the result, `foldlM_repeated` what a loop of such steps computes.
* `Once` says that every wanted item is appended once and no other at all, where `len`
  is the number of wanted items before (`once_iff`).
* `perm_filter_iff`: with distinct items nothing but `Once` makes the result what is
  wanted.
-/

namespace MsysGit.Library

universe u v

variable {α : Type u} {β : Type v}

/-- Each item as often as it is appended, from a result of length `len` on. -/
def repeated (times : α → ℕ → ℕ) : List α → ℕ → List α
  | [], _ => []
  | a :: as, len => List.replicate (times a len) a ++ repeated times as (len + times a len)

/-- Every wanted item is appended once and no other. -/
def Once (times : α → ℕ → ℕ) (wanted : α → Bool) : List α → ℕ → Prop
  | [], _ => True
  | a :: as, len =>
      times a len = (wanted a).toNat ∧ Once times wanted as (len + (wanted a).toNat)

variable {times : α → ℕ → ℕ} {wanted : α → Bool}

theorem mem_of_mem_repeated {items : List α} {len : ℕ} {a : α}
    (inside : a ∈ repeated times items len) : a ∈ items := by
  induction items generalizing len with
  | nil => cases inside
  | cons b items ih =>
      rcases List.mem_append.mp inside with here | later
      · rw [List.eq_of_mem_replicate here]
        exact List.mem_cons_self
      · exact List.mem_cons_of_mem _ (ih later)

/-- A loop that appends entries. -/
theorem foldlM_repeated {step : List β → α → Option (List β)} {entry : α → β} {items : List α}
    (appends : ∀ found, ∀ a ∈ items,
      step found a = some (found ++ List.replicate (times a found.length) (entry a)))
    (found : List β) : items.foldlM step found =
      some (found ++ (repeated times items found.length).map entry) := by
  induction items generalizing found with
  | nil => simp [repeated]
  | cons a items ih =>
      rw [List.foldlM_cons, appends found a List.mem_cons_self, Option.bind_eq_bind,
        Option.bind_some, ih fun found b later => appends found b (List.mem_cons_of_mem _ later),
        repeated, List.map_append, List.map_replicate, List.length_append, List.length_replicate,
        List.append_assoc]

/-- The items before a wanted one are counted. -/
theorem once_iff {items : List α} {len : ℕ} : Once times wanted items len ↔
    ∀ before a after, items = before ++ a :: after →
      times a (len + before.countP wanted) = (wanted a).toNat := by
  induction items generalizing len with
  | nil => simp [Once]
  | cons b items ih =>
      have counted : ∀ before, (b :: before).countP wanted =
          (wanted b).toNat + before.countP wanted := by
        intro before
        rw [List.countP_cons]
        cases wanted b <;> simp [Nat.add_comm]
      rw [Once, ih]
      constructor
      · rintro ⟨here, later⟩ before a after split
        cases before with
        | nil =>
            obtain ⟨rfl, -⟩ := List.cons.inj split
            exact here
        | cons c before =>
            obtain ⟨rfl, rest⟩ := List.cons.inj split
            rw [counted, ← Nat.add_assoc]
            exact later before a after rest
      · intro each
        refine ⟨each [] b items rfl, fun before a after split => ?_⟩
        rw [Nat.add_assoc, ← counted]
        exact each (b :: before) a after (by rw [split]; rfl)

/-- **Nothing but `Once` gives the wanted items**, in whatever order they are asked for. -/
theorem perm_filter_iff {entry : α → β} {items : List α} {len : ℕ}
    (distinct : (items.map entry).Nodup) :
    ((repeated times items len).map entry).Perm ((items.filter wanted).map entry) ↔
      Once times wanted items len := by
  classical
  induction items generalizing len with
  | nil => simp [repeated, Once]
  | cons a items ih =>
      rw [List.map_cons, List.nodup_cons] at distinct
      obtain ⟨new, distinct⟩ := distinct
      have not_found : ∀ len, (((repeated times items len).map entry).count (entry a)) = 0 := by
        intro len
        rw [List.count_eq_zero]
        intro inside
        obtain ⟨b, found, same⟩ := List.mem_map.mp inside
        exact new (same ▸ List.mem_map_of_mem (mem_of_mem_repeated found))
      have not_wanted : ((items.filter wanted).map entry).count (entry a) = 0 := by
        rw [List.count_eq_zero]
        intro inside
        obtain ⟨b, found, same⟩ := List.mem_map.mp inside
        exact new (same ▸ List.mem_map_of_mem (List.mem_of_mem_filter found))
      have first : ((a :: items).filter wanted).map entry =
          List.replicate (wanted a).toNat (entry a) ++ (items.filter wanted).map entry := by
        rw [List.filter_cons]
        cases wanted a <;> simp
      rw [repeated, List.map_append, List.map_replicate, first, Once]
      constructor
      · intro perm
        have times_eq : times a len = (wanted a).toNat := by
          have counts := perm.count_eq (entry a)
          rw [List.count_append, List.count_append, List.count_replicate_self,
            List.count_replicate_self, not_found, not_wanted] at counts
          exact counts
        rw [times_eq, List.perm_append_left_iff, ih distinct] at perm
        exact ⟨times_eq, perm⟩
      · rintro ⟨times_eq, rest⟩
        rw [times_eq, List.perm_append_left_iff, ih distinct]
        exact rest

/-! ### How often anything is found -/

variable {hit : α → Bool} {items : List α} {len : ℕ}

theorem length_repeated_eq_zero (found : ∀ a len, 0 < times a len ↔ hit a = true) :
    (repeated times items len).length = 0 ↔ items.filter hit = [] := by
  rw [List.length_eq_zero_iff]
  induction items generalizing len with
  | nil => simp [repeated]
  | cons a items ih =>
      rw [repeated, List.append_eq_nil_iff, List.replicate_eq_nil_iff, ih, List.filter_cons]
      by_cases here : hit a = true
      · have some_time := (found a len).mpr here
        simp [here, Nat.ne_of_gt some_time]
      · have no_time : times a len = 0 := Nat.eq_zero_of_not_pos (mt (found a len).mp here)
        simp [here, no_time]

/-- One is found when one item is hit, and that one is appended once. -/
theorem length_repeated_eq_one (found : ∀ a len, 0 < times a len ↔ hit a = true) :
    (repeated times items len).length = 1 ↔
      (items.filter hit).length = 1 ∧ ∀ a ∈ items, hit a = true → times a len = 1 := by
  induction items generalizing len with
  | nil => simp [repeated]
  | cons a items ih =>
      rw [repeated, List.length_append, List.length_replicate, List.filter_cons]
      by_cases here : hit a = true
      · have some_time := (found a len).mpr here
        rw [if_pos here, List.length_cons]
        constructor
        · intro total
          have rest : (repeated times items (len + times a len)).length = 0 := by omega
          rw [length_repeated_eq_zero found] at rest
          refine ⟨by rw [rest]; rfl, fun b inside hits => ?_⟩
          rcases List.mem_cons.mp inside with rfl | later
          · omega
          · exact absurd hits (List.filter_eq_nil_iff.mp rest b later)
        · rintro ⟨alone, once⟩
          have rest : items.filter hit = [] := List.length_eq_zero_iff.mp (by omega)
          rw [once a List.mem_cons_self here, (length_repeated_eq_zero found).mpr rest]
      · have no_time : times a len = 0 := Nat.eq_zero_of_not_pos (mt (found a len).mp here)
        rw [no_time, if_neg here, Nat.zero_add, Nat.add_zero, ih]
        refine and_congr_right fun _ => ?_
        simp [here]

end MsysGit.Library
