import Mathlib.Data.List.Basic

/-!
# Variables that keep the last value read

A loop that reads a value for each element into one variable, and goes on when a reading
fails, finds there the value of an earlier element (`carry`).  What it selects by the
values is what the elements' own values select exactly when no value that is left over
does (`select_eq_own_iff`).
-/

namespace MsysGit.Library

universe u v

variable {α : Type u} {β : Type v} (read : α → Option β)

/-- Each element with what stands in the variable once it has been read. -/
def carry : β → List α → List (α × β)
  | _, [] => []
  | value, a :: rest =>
      let value := (read a).getD value
      (a, value) :: carry value rest

/-- The value is left over from an earlier element, or from before the loop: it is what was last
read, and all readings since then failed. -/
def LeftOver (init : β) (before : List α) (value : β) : Prop :=
  (∃ earlier a between, before = earlier ++ a :: between ∧ read a = some value ∧
      ∀ b ∈ between, read b = none) ∨
    value = init ∧ ∀ b ∈ before, read b = none

variable {read} {init value : β} {a : α} {l : List α} (p : α → β → Bool)

@[simp] theorem map_fst_carry (read : α → Option β) (init : β) (l : List α) :
    (carry read init l).map Prod.fst = l := by
  induction l generalizing init with
  | nil => rfl
  | cons a l ih => rw [carry, List.map_cons, ih]

theorem leftOver_cons {b : α} {before : List α} :
    LeftOver read init (b :: before) value ↔ LeftOver read ((read b).getD init) before value := by
  constructor
  · rintro (⟨earlier, a, between, split, own, failed⟩ | ⟨rfl, failed⟩)
    · rcases List.cons_eq_append_iff.mp split with ⟨rfl, same⟩ | ⟨earlier, rfl, rfl⟩
      · obtain ⟨rfl, rfl⟩ := List.cons.inj same
        rw [own]
        exact Or.inr ⟨rfl, failed⟩
      · exact Or.inl ⟨earlier, a, between, rfl, own, failed⟩
    · rw [failed b List.mem_cons_self]
      exact Or.inr ⟨rfl, fun c inside => failed c (List.mem_cons_of_mem b inside)⟩
  · rintro (⟨earlier, a, between, rfl, own, failed⟩ | ⟨same, failed⟩)
    · exact Or.inl ⟨b :: earlier, a, between, rfl, own, failed⟩
    · cases reading : read b with
      | none =>
          rw [reading] at same
          refine Or.inr ⟨same, fun c inside => ?_⟩
          rcases List.mem_cons.mp inside with rfl | inside
          · exact reading
          · exact failed c inside
      | some own =>
          rw [reading] at same
          exact Or.inl ⟨[], b, before, rfl, by rw [reading, same]; rfl, failed⟩

/-- What stands in the variable is the element's own value, or is left over. -/
theorem mem_carry : (a, value) ∈ carry read init l ↔ ∃ before after, l = before ++ a :: after ∧
    (read a = some value ∨ read a = none ∧ LeftOver read init before value) := by
  induction l generalizing init with
  | nil => simp [carry]
  | cons b l ih =>
      rw [carry, List.mem_cons, ih, Prod.mk.injEq]
      constructor
      · rintro (⟨rfl, rfl⟩ | ⟨before, after, rfl, own | ⟨failed, left⟩⟩)
        · refine ⟨[], l, rfl, ?_⟩
          cases reading : read a with
          | none => exact Or.inr ⟨rfl, Or.inr ⟨rfl, fun _ none => absurd none List.not_mem_nil⟩⟩
          | some own => exact Or.inl rfl
        · exact ⟨b :: before, after, rfl, Or.inl own⟩
        · exact ⟨b :: before, after, rfl, Or.inr ⟨failed, leftOver_cons.mpr left⟩⟩
      · rintro ⟨before, after, split, reading⟩
        rcases List.cons_eq_append_iff.mp split with ⟨rfl, same⟩ | ⟨before, rfl, rfl⟩
        · obtain ⟨rfl, rfl⟩ := List.cons.inj same
          refine Or.inl ⟨rfl, ?_⟩
          rcases reading with own | ⟨failed, ⟨earlier, c, between, absent, -⟩ | ⟨rfl, -⟩⟩
          · rw [own]
            rfl
          · cases earlier <;> cases absent
          · rw [failed]
            rfl
        · refine Or.inr ⟨before, after, rfl, reading.imp_right fun both => ?_⟩
          exact ⟨both.1, leftOver_cons.mp both.2⟩

/-- What is selected by the values in the variable. -/
def select (read : α → Option β) (p : α → β → Bool) (init : β) (l : List α) : List (α × β) :=
  (carry read init l).filter fun x => p x.1 x.2

/-- What is selected by the elements' own values. -/
def own (read : α → Option β) (p : α → β → Bool) (l : List α) : List (α × β) :=
  l.filterMap fun a => ((read a).filter (p a)).map fun value => (a, value)

@[simp] theorem select_nil : select read p init [] = [] := rfl

theorem select_cons : select read p init (a :: l) =
    if p a ((read a).getD init) then
      (a, (read a).getD init) :: select read p ((read a).getD init) l
    else select read p ((read a).getD init) l := by
  rw [select, carry, List.filter_cons]
  rfl

theorem own_cons_of_none (failed : read a = none) : own read p (a :: l) = own read p l :=
  List.filterMap_cons_none (by rw [failed]; rfl)

theorem own_cons_of_some (reading : read a = some value) :
    own read p (a :: l) = if p a value then (a, value) :: own read p l else own read p l := by
  rw [own, List.filterMap_cons, reading, Option.filter_some]
  by_cases chosen : p a value = true
  · rw [if_pos chosen, if_pos chosen]
    rfl
  · rw [if_neg chosen, if_neg chosen]
    rfl

theorem mem_own : (a, value) ∈ own read p l ↔ a ∈ l ∧ read a = some value ∧ p a value = true := by
  simp only [own, List.mem_filterMap, Option.map_eq_some_iff, Option.filter_eq_some_iff,
    Prod.mk.injEq]
  constructor
  · rintro ⟨b, inside, v, ⟨reading, chosen⟩, rfl, rfl⟩
    exact ⟨inside, reading, chosen⟩
  · rintro ⟨inside, reading, chosen⟩
    exact ⟨a, inside, value, ⟨reading, chosen⟩, rfl, rfl⟩

/-- Nothing that is selected by its own value is missed. -/
theorem own_sublist_select (init : β) (l : List α) :
    (own read p l).Sublist (select read p init l) := by
  induction l generalizing init with
  | nil => exact List.Sublist.refl _
  | cons a l ih =>
      rw [select_cons]
      cases reading : read a with
      | none =>
          rw [own_cons_of_none p reading]
          split
          · exact (ih _).cons _
          · exact ih _
      | some value =>
          rw [own_cons_of_some p reading, Option.getD_some]
          split
          · exact (ih _).cons_cons _
          · exact ih _

/-- What is made of the selection only for elements that can be read is made of the own values. -/
theorem filterMap_select {γ : Type*} (g : α × β → Option γ)
    (nothing : ∀ a value, read a = none → g (a, value) = none) (init : β) (l : List α) :
    (select read p init l).filterMap g = (own read p l).filterMap g := by
  induction l generalizing init with
  | nil => rfl
  | cons a l ih =>
      rw [select_cons]
      cases reading : read a with
      | none =>
          rw [own_cons_of_none p reading, Option.getD_none]
          split
          · rw [List.filterMap_cons_none (nothing a init reading), ih]
          · exact ih init
      | some value =>
          rw [own_cons_of_some p reading, Option.getD_some]
          split
          · rw [List.filterMap_cons, List.filterMap_cons, ih]
          · exact ih value

theorem select_eq_own : select read p init l = own read p l ↔
    ∀ x ∈ carry read init l, read x.1 = none → p x.1 x.2 = false := by
  induction l generalizing init with
  | nil => exact iff_of_true rfl fun _ inside => absurd inside List.not_mem_nil
  | cons a l ih =>
      rw [select_cons, carry, List.forall_mem_cons]
      cases reading : read a with
      | none =>
          rw [own_cons_of_none p reading, Option.getD_none]
          dsimp only
          by_cases chosen : p a init = true
          · rw [if_pos chosen]
            refine iff_of_false (fun same => ?_) fun both => ?_
            · -- One more is selected than there are.
              have fewer := (@own_sublist_select _ _ read p init l).length_le
              rw [← same, List.length_cons] at fewer
              omega
            · rw [both.1 rfl] at chosen
              cases chosen
          · rw [if_neg chosen, ih]
            exact ⟨fun rest => ⟨fun _ => Bool.eq_false_iff.mpr chosen, rest⟩, fun both => both.2⟩
      | some value =>
          rw [own_cons_of_some p reading, Option.getD_some]
          dsimp only
          rw [and_iff_right fun absent => absurd absent (Option.some_ne_none value), ← ih]
          split
          · exact ⟨fun same => (List.cons.inj same).2, fun same => by rw [same]⟩
          · exact Iff.rfl

/-- **When left-over values do no harm.**  The selection is the one by the elements' own values
exactly when none of the elements that cannot be read is selected by a left-over value. -/
theorem select_eq_own_iff : select read p init l = own read p l ↔
    ∀ before a after, l = before ++ a :: after → read a = none →
      ∀ value, LeftOver read init before value → p a value = false := by
  rw [select_eq_own]
  constructor
  · intro all before a after split failed value left
    exact all (a, value) (mem_carry.mpr ⟨before, after, split, Or.inr ⟨failed, left⟩⟩) failed
  · rintro all ⟨a, value⟩ inside failed
    obtain ⟨before, after, split, own | ⟨-, left⟩⟩ := mem_carry.mp inside
    · cases own.symm.trans failed
    · exact all before a after split failed value left

end MsysGit.Library
