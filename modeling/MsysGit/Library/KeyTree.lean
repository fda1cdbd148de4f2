import MsysGit.Library.Below
import Mathlib.Data.List.Pairwise

/-!
# Trees of named keys

A tree of keys is known by the values of the keys, each under its full name.  A key is
erased with everything below it.  A loop that looks at one key after the other and
erases some of them decides about each as if it were the first, provided that no two
of the keys lie in one another and that a decision looks at nothing outside its key
(`eraseEach_eq`).
-/

namespace MsysGit.Library

universe u v

variable {α : Type u} {ν : Type v} [DecidableEq α] (sep : α)

/-- The values of the keys; some are missing. -/
abbrev KeyTree (α : Type u) (ν : Type v) := List α → Option ν

/-- Erase a key and the keys below it. -/
def eraseBelow (key : List α) (t : KeyTree α ν) : KeyTree α ν :=
  fun k => if Below id sep key k then none else t k

/-- Erase those keys that are to be erased, one after the other. -/
def eraseEach (erased : List α → KeyTree α ν → Bool) (keys : List (List α)) (t : KeyTree α ν) :
    KeyTree α ν :=
  keys.foldl (fun t key => if erased key t then eraseBelow sep key t else t) t

/-- Neither key lies in the other. -/
def Apart (a b : List α) : Prop :=
  ¬ withSep sep a <+: withSep sep b ∧ ¬ withSep sep b <+: withSep sep a

instance (a b : List α) : Decidable (Apart sep a b) := inferInstanceAs (Decidable (_ ∧ _))

/-- A decision about a key does not depend on anything outside it. -/
def LooksBelow (erased : List α → KeyTree α ν → Bool) : Prop :=
  ∀ key t t', (∀ k, Below id sep key k → t k = t' k) → erased key t = erased key t'

instance : Std.Symm (Apart sep : List α → List α → Prop) := ⟨fun _ _ apart => apart.symm⟩

variable {sep} {a b k : List α}

/-- Nothing lies in both of two keys that are apart. -/
theorem Apart.not_below (apart : Apart sep a b) (below : Below id sep a k) :
    ¬ Below id sep b k := by
  intro other
  unfold Below at below other
  rw [List.map_id, List.map_id] at below other
  rcases List.prefix_or_prefix_of_prefix below other with first | second
  · exact apart.1 first
  · exact apart.2 second

variable {erased : List α → KeyTree α ν → Bool} {keys : List (List α)} {t : KeyTree α ν}

/-- One round of the loop. -/
theorem eraseOne_eq (erased : List α → KeyTree α ν → Bool) (t : KeyTree α ν) (a k : List α) :
    (if erased a t then eraseBelow sep a t else t) k =
      if Below id sep a k ∧ erased a t = true then none else t k := by
  by_cases gone : erased a t = true
  · rw [if_pos gone, eraseBelow]
    simp only [gone, and_true]
  · rw [if_neg gone, if_neg fun both => gone both.2]

/-- **A run over separate keys**: each is erased if it was to be erased at the start. -/
theorem eraseEach_eq (looks : LooksBelow sep erased) (apart : keys.Pairwise (Apart sep))
    (k : List α) :
    eraseEach sep erased keys t k =
      if ∃ key ∈ keys, Below id sep key k ∧ erased key t = true then none else t k := by
  induction keys generalizing t with
  | nil => simp [eraseEach]
  | cons key keys ih =>
      obtain ⟨first, others⟩ := List.pairwise_cons.mp apart
      let next := if erased key t then eraseBelow sep key t else t
      -- The first round changes nothing that the later ones look at.
      have same : ∀ other ∈ keys, erased other next = erased other t := by
        intro other member
        apply looks
        intro k below
        refine (eraseOne_eq erased t key k).trans (if_neg fun both => ?_)
        exact (first other member).not_below both.1 below
      have later : (∃ other ∈ keys, Below id sep other k ∧ erased other next = true) ↔
          ∃ other ∈ keys, Below id sep other k ∧ erased other t = true := by
        refine exists_congr fun other => and_congr_right fun member => ?_
        rw [same other member]
      have loop : eraseEach sep erased (key :: keys) t k = eraseEach sep erased keys next k := rfl
      have here : next k = if Below id sep key k ∧ erased key t = true then none else t k :=
        eraseOne_eq erased t key k
      rw [loop, ih others, here]
      simp only [later, List.exists_mem_cons_iff]
      by_cases gone : ∃ other ∈ keys, Below id sep other k ∧ erased other t = true
      · rw [if_pos gone, if_pos (Or.inr gone)]
      · rw [if_neg gone]
        simp only [or_iff_left gone]

/-- The keys in one of separate keys share its fate. -/
theorem eraseEach_below (looks : LooksBelow sep erased) (apart : keys.Pairwise (Apart sep))
    (member : a ∈ keys) (below : Below id sep a k) :
    eraseEach sep erased keys t k = if erased a t = true then none else t k := by
  rw [eraseEach_eq looks apart]
  by_cases gone : erased a t = true
  · rw [if_pos gone, if_pos ⟨a, member, below, gone⟩]
  · rw [if_neg gone, if_neg]
    rintro ⟨other, inside, below', gone'⟩
    -- Only one of the keys has `k` in it.
    by_cases same : a = other
    · subst same
      exact gone gone'
    · exact (apart.forall member inside same).not_below below below'

/-! ### Writing -/

section Writing

/-- The key lies above the other one. -/
def Above (sep : α) (k key : List α) : Prop := k ++ [sep] <+: key

instance (sep : α) (k key : List α) : Decidable (Above sep k key) :=
  inferInstanceAs (Decidable (_ <+: _))

/-- Write the value of a key; the keys above it come into being. -/
def writeValue (sep : α) (key : List α) (value empty : ν) (t : KeyTree α ν) :
    KeyTree α ν := fun k =>
  if k = key then some value else if Above sep k key then some ((t k).getD empty) else t k

variable {key : List α} {value empty : ν}

@[simp] theorem writeValue_self : writeValue sep key value empty t key = some value := if_pos rfl

theorem writeValue_of_not_above (different : k ≠ key) (not_above : ¬ Above sep k key) :
    writeValue sep key value empty t k = t k := by
  rw [writeValue, if_neg different, if_neg not_above]

theorem writeValue_of_some {v : ν} (different : k ≠ key) (stored : t k = some v) :
    writeValue sep key value empty t k = some v := by
  rw [writeValue, if_neg different, stored]
  split <;> rfl

theorem below_refl (sep : α) (key : List α) : Below id sep key key :=
  below_of_begins List.prefix_rfl

/-- What is above a key in another one leads into it. -/
theorem below_of_above (below : Below id sep a k) (above : Above sep k key) :
    Below id sep a key := by
  unfold Below at below ⊢
  rw [List.map_id, List.map_id] at below ⊢
  exact below.trans (above.trans (List.prefix_append _ _))

theorem not_above_self (below : Below id sep key k) (no_root : key.getLast? ≠ some sep) :
    ¬ Above sep k key := by
  intro above
  unfold Below withSep at below
  rw [List.map_id, List.map_id, if_neg no_root] at below
  have longer := below.length_le
  have shorter := above.length_le
  rw [List.length_append, List.length_append] at longer
  rw [List.length_append] at shorter
  simp only [List.length_singleton] at longer shorter
  omega

/-- Nothing in a key is touched when one in a separate key is written. -/
theorem writeValue_of_apart (apart : Apart sep a b) (below : Below id sep a k)
    (elsewhere : Below id sep b key) : writeValue sep key value empty t k = t k := by
  apply writeValue_of_not_above
  · rintro rfl
    exact apart.not_below below elsewhere
  · exact fun above => apart.not_below (below_of_above below above) elsewhere

end Writing

end MsysGit.Library
