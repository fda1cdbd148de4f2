import Mathlib.Data.List.Nodup
import Mathlib.Tactic.Common

/-!
# Doubly linked lists in a memory of cells

The memory is a list of cells, and an address is a position in it.  `Chain` reads the
cells off from a pointer on: each cell points back to the one before it, and the last one
points nowhere.  A memory and a pointer have at most one such reading (`Chain.unique`), so
no cell is on it twice (`Chain.nodup`), and hanging a new cell behind the last one appends
it (`Chain.append`).
-/

namespace MsysGit.Library

universe u

/-- A cell of a doubly linked list. -/
structure Cell (α : Type u) where
  previous : Option ℕ
  next : Option ℕ
  value : α
  deriving DecidableEq

variable {α : Type u} {cells cells' : List (Cell α)} {prev prev' start : Option ℕ}
  {entries entries' : List (ℕ × α)} {a b : ℕ} {v w : α}

/-- The cells from `start` on are `entries`, in order, and the first points back to `prev`. -/
def Chain (cells : List (Cell α)) : Option ℕ → Option ℕ → List (ℕ × α) → Prop
  | _, start, [] => start = none
  | prev, start, (a, v) :: rest =>
      start = some a ∧ ∃ next, cells[a]? = some ⟨prev, next, v⟩ ∧ Chain cells (some a) next rest

namespace Chain

theorem start_eq_none (chain : Chain cells prev none entries) : entries = [] := by
  cases entries with
  | nil => rfl
  | cons e rest => exact absurd chain.1 nofun

/-- Two readings from one pointer are the same. -/
theorem unique (chain : Chain cells prev start entries)
    (chain' : Chain cells prev' start entries') : entries = entries' := by
  induction entries generalizing prev prev' start entries' with
  | nil =>
      obtain rfl := chain
      exact chain'.start_eq_none.symm
  | cons e rest ih =>
      obtain ⟨rfl, next, here, behind⟩ := chain
      cases entries' with
      | nil => exact absurd chain' nofun
      | cons e' rest' =>
          obtain ⟨same, next', here', behind'⟩ := chain'
          obtain same := Option.some.inj same
          rw [← same, here, Option.some.injEq, Cell.mk.injEq] at here'
          obtain ⟨-, rfl, value⟩ := here'
          rw [ih behind behind', Prod.ext same value]

/-- From any of its cells on, a chain is a chain. -/
theorem drop {front : List (ℕ × α)} (chain : Chain cells prev start (front ++ (a, v) :: entries)) :
    ∃ prev, Chain cells prev (some a) ((a, v) :: entries) := by
  induction front generalizing prev start with
  | nil =>
      obtain ⟨rfl, behind⟩ := chain
      exact ⟨prev, rfl, behind⟩
  | cons e front ih =>
      obtain ⟨-, next, -, behind⟩ := chain
      exact ih behind

/-- No cell is on a chain twice. -/
theorem nodup (chain : Chain cells prev start entries) : (entries.map Prod.fst).Nodup := by
  induction entries generalizing prev start with
  | nil => exact List.nodup_nil
  | cons e rest ih =>
      obtain ⟨a, v⟩ := e
      obtain ⟨rfl, next, here, behind⟩ := chain
      refine List.nodup_cons.mpr ⟨fun again => ?_, ih behind⟩
      obtain ⟨⟨a', w⟩, inside, rfl⟩ := List.mem_map.mp again
      obtain ⟨front, rest', rfl⟩ := List.append_of_mem inside
      obtain ⟨_, later⟩ := behind.drop
      have whole : Chain cells prev (some a') ((a', v) :: (front ++ (a', w) :: rest')) :=
        ⟨rfl, next, here, behind⟩
      have length := congrArg List.length (whole.unique later)
      simp at length
      omega

/-- A chain is not changed where it has no cell. -/
theorem congr (chain : Chain cells prev start entries)
    (same : ∀ a ∈ entries.map Prod.fst, cells'[a]? = cells[a]?) :
    Chain cells' prev start entries := by
  induction entries generalizing prev start with
  | nil => exact chain
  | cons e rest ih =>
      obtain ⟨rfl, next, here, behind⟩ := chain
      exact ⟨rfl, next, (same _ List.mem_cons_self).trans here,
        ih behind fun a inside => same a (List.mem_cons_of_mem _ inside)⟩

theorem lt_length (chain : Chain cells prev start entries) :
    ∀ a ∈ entries.map Prod.fst, a < cells.length := by
  induction entries generalizing prev start with
  | nil => exact fun a inside => absurd inside List.not_mem_nil
  | cons e rest ih =>
      obtain ⟨rfl, next, here, behind⟩ := chain
      intro a inside
      rcases List.mem_cons.mp inside with rfl | inside
      · exact List.getElem?_eq_some_iff.mp here |>.1
      · exact ih behind a inside

/-- The last cell points nowhere. -/
theorem getElem?_last (chain : Chain cells prev start (entries ++ [(a, v)])) :
    ∃ before, cells[a]? = some ⟨before, none, v⟩ := by
  obtain ⟨before, -, next, here, rfl⟩ := chain.drop
  exact ⟨before, here⟩

/-- A chain is changed at its end where the memory is. -/
theorem change_end {back back' : List (ℕ × α)} (chain : Chain cells prev start (entries ++ back))
    (same : ∀ c ∈ entries.map Prod.fst, cells'[c]? = cells[c]?)
    (changed : ∀ prev start, Chain cells prev start back → Chain cells' prev start back') :
    Chain cells' prev start (entries ++ back') := by
  induction entries generalizing prev start with
  | nil => exact changed _ _ chain
  | cons e rest ih =>
      obtain ⟨rfl, next, here, behind⟩ := chain
      exact ⟨rfl, next, (same _ List.mem_cons_self).trans here,
        ih behind fun c inside => same c (List.mem_cons_of_mem _ inside)⟩

/-- The value in the last cell is changed. -/
theorem set_last {before : Option ℕ} (chain : Chain cells prev start (entries ++ [(a, v)]))
    (same : ∀ c ∈ entries.map Prod.fst, cells'[c]? = cells[c]?)
    (last : cells[a]? = some ⟨before, none, v⟩) (stored : cells'[a]? = some ⟨before, none, w⟩) :
    Chain cells' prev start (entries ++ [(a, w)]) := by
  refine chain.change_end same fun prev start here => ?_
  obtain ⟨rfl, next, here, -⟩ := here
  rw [last, Option.some.injEq, Cell.mk.injEq] at here
  exact ⟨rfl, none, here.1 ▸ stored, rfl⟩

/-- The last two cells point at each other. -/
theorem getElem?_last_two (chain : Chain cells prev start (entries ++ [(a, v)] ++ [(b, w)])) :
    (∃ before, cells[a]? = some ⟨before, some b, v⟩) ∧ cells[b]? = some ⟨some a, none, w⟩ := by
  rw [List.append_assoc] at chain
  obtain ⟨before, -, next, here, rfl, last, there, ended⟩ := chain.drop
  obtain rfl : last = none := ended
  exact ⟨⟨before, here⟩, there⟩

/-- **Removing the last.**  The cell before it points nowhere from now on. -/
theorem remove_last {before : Option ℕ}
    (chain : Chain cells prev start (entries ++ [(a, v)] ++ [(b, w)]))
    (same : ∀ c ∈ entries.map Prod.fst, cells'[c]? = cells[c]?)
    (linked : cells[a]? = some ⟨before, some b, v⟩)
    (unlinked : cells'[a]? = some ⟨before, none, v⟩) :
    Chain cells' prev start (entries ++ [(a, v)]) := by
  rw [List.append_assoc] at chain
  refine chain.change_end same fun prev start here => ?_
  obtain ⟨rfl, next, here, -⟩ := here
  rw [linked, Option.some.injEq, Cell.mk.injEq] at here
  exact ⟨rfl, none, here.1 ▸ unlinked, rfl⟩

/-- **Appending.**  A new cell is put behind the last one. -/
theorem append {before : Option ℕ} (chain : Chain cells prev start (entries ++ [(a, v)]))
    (same : ∀ c ∈ entries.map Prod.fst, cells'[c]? = cells[c]?)
    (last : cells[a]? = some ⟨before, none, v⟩) (linked : cells'[a]? = some ⟨before, some b, v⟩)
    (new : cells'[b]? = some ⟨some a, none, w⟩) :
    Chain cells' prev start (entries ++ [(a, v)] ++ [(b, w)]) := by
  rw [List.append_assoc]
  refine chain.change_end same fun prev start here => ?_
  obtain ⟨rfl, next, here, -⟩ := here
  rw [last, Option.some.injEq, Cell.mk.injEq] at here
  exact ⟨rfl, some b, here.1 ▸ linked, rfl, none, new, rfl⟩

end Chain

end MsysGit.Library
