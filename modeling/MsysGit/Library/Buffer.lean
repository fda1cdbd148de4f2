import Mathlib.Data.List.Basic
import Mathlib.Tactic.Common

/-!
# Fixed-size buffers

A `Buffer α n` is a C array of `n` cells; the length travels with the value, so
no operation can grow or shrink it.  Two operations are provided:

* `Buffer.store off bytes` — consecutive stores from `off` on, what a `recv`
  into the middle of a buffer does.
* `Buffer.memcpy dst src n` — the ascending byte loop.  The language leaves
  `memcpy` on overlapping regions undefined; the ascending loop is what the
  usual implementations run, and it moves data *down* correctly
  (`front_memcpy`), because a cell is read before it is overwritten.

Out-of-range stores are dropped rather than modelled as memory corruption:
callers that care state the bound themselves.
-/

namespace MsysGit.Library

universe u

variable {α : Type u}

/-- Consecutive stores of `bytes` into `cells`, from index `off` on. -/
def storeCells (cells : List α) (off : ℕ) : List α → List α
  | [] => cells
  | b :: bytes => storeCells (cells.set off b) (off + 1) bytes

@[simp] theorem storeCells_length (cells bytes : List α) (off : ℕ) :
    (storeCells cells off bytes).length = cells.length := by
  induction bytes generalizing cells off with
  | nil => rfl
  | cons b bytes ih => rw [storeCells, ih, List.length_set]

/-- **What a store changes**: the cells it covers. -/
theorem storeCells_eq (cells bytes : List α) (off : ℕ)
    (fits : off + bytes.length ≤ cells.length) :
    storeCells cells off bytes =
      cells.take off ++ bytes ++ cells.drop (off + bytes.length) := by
  induction bytes generalizing cells off with
  | nil => simp [storeCells]
  | cons b bytes ih =>
      have inside : off < cells.length := by
        simp only [List.length_cons] at fits
        omega
      have tail := ih (cells.set off b) (off + 1) (by
        simp only [List.length_cons, List.length_set] at fits ⊢
        omega)
      have head : (cells.set off b).take (off + 1) = cells.take off ++ [b] := by
        rw [List.take_add_one, List.take_set_of_le (Nat.le_refl _), List.getElem?_set_self inside]
        rfl
      have above : off < off + 1 + bytes.length := by omega
      rw [storeCells, tail, head, List.drop_set_of_lt above, List.append_assoc (cells.take off),
        List.length_cons, Nat.add_assoc off 1, Nat.add_comm 1]
      rfl

/-- What each cell holds after a store. -/
theorem storeCells_getElem? (cells bytes : List α) (off : ℕ)
    (fits : off + bytes.length ≤ cells.length) (i : ℕ) :
    (storeCells cells off bytes)[i]? =
      if off ≤ i ∧ i < off + bytes.length then bytes[i - off]? else cells[i]? := by
  induction bytes generalizing cells off with
  | nil => rw [storeCells, if_neg (by rw [List.length_nil]; omega)]
  | cons b bytes ih =>
      rw [List.length_cons] at fits ⊢
      rw [storeCells, ih _ _ (by rw [List.length_set]; omega)]
      by_cases here : i = off
      · subst here
        rw [if_neg (by omega), if_pos (by omega), Nat.sub_self, List.getElem?_cons_zero,
          List.getElem?_set_self (by omega)]
      · by_cases covered : off + 1 ≤ i ∧ i < off + 1 + bytes.length
        · rw [if_pos covered, if_pos (by omega), show i - off = i - (off + 1) + 1 by omega,
            List.getElem?_cons_succ]
        · rw [if_neg covered, if_neg (by omega), List.getElem?_set_ne (Ne.symm here)]

/-- The ascending byte loop of `memcpy` inside one array. -/
def memcpyCells (cells : List α) (dst src : ℕ) : ℕ → List α
  | 0 => cells
  | n + 1 =>
      match cells[src]? with
      | some b => memcpyCells (cells.set dst b) (dst + 1) (src + 1) n
      | none => cells

@[simp] theorem memcpyCells_length (cells : List α) (dst src n : ℕ) :
    (memcpyCells cells dst src n).length = cells.length := by
  induction n generalizing cells dst src with
  | zero => rfl
  | succ n ih =>
      rw [memcpyCells]
      split
      · rw [ih, List.length_set]
      · rfl

/-- What each cell holds after moving `n` cells down from `src` to `dst`. -/
theorem memcpyCells_getElem? (n : ℕ) :
    ∀ (cells : List α) (dst src : ℕ), dst ≤ src → src + n ≤ cells.length →
      ∀ i, (memcpyCells cells dst src n)[i]? =
        if dst ≤ i ∧ i < dst + n then cells[src + (i - dst)]? else cells[i]? := by
  induction n with
  | zero =>
      intro cells dst src _ _ i
      rw [memcpyCells, if_neg (by omega)]
  | succ n ih =>
      intro cells dst src down fits i
      have inside : src < cells.length := by omega
      rw [memcpyCells, List.getElem?_eq_getElem inside]
      dsimp only
      rw [ih _ _ _ (by omega) (by rw [List.length_set]; omega)]
      by_cases here : i = dst
      · subst here
        rw [if_neg (by omega), if_pos (by omega), Nat.sub_self, Nat.add_zero,
          List.getElem?_set_self (by omega), List.getElem?_eq_getElem inside]
      · by_cases moved : dst + 1 ≤ i ∧ i < dst + 1 + n
        · rw [if_pos moved, if_pos (by omega), List.getElem?_set_ne (by omega),
            show src + 1 + (i - (dst + 1)) = src + (i - dst) by omega]
        · rw [if_neg moved, if_neg (by omega), List.getElem?_set_ne (by omega)]

/-- A C array of `n` cells. -/
structure Buffer (α : Type u) (n : ℕ) where
  cells : List α
  length_cells : cells.length = n

namespace Buffer

variable {size : ℕ}

/-- `n` cells holding the same value. -/
def filled (a : α) (n : ℕ) : Buffer α n := ⟨List.replicate n a, List.length_replicate⟩

/-- Store `bytes` from cell `off` on. -/
def store (b : Buffer α size) (off : ℕ) (bytes : List α) : Buffer α size :=
  ⟨storeCells b.cells off bytes, (storeCells_length _ _ _).trans b.length_cells⟩

/-- `memcpy (b + dst, b + src, n)`. -/
def memcpy (b : Buffer α size) (dst src n : ℕ) : Buffer α size :=
  ⟨memcpyCells b.cells dst src n, (memcpyCells_length _ _ _ _).trans b.length_cells⟩

/-- The first `n` cells, what a `write (b, n)` transmits. -/
def front (b : Buffer α size) (n : ℕ) : List α := b.cells.take n

theorem cells_store (b : Buffer α size) (off : ℕ) (bytes : List α)
    (fits : off + bytes.length ≤ size) :
    (b.store off bytes).cells = b.cells.take off ++ bytes ++ b.cells.drop (off + bytes.length) :=
  storeCells_eq b.cells bytes off (by rw [b.length_cells]; exact fits)

/-- Storing at the fill level appends to the front. -/
theorem front_store (b : Buffer α size) (level : ℕ) (bytes : List α)
    (fits : level + bytes.length ≤ size) :
    (b.store level bytes).front (level + bytes.length) = b.front level ++ bytes := by
  have below : level ≤ b.cells.length := by rw [b.length_cells]; omega
  rw [front, front, cells_store b level bytes fits]
  exact List.take_left' (by rw [List.length_append, List.length_take_of_le below])

/-- A store leaves what is above it. -/
theorem drop_store (b : Buffer α size) (off : ℕ) (bytes : List α)
    (fits : off + bytes.length ≤ size) :
    (b.store off bytes).cells.drop (off + bytes.length) =
      b.cells.drop (off + bytes.length) := by
  have below : off ≤ b.cells.length := by rw [b.length_cells]; omega
  rw [cells_store b off bytes fits]
  exact List.drop_left' (by rw [List.length_append, List.length_take_of_le below])

/-- **Compaction.**  Moving `n` cells from `src` to the start makes the front
what used to follow the first `src` cells. -/
theorem front_memcpy (b : Buffer α size) (src n : ℕ) (fits : src + n ≤ size) :
    (b.memcpy 0 src n).front n = (b.front (src + n)).drop src := by
  have inside : src + n ≤ b.cells.length := by rw [b.length_cells]; exact fits
  refine List.ext_getElem? fun i => ?_
  rw [front, front, memcpy, List.getElem?_drop, List.getElem?_take, List.getElem?_take,
    memcpyCells_getElem? n b.cells 0 src (Nat.zero_le _) inside]
  by_cases below : i < n
  · rw [if_pos below, if_pos (by omega), if_pos (by omega), Nat.sub_zero]
  · rw [if_neg below, if_neg (by omega)]

/-- The front up to a level is a shorter front and what follows it. -/
theorem front_append_drop (b : Buffer α size) {len level : ℕ} (below : len ≤ level) :
    b.front len ++ (b.front level).drop len = b.front level := by
  have short : (b.front level).take len = b.front len := by
    rw [front, front, List.take_take, Nat.min_eq_left below]
  rw [← short]
  exact List.take_append_drop len (b.front level)

end Buffer

end MsysGit.Library
