import Mathlib.Data.List.Basic
import Mathlib.Tactic.Common

/-!
# Streams delivered in pieces

A byte stream that a network cuts as it likes is a list of pieces; the stream
itself is their concatenation.  One `read n` returns what is left of the first
non-empty piece, at most `n` elements of it.  Every sequence of non-empty short
reads of a stream is obtained from some cutting, so a statement about all lists
of pieces is a statement about all ways the stream can be delivered.
-/

namespace MsysGit.Library

universe u

variable {α : Type u}

/-- One read of at most `n` elements: what was read and what is left. -/
def readChunk (n : ℕ) : List (List α) → List α × List (List α)
  | [] => ([], [])
  | [] :: chunks => readChunk n chunks
  | (a :: piece) :: chunks => ((a :: piece).take n, (a :: piece).drop n :: chunks)

/-- A read takes its elements off the front of the stream. -/
theorem readChunk_append (n : ℕ) (chunks : List (List α)) :
    (readChunk n chunks).1 ++ (readChunk n chunks).2.flatten = chunks.flatten := by
  induction chunks with
  | nil => rfl
  | cons piece chunks ih =>
      cases piece with
      | nil => rw [readChunk, ih, List.flatten_cons, List.nil_append]
      | cons a piece =>
          rw [readChunk, List.flatten_cons, ← List.append_assoc, List.take_append_drop,
            List.flatten_cons]

theorem readChunk_length_le (n : ℕ) (chunks : List (List α)) :
    (readChunk n chunks).1.length ≤ n := by
  induction chunks with
  | nil => exact Nat.zero_le n
  | cons piece chunks ih =>
      cases piece with
      | nil => exact ih
      | cons a piece => exact List.length_take_le _ _

/-- A read finds nothing only at the end of the stream. -/
theorem readChunk_eq_nil {n : ℕ} (positive : 0 < n) (chunks : List (List α)) :
    (readChunk n chunks).1 = [] ↔ chunks.flatten = [] := by
  induction chunks with
  | nil => exact Iff.rfl
  | cons piece chunks ih =>
      cases piece with
      | nil => rw [readChunk, ih, List.flatten_cons, List.nil_append]
      | cons a piece =>
          obtain ⟨m, rfl⟩ : ∃ m, n = m + 1 := ⟨n - 1, by omega⟩
          simp [readChunk]

end MsysGit.Library
