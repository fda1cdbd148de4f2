import MsysGit.Library.QuotedArguments

/-!
# Quoting arguments

The inverse of reading a command line: an argument is put in quotes, its quotes are
escaped, and the backslashes in front of a quote are doubled.  Whether a backslash stands
in front of a quote is known only behind it, so `escape` carries the number of
backslashes that are still to be written.  The reader, once it has seen all that was
written, is as far behind: `run_escape` adds them to the argument it reads.
-/

namespace MsysGit.Library

/-- What is written for `s` and the closing quote behind it, after `pending` backslashes. -/
def escape : ℕ → List Char → List Char
  | pending, [] => List.replicate (2 * pending) '\\'
  | pending, c :: s =>
      if c = '\\' then escape (pending + 1) s
      else if c = '"' then List.replicate (2 * pending) '\\' ++ ['\\', '"'] ++ escape 0 s
      else List.replicate pending '\\' ++ [c] ++ escape 0 s

/-- An argument in quotes. -/
def quote (arg : List Char) : List Char := '"' :: escape 0 arg ++ ['"']

namespace Reader

theorem run_slashes (r : Reader) (k : ℕ) :
    r.run (List.replicate k '\\') = { r with slashes := r.slashes + k } := by
  induction k generalizing r with
  | zero => rfl
  | succ k ih =>
      have moved : r.slashes + (k + 1) = r.slashes + 1 + k := by omega
      rw [List.replicate_succ, run_cons, step_slash, ih, moved]

/-- A reader inside quotes. -/
def inQuotes (arg : List Char) (done : List (List Char)) : Reader where
  quoted := true
  slashes := 0
  current := some arg
  done := done

/-- **Pending backslashes.**  What is read of an escaped text and its closing quote is the pending
backslashes and the text. -/
theorem run_escape (pending : ℕ) (s arg : List Char) (done : List (List Char)) :
    (inQuotes arg done).run (escape pending s ++ ['"']) =
      { quoted := false
        slashes := 0
        current := some (arg ++ (List.replicate pending '\\' ++ s))
        done := done } := by
  induction s generalizing pending arg with
  | nil =>
      have even : (2 * pending) % 2 ≠ 1 := by omega
      rw [escape, run_append, run_slashes]
      show ({ inQuotes arg done with slashes := 0 + 2 * pending } : Reader).step '"' = _
      rw [Nat.zero_add, step_quote_even even]
      simp [inQuotes]
  | cons c s ih =>
      rw [escape]
      split_ifs with slash isQuote
      · subst slash
        rw [ih, List.replicate_succ', List.append_assoc]
        rfl
      · subst isQuote
        have odd : (2 * pending + 1) % 2 = 1 := by omega
        have half : (2 * pending + 1) / 2 = pending := by omega
        have escaped : (inQuotes arg done).run (List.replicate (2 * pending) '\\' ++ ['\\', '"']) =
            inQuotes (arg ++ (List.replicate pending '\\' ++ ['"'])) done := by
          rw [run_append, run_slashes]
          show ({ inQuotes arg done with slashes := 0 + 2 * pending + 1 } : Reader).step '"' = _
          rw [Nat.zero_add, step_quote_odd odd]
          simp [inQuotes, half]
        rw [List.append_assoc, run_append, escaped, ih]
        simp
      · have written : (inQuotes arg done).run (List.replicate pending '\\' ++ [c]) =
            inQuotes (arg ++ (List.replicate pending '\\' ++ [c])) done := by
          rw [run_append, run_slashes]
          show ({ inQuotes arg done with slashes := 0 + pending } : Reader).step c = _
          rw [Nat.zero_add, step_other slash isQuote fun _ => rfl]
          simp [inQuotes, text]
        rw [List.append_assoc, run_append, written, ih]
        simp

/-- A quoted argument with a blank behind it is read as a whole. -/
theorem run_quote {r : Reader} (outside : r.quoted = false) (no_slash : r.slashes = 0)
    (between : r.current = none) (arg : List Char) {blank : Char} (isBlank : isBlank blank = true) :
    r.run (quote arg ++ [blank]) = { r with done := r.done ++ [arg] } := by
  have opened : r.step '"' = inQuotes [] r.done := by
    rw [step_bare_quote no_slash, outside, between, no_slash]
    rfl
  rw [quote, List.append_assoc, List.cons_append, run_cons, opened, ← List.append_assoc,
    run_append, run_escape]
  show Reader.step _ blank = _
  rw [step_blank isBlank rfl]
  simp [finish, text, outside, no_slash, between]

end Reader

open Reader

/-- **Round trip.**  Quoted arguments, each with a blank behind it, are read as they were. -/
theorem arguments_quotes (args : List (List Char)) :
    arguments (args.flatMap fun arg => quote arg ++ [' ']) = args := by
  suffices general : ∀ r : Reader, r.quoted = false → r.slashes = 0 → r.current = none →
      (r.run (args.flatMap fun arg => quote arg ++ [' '])).finish = r.done ++ args by
    exact general start rfl rfl rfl
  induction args with
  | nil =>
      intro r _ no_slash between
      rw [List.append_nil]
      exact if_pos ⟨between, no_slash⟩
  | cons arg args ih =>
      intro r outside no_slash between
      rw [List.flatMap_cons, run_append, run_quote outside no_slash between arg (by decide),
        ih { r with done := r.done ++ [arg] } outside no_slash between, List.append_assoc]
      rfl

end MsysGit.Library
