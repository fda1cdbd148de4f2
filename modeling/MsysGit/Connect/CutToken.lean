import MsysGit.Connect.Strings

/-!
# What `cut_token` returns

`cut_token` is to return a null pointer if there is no next token.  It does so where the
string is empty or begins with a delimiter, and there it cuts nothing; where the token is the
last one, it returns the end of the string.
-/

namespace MsysGit.Connect

open MsysGit.Library MsysGit.Library.CString

variable {size : ℕ}

/-- What follows the first run of delimiters. -/
def nextToken (s delim : Bytes) : Bytes := (s.dropWhile (· ∉ delim)).dropWhile (· ∈ delim)

/-- The length of the first run of delimiters. -/
def runLength (s delim : Bytes) : ℕ := strspn (s.dropWhile (· ∉ delim)) delim

/-- The token is cut off and its delimiters are zeros, every other cell is as it was, and the
next token is returned if there is one. -/
structure CutsToken (buf : Buffer UInt8 size) (str : ℕ) (delim : Bytes) : Prop where
  token : cstr (cutToken buf str delim).1.cells str =
    (cstr buf.cells str).takeWhile (· ∉ delim)
  cells : ∀ k, (cutToken buf str delim).1.cells[k]? =
    if str + strcspn (cstr buf.cells str) delim ≤ k ∧
        k < str + strcspn (cstr buf.cells str) delim + runLength (cstr buf.cells str) delim then
      some 0
    else buf.cells[k]?
  next : (cutToken buf str delim).2 =
    if nextToken (cstr buf.cells str) delim = [] then none
    else some (str + strcspn (cstr buf.cells str) delim +
      runLength (cstr buf.cells str) delim)

variable {buf : Buffer UInt8 size} {str : ℕ} {delim : Bytes}

/-- A token that is not empty is cut off as it should be. -/
theorem cells_cutToken (token : 0 < strcspn (cstr buf.cells str) delim) (k : ℕ) :
    (cutToken buf str delim).1.cells[k]? =
      if str + strcspn (cstr buf.cells str) delim ≤ k ∧
          k < str + strcspn (cstr buf.cells str) delim + runLength (cstr buf.cells str) delim then
        some 0
      else buf.cells[k]? := by
  have inside := strcspn_add_strspn_le (cstr buf.cells str) delim
  have room := cstr_length_le buf str
  rw [cutToken_cut token, runLength, Buffer.store, storeCells_getElem? _ _ _
    (by rw [List.length_replicate, buf.length_cells]; omega), List.length_replicate]
  split_ifs with covered
  · rw [List.getElem?_replicate, if_pos (by omega)]
  · rfl

/-- A string that begins with a delimiter begins with a run of them. -/
theorem runLength_pos {s delim : Bytes} (some_left : s ≠ []) (stuck : strcspn s delim = 0) :
    0 < runLength s delim := by
  obtain ⟨c, rest, rfl⟩ := List.exists_cons_of_ne_nil some_left
  have found : c ∈ delim := by
    by_contra other
    rw [strcspn, List.takeWhile_cons_of_pos (by simpa using other)] at stuck
    cases stuck
  rw [runLength, List.dropWhile_cons_of_neg (by simpa using found), strspn,
    List.takeWhile_cons_of_pos (by simpa using found)]
  exact Nat.succ_pos _

theorem strcspn_pos_iff {s delim : Bytes} (some_left : s ≠ []) :
    0 < strcspn s delim ↔ ∀ c ∈ s.head?, c ∉ delim := by
  obtain ⟨c, rest, rfl⟩ := List.exists_cons_of_ne_nil some_left
  rw [strcspn, List.takeWhile_cons]
  by_cases found : c ∈ delim
  · simp [found]
  · simp [found]

/-- **When a token is cut off as it should be**: the string is empty, or does not begin with a
delimiter and something follows its first run of delimiters. -/
theorem cutsToken_iff (buf : Buffer UInt8 size) (str : ℕ) (delim : Bytes) :
    CutsToken buf str delim ↔
      cstr buf.cells str = [] ∨
        (∀ c ∈ (cstr buf.cells str).head?, c ∉ delim) ∧
          nextToken (cstr buf.cells str) delim ≠ [] := by
  by_cases empty : cstr buf.cells str = []
  · refine iff_of_true ?_ (Or.inl empty)
    have stuck : cutToken buf str delim = (buf, none) := cutToken_stuck (by rw [empty]; rfl)
    constructor
    · rw [stuck, empty]
      rfl
    · intro k
      rw [stuck, empty, if_neg]
      rintro ⟨above, below⟩
      exact Nat.lt_irrefl _ (Nat.lt_of_le_of_lt above below)
    · rw [stuck, empty]
      rfl
  rw [or_iff_right empty, ← strcspn_pos_iff empty]
  rcases Nat.eq_zero_or_pos (strcspn (cstr buf.cells str) delim) with stuck | token
  · refine iff_of_false (fun right => ?_) fun both => Nat.ne_of_gt both.1 stuck
    -- The first delimiter is still there.
    have first := right.cells str
    have run := runLength_pos empty stuck
    rw [cutToken_stuck stuck, stuck, if_pos (by omega)] at first
    obtain ⟨c, rest, string⟩ := List.exists_cons_of_ne_nil empty
    obtain ⟨more, split, -⟩ := drop_eq_cstr_append buf.cells str
    have here := congrArg (·[0]?) split
    rw [List.getElem?_drop, Nat.add_zero, first, string] at here
    have inside : c ∈ cstr buf.cells str := string ▸ List.mem_cons_self
    exact ne_zero_of_mem_cstr inside (Option.some.inj here).symm
  · rw [and_iff_right token]
    constructor
    · intro right last
      have returned := right.next
      rw [cutToken_cut token, if_pos last] at returned
      cases returned
    · intro more
      refine ⟨cstr_cutToken_self buf str token, cells_cutToken token, ?_⟩
      rw [cutToken_cut token, if_neg more]
      rfl

/-- Behind the last token its end is returned, and not a null pointer. -/
theorem not_cutsToken_last :
    ¬CutsToken (⟨text "80" ++ [0], rfl⟩ : Buffer UInt8 3) 0 (text ":") := by
  intro right
  exact absurd right.next (by decide)

end MsysGit.Connect
