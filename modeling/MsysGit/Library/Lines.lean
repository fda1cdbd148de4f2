import Mathlib.Data.List.Basic
import Mathlib.Tactic.Common

/-!
# Lines read in pieces of bounded length

A reader with a buffer for `n` elements reads a stream line by line, each line up
to and including its terminator `nl`, and cuts a line that is longer than `n`.
`takeLine` is one read; `after` goes on reading until a piece is accepted, and
`firstPiece` gives that piece as well.

A line whose length is known is cut at the multiples of `n` (`after_line`), so only
its last piece can end in `nl`.  `piecesTo` lists the pieces that are read, and
`after_induction` is the induction along them.
-/

namespace MsysGit.Library

universe u

variable {α : Type u} [DecidableEq α] (nl : α)

/-- Up to `n` elements, but none after the first `nl`; and what follows them. -/
def takeLine : ℕ → List α → List α × List α
  | 0, s => ([], s)
  | _ + 1, [] => ([], [])
  | n + 1, c :: s =>
      if c = nl then ([c], s) else (c :: (takeLine n s).1, (takeLine n s).2)

variable {nl} {n : ℕ} {s : List α}

theorem takeLine_append (nl : α) (n : ℕ) (s : List α) :
    (takeLine nl n s).1 ++ (takeLine nl n s).2 = s := by
  induction n generalizing s with
  | zero => rfl
  | succ n ih =>
      cases s with
      | nil => rfl
      | cons c s =>
          rw [takeLine]
          split_ifs
          · rfl
          · rw [List.cons_append, ih]

theorem takeLine_ne_nil (positive : 0 < n) (some_left : s ≠ []) : (takeLine nl n s).1 ≠ [] := by
  cases n with
  | zero => exact absurd positive (Nat.lt_irrefl 0)
  | succ n =>
      cases s with
      | nil => exact absurd rfl some_left
      | cons c s =>
          rw [takeLine]
          split_ifs
          · exact List.cons_ne_nil _ _
          · exact List.cons_ne_nil _ _

theorem takeLine_length_lt (positive : 0 < n) (some_left : s ≠ []) :
    (takeLine nl n s).2.length < s.length := by
  have whole := congrArg List.length (takeLine_append nl n s)
  have read := List.length_pos_iff.mpr
    (takeLine_ne_nil positive some_left : (takeLine nl n s).1 ≠ [])
  rw [List.length_append] at whole
  omega

theorem takeLine_length_le (nl : α) (n : ℕ) (s : List α) : (takeLine nl n s).1.length ≤ n := by
  induction n generalizing s with
  | zero => exact Nat.le_refl 0
  | succ n ih =>
      cases s with
      | nil => exact Nat.zero_le _
      | cons c s =>
          rw [takeLine]
          split_ifs
          · exact Nat.succ_le_succ (Nat.zero_le n)
          · exact Nat.succ_le_succ (ih s)

/-- The terminator ends a read. -/
theorem takeLine_last {body more : List α} :
    ∀ {n : ℕ} {s : List α}, (takeLine nl n s).1 = body ++ nl :: more → more = [] := by
  induction body with
  | nil =>
      rintro (_ | n) (_ | ⟨c, s⟩) read
      · cases read
      · cases read
      · cases read
      · rw [takeLine] at read
        split_ifs at read with last
        · exact (List.cons.inj read).2.symm
        · exact absurd (List.cons.inj read).1 last
  | cons b body ih =>
      rintro (_ | n) (_ | ⟨c, s⟩) read
      · cases read
      · cases read
      · cases read
      · rw [takeLine] at read
        split_ifs at read
        · have empty := (List.cons.inj read).2
          exact absurd empty.symm (List.append_ne_nil_of_right_ne_nil _ (List.cons_ne_nil _ _))
        · exact ih (List.cons.inj read).2

/-- What comes before any terminator is read first. -/
theorem takeLine_front {front rest : List α} (single : nl ∉ front) (fits : front.length ≤ n) :
    takeLine nl n (front ++ rest) =
      (front ++ (takeLine nl (n - front.length) rest).1,
        (takeLine nl (n - front.length) rest).2) := by
  induction front generalizing n with
  | nil => rfl
  | cons c front ih =>
      obtain ⟨m, rfl⟩ : ∃ m, n = m + 1 := ⟨n - 1, by rw [List.length_cons] at fits; omega⟩
      obtain ⟨differs, single⟩ := not_or.mp (List.mem_cons.not.mp single)
      rw [List.cons_append, takeLine, if_neg (Ne.symm differs),
        ih single (Nat.le_of_succ_le_succ fits), List.length_cons, Nat.add_sub_add_right]
      rfl

theorem takeLine_front_append {front rest s : List α} {m : ℕ} (split : front ++ rest = s)
    (single : nl ∉ front) (fits : front.length ≤ m) :
    takeLine nl m s = (front ++ (takeLine nl (m - front.length) rest).1,
      (takeLine nl (m - front.length) rest).2) := split ▸ takeLine_front single fits

/-- A whole line is read if there is room for it. -/
theorem takeLine_line {body rest : List α} (single : nl ∉ body) (fits : body.length < n) :
    takeLine nl n (body ++ nl :: rest) = (body ++ [nl], rest) := by
  obtain ⟨m, more⟩ : ∃ m, n - body.length = m + 1 := ⟨n - body.length - 1, by omega⟩
  rw [takeLine_front single (Nat.le_of_lt fits), more, takeLine, if_pos rfl]

/-- Without a terminator in sight the buffer is filled. -/
theorem takeLine_full {front rest : List α} (single : nl ∉ front) :
    takeLine nl front.length (front ++ rest) = (front, rest) := by
  rw [takeLine_front single (Nat.le_refl _), Nat.sub_self, takeLine, List.append_nil]

/-- The first read of a line that is too long. -/
theorem takeLine_long {body rest : List α} (single : nl ∉ body) (long : n ≤ body.length) :
    takeLine nl n (body ++ nl :: rest) = (body.take n, body.drop n ++ nl :: rest) := by
  have cut : takeLine nl (body.take n).length (body.take n ++ (body.drop n ++ nl :: rest)) =
      (body.take n, body.drop n ++ nl :: rest) :=
    takeLine_full fun mem => single (List.mem_of_mem_take mem)
  rwa [List.length_take_of_le long, ← List.append_assoc, List.take_append_drop] at cut

variable (nl n) in
/-- What follows the first piece that `stop` accepts, reading `s` piece by piece. -/
def after (stop : List α → Bool) (s : List α) : Option (List α) :=
  if _h : 0 < n ∧ s ≠ [] then
    if stop (takeLine nl n s).1 then some (takeLine nl n s).2
    else after stop (takeLine nl n s).2
  else none
termination_by s.length
decreasing_by exact takeLine_length_lt _h.1 _h.2

variable {stop : List α → Bool}

theorem after_nil : after nl n stop [] = none := by
  rw [after, dif_neg fun h => h.2 rfl]

theorem after_of_ne_nil (positive : 0 < n) (some_left : s ≠ []) :
    after nl n stop s =
      if stop (takeLine nl n s).1 then some (takeLine nl n s).2
      else after nl n stop (takeLine nl n s).2 := by
  rw [after, dif_pos ⟨positive, some_left⟩]

/-! ### The pieces themselves -/

variable (nl n) in
/-- The pieces that are read of `s`, up to the first that `stop` accepts. -/
def piecesTo (stop : List α → Bool) (s : List α) : List (List α) :=
  if _h : 0 < n ∧ s ≠ [] then
    (takeLine nl n s).1 ::
      if stop (takeLine nl n s).1 then [] else piecesTo stop (takeLine nl n s).2
  else []
termination_by s.length
decreasing_by exact takeLine_length_lt _h.1 _h.2

theorem piecesTo_of_ne_nil (positive : 0 < n) (some_left : s ≠ []) :
    piecesTo nl n stop s = (takeLine nl n s).1 ::
      if stop (takeLine nl n s).1 then [] else piecesTo nl n stop (takeLine nl n s).2 := by
  rw [piecesTo, dif_pos ⟨positive, some_left⟩]

/-- **Along the pieces**: from the one that is accepted back to the first. -/
theorem after_induction {P : List α → Prop} (positive : 0 < n)
    (last : ∀ s, s ≠ [] → stop (takeLine nl n s).1 = true → P s)
    (more : ∀ s, s ≠ [] → stop (takeLine nl n s).1 = false →
      (after nl n stop (takeLine nl n s).2).isSome → P (takeLine nl n s).2 → P s)
    (s : List α) (ends : (after nl n stop s).isSome) : P s := by
  induction length : s.length using Nat.strongRecOn generalizing s with
  | _ k ih =>
    have some_left : s ≠ [] := by
      rintro rfl
      rw [after_nil] at ends
      cases ends
    rw [after_of_ne_nil positive some_left] at ends
    cases stops : stop (takeLine nl n s).1 with
    | true => exact last s some_left stops
    | false =>
        rw [stops, if_neg Bool.false_ne_true] at ends
        exact more s some_left stops ends
          (ih _ (length ▸ takeLine_length_lt positive some_left) _ ends rfl)

variable (nl n) in
/-- The first piece that `stop` accepts, and what follows it. -/
def firstPiece (stop : List α → Bool) (s : List α) : Option (List α × List α) :=
  if _h : 0 < n ∧ s ≠ [] then
    if stop (takeLine nl n s).1 then some (takeLine nl n s)
    else firstPiece stop (takeLine nl n s).2
  else none
termination_by s.length
decreasing_by exact takeLine_length_lt _h.1 _h.2

theorem firstPiece_nil : firstPiece nl n stop [] = none := by
  rw [firstPiece, dif_neg fun h => h.2 rfl]

theorem firstPiece_of_ne_nil (positive : 0 < n) (some_left : s ≠ []) :
    firstPiece nl n stop s =
      if stop (takeLine nl n s).1 then some (takeLine nl n s)
      else firstPiece nl n stop (takeLine nl n s).2 := by
  rw [firstPiece, dif_pos ⟨positive, some_left⟩]

theorem firstPiece_of_stop (positive : 0 < n) (some_left : s ≠ [])
    (stops : stop (takeLine nl n s).1 = true) :
    firstPiece nl n stop s = some (takeLine nl n s) := by
  rw [firstPiece_of_ne_nil positive some_left, if_pos stops]

/-- More room makes no difference to a line that ends in time. -/
theorem takeLine_of_le {m : ℕ} (more : n ≤ m)
    (ends : nl ∈ (takeLine nl n s).1 ∨ (takeLine nl n s).2 = []) :
    takeLine nl m s = takeLine nl n s := by
  induction n generalizing m s with
  | zero =>
      obtain rfl : s = [] := ends.resolve_left List.not_mem_nil
      cases m <;> rfl
  | succ n ih =>
      obtain ⟨k, rfl⟩ := Nat.exists_eq_add_of_le' (Nat.le_trans n.succ_pos more)
      cases s with
      | nil => rfl
      | cons c s =>
          rw [takeLine, takeLine]
          rw [takeLine] at ends
          split_ifs at ends ⊢ with last
          · rfl
          · have ends : nl ∈ (takeLine nl n s).1 ∨ (takeLine nl n s).2 = [] :=
              ends.imp_left fun inside =>
                (List.mem_cons.mp inside).resolve_left fun same => last same.symm
            rw [ih (Nat.le_of_succ_le_succ more) ends]

/-- A piece that is neither ended nor full is the last. -/
theorem takeLine_short (single : nl ∉ (takeLine nl n s).1)
    (short : (takeLine nl n s).1.length < n) :
    (takeLine nl n s).2 = [] := by
  induction n generalizing s with
  | zero => exact absurd short (Nat.not_lt_zero _)
  | succ n ih =>
      cases s with
      | nil => rfl
      | cons c s =>
          rw [takeLine] at single short ⊢
          split_ifs at single short ⊢ with last
          · exact absurd (List.mem_singleton.mpr last.symm) single
          · exact ih (fun inside => single (List.mem_cons_of_mem _ inside))
              (Nat.lt_of_succ_lt_succ short)

/-- Room for everything is room enough. -/
theorem takeLine_of_length_lt {m : ℕ} (fits : s.length < n) (fits' : s.length < m) :
    takeLine nl n s = takeLine nl m s := by
  have whole {k : ℕ} (fits : s.length < k) :
      nl ∈ (takeLine nl k s).1 ∨ (takeLine nl k s).2 = [] := by
    by_cases inside : nl ∈ (takeLine nl k s).1
    · exact Or.inl inside
    · have length := congrArg List.length (takeLine_append nl k s)
      rw [List.length_append] at length
      exact Or.inr (takeLine_short inside (by omega))
  rcases Nat.le_total n m with le | le
  · exact (takeLine_of_le le (whole fits)).symm
  · exact takeLine_of_le le (whole fits')

/-! ### Whole lines -/

variable (nl) in
/-- The lines of `s`, of whatever length. -/
abbrev lines (s : List α) : List (List α) := piecesTo nl (s.length + 1) (fun _ => false) s

theorem piecesTo_of_length_lt {m : ℕ} {stop : List α → Bool} (fits : s.length < n)
    (fits' : s.length < m) : piecesTo nl n stop s = piecesTo nl m stop s := by
  induction length : s.length using Nat.strongRecOn generalizing s with
  | _ k ih =>
    by_cases ended : s = []
    · subst ended
      rw [piecesTo, dif_neg fun h => h.2 rfl, piecesTo, dif_neg fun h => h.2 rfl]
    have shorter : (takeLine nl n s).2.length < s.length :=
      takeLine_length_lt (Nat.zero_lt_of_lt fits) ended
    rw [piecesTo_of_ne_nil (Nat.zero_lt_of_lt fits) ended,
      piecesTo_of_ne_nil (Nat.zero_lt_of_lt fits') ended, ← takeLine_of_length_lt fits fits',
      ih _ (length ▸ shorter) (Nat.lt_trans shorter fits) (Nat.lt_trans shorter fits') rfl]

/-- The first line, and the lines that follow it. -/
theorem lines_of_ne_nil (some_left : s ≠ []) :
    lines nl s = (takeLine nl (s.length + 1) s).1 :: lines nl (takeLine nl (s.length + 1) s).2 := by
  have shorter : (takeLine nl (s.length + 1) s).2.length < s.length :=
    takeLine_length_lt (Nat.succ_pos _) some_left
  rw [lines, piecesTo_of_ne_nil (Nat.succ_pos _) some_left, if_neg Bool.false_ne_true,
    piecesTo_of_length_lt (Nat.lt_succ_of_lt shorter) (Nat.lt_succ_self _)]

/-- A line that is accepted is found. -/
theorem firstPiece_isSome_of_mem {line : List α}
    (inside : line ∈ piecesTo nl n (fun _ => false) s) (accepted : stop line = true) :
    (firstPiece nl n stop s).isSome := by
  fun_induction piecesTo nl n (fun _ => false) s with
  | case1 s left ih =>
      rw [firstPiece_of_ne_nil left.1 left.2]
      split_ifs with stops
      · rfl
      · rw [if_neg Bool.false_ne_true, List.mem_cons] at inside
        rcases inside with rfl | inside
        · exact absurd accepted stops
        · exact ih inside
  | case2 => cases inside

/-- A piece begins the line. -/
theorem takeLine_front_of_line {m : ℕ} (fits : s.length < m) :
    (takeLine nl n s).1 <+: (takeLine nl m s).1 := by
  by_cases ends : nl ∈ (takeLine nl n s).1 ∨ (takeLine nl n s).2 = []
  · have same : takeLine nl m s = takeLine nl n s := by
      rcases Nat.le_total n m with le | le
      · exact takeLine_of_le le ends
      · exact takeLine_of_length_lt fits (Nat.lt_of_lt_of_le fits le)
    exact same ▸ List.prefix_rfl
  · obtain ⟨single, -⟩ := not_or.mp ends
    have split := takeLine_append nl n s
    have short := congrArg List.length split
    rw [List.length_append] at short
    have whole := takeLine_front_append (m := m) split single (by omega)
    rw [whole]
    exact List.prefix_append _ _

/-- The lines of what follows a piece are parts of lines. -/
theorem exists_line_of_rest {line : List α} (inside : line ∈ lines nl (takeLine nl n s).2) :
    ∃ whole ∈ lines nl s, line <:+: whole := by
  have some_left : s ≠ [] := by
    rintro rfl
    cases n <;> simp [takeLine, lines, piecesTo] at inside
  rw [lines_of_ne_nil some_left]
  by_cases ends : nl ∈ (takeLine nl n s).1 ∨ (takeLine nl n s).2 = []
  · have same : takeLine nl (s.length + 1) s = takeLine nl n s := by
      rcases Nat.le_total n (s.length + 1) with le | le
      · exact takeLine_of_le le ends
      · exact takeLine_of_length_lt (Nat.lt_succ_self _) le
    rw [same]
    exact ⟨line, List.mem_cons_of_mem _ inside, List.infix_rfl⟩
  · obtain ⟨single, left⟩ := not_or.mp ends
    have split := takeLine_append nl n s
    have length := congrArg List.length split
    rw [List.length_append] at length
    have whole := takeLine_front_append (m := s.length + 1) split single (by omega)
    rw [takeLine_of_length_lt (m := (takeLine nl n s).2.length + 1) (by omega)
      (Nat.lt_succ_self _)] at whole
    rw [whole]
    rw [lines_of_ne_nil left, List.mem_cons] at inside
    rcases inside with rfl | inside
    · exact ⟨_, List.mem_cons_self, (List.suffix_append _ _).isInfix⟩
    · exact ⟨line, List.mem_cons_of_mem _ inside, List.infix_rfl⟩

/-- **Pieces are parts of lines.** -/
theorem exists_line_of_firstPiece {piece rest : List α}
    (found : firstPiece nl n stop s = some (piece, rest)) :
    ∃ line ∈ lines nl s, piece <:+: line := by
  fun_induction firstPiece nl n stop s with
  | case1 s left stops =>
      obtain rfl := congrArg Prod.fst (Option.some.inj found)
      rw [lines_of_ne_nil left.2]
      exact ⟨_, List.mem_cons_self, (takeLine_front_of_line (Nat.lt_succ_self _)).isInfix⟩
  | case2 s left stops ih =>
      obtain ⟨line, inside, part⟩ := ih found
      obtain ⟨whole, inside, part'⟩ := exists_line_of_rest inside
      exact ⟨whole, inside, part.trans part'⟩
  | case3 => cases found

/-- **Reading past a line.**  If it is too long, its first `n` elements go first. -/
theorem after_line (positive : 0 < n) {body : List α} (rest : List α) (single : nl ∉ body) :
    after nl n stop (body ++ nl :: rest) =
      if body.length < n then
        if stop (body ++ [nl]) then some rest else after nl n stop rest
      else if stop (body.take n) then some (body.drop n ++ nl :: rest)
      else after nl n stop (body.drop n ++ nl :: rest) := by
  rw [after_of_ne_nil positive (by simp)]
  by_cases fits : body.length < n
  · rw [takeLine_line single fits, if_pos fits]
  · rw [takeLine_long single (Nat.le_of_not_lt fits), if_neg fits]

end MsysGit.Library
