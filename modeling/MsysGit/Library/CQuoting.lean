import MsysGit.Library.CString

/-!
# Names quoted in C style

How Git prints names without `-z`, as it documents it.  A name with an unusual byte is put in
double quotes, and its unusual bytes are escaped as in C: control characters, double quotes,
backslashes and, unless `core.quotePath` is off, the bytes from 0x80 on.  Other names are
printed as they are.

A quoted name is itself unusual, and longer than the name.  So a finite set of names can only
contain what is printed of its names if none is unusual (`usual_of_closed`).
-/

namespace MsysGit.Library

variable (quotePath : Bool)

def unusual (c : UInt8) : Bool :=
  c < 32 || c = 34 || c = 92 || c = 127 || (quotePath && 128 ≤ c)

/-- The letter that stands behind the backslash, for the bytes that have one. -/
def escapeLetter : UInt8 → Option UInt8
  | 7 => some 97
  | 8 => some 98
  | 9 => some 116
  | 10 => some 110
  | 11 => some 118
  | 12 => some 102
  | 13 => some 114
  | 34 => some 34
  | 92 => some 92
  | _ => none

def octalDigit (n : ℕ) : UInt8 := UInt8.ofNat (48 + n % 8)

/-- An unusual byte: a letter behind a backslash, or three octal digits. -/
def escapeByte (c : UInt8) : Bytes :=
  match escapeLetter c with
  | some letter => [92, letter]
  | none => [92, octalDigit (c.toNat / 64), octalDigit (c.toNat / 8), octalDigit c.toNat]

/-- A name as it is printed. -/
def quoteCStyle (name : Bytes) : Bytes :=
  if name.any (unusual quotePath) then
    34 :: (name.flatMap fun c => if unusual quotePath c then escapeByte c else [c]) ++ [34]
  else name

variable {quotePath} {c : UInt8} {name : Bytes}

theorem printable_escapeLetter {letter : UInt8} (found : escapeLetter c = some letter) :
    32 ≤ letter := by
  unfold escapeLetter at found
  split at found <;> cases found <;> decide

theorem printable_octalDigit (n : ℕ) : 32 ≤ octalDigit n := by
  rw [octalDigit, UInt8.le_iff_toNat_le, UInt8.toNat_ofNat']
  show 32 ≤ _
  omega

/-- What is written for an unusual byte can be printed. -/
theorem printable_escapeByte : ∀ d ∈ escapeByte c, 32 ≤ d := by
  intro d inside
  unfold escapeByte at inside
  split at inside
  · rename_i letter found
    rcases List.mem_cons.mp inside with rfl | inside
    · decide
    · obtain rfl := List.mem_singleton.mp inside
      exact printable_escapeLetter found
  · simp only [List.mem_cons, List.not_mem_nil, or_false] at inside
    rcases inside with rfl | rfl | rfl | rfl
    · decide
    · exact printable_octalDigit _
    · exact printable_octalDigit _
    · exact printable_octalDigit _

theorem printable_of_usual (usual : ¬ unusual quotePath c = true) : 32 ≤ c := by
  unfold unusual at usual
  simp only [Bool.or_eq_true, not_or, decide_eq_true_eq] at usual
  exact UInt8.not_lt.mp usual.1.1.1.1

/-- Nothing that is printed of a name is a control character. -/
theorem printable_quoteCStyle : ∀ d ∈ quoteCStyle quotePath name, 32 ≤ d := by
  intro d inside
  unfold quoteCStyle at inside
  split at inside
  · rcases List.mem_append.mp inside with inside | last
    · rcases List.mem_cons.mp inside with rfl | inside
      · decide
      · obtain ⟨c, _, written⟩ := List.mem_flatMap.mp inside
        split at written
        · exact printable_escapeByte d written
        · rename_i usual
          obtain rfl := List.mem_singleton.mp written
          exact printable_of_usual usual
    · obtain rfl := List.mem_singleton.mp last
      decide
  · rename_i usual
    apply printable_of_usual
    intro strange
    exact usual (List.any_eq_true.mpr ⟨d, inside, strange⟩)

theorem quoteCStyle_of_usual (usual : name.any (unusual quotePath) = false) :
    quoteCStyle quotePath name = name := by
  rw [quoteCStyle, usual]
  rfl

/-- A quoted name is unusual, too. -/
theorem unusual_quoteCStyle (strange : name.any (unusual quotePath) = true) :
    (quoteCStyle quotePath name).any (unusual quotePath) = true := by
  rw [quoteCStyle, if_pos strange]
  apply List.any_eq_true.mpr
  exact ⟨34, List.mem_cons_self, rfl⟩

theorem length_le_escaped (quotePath : Bool) (name : Bytes) : name.length ≤
    (name.flatMap fun c => if unusual quotePath c then escapeByte c else [c]).length := by
  induction name with
  | nil => exact Nat.le_refl 0
  | cons c name ih =>
      have one : 1 ≤ (if unusual quotePath c then escapeByte c else [c]).length := by
        split
        · unfold escapeByte
          split
          · exact Nat.succ_le_succ (Nat.zero_le _)
          · exact Nat.succ_le_succ (Nat.zero_le _)
        · exact Nat.le_refl 1
      rw [List.flatMap_cons, List.length_append, List.length_cons]
      omega

theorem length_lt_quoteCStyle (strange : name.any (unusual quotePath) = true) :
    name.length < (quoteCStyle quotePath name).length := by
  have body := length_le_escaped quotePath name
  rw [quoteCStyle, if_pos strange, List.length_append, List.length_cons]
  omega

theorem quoteCStyle_ne_nil (nonempty : name ≠ []) : quoteCStyle quotePath name ≠ [] := by
  unfold quoteCStyle
  split
  · exact List.cons_ne_nil _ _
  · exact nonempty

/-- **Closed sets of names.**  A list that contains what is printed of each of its names has
no unusual name: quoting again and again would give longer and longer ones. -/
theorem usual_of_closed {names : List Bytes}
    (closed : ∀ name ∈ names, quoteCStyle quotePath name ∈ names) :
    ∀ name ∈ names, name.any (unusual quotePath) = false := by
  intro name member
  by_contra strange
  rw [Bool.not_eq_false] at strange
  have longer : ∀ n, ∃ other ∈ names, other.any (unusual quotePath) = true ∧ n ≤ other.length := by
    intro n
    induction n with
    | zero => exact ⟨name, member, strange, Nat.zero_le _⟩
    | succ n ih =>
        obtain ⟨other, inside, odd, long⟩ := ih
        refine ⟨_, closed other inside, unusual_quoteCStyle odd, ?_⟩
        exact Nat.succ_le_of_lt (Nat.lt_of_le_of_lt long (length_lt_quoteCStyle odd))
  obtain ⟨other, inside, _, long⟩ := longer (names.flatten.length + 1)
  have short := (List.sublist_flatten_of_mem inside).length_le
  omega

end MsysGit.Library
