import Mathlib.Data.List.Basic
import Mathlib.Data.Nat.Digits.Defs
import MsysGit.Library.CString

/-!
# Decimal numerals in C strings

A numeral is a string of digits, with at least one.  `digits` reads the numeral at the
beginning of a string, whatever follows it (`digits_append`), and `atoi` narrows its
value to 32 bits (`atoi_eq`); narrowed further to 8 or 16 bits the value is the
numeral's own, reduced once (`ofInt_bmod_uint8`, `ofInt_bmod_uint16`).  What is printed for a
number is a numeral of that value (`numeral_toString`, `digits_toString`).
-/

namespace MsysGit.Library.CString

/-- The digits as they are listed. -/
theorem mem_digits_iff (c : UInt8) : c ∈ text "0123456789" ↔ isdigit c = true := by
  have all : ∀ n < 256, UInt8.ofNat n ∈ text "0123456789" ↔ isdigit (UInt8.ofNat n) = true := by
    decide +kernel
  have byte := all c.toNat c.toNat_lt
  rwa [UInt8.ofNat_toNat] at byte

/-- Digits, and at least one. -/
structure Numeral (d : Bytes) : Prop where
  nonempty : d ≠ []
  digits : ∀ c ∈ d, isdigit c = true

variable {d r s : Bytes}

instance : Decidable (Numeral d) :=
  decidable_of_iff (d ≠ [] ∧ d.all isdigit = true)
    ⟨fun h => ⟨h.1, List.all_eq_true.mp h.2⟩, fun h => ⟨h.1, List.all_eq_true.mpr h.2⟩⟩

/-- What follows a numeral does not begin with a digit. -/
def Stops (r : Bytes) : Prop := isdigit (r.headD 0) = false

theorem stops_nil : Stops [] := rfl

theorem takeWhile_of_stops (stops : Stops r) : r.takeWhile isdigit = [] := by
  cases r with
  | nil => rfl
  | cons c r => exact List.takeWhile_cons_of_neg (by simpa [Stops] using stops)

theorem dropWhile_of_stops (stops : Stops r) : r.dropWhile isdigit = r := by
  cases r with
  | nil => rfl
  | cons c r => exact List.dropWhile_cons_of_neg (by simpa [Stops] using stops)

theorem Numeral.takeWhile_append (numeral : Numeral d) (stops : Stops r) :
    (d ++ r).takeWhile isdigit = d := by
  rw [List.takeWhile_append_of_pos numeral.digits, takeWhile_of_stops stops, List.append_nil]

theorem Numeral.dropWhile_append (numeral : Numeral d) (stops : Stops r) :
    (d ++ r).dropWhile isdigit = r := by
  rw [List.dropWhile_append_of_pos numeral.digits, dropWhile_of_stops stops]

/-- A numeral begins with a digit. -/
theorem Numeral.headD (numeral : Numeral d) (r : Bytes) : isdigit ((d ++ r).headD 0) = true := by
  obtain ⟨c, d, rfl⟩ := List.exists_cons_of_ne_nil numeral.nonempty
  exact numeral.digits c List.mem_cons_self

theorem Numeral.zero_notMem {d : Bytes} (numeral : Numeral d) : 0 ∉ d := fun inside =>
  absurd (numeral.digits 0 inside) (by decide)

/-- A string that begins with a digit is a numeral and what follows it. -/
theorem exists_numeral (first : isdigit (s.headD 0) = true) :
    ∃ d r, s = d ++ r ∧ Numeral d ∧ Stops r := by
  refine ⟨s.takeWhile isdigit, s.dropWhile isdigit, List.takeWhile_append_dropWhile.symm,
    ⟨?_, fun c inside => List.mem_takeWhile_imp inside⟩, ?_⟩
  · cases s with
    | nil => exact absurd first (by decide)
    | cons c s =>
        rw [List.takeWhile_cons_of_pos (by simpa using first)]
        exact List.cons_ne_nil _ _
  · cases left : s.dropWhile isdigit with
    | nil => rfl
    | cons c r =>
        have head := List.head_dropWhile_not isdigit (l := s)
          (by rw [left]; exact List.cons_ne_nil _ _)
        simpa [Stops, left] using head

/-- **The value of a numeral** does not depend on what follows. -/
theorem Numeral.digits_append (numeral : Numeral d) (stops : Stops r) :
    CString.digits (d ++ r) = CString.digits d := by
  have alone := numeral.takeWhile_append stops_nil
  rw [List.append_nil] at alone
  rw [CString.digits, CString.digits, numeral.takeWhile_append stops, alone]

/-- `atoi` of a string that begins with a digit. -/
theorem atoi_eq (first : isdigit (s.headD 0) = true) :
    atoi s = (CString.digits s : ℤ).bmod (2 ^ 32) := by
  cases s with
  | nil => exact absurd first (by decide)
  | cons c s =>
      have digit : isdigit c = true := first
      have range : 48 ≤ c.toNat ∧ c.toNat ≤ 57 := by
        simp only [isdigit, Bool.and_eq_true, decide_eq_true_eq] at digit
        exact digit
      have other (d : UInt8) (low : d.toNat < 48) : c ≠ d := by
        rintro rfl
        omega
      have not_space : isspace c = false := by
        have below : ¬ c ≤ 13 := by
          intro low
          have low : c.toNat ≤ 13 := low
          omega
        simp [isspace, other 32 (by decide), below]
      rw [atoi, List.dropWhile_cons_of_neg (by simp [not_space]), List.head?_cons,
        if_neg (by simp [other 45 (by decide)]), if_neg (by simp [other 43 (by decide)])]

theorem Numeral.atoi (numeral : Numeral d) (stops : Stops r) :
    CString.atoi (d ++ r) = (CString.digits d : ℤ).bmod (2 ^ 32) := by
  rw [atoi_eq (numeral.headD r), numeral.digits_append stops]

/-- A numeral for zero begins with a zero. -/
theorem Numeral.headD_of_zero (numeral : Numeral d) (zero : CString.digits d = 0) :
    d.headD 0 = 48 := by
  have grows (d : Bytes) (total : ℕ) :
      total ≤ d.foldl (fun total c => 10 * total + (c.toNat - 48)) total := by
    induction d generalizing total with
    | nil => exact Nat.le_refl _
    | cons c d ih =>
        exact Nat.le_trans (show total ≤ 10 * total + (c.toNat - 48) by omega) (ih _)
  obtain ⟨c, rest, rfl⟩ := List.exists_cons_of_ne_nil numeral.nonempty
  have digit := numeral.digits c List.mem_cons_self
  rw [isdigit, Bool.and_eq_true, decide_eq_true_iff, decide_eq_true_iff] at digit
  have low : 48 ≤ c.toNat := UInt8.le_iff_toNat_le.mp digit.1
  have value := grows rest (10 * 0 + (c.toNat - 48))
  rw [CString.digits, List.takeWhile_eq_self_iff.mpr numeral.digits, List.foldl_cons] at zero
  rw [zero] at value
  exact UInt8.toNat_inj.mp (show c.toNat = 48 by omega)

/-! ### Printed numbers -/

/-- A digit, as a byte. -/
theorem toNat_digit {c : Char} (digit : c.isDigit) :
    c.toNat.toUInt8.toNat = c.toNat ∧ 48 ≤ c.toNat ∧ c.toNat ≤ 57 := by
  have range : 48 ≤ c.toNat ∧ c.toNat ≤ 57 := by
    simp only [Char.isDigit, Bool.and_eq_true, decide_eq_true_eq] at digit
    exact ⟨digit.1, digit.2⟩
  refine ⟨?_, range⟩
  rw [Nat.toUInt8_eq, UInt8.toNat_ofNat']
  omega

theorem isdigit_digit {c : Char} (digit : c.isDigit) : isdigit c.toNat.toUInt8 = true := by
  obtain ⟨byte, low, high⟩ := toNat_digit digit
  rw [isdigit, Bool.and_eq_true, decide_eq_true_eq, decide_eq_true_eq, UInt8.le_iff_toNat_le,
    UInt8.le_iff_toNat_le, byte]
  exact ⟨low, high⟩

theorem text_repr (n : ℕ) :
    text (toString n) = (Nat.toDigits 10 n).map fun c => c.toNat.toUInt8 := by
  rw [text, Nat.toString_eq_repr, Nat.toList_repr]

theorem numeral_toString (n : ℕ) : Numeral (text (toString n)) := by
  rw [text_repr]
  refine ⟨fun empty => Nat.toDigits_ne_nil (List.map_eq_nil_iff.mp empty), fun c inside => ?_⟩
  obtain ⟨c, printed, rfl⟩ := List.mem_map.mp inside
  exact isdigit_digit (Nat.isDigit_of_mem_toDigits (b := 10) (by decide) (by decide) printed)

theorem length_toString_le {n k : ℕ} (some_digit : 0 < k) (low : n < 10 ^ k) :
    (text (toString n)).length ≤ k := by
  rw [text_repr, List.length_map]
  exact (Nat.length_toDigits_le_iff (by decide) some_digit).mpr low

/-- **A printed number** reads as itself. -/
theorem digits_toString (n : ℕ) : CString.digits (text (toString n)) = n := by
  have value (cs : List Char) (all : ∀ c ∈ cs, c.isDigit) (total : ℕ) :
      (cs.map fun c => c.toNat.toUInt8).foldl (fun total c => 10 * total + (c.toNat - 48)) total =
        Nat.ofDigitChars 10 cs total := by
    induction cs generalizing total with
    | nil => rfl
    | cons c cs ih =>
        rw [List.map_cons, List.foldl_cons,
          ih fun d inside => all d (List.mem_cons_of_mem _ inside),
          (toNat_digit (all c List.mem_cons_self)).1]
        rfl
  have numeral := (numeral_toString n).takeWhile_append stops_nil
  rw [List.append_nil] at numeral
  rw [CString.digits, numeral, text_repr,
    value _ (fun c inside => Nat.isDigit_of_mem_toDigits (by decide) (by decide) inside),
    Nat.ofDigitChars_ten_toDigits]

/-! ### Narrowing -/

theorem bmod_emod (n : ℤ) {m : ℤ} (divides : m ∣ 2 ^ 32) : n.bmod (2 ^ 32) % m = n % m := by
  have same := Int.emod_emod_of_dvd (n.bmod (2 ^ 32)) divides
  have same' := Int.emod_emod_of_dvd n divides
  have whole : n.bmod (2 ^ 32) % 2 ^ 32 = n % 2 ^ 32 := Int.bmod_emod
  rw [← same, whole, same']

/-- Narrowing to a byte. -/
theorem ofInt_bmod_uint8 (n : ℕ) : UInt8.ofInt ((n : ℤ).bmod (2 ^ 32)) = UInt8.ofNat n := by
  have low : (n : ℤ).bmod (2 ^ 32) % 2 ^ 8 = n % 2 ^ 8 := bmod_emod _ (by decide)
  apply UInt8.toNat_inj.mp
  rw [UInt8.ofInt, UInt8.toNat_ofNat', UInt8.toNat_ofNat']
  omega

/-- Narrowing to 16 bits. -/
theorem ofInt_bmod_uint16 (n : ℕ) : UInt16.ofInt ((n : ℤ).bmod (2 ^ 32)) = UInt16.ofNat n := by
  have low : (n : ℤ).bmod (2 ^ 32) % 2 ^ 16 = n % 2 ^ 16 := bmod_emod _ (by decide)
  apply UInt16.toNat_inj.mp
  rw [UInt16.ofInt, UInt16.toNat_ofNat', UInt16.toNat_ofNat']
  omega

end MsysGit.Library.CString
