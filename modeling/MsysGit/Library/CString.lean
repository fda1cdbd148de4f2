import Mathlib.Data.List.DropRight
import Mathlib.Data.List.Infix
import Mathlib.Data.List.TakeWhile
import Mathlib.Algebra.Group.Int.Defs
import Mathlib.Algebra.Group.Nat.Defs
import Mathlib.Data.Int.Notation
import Mathlib.Tactic.Common
import MsysGit.Library.FirstOccurrence

/-!
# C strings

A C string is the list of its bytes, without the terminator.  `cstr mem i` is
the string that starts at offset `i` of a memory block: everything up to the
first zero byte.  The functions below are those of `<string.h>`, `<ctype.h>` and
`<stdlib.h>` in the "C" locale, under their C names.  Where C returns a pointer
into the string, they return the suffix that starts there (`strchr`) or a
distance (`strspn`, `strcspn`).
-/

namespace MsysGit.Library

/-- A byte string. -/
abbrev Bytes := List UInt8

/-- The bytes of an ASCII text. -/
def text (s : String) : Bytes := s.toList.map fun c => c.toNat.toUInt8

/-- A property of a literal, by evaluation. -/
theorem forall_mem_of_all {P : UInt8 → Prop} [DecidablePred P] {s : Bytes}
    (all : s.all (fun c => decide (P c)) = true) : ∀ c ∈ s, P c := fun c inside =>
  of_decide_eq_true (List.all_eq_true.mp all c inside)

namespace CString

/-- The C string that starts at offset `i` of `mem`. -/
def cstr (mem : Bytes) (i : ℕ) : Bytes := (mem.drop i).takeWhile (· ≠ 0)

def isupper (c : UInt8) : Bool := 65 ≤ c && c ≤ 90

def islower (c : UInt8) : Bool := 97 ≤ c && c ≤ 122

def isdigit (c : UInt8) : Bool := 48 ≤ c && c ≤ 57

/-- Space, and `\t \n \v \f \r`. -/
def isspace (c : UInt8) : Bool := c = 32 || (9 ≤ c && c ≤ 13)

def toupper (c : UInt8) : UInt8 := if islower c then c - 32 else c

def tolower (c : UInt8) : UInt8 := if isupper c then c + 32 else c

/-- The suffix from the first occurrence of `c`; `none` is a null pointer. -/
def strchr (s : Bytes) (c : UInt8) : Option Bytes :=
  if c ∈ s then some (s.dropWhile (· ≠ c)) else none

/-- The suffix from the last occurrence of `c`. -/
def strrchr (s : Bytes) (c : UInt8) : Option Bytes :=
  if c ∈ s then some (c :: s.rtakeWhile (· ≠ c)) else none

/-- The suffix from the first occurrence of `phrase`. -/
def strstr (s phrase : Bytes) : Option Bytes := s.tails.find? phrase.isPrefixOf

/-- What is left of `s` when a zero is stored where `strchr` points to. -/
def cutAt (s : Bytes) (c : UInt8) : Bytes :=
  match strchr s c with
  | some rest => s.take (s.length - rest.length)
  | none => s

/-- Length of the longest prefix of `s` without a byte of `delim`. -/
def strcspn (s delim : Bytes) : ℕ := (s.takeWhile (· ∉ delim)).length

/-- Length of the longest prefix of `s` of bytes of `delim`. -/
def strspn (s delim : Bytes) : ℕ := (s.takeWhile (· ∈ delim)).length

/-- `strncmp (s, t, n) == 0`: equal in the first `n` bytes, or equal strings. -/
def strncmpEq : Bytes → Bytes → ℕ → Bool
  | _, _, 0 => true
  | [], [], _ + 1 => true
  | a :: s, b :: t, n + 1 => a = b && strncmpEq s t n
  | _, _, _ + 1 => false

/-- The digits at the front of `s`, as a number. -/
def digits (s : Bytes) : ℕ :=
  (s.takeWhile isdigit).foldl (fun total c => 10 * total + (c.toNat - 48)) 0

/-- `atoi`: blanks, an optional sign, digits.  Values that do not fit are
undefined in C; here they wrap to 32 bits. -/
def atoi (s : Bytes) : ℤ :=
  let s := s.dropWhile isspace
  let value : ℤ :=
    if s.head? = some 45 then -(digits s.tail : ℤ)
    else if s.head? = some 43 then digits s.tail
    else digits s
  value.bmod (2 ^ 32)

theorem take_strcspn (s delim : Bytes) : s.take (strcspn s delim) = s.takeWhile (· ∉ delim) :=
  (List.prefix_iff_eq_take.mp (List.takeWhile_prefix _)).symm

theorem drop_strcspn (s delim : Bytes) : s.drop (strcspn s delim) = s.dropWhile (· ∉ delim) := by
  have split := List.takeWhile_append_dropWhile (p := fun c => decide (c ∉ delim)) (l := s)
  calc s.drop (strcspn s delim)
      = (s.takeWhile (· ∉ delim) ++ s.dropWhile (· ∉ delim)).drop (strcspn s delim) := by
        rw [split]
    _ = s.dropWhile (· ∉ delim) := List.drop_left' rfl

theorem drop_strspn (s delim : Bytes) : s.drop (strspn s delim) = s.dropWhile (· ∈ delim) := by
  have split := List.takeWhile_append_dropWhile (p := fun c => decide (c ∈ delim)) (l := s)
  calc s.drop (strspn s delim)
      = (s.takeWhile (· ∈ delim) ++ s.dropWhile (· ∈ delim)).drop (strspn s delim) := by
        rw [split]
    _ = s.dropWhile (· ∈ delim) := List.drop_left' rfl

theorem strcspn_le (s delim : Bytes) : strcspn s delim ≤ s.length :=
  (List.takeWhile_prefix _).length_le

theorem strspn_le (s delim : Bytes) : strspn s delim ≤ s.length :=
  (List.takeWhile_prefix _).length_le

/-- A run of delimiters behind the first token ends inside the string. -/
theorem strcspn_add_strspn_le (s delim : Bytes) :
    strcspn s delim + strspn (s.dropWhile (· ∉ delim)) delim ≤ s.length := by
  have run := strspn_le (s.drop (strcspn s delim)) delim
  rw [List.length_drop, drop_strcspn] at run
  have token := strcspn_le s delim
  omega

theorem strspn_eq_length {s delim : Bytes} : strspn s delim = s.length ↔ ∀ c ∈ s, c ∈ delim := by
  rw [strspn]
  constructor
  · intro whole c inside
    rw [← (List.takeWhile_prefix (fun c => decide (c ∈ delim))).eq_of_length whole] at inside
    simpa using List.mem_takeWhile_imp inside
  · intro all
    rw [List.takeWhile_eq_self_iff.mpr fun c inside => decide_eq_true (all c inside)]

theorem strncmpEq_iff {s t : Bytes} {n : ℕ} : strncmpEq s t n = true ↔ s.take n = t.take n := by
  fun_induction strncmpEq s t n with
  | case1 => simp
  | case2 => simp
  | case3 a s b t n ih =>
      rw [Bool.and_eq_true, decide_eq_true_iff, ih, List.take_succ_cons, List.take_succ_cons,
        List.cons.injEq]
  | case4 s t n not_nil not_cons =>
      cases s with
      | nil =>
          cases t with
          | nil => exact (not_nil rfl rfl).elim
          | cons b t => simp
      | cons a s =>
          cases t with
          | nil => simp
          | cons b t => exact (not_cons a s b t rfl rfl).elim

theorem strncmpEq_append (word rest name : Bytes) :
    strncmpEq (word ++ rest) name word.length = word.isPrefixOf name := by
  rw [Bool.eq_iff_iff, strncmpEq_iff, List.take_left, List.isPrefixOf_iff_prefix,
    List.prefix_iff_eq_take]

theorem strncmpEq_isPrefixOf (s what : Bytes) :
    strncmpEq s what what.length = what.isPrefixOf s := by
  rw [Bool.eq_iff_iff, strncmpEq_iff, List.take_length, List.isPrefixOf_iff_prefix,
    List.prefix_iff_eq_take, eq_comm]

theorem strchr_of_notMem {s : Bytes} {c : UInt8} (none : c ∉ s) : strchr s c = .none := if_neg none

theorem strchr_append {before rest : Bytes} {c : UInt8} (first : c ∉ before) :
    strchr (before ++ c :: rest) c = some (c :: rest) := by
  rw [strchr, if_pos (by simp), dropWhile_ne_append_cons first]

theorem strrchr_of_notMem {s : Bytes} {c : UInt8} (none : c ∉ s) : strrchr s c = .none :=
  if_neg none

theorem strrchr_append {before rest : Bytes} {c : UInt8} (last : c ∉ rest) :
    strrchr (before ++ c :: rest) c = some (c :: rest) := by
  have behind : (before ++ c :: rest).rtakeWhile (· ≠ c) = rest := by
    rw [List.rtakeWhile, List.reverse_append, List.reverse_cons, List.append_assoc,
      List.singleton_append, takeWhile_ne_append_cons (by rwa [List.mem_reverse]),
      List.reverse_reverse]
  rw [strrchr, if_pos (by simp), behind]

theorem strstr_isSome {s phrase : Bytes} : (strstr s phrase).isSome ↔ phrase <:+: s := by
  simp [strstr, List.infix_iff_prefix_suffix, List.isPrefixOf_iff_prefix, and_comm]

theorem cutAt_eq (s : Bytes) (c : UInt8) : cutAt s c = s.takeWhile (· ≠ c) := by
  rw [cutAt]
  by_cases inside : c ∈ s
  · obtain ⟨before, rest, rfl, first⟩ := List.eq_append_cons_of_mem inside
    rw [strchr_append first, takeWhile_ne_append_cons first]
    simp
  · rw [strchr_of_notMem inside, takeWhile_ne_of_notMem inside]

/-! ### Letters -/

theorem tolower_eq_iff {c d : UInt8} (low : d < 65) : tolower c = d ↔ c = d := by
  unfold tolower isupper
  split_ifs with upper
  · simp only [Bool.and_eq_true, decide_eq_true_eq] at upper
    have bounds : 65 ≤ c.toNat ∧ c.toNat ≤ 90 := upper
    have below : d.toNat < 65 := low
    constructor
    · intro same
      have sum := congrArg UInt8.toNat same
      rw [UInt8.toNat_add] at sum
      change (c.toNat + 32) % 256 = d.toNat at sum
      omega
    · rintro rfl
      omega
  · exact Iff.rfl

theorem tolower_tolower (c : UInt8) : tolower (tolower c) = tolower c := by
  by_cases upper : isupper c
  · have low : isupper (c + 32) = false := by
      simp only [isupper, Bool.and_eq_true, decide_eq_true_eq, Bool.and_eq_false_iff,
        decide_eq_false_iff_not] at upper ⊢
      have top : c.toNat ≤ 90 := upper.2
      have bottom : 65 ≤ c.toNat := upper.1
      refine Or.inr fun above => ?_
      have above : (c + 32).toNat ≤ 90 := above
      rw [UInt8.toNat_add] at above
      change (c.toNat + 32) % 256 ≤ 90 at above
      omega
    rw [tolower, tolower, if_pos upper, low]
    rfl
  · rw [tolower, tolower, if_neg upper, if_neg upper]

/-! ### Strings in memory -/

theorem ne_zero_of_mem_cstr {mem : Bytes} {i : ℕ} {c : UInt8} (inside : c ∈ cstr mem i) :
    c ≠ 0 := by
  rintro rfl
  exact notMem_takeWhile_ne 0 _ inside

/-- A stored terminator ends the string. -/
theorem cstr_terminated (s rest : Bytes) : cstr (s ++ 0 :: rest) 0 = cstr s 0 := by
  rw [cstr, cstr, List.drop_zero, List.drop_zero, List.takeWhile_append]
  split_ifs with whole
  · have all : s.takeWhile (· ≠ 0) = s :=
      (List.takeWhile_prefix _).eq_of_length whole
    rw [all]
    simp
  · rfl

/-- A string is followed by a terminator, or by the end of the memory. -/
theorem drop_eq_cstr_append (mem : Bytes) (i : ℕ) :
    ∃ rest, mem.drop i = cstr mem i ++ rest ∧ rest.takeWhile (· ≠ 0) = [] := by
  refine ⟨(mem.drop i).dropWhile (· ≠ 0), List.takeWhile_append_dropWhile.symm, ?_⟩
  rw [List.takeWhile_eq_nil_iff]
  intro left
  have ended := List.head_dropWhile_not (fun c : UInt8 => decide (c ≠ 0))
    (List.length_pos_iff.mp left)
  rw [List.head_eq_getElem] at ended
  simp only [List.get_eq_getElem]
  rw [ended]
  decide

/-- Strings are the same in lower case, wherever they begin. -/
theorem cstr_map_tolower (mem : Bytes) (o : ℕ) :
    cstr (mem.map tolower) o = (cstr mem o).map tolower := by
  rw [cstr, cstr, ← List.map_drop, List.takeWhile_map]
  congr 2
  funext c
  simp [tolower_eq_iff]

/-- A pointer into a string points to the string's suffix. -/
theorem cstr_add (mem : Bytes) (i : ℕ) {k : ℕ} (inside : k ≤ (cstr mem i).length) :
    cstr mem (i + k) = (cstr mem i).drop k := by
  obtain ⟨rest, split, ended⟩ := drop_eq_cstr_append mem i
  have suffix : mem.drop (i + k) = (cstr mem i).drop k ++ rest := by
    rw [← List.drop_drop, split, List.drop_append_of_le_length inside]
  have clean : ∀ c ∈ (cstr mem i).drop k, c ≠ 0 := fun c mem_drop =>
    ne_zero_of_mem_cstr (List.mem_of_mem_drop mem_drop)
  rw [cstr, suffix, List.takeWhile_append_of_pos (by simpa using clean), ended, List.append_nil]

end CString

end MsysGit.Library
