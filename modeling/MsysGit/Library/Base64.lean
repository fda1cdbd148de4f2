import Mathlib.Data.List.Basic
import Mathlib.Tactic.Common

/-!
# Base64

Three bytes are four digits of six bits each; one or two bytes left over are two or
three digits and padding.  The alphabet is a parameter: 64 different symbols and one
more for the padding.

`decode_encode` is the round trip, so different byte strings have different encodings
(`encode_injective`).
-/

namespace MsysGit.Library.Base64

universe u

/-- The symbols of an encoding. -/
structure Alphabet (α : Type u) where
  digit : ℕ → α
  value : α → ℕ
  pad : α
  value_digit : ∀ n < 64, value (digit n) = n
  digit_ne_pad : ∀ n < 64, digit n ≠ pad

variable {α : Type u} (A : Alphabet α)

/-- The encoding of a byte string. -/
def encode : List UInt8 → List α
  | a :: b :: c :: rest =>
      A.digit (a.toNat / 4) :: A.digit (a.toNat % 4 * 16 + b.toNat / 16) ::
        A.digit (b.toNat % 16 * 4 + c.toNat / 64) :: A.digit (c.toNat % 64) :: encode rest
  | [a, b] =>
      [A.digit (a.toNat / 4), A.digit (a.toNat % 4 * 16 + b.toNat / 16),
        A.digit (b.toNat % 16 * 4), A.pad]
  | [a] => [A.digit (a.toNat / 4), A.digit (a.toNat % 4 * 16), A.pad, A.pad]
  | [] => []

/-- Reading four symbols at a time; padding ends the string. -/
def decode [DecidableEq α] : List α → List UInt8
  | w :: x :: y :: z :: rest =>
      UInt8.ofNat (A.value w * 4 + A.value x / 16) ::
        if y = A.pad then []
        else UInt8.ofNat (A.value x % 16 * 16 + A.value y / 4) ::
          if z = A.pad then []
          else UInt8.ofNat (A.value y % 4 * 64 + A.value z) :: decode rest
  | _ => []

/-- **The round trip.** -/
theorem decode_encode [DecidableEq α] (s : List UInt8) : decode A (encode A s) = s := by
  have byte (b : UInt8) : b.toNat < 256 := b.toNat_lt
  have whole (b : UInt8) {n : ℕ} (same : n = b.toNat) : UInt8.ofNat n = b := by
    rw [same, UInt8.ofNat_toNat]
  induction s using encode.induct with
  | case1 a b c rest ih =>
      have ha := byte a
      have hb := byte b
      have hc := byte c
      rw [encode, decode, if_neg (A.digit_ne_pad _ (by omega)),
        if_neg (A.digit_ne_pad _ (by omega)),
        A.value_digit _ (by omega), A.value_digit _ (by omega), A.value_digit _ (by omega),
        A.value_digit _ (by omega), ih]
      rw [whole a (by omega), whole b (by omega), whole c (by omega)]
  | case2 a b =>
      have ha := byte a
      have hb := byte b
      rw [encode, decode, if_neg (A.digit_ne_pad _ (by omega)), if_pos rfl,
        A.value_digit _ (by omega), A.value_digit _ (by omega), A.value_digit _ (by omega)]
      rw [whole a (by omega), whole b (by omega)]
  | case3 a =>
      have ha := byte a
      rw [encode, decode, if_pos rfl, A.value_digit _ (by omega), A.value_digit _ (by omega)]
      rw [whole a (by omega)]
  | case4 => rfl

theorem encode_injective : Function.Injective (encode A) := by
  classical
  exact Function.LeftInverse.injective (decode_encode A)

/-- Every three bytes, and what is left over, take four symbols. -/
theorem length_encode (s : List UInt8) : (encode A s).length = (s.length + 2) / 3 * 4 := by
  induction s using encode.induct with
  | case1 a b c rest ih =>
      simp only [encode, List.length_cons, ih]
      omega
  | case2 a b => simp [encode]
  | case3 a => simp [encode]
  | case4 => rfl

/-! ### Two alphabets -/

/-- Only the digits and the padding matter for an encoding. -/
theorem encode_congr {A B : Alphabet α} (digits : ∀ n < 64, A.digit n = B.digit n)
    (pad : A.pad = B.pad) (s : List UInt8) : encode A s = encode B s := by
  have byte (b : UInt8) : b.toNat < 256 := b.toNat_lt
  induction s using encode.induct with
  | case1 a b c rest ih =>
      have ha := byte a
      have hb := byte b
      have hc := byte c
      rw [encode, encode, digits _ (by omega), digits _ (by omega), digits _ (by omega),
        digits _ (by omega), ih]
  | case2 a b =>
      have ha := byte a
      have hb := byte b
      rw [encode, encode, digits _ (by omega), digits _ (by omega), digits _ (by omega), pad]
  | case3 a =>
      have ha := byte a
      rw [encode, encode, digits _ (by omega), digits _ (by omega), pad]
  | case4 => rfl

end MsysGit.Library.Base64
