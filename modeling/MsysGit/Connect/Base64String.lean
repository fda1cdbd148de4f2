import MsysGit.Connect.Authorization

/-!
# `make_base64_string` and the lengths of its strings

`src_len` and `dst_len` are `int`s, and `base64_table` is to be the alphabet of
RFC 4648.  `makeBase64StringInt` is the function with the lengths as it computes them.

Up to a length of 1610612733 nothing overflows, and the result is that of
`makeBase64String`.  From then on the length of the encoding itself is no `int`
(`encodes_iff`).
-/

namespace MsysGit.Connect

open MsysGit.Library MsysGit.Library.CString

/-! ### The alphabet -/

/-- The base64 alphabet of RFC 4648. -/
def rfc4648 : Base64.Alphabet UInt8 where
  digit n :=
    if n < 26 then 65 + UInt8.ofNat n
    else if n < 52 then 97 + UInt8.ofNat (n - 26)
    else if n < 62 then 48 + UInt8.ofNat (n - 52)
    else if n = 62 then 43
    else 47
  value c :=
    if isupper c then c.toNat - 65
    else if islower c then c.toNat - 97 + 26
    else if isdigit c then c.toNat - 48 + 52
    else if c = 43 then 62
    else 63
  pad := 61
  value_digit := by decide
  digit_ne_pad := by decide

theorem base64Table_digits : ∀ n < 64, base64Alphabet.digit n = rfc4648.digit n := by decide

/-- `base64_table` is that alphabet. -/
theorem encode_rfc4648 (s : Bytes) :
    Base64.encode base64Alphabet s = Base64.encode rfc4648 s :=
  Base64.encode_congr base64Table_digits rfl s

/-! ### The lengths -/

/-- An `int` of 32 bits. -/
def wrapInt (n : ℤ) : ℤ := n.bmod (2 ^ 32)

/-- `src_len = strlen(str)` -/
def srcLen (str : Bytes) : ℤ := wrapInt str.length

/-- `dst_len = (src_len+2)/3*4` -/
def dstLen (str : Bytes) : ℤ := wrapInt ((wrapInt (srcLen str + 2)).tdiv 3 * 4)

/-- `make_base64_string`, with the lengths that are `int`s.  For a negative `dst_len`,
`xmalloc` is asked for more memory than there can be, and does not return. -/
def makeBase64StringInt (str : Bytes) : Option Bytes :=
  let padding := match (srcLen str).tmod 3 with
    | 1 => 2
    | 2 => 1
    | _ => 0
  if dstLen str < 0 then none
  else
    some ((base64Loop (dstLen str).toNat 0 0 str).take ((dstLen str).toNat - padding) ++
      List.replicate padding 61)

theorem length_base64Loop (n : ℕ) (data : UInt32) (bits : ℕ) (src : Bytes) :
    (base64Loop n data bits src).length = n := by
  induction n generalizing data bits src with
  | zero => rfl
  | succ n ih =>
      rw [base64Loop]
      split_ifs
      · rw [List.length_cons, ih]
      · rw [List.length_cons, ih]

/-- An `int` that is large enough for a number. -/
theorem wrapInt_of_fits {n : ℤ} (low : -2 ^ 31 ≤ n) (high : n < 2 ^ 31) : wrapInt n = n := by
  rw [wrapInt, Int.bmod_eq_of_le (by omega) (by omega)]

/-- No `int` is as large. -/
theorem wrapInt_lt (n : ℤ) : wrapInt n < 2 ^ 31 := by
  have := Int.bmod_lt (x := n) (m := 2 ^ 32) (by decide)
  unfold wrapInt
  omega

/-- The lengths of a string whose encoding is not too long for an `int`. -/
theorem lengths_of_fits {s : Bytes} (fits : s.length < 1610612734) :
    srcLen s = s.length ∧ dstLen s = ((s.length + 2) / 3 * 4 : ℕ) := by
  have src : srcLen s = s.length := wrapInt_of_fits (by omega) (by omega)
  refine ⟨src, ?_⟩
  have sum : wrapInt ((s.length : ℤ) + 2) = ((s.length + 2 : ℕ) : ℤ) :=
    wrapInt_of_fits (by omega) (by omega)
  have thirds : ((s.length + 2 : ℕ) : ℤ).tdiv 3 = ((s.length + 2) / 3 : ℕ) :=
    Int.tdiv_eq_ediv_of_nonneg (Int.natCast_nonneg _)
  rw [dstLen, src, sum, thirds, wrapInt_of_fits (by omega) (by omega)]
  omega

/-- **Short enough strings**: the lengths do not overflow. -/
theorem makeBase64StringInt_of_fits {s : Bytes} (fits : s.length < 1610612734) :
    makeBase64StringInt s = some (makeBase64String s) := by
  obtain ⟨src, dst⟩ := lengths_of_fits fits
  have rest : (srcLen s).tmod 3 = ((s.length % 3 : ℕ) : ℤ) := by
    rw [src, Int.tmod_eq_emod_of_nonneg (by omega)]
    omega
  rw [makeBase64StringInt, makeBase64String, rest, dst, if_neg (by omega), Int.toNat_natCast]
  have few : s.length % 3 = 0 ∨ s.length % 3 = 1 ∨ s.length % 3 = 2 := by omega
  rcases few with none_left | one | two
  · rw [none_left]
    rfl
  · rw [one]
    rfl
  · rw [two]
    rfl

/-- What is returned is not longer than an `int` can say. -/
theorem length_makeBase64StringInt {s t : Bytes} (returned : makeBase64StringInt s = some t) :
    t.length < 2 ^ 31 := by
  have bound := wrapInt_lt ((wrapInt (srcLen s + 2)).tdiv 3 * 4)
  change dstLen s < 2 ^ 31 at bound
  rw [makeBase64StringInt] at returned
  split_ifs at returned with negative
  obtain rfl := Option.some.inj returned
  rw [List.length_append, List.length_take, length_base64Loop, List.length_replicate]
  split
  · omega
  · omega
  · omega

/-- The function returns the encoding, and it decodes to the string. -/
def Encodes (s : Bytes) : Prop :=
  ∃ t, makeBase64StringInt s = some t ∧ t = Base64.encode rfc4648 s ∧
    Base64.decode rfc4648 t = s

/-- The encoding of a longer string has a length that is no `int`. -/
theorem Encodes.length_lt {s : Bytes} (encodes : Encodes s) : s.length < 1610612734 := by
  obtain ⟨t, returned, encoded, -⟩ := encodes
  have bound := length_makeBase64StringInt returned
  rw [encoded, Base64.length_encode] at bound
  omega

/-- **When the result is the encoding**: exactly when its length is an `int`. -/
theorem encodes_iff (s : Bytes) : Encodes s ↔ s.length < 1610612734 := by
  constructor
  · exact Encodes.length_lt
  · intro fits
    have encoded : makeBase64String s = Base64.encode rfc4648 s := by
      rw [makeBase64String_eq, encode_rfc4648]
    exact ⟨_, makeBase64StringInt_of_fits fits, encoded, encoded ▸ Base64.decode_encode rfc4648 s⟩

/-- Of 4294967297 letters only the first is encoded. -/
theorem not_encodes_replicate : 0 ∉ List.replicate 4294967297 (97 : UInt8) ∧
    makeBase64StringInt (List.replicate 4294967297 97) = some (text "YW==") ∧
    ¬ Encodes (List.replicate 4294967297 97) := by
  have src : srcLen (List.replicate 4294967297 97) = 1 := by
    rw [srcLen, List.length_replicate]
    decide
  have dst : dstLen (List.replicate 4294967297 97) = 4 := by
    rw [dstLen, src]
    decide
  refine ⟨fun inside => absurd (List.eq_of_mem_replicate inside) (by decide), ?_, fun encodes => ?_⟩
  · rw [makeBase64StringInt, src, dst, show 4294967297 = 4294967295 + 1 + 1 from rfl,
      List.replicate_succ, List.replicate_succ]
    decide
  · have short := encodes.length_lt
    rw [List.length_replicate] at short
    exact absurd short (by decide)

end MsysGit.Connect
