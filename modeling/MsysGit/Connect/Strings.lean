import MsysGit.Library.Buffer
import MsysGit.Library.CString

/-!
# String routines of `connect`

The routines that work on strings in place take the buffer and offsets into it, as
the C code takes pointers; those that only read take the string.  Each routine that
changes a buffer has a lemma saying what the strings in it are afterwards.
-/

namespace MsysGit.Connect

open MsysGit.Library MsysGit.Library.CString

variable {size : ℕ}

/-- `downcase`, on the string at the start of the buffer. -/
def downcase (buf : Buffer UInt8 size) : Buffer UInt8 size :=
  buf.store 0 ((cstr buf.cells 0).map tolower)

/-- `expect`: does `str` begin with `substr`, ignoring case?  At its end `str` goes
on with its terminator. -/
def expect : Bytes → Bytes → Bool
  | _, [] => true
  | str, b :: substr => toupper (str.headD 0) = toupper b && expect str.tail substr

/-- `cut_token` of the string at offset `str`. -/
def cutToken (buf : Buffer UInt8 size) (str : ℕ) (delim : Bytes) :
    Buffer UInt8 size × Option ℕ :=
  let ptr := str + strcspn (cstr buf.cells str) delim
  let stop := ptr + strspn (cstr buf.cells ptr) delim
  if ptr = str then (buf, none)
  else (buf.store ptr (List.replicate (stop - ptr) 0), some stop)

/-- `base64_table` -/
def base64Table : Bytes :=
  text "ABCDEFGHIJKLMNOPQRSTUVWXYZabcdefghijklmnopqrstuvwxyz0123456789+/"

/-- The loop of `make_base64_string`: `n` characters to go, `bits` bits in `data`
not yet used. -/
def base64Loop : ℕ → UInt32 → ℕ → Bytes → Bytes
  | 0, _, _, _ => []
  | n + 1, data, bits, src =>
      if bits < 6 then
        let data := data <<< 8 ||| (src.headD 0).toUInt32
        base64Table.getD (0x3F &&& data >>> (UInt32.ofNat (bits + 8 - 6))).toNat 0 ::
          base64Loop n data (bits + 8 - 6) src.tail
      else
        base64Table.getD (0x3F &&& data >>> (UInt32.ofNat (bits - 6))).toNat 0 ::
          base64Loop n data (bits - 6) src

/-- `make_base64_string` -/
def makeBase64String (str : Bytes) : Bytes :=
  let dstLen := (str.length + 2) / 3 * 4
  let padding := match str.length % 3 with
    | 1 => 2
    | 2 => 1
    | _ => 0
  (base64Loop dstLen 0 0 str).take (dstLen - padding) ++ List.replicate padding 61

example : makeBase64String (text "user:pw") = text "dXNlcjpwdw==" := by decide

theorem expect_append (substr rest : Bytes) : expect (substr ++ rest) substr = true := by
  induction substr with
  | nil => rfl
  | cons b substr ih => simp [expect, ih]

/-! ### The strings afterwards -/

theorem cstr_length_le (buf : Buffer UInt8 size) (i : ℕ) :
    (cstr buf.cells i).length ≤ size - i := by
  have shorter := (List.takeWhile_prefix (fun c : UInt8 => decide (c ≠ 0))
    (l := buf.cells.drop i)).length_le
  rwa [List.length_drop, buf.length_cells] at shorter

/-- The string at the start, after another one was stored there. -/
theorem cstr_store (buf : Buffer UInt8 size) {line : Bytes} (fits : line.length < size) :
    cstr (buf.store 0 (line ++ [0])).cells 0 = cstr line 0 := by
  rw [Buffer.cells_store _ _ _ (by rw [List.length_append, Nat.zero_add]; exact fits),
    List.take_zero, List.nil_append, List.append_assoc]
  exact cstr_terminated line _

theorem cstr_downcase (buf : Buffer UInt8 size) :
    cstr (downcase buf).cells 0 = (cstr buf.cells 0).map tolower := by
  have fits : 0 + ((cstr buf.cells 0).map tolower).length ≤ size := by
    have := cstr_length_le buf 0
    rw [List.length_map]
    omega
  have ended : cstr buf.cells (0 + (cstr buf.cells 0).length) = [] := by
    rw [cstr_add _ _ (Nat.le_refl _), List.drop_length]
  have clean : ∀ c ∈ (cstr buf.cells 0).map tolower, decide (c ≠ 0) = true := by
    intro c inside
    obtain ⟨c, inside', rfl⟩ := List.mem_map.mp inside
    exact decide_eq_true
      ((tolower_eq_iff (by decide)).not.mpr (ne_zero_of_mem_cstr inside'))
  rw [downcase, Buffer.cells_store _ _ _ fits, List.take_zero, List.nil_append, List.length_map]
  rw [cstr, List.drop_zero, List.takeWhile_append_of_pos clean]
  rw [cstr] at ended
  rw [ended, List.append_nil]

theorem cutToken_stuck {buf : Buffer UInt8 size} {str : ℕ} {delim : Bytes}
    (stuck : strcspn (cstr buf.cells str) delim = 0) : cutToken buf str delim = (buf, none) := by
  rw [cutToken, if_pos (by rw [stuck, Nat.add_zero])]

/-- A token that is not empty is cut off: the delimiters behind it become zeros. -/
theorem cutToken_cut {buf : Buffer UInt8 size} {str : ℕ} {delim : Bytes}
    (token : 0 < strcspn (cstr buf.cells str) delim) :
    cutToken buf str delim =
      (buf.store (str + strcspn (cstr buf.cells str) delim)
        (List.replicate (strspn ((cstr buf.cells str).dropWhile (· ∉ delim)) delim) 0),
      some (str + strcspn (cstr buf.cells str) delim +
        strspn ((cstr buf.cells str).dropWhile (· ∉ delim)) delim)) := by
  rw [cutToken, if_neg (by omega), Nat.add_sub_cancel_left, cstr_add _ _ (strcspn_le _ _),
    drop_strcspn]

/-- Cutting never touches the first byte. -/
theorem cutToken_head? (buf : Buffer UInt8 size) (str : ℕ) (delim : Bytes) :
    (cutToken buf str delim).1.cells.head? = buf.cells.head? := by
  rcases Nat.eq_zero_or_pos (strcspn (cstr buf.cells str) delim) with stuck | token
  · rw [cutToken_stuck stuck]
  · have inside := strcspn_add_strspn_le (cstr buf.cells str) delim
    have room := cstr_length_le buf str
    rw [cutToken_cut token, Buffer.cells_store _ _ _ (by rw [List.length_replicate]; omega)]
    cases cells : buf.cells with
    | nil =>
        have size_zero := buf.length_cells
        rw [cells, List.length_nil] at size_zero
        omega
    | cons c rest =>
        obtain ⟨k, more⟩ : ∃ k, str + strcspn (cstr (c :: rest) str) delim = k + 1 :=
          ⟨str + strcspn (cstr (c :: rest) str) delim - 1, by rw [cells] at token; omega⟩
        rw [more]
        rfl

/-- There is a next token unless the string is empty or starts with a delimiter. -/
theorem cutToken_isSome (buf : Buffer UInt8 size) {delim : Bytes} {c : UInt8}
    (head : buf.cells.head? = some c) (nonzero : c ≠ 0) (other : c ∉ delim) :
    ∃ stop, (cutToken buf 0 delim).2 = some stop := by
  have token : 0 < strcspn (cstr buf.cells 0) delim := by
    obtain ⟨rest, cells⟩ := List.head?_eq_some_iff.mp head
    rw [cells, cstr, List.drop_zero, List.takeWhile_cons_of_pos (by simpa using nonzero), strcspn,
      List.takeWhile_cons_of_pos (by simpa using other)]
    exact Nat.succ_pos _
  rw [cutToken_cut token]
  exact ⟨_, rfl⟩

/-- **The token itself** ends where its delimiters began. -/
theorem cstr_cutToken_self (buf : Buffer UInt8 size) (str : ℕ) {delim : Bytes}
    (token : 0 < strcspn (cstr buf.cells str) delim) :
    cstr (cutToken buf str delim).1.cells str = (cstr buf.cells str).takeWhile (· ∉ delim) := by
  have inside := strcspn_add_strspn_le (cstr buf.cells str) delim
  have room := cstr_length_le buf str
  obtain ⟨more, split, ended⟩ := drop_eq_cstr_append buf.cells str
  rw [cutToken_cut token]
  set s := cstr buf.cells str
  set rest := s.dropWhile (· ∉ delim) with behind
  have front := take_strcspn s delim
  have below : str ≤ (buf.cells.take (str + strcspn s delim)).length := by
    rw [List.length_take, buf.length_cells]
    omega
  have above : buf.cells.drop (str + strcspn s delim + strspn rest delim) =
      rest.drop (strspn rest delim) ++ more := by
    rw [← List.drop_drop, ← List.drop_drop, split, List.drop_append_of_le_length (strcspn_le _ _),
      drop_strcspn, List.drop_append_of_le_length (strspn_le _ _)]
  -- Behind the token there is a zero, or the end of the string.
  have stops : (List.replicate (strspn rest delim) 0 ++
      (rest.drop (strspn rest delim) ++ more)).takeWhile (· ≠ 0) = [] := by
    cases left : rest with
    | nil => simpa [strspn] using ended
    | cons c others =>
        have found : c ∈ delim := by
          have first := List.head_dropWhile_not (fun c => decide (c ∉ delim)) (l := s)
            (by rw [← behind, left]; exact List.cons_ne_nil _ _)
          simp only [← behind, left, List.head_cons] at first
          simpa using first
        rw [strspn, List.takeWhile_cons_of_pos (by simpa using found), List.length_cons,
          List.replicate_succ, List.cons_append, List.takeWhile_cons_of_neg (by simp)]
  have clean : ∀ c ∈ s.takeWhile (· ∉ delim), decide (c ≠ 0) = true := fun c member =>
    decide_eq_true (ne_zero_of_mem_cstr ((List.takeWhile_prefix _).subset member))
  rw [cstr, Buffer.cells_store _ _ _ (by rw [List.length_replicate]; omega),
    List.length_replicate, List.append_assoc, List.drop_append_of_le_length below, List.drop_take,
    Nat.add_sub_cancel_left, above, split, List.take_append_of_le_length (strcspn_le _ _), front,
    List.takeWhile_append_of_pos clean, stops, List.append_nil]

/-- **The next token** is what follows the first run of delimiters. -/
theorem cstr_cutToken (buf : Buffer UInt8 size) {delim : Bytes} {stop : ℕ}
    (next : (cutToken buf 0 delim).2 = some stop) :
    cstr (cutToken buf 0 delim).1.cells stop =
      ((cstr buf.cells 0).dropWhile (· ∉ delim)).dropWhile (· ∈ delim) := by
  rcases Nat.eq_zero_or_pos (strcspn (cstr buf.cells 0) delim) with stuck | token
  · rw [cutToken_stuck stuck] at next
    cases next
  · have inside := strcspn_add_strspn_le (cstr buf.cells 0) delim
    have room := cstr_length_le buf 0
    rw [cutToken_cut token] at next ⊢
    obtain rfl := Option.some.inj next
    have above := buf.drop_store (0 + strcspn (cstr buf.cells 0) delim)
      (List.replicate (strspn ((cstr buf.cells 0).dropWhile (· ∉ delim)) delim) 0)
      (by rw [List.length_replicate]; omega)
    rw [List.length_replicate] at above
    rw [cstr, above, ← cstr, Nat.add_assoc, cstr_add _ _ inside, ← List.drop_drop, drop_strcspn,
      drop_strspn]

end MsysGit.Connect
