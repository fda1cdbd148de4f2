import Mathlib.Data.List.Basic
import MsysGit.Library.CString
import MsysGit.WinGit.Environment

/-!
# The description of an executable

`GetFileDescription` looks up the table of translations in the version resource of an
executable, chooses an entry, and asks for the description in that language.  The table is
read through a string, which ends at the first zero byte; a table with a zero byte in it is
not read at all, and two combinations are tried instead.  Otherwise the loop reads four
characters for each entry, stays inside the table, and chooses the entry that `preferred`
describes (`getFileDescription_asks`).

How `BufStr:=Buffer` makes a string of bytes depends on the compiler and on the code page of the
system; it is a parameter.
-/

namespace MsysGit.WinGit

open Library

/-! ### The code -/

/-- A language and a code page. -/
structure Translation where
  language : ℕ
  codepage : ℕ
  deriving DecidableEq

namespace FileDescription

/-- A `WORD` from two characters, the higher one first. -/
def word (high low : ℕ) : ℕ := (high % 65536 * 256 + low) % 65536

/-- English. -/
def english : ℕ := 0x0409

/-- `s[i]`; `none` is the exception for an index outside the string. -/
def charAt (s : List ℕ) (i : ℕ) : Option ℕ := if i = 0 then none else s[i - 1]?

/-- The variables of the loop, and the indices it has read. -/
structure Scan where
  entry : Translation
  fallback : Translation
  offset : ℕ
  reads : List ℕ

/-- The body of the loop. -/
def body (bufStr : List ℕ) (s : Scan) : Option Scan := do
  let languageHigh ← charAt bufStr (s.offset + 1)
  let languageLow ← charAt bufStr s.offset
  let codepageHigh ← charAt bufStr (s.offset + 3)
  let codepageLow ← charAt bufStr (s.offset + 2)
  let entry := ⟨word languageHigh languageLow, word codepageHigh codepageLow⟩
  return {
    entry
    -- Use the first entry or English as a fallback.
    fallback := if s.offset = 1 ∨ entry.language = english then entry else s.fallback
    offset := s.offset + 4
    reads := s.reads ++ [s.offset + 1, s.offset, s.offset + 3, s.offset + 2] }

theorem offset_body {bufStr : List ℕ} {s t : Scan} (done : body bufStr s = some t) :
    t.offset = s.offset + 4 := by
  simp only [body, Option.bind_eq_bind, Option.bind_eq_some_iff] at done
  obtain ⟨_, -, _, -, _, -, _, -, same⟩ := done
  cases same
  rfl

/-- The loop. -/
def scanTable (bufStr : List ℕ) (bufLen ui : ℕ) (s : Scan) : Option Scan :=
  match _done : body bufStr s with
  | none => none
  | some t =>
      if _found : t.entry.language = ui ∨ bufLen < t.offset then some t
      else scanTable bufStr bufLen ui t
termination_by bufLen + 1 - s.offset
decreasing_by
  have step := offset_body _done
  omega

/-- The entries to ask for, and the indices that were read to find them. -/
structure Choice where
  first : Translation
  second : Translation
  reads : List ℕ

/-- The part between the first and the second `VerQueryValue`; `buffer` is the memory at
`Buffer`. -/
def choose (convert : Bytes → List ℕ) (ui : ℕ) (buffer : Bytes) (bufLen : ℕ) : Option Choice :=
  let bufStr := convert (CString.cstr buffer 0)
  if bufLen ≤ bufStr.length then
    (scanTable bufStr bufLen ui ⟨⟨0, 0⟩, ⟨0, 0⟩, 1, []⟩).map fun s =>
      ⟨if s.entry.language ≠ ui then s.fallback else s.entry, s.fallback, s.reads⟩
  else some ⟨⟨0x0000, 0x04b0⟩, ⟨0x0000, 0x04e4⟩, []⟩

/-- `%.4x` of a `WORD`. -/
def hex4 (n : ℕ) : Str :=
  [n / 4096, n / 256 % 16, n / 16 % 16, n % 16].map fun d =>
    ("0123456789ABCDEF".toList)[d]?.getD '0'

/-- `\StringFileInfo\...\FileDescription` -/
def path (e : Translation) : Str :=
  "\\StringFileInfo\\".toList ++ hex4 e.language ++ hex4 e.codepage ++
    "\\FileDescription".toList

/-- What the functions of the version library return for a file. -/
structure VersionInfo where
  /-- `GetFileVersionInfoSize` -/
  size : ℕ
  /-- `GetFileVersionInfo` -/
  loaded : Bool
  /-- The memory at the table of translations, and `BufLen`. -/
  translation : Option (Bytes × ℕ)
  /-- The memory at any other value. -/
  value : Str → Option Bytes

/-- The result, the values that were asked for, and the indices of `BufStr` that were read. -/
structure Answer where
  description : List ℕ
  asked : List Str
  reads : List ℕ
  deriving DecidableEq

/-- The part behind the choice. -/
def query (convert : Bytes → List ℕ) (v : VersionInfo) (c : Choice) : Answer :=
  match v.value (path c.first) with
  | some buffer => ⟨convert (CString.cstr buffer 0), [path c.first], c.reads⟩
  | none =>
      match v.value (path c.second) with
      | some buffer => ⟨convert (CString.cstr buffer 0), [path c.first, path c.second], c.reads⟩
      | none => ⟨[], [path c.first, path c.second], c.reads⟩

end FileDescription

open FileDescription

/-- `GetFileDescription`; `none` is an exception. -/
def getFileDescription (convert : Bytes → List ℕ) (ui : ℕ) (v : VersionInfo) : Option Answer :=
  if v.size = 0 then some ⟨[], [], []⟩
  else if ¬ v.loaded then some ⟨[], [], []⟩
  else match v.translation with
    | none => some ⟨[], [], []⟩
    | some (buffer, bufLen) => (choose convert ui buffer bufLen).map (query convert v)

/-! ### What should be asked for -/

namespace FileDescription

/-- The table in memory: four bytes for each entry, the lower ones first. -/
def entries : Bytes → List Translation
  | a :: b :: c :: d :: table => ⟨256 * b.toNat + a.toNat, 256 * d.toNat + c.toNat⟩ :: entries table
  | _ => []

/-- The last English entry, or else the first of all. -/
def englishOrFirst (es : List Translation) : Option Translation :=
  ((es.filter fun e => e.language = english).getLast?).or es.head?

/-- The first entry in the language of the user interface, or else an English one. -/
def preferred (ui : ℕ) (es : List Translation) : Option Translation :=
  (es.find? fun e => e.language = ui).or (englishOrFirst es)

/-- The entries up to the first one in the language of the user interface. -/
def upTo (ui : ℕ) : List Translation → List Translation
  | [] => []
  | e :: es => if e.language = ui then [e] else e :: upTo ui es

/-! ### Lists of entries -/

section Entries

variable {ui : ℕ} {es : List Translation}

theorem getLast?_upTo (ui : ℕ) (es : List Translation) :
    (upTo ui es).getLast? = (es.find? fun e => e.language = ui).or es.getLast? := by
  induction es with
  | nil => rfl
  | cons e es ih =>
      by_cases same : e.language = ui
      · rw [upTo, if_pos same, List.find?_cons_of_pos (by simpa using same)]
        rfl
      · rw [upTo, if_neg same, List.find?_cons_of_neg (by simpa using same), List.getLast?_cons,
          List.getLast?_cons, ih]
        cases es.find? fun e => e.language = ui <;> rfl

theorem upTo_eq_self (none : (es.find? fun e => e.language = ui) = none) : upTo ui es = es := by
  induction es with
  | nil => rfl
  | cons e es ih =>
      rw [List.find?_eq_none] at none
      have other : ¬ e.language = ui := by simpa using none e List.mem_cons_self
      rw [upTo, if_neg other, ih]
      exact List.find?_eq_none.mpr fun e' inside => none e' (List.mem_cons_of_mem _ inside)

/-- What one entry makes of the fallback. -/
def takeEnglish (fallback e : Translation) : Translation :=
  if e.language = english then e else fallback

theorem foldl_takeEnglish (fallback : Translation) (es : List Translation) :
    es.foldl takeEnglish fallback =
      ((es.filter fun e => e.language = english).getLast?).getD fallback := by
  induction es generalizing fallback with
  | nil => rfl
  | cons e es ih =>
      rw [List.foldl_cons, ih, takeEnglish]
      by_cases here : e.language = english
      · rw [if_pos here, List.filter_cons_of_pos (by simpa using here), List.getLast?_cons]
        rfl
      · rw [if_neg here, List.filter_cons_of_neg (by simpa using here)]

/-- With the first entry as fallback, the loop finds an English one or stays with it. -/
theorem foldl_takeEnglish_cons (e : Translation) (es : List Translation) :
    some ((e :: es).foldl takeEnglish e) = englishOrFirst (e :: es) := by
  rw [foldl_takeEnglish, englishOrFirst]
  cases ((e :: es).filter fun e => e.language = english).getLast? <;> rfl

end Entries

/-! ### The loop -/

section Loop

variable {ui bufLen : ℕ} {bufStr : List ℕ} {s t : Scan}

theorem scanTable_of_body (done : body bufStr s = some t) :
    scanTable bufStr bufLen ui s =
      if t.entry.language = ui ∨ bufLen < t.offset then some t
      else scanTable bufStr bufLen ui t := by
  rw [scanTable]
  split
  · rename_i failed
    rw [done] at failed
    cases failed
  · rename_i found
    rw [done] at found
    cases found
    rfl

/-- The characters of a string behind its first ones. -/
theorem charAt_append (front behind : List ℕ) (i : ℕ) :
    charAt (front ++ behind) (front.length + 1 + i) = behind[i]? := by
  have below : front.length + 1 + i - 1 = front.length + i := by omega
  rw [charAt, if_neg (by omega), below, List.getElem?_append_right (Nat.le_add_right _ _),
    Nat.add_sub_cancel_left]

theorem word_toNat (high low : UInt8) :
    word high.toNat low.toNat = 256 * high.toNat + low.toNat := by
  have h := high.toNat_lt
  have l := low.toNat_lt
  unfold word
  omega

/-- One round, at an entry of the table. -/
theorem body_eq {front more : Bytes} (a b c d : UInt8) (here : s.offset = front.length + 1) :
    body ((front ++ a :: b :: c :: d :: more).map UInt8.toNat) s =
      some {
        entry := ⟨256 * b.toNat + a.toNat, 256 * d.toNat + c.toNat⟩
        fallback := if s.offset = 1 ∨ 256 * b.toNat + a.toNat = english
          then ⟨256 * b.toNat + a.toNat, 256 * d.toNat + c.toNat⟩ else s.fallback
        offset := s.offset + 4
        reads := s.reads ++ [s.offset + 1, s.offset, s.offset + 3, s.offset + 2] } := by
  have read (i : ℕ) : charAt ((front ++ a :: b :: c :: d :: more).map UInt8.toNat)
      (s.offset + i) = ((a :: b :: c :: d :: more).map UInt8.toNat)[i]? := by
    rw [List.map_append, here]
    have char := charAt_append (front.map UInt8.toNat)
      ((a :: b :: c :: d :: more).map UInt8.toNat) i
    rwa [List.length_map] at char
  unfold body
  rw [read 1, read 3, read 2, show s.offset = s.offset + 0 from rfl, read 0]
  simp only [List.map_cons, List.getElem?_cons_zero, List.getElem?_cons_succ, Option.bind_eq_bind,
    Option.bind_some, word_toNat]
  rfl

/-- What a round does to the choice: it looks at the next entry, and reads its four characters. -/
theorem exists_body {front : Bytes} (more : Bytes) (a b c d : UInt8) {e fallback : Translation}
    (is_entry : e = ⟨256 * b.toNat + a.toNat, 256 * d.toNat + c.toNat⟩)
    (here : s.offset = front.length + 1) (first : s.offset = 1 → e = fallback)
    (later : s.offset ≠ 1 → s.fallback = fallback) :
    ∃ t, body ((front ++ a :: b :: c :: d :: more).map UInt8.toNat) s = some t ∧
      t.entry = e ∧ t.fallback = takeEnglish fallback e ∧ t.offset = s.offset + 4 ∧
      ∀ i ∈ t.reads, i ∈ s.reads ∨ s.offset ≤ i ∧ i ≤ s.offset + 3 := by
  subst is_entry
  refine ⟨_, body_eq a b c d here, rfl, ?_, rfl, fun i inside => ?_⟩
  · by_cases start : s.offset = 1
    · rw [takeEnglish, ← first start, ite_self]
      exact if_pos (Or.inl start)
    · rw [later start, takeEnglish]
      simp only [start, false_or]
  · rcases List.mem_append.mp inside with before | now
    · exact Or.inl before
    · simp only [List.mem_cons, List.not_mem_nil, or_false] at now
      exact Or.inr (by omega)

/-- **The loop over the rest of the table.**  It ends at an entry in the language of the user
interface or at the last one, has seen the English ones on its way, and stays inside. -/
theorem scanTable_spec (ui : ℕ) (front rest more : Bytes) (fallback : Translation)
    (four : 4 ∣ rest.length) (some_entry : rest ≠ []) (here : s.offset = front.length + 1)
    (first : s.offset = 1 → (entries rest).head? = some fallback)
    (later : s.offset ≠ 1 → s.fallback = fallback) :
    ∃ t, scanTable ((front ++ rest ++ more).map UInt8.toNat) (front.length + rest.length) ui s =
        some t ∧
      (upTo ui (entries rest)).getLast? = some t.entry ∧
      t.fallback = (upTo ui (entries rest)).foldl takeEnglish fallback ∧
      ∀ i ∈ t.reads, i ∈ s.reads ∨ front.length < i ∧ i ≤ front.length + rest.length := by
  fun_induction entries rest generalizing front s fallback with
  | case1 a b c d table ih =>
      let e : Translation := ⟨256 * b.toNat + a.toNat, 256 * d.toNat + c.toNat⟩
      have split : front ++ a :: b :: c :: d :: table ++ more =
          front ++ a :: b :: c :: d :: (table ++ more) := List.append_assoc _ _ _
      obtain ⟨t, step, entry, fb, offset, reads⟩ := exists_body (table ++ more) a b c d
        (e := e) rfl here (fun start => Option.some.inj (first start)) later
      rw [← split] at step
      rw [scanTable_of_body step, entry, offset]
      simp only [List.length_cons] at four ⊢
      by_cases last : e.language = ui ∨ front.length + (table.length + 1 + 1 + 1 + 1) < s.offset + 4
      · have ended : upTo ui (e :: entries table) = [e] := by
          by_cases same : e.language = ui
          · exact if_pos same
          · have empty : table = [] := List.length_eq_zero_iff.mp (by
              rcases last with same' | short
              · exact absurd same' same
              · omega)
            rw [upTo, if_neg same, empty]
            rfl
        refine ⟨t, if_pos last, ?_, ?_, fun i inside => ?_⟩
        · rw [ended, entry]
          rfl
        · rw [ended, fb]
          rfl
        · rcases reads i inside with before | now
          · exact Or.inl before
          · exact Or.inr (by omega)
      · obtain ⟨other, room⟩ := not_or.mp last
        have more_entries : table ≠ [] := by
          rintro rfl
          rw [List.length_nil] at room
          omega
        have ahead : upTo ui (e :: entries table) = e :: upTo ui (entries table) := if_neg other
        have length : (front ++ [a, b, c, d]).length = front.length + 4 := List.length_append
        obtain ⟨t', run, final, fb', reads'⟩ := @ih t
          (front ++ [a, b, c, d]) (takeEnglish fallback e) (by omega) more_entries (by omega)
          (fun start => absurd start (by omega)) (fun _ => fb)
        have memory : front ++ [a, b, c, d] ++ table ++ more =
            front ++ a :: b :: c :: d :: table ++ more := by simp
        have bound : (front ++ [a, b, c, d]).length + table.length =
            front.length + (table.length + 1 + 1 + 1 + 1) := by omega
        rw [memory, bound] at run
        refine ⟨t', (if_neg last).trans run, ?_, ?_, fun i inside => ?_⟩
        · rw [ahead, List.getLast?_cons, final]
          rfl
        · rw [ahead, fb']
          rfl
        · rcases reads' i inside with before | now
          · rcases reads i before with earlier | now
            · exact Or.inl earlier
            · exact Or.inr (by omega)
          · exact Or.inr (by omega)
  | case2 rest short =>
      match rest, four, some_entry, short with
      | [], _, some_entry, _ => exact absurd rfl some_entry
      | [_], four, _, _ => simp at four
      | [_, _], four, _, _ => simp at four
      | [_, _, _], four, _, _ => simp at four
      | a :: b :: c :: d :: table, _, _, short => exact absurd rfl (short a b c d table)

end Loop

/-! ### The choice -/

variable {convert : Bytes → List ℕ} {ui bufLen : ℕ} {buffer : Bytes}

/-- The bytes of a string that has none of them changed. -/
def Kept (convert : Bytes → List ℕ) (s : Bytes) : Prop := convert s = s.map UInt8.toNat

instance (s : Bytes) : Decidable (Kept convert s) := inferInstanceAs (Decidable (_ = _))

/-- Without a zero byte in front, the string goes on behind it. -/
theorem cstr_of_clean (clean : 0 ∉ buffer.take bufLen) :
    CString.cstr buffer 0 = buffer.take bufLen ++ CString.cstr buffer bufLen := by
  calc CString.cstr buffer 0
      = (buffer.take bufLen ++ buffer.drop bufLen).takeWhile (· ≠ 0) := by
        rw [List.take_append_drop]
        rfl
    _ = buffer.take bufLen ++ CString.cstr buffer bufLen :=
        takeWhile_ne_append clean _

/-- A zero byte ends the string. -/
theorem length_cstr_lt (zero : 0 ∈ buffer.take bufLen) :
    (CString.cstr buffer 0).length < bufLen := by
  by_contra long
  obtain ⟨rest, split, -⟩ := CString.drop_eq_cstr_append buffer 0
  rw [List.drop_zero] at split
  rw [split, List.take_append_of_le_length (Nat.not_lt.mp long)] at zero
  exact CString.ne_zero_of_mem_cstr (List.mem_of_mem_take zero) rfl

theorem entries_eq_cons {table : Bytes} (four : 4 ∣ table.length) (some_entry : table ≠ []) :
    ∃ e es, entries table = e :: es := by
  match table, four, some_entry with
  | [], _, some_entry => exact absurd rfl some_entry
  | [_], four, _ => simp at four
  | [_, _], four, _ => simp at four
  | [_, _, _], four, _ => simp at four
  | _ :: _ :: _ :: _ :: _, _, _ => exact ⟨_, _, rfl⟩

/-- **With a zero byte** in the table, nothing is read, and the entries are guessed. -/
theorem choose_of_zero (ui : ℕ) (kept : Kept convert (CString.cstr buffer 0))
    (zero : 0 ∈ buffer.take bufLen) :
    choose convert ui buffer bufLen = some ⟨⟨0x0000, 0x04b0⟩, ⟨0x0000, 0x04e4⟩, []⟩ := by
  have short := length_cstr_lt zero
  unfold choose
  rw [kept]
  dsimp only
  rw [List.length_map, if_neg (Nat.not_le.mpr short)]

/-- What the loop has seen is enough to make the choice. -/
theorem preferred_of_seen {e last fallback : Translation} {es : List Translation}
    (final : (upTo ui (e :: es)).getLast? = some last)
    (second : englishOrFirst (upTo ui (e :: es)) = some fallback) :
    preferred ui (e :: es) = some (if last.language ≠ ui then fallback else last) := by
  rw [getLast?_upTo] at final
  rw [preferred]
  cases found : (e :: es).find? fun e => e.language = ui with
  | some e' =>
      have same : e' = last := by
        rw [found] at final
        exact Option.some.inj final
      have language : e'.language = ui := by simpa using List.find?_some found
      rw [if_neg (not_not_intro (same ▸ language)), same]
      rfl
  | none =>
      have other : last.language ≠ ui := by
        rw [found, Option.none_or] at final
        simpa using List.find?_eq_none.mp found last (List.mem_of_getLast? final)
      rw [upTo_eq_self found] at second
      rw [if_pos other, second]
      rfl

/-- **Without one**, the table is read, and no more than the table. -/
theorem choose_of_clean (ui : ℕ) (whole : bufLen ≤ buffer.length) (pos : 0 < bufLen)
    (four : 4 ∣ bufLen) (kept : Kept convert (CString.cstr buffer 0))
    (clean : 0 ∉ buffer.take bufLen) :
    ∃ c, choose convert ui buffer bufLen = some c ∧
      preferred ui (entries (buffer.take bufLen)) = some c.first ∧
      englishOrFirst (upTo ui (entries (buffer.take bufLen))) = some c.second ∧
      ∀ i ∈ c.reads, 1 ≤ i ∧ i ≤ bufLen := by
  have length : (buffer.take bufLen).length = bufLen := List.length_take_of_le whole
  have some_entry : buffer.take bufLen ≠ [] := by
    intro empty
    rw [empty, List.length_nil] at length
    omega
  have string : convert (CString.cstr buffer 0) =
      ([] ++ buffer.take bufLen ++ CString.cstr buffer bufLen).map UInt8.toNat := by
    rw [kept, cstr_of_clean clean, List.nil_append]
  have divides : 4 ∣ (buffer.take bufLen).length := by rwa [length]
  obtain ⟨e, es, table⟩ := entries_eq_cons divides some_entry
  obtain ⟨t, run, final, fallback, reads⟩ := scanTable_spec (s := ⟨⟨0, 0⟩, ⟨0, 0⟩, 1, []⟩) ui []
    (buffer.take bufLen) (CString.cstr buffer bufLen) e divides some_entry rfl
    (fun _ => congrArg List.head? table) (fun later => absurd rfl later)
  rw [← string, List.length_nil, Nat.zero_add, length] at run
  have enough : bufLen ≤ (convert (CString.cstr buffer 0)).length := by
    rw [string, List.length_map, List.nil_append, List.length_append, length]
    exact Nat.le_add_right _ _
  have chosen : choose convert ui buffer bufLen = some
      ⟨if t.entry.language ≠ ui then t.fallback else t.entry, t.fallback, t.reads⟩ := by
    unfold choose
    dsimp only
    rw [if_pos enough, run]
    rfl
  have second : englishOrFirst (upTo ui (e :: es)) = some t.fallback := by
    rw [fallback, table]
    have first : (upTo ui (e :: es)).head? = some e := by
      rw [upTo]
      split_ifs <;> rfl
    obtain ⟨es', seen⟩ := List.head?_eq_some_iff.mp first
    rw [seen, foldl_takeEnglish_cons]
  refine ⟨_, chosen, ?_, table ▸ second, fun i inside => ?_⟩
  · rw [table] at final ⊢
    exact preferred_of_seen final second
  · rcases reads i inside with none | now
    · exact absurd none List.not_mem_nil
    · rw [List.length_nil, length] at now
      omega

/-! ### What is asked for -/

/-- The values that are asked for: the first choice, and the second one if there is no such
value. -/
def asks (v : VersionInfo) (first second : Translation) : List Str :=
  if (v.value (path first)).isSome then [path first] else [path first, path second]

theorem query_asked (convert : Bytes → List ℕ) (v : VersionInfo) (c : Choice) :
    (query convert v c).asked = asks v c.first c.second ∧
      (query convert v c).reads = c.reads := by
  unfold query asks
  cases v.value (path c.first) with
  | some buffer => exact ⟨rfl, rfl⟩
  | none => cases v.value (path c.second) <;> exact ⟨rfl, rfl⟩

theorem getFileDescription_of_choose {v : VersionInfo} {c : Choice} (size : v.size ≠ 0)
    (loaded : v.loaded = true) (table : v.translation = some (buffer, bufLen))
    (chosen : choose convert ui buffer bufLen = some c) :
    getFileDescription convert ui v = some (query convert v c) := by
  unfold getFileDescription
  rw [if_neg size, if_neg (not_not_intro loaded), table]
  dsimp only
  rw [chosen, Option.map_some]

end FileDescription

section Asked

variable {convert : Bytes → List ℕ} {ui bufLen : ℕ} {buffer : Bytes} {v : VersionInfo}

/-- The table is read inside its bounds, and the preferred entry is asked for first. -/
def AsksPreferred (convert : Bytes → List ℕ) (ui : ℕ) (v : VersionInfo) (table : Bytes) : Prop :=
  ∃ answer, getFileDescription convert ui v = some answer ∧
    (∀ i ∈ answer.reads, 1 ≤ i ∧ i ≤ table.length) ∧
    ∀ e, preferred ui (entries table) = some e → answer.asked.head? = some (path e)

/-- **What is asked for**: with a zero byte in the table, the two guesses, and the table is not
read; without one, the preferred entry, then the English or first one of those that were read,
and nothing outside the table is. -/
theorem getFileDescription_asks (size : v.size ≠ 0) (loaded : v.loaded = true)
    (table : v.translation = some (buffer, bufLen)) (whole : bufLen ≤ buffer.length)
    (pos : 0 < bufLen) (four : 4 ∣ bufLen) (kept : Kept convert (CString.cstr buffer 0)) :
    ∃ answer first second, getFileDescription convert ui v = some answer ∧
      answer.asked = asks v first second ∧
      if 0 ∈ buffer.take bufLen then
        first = ⟨0x0000, 0x04b0⟩ ∧ second = ⟨0x0000, 0x04e4⟩ ∧ answer.reads = []
      else
        preferred ui (entries (buffer.take bufLen)) = some first ∧
          englishOrFirst (upTo ui (entries (buffer.take bufLen))) = some second ∧
          ∀ i ∈ answer.reads, 1 ≤ i ∧ i ≤ bufLen := by
  by_cases zero : 0 ∈ buffer.take bufLen
  · have chosen := choose_of_zero ui kept zero
    obtain ⟨asked, reads⟩ := query_asked convert v _
    refine ⟨_, _, _, getFileDescription_of_choose size loaded table chosen, asked, ?_⟩
    rw [if_pos zero]
    exact ⟨rfl, rfl, reads⟩
  · obtain ⟨c, chosen, first, second, reads⟩ :=
      choose_of_clean ui whole pos four kept zero
    obtain ⟨asked, same⟩ := query_asked convert v c
    refine ⟨_, c.first, c.second, getFileDescription_of_choose size loaded table chosen, asked, ?_⟩
    rw [if_neg zero]
    exact ⟨first, second, same ▸ reads⟩

end Asked

/-- A resource with English and German, and an interface in German. -/
def germanEnglish : VersionInfo where
  size := 100
  loaded := true
  translation := some ([0x09, 0x04, 0xb0, 0x04, 0x07, 0x04, 0xe4, 0x04, 0x00], 8)
  value _ := none

theorem getFileDescription_asks_german :
    ∃ answer first second,
      getFileDescription (·.map UInt8.toNat) 0x0407 germanEnglish = some answer ∧
      answer.asked = asks germanEnglish first second ∧
      if 0 ∈ [0x09, 0x04, 0xb0, 0x04, 0x07, 0x04, 0xe4, (0x04 : UInt8)] then
        first = ⟨0x0000, 0x04b0⟩ ∧ second = ⟨0x0000, 0x04e4⟩ ∧ answer.reads = []
      else
        preferred 0x0407 [⟨0x0409, 0x04b0⟩, ⟨0x0407, 0x04e4⟩] = some first ∧
          englishOrFirst (upTo 0x0407 [⟨0x0409, 0x04b0⟩, ⟨0x0407, 0x04e4⟩]) = some second ∧
          ∀ i ∈ answer.reads, 1 ≤ i ∧ i ≤ 8 :=
  getFileDescription_asks (v := germanEnglish) (by decide) rfl rfl (by decide) (by decide)
    (by decide) rfl

/-- A table with one entry, whose code page is zero: German and English may be preferred, but
neither is asked for. -/
theorem not_asksPreferred :
    ¬ ∀ ui, AsksPreferred (·.map UInt8.toNat) ui
      ⟨100, true, some ([0x09, 0x04, 0x00, 0x00], 4), fun _ => none⟩ [0x09, 0x04, 0x00, 0x00] := by
  intro all
  obtain ⟨answer, found, -, first⟩ := all 0x0409
  have asked := first ⟨0x0409, 0⟩ rfl
  have guess : getFileDescription (·.map UInt8.toNat) 0x0409
      ⟨100, true, some ([0x09, 0x04, 0x00, 0x00], 4), fun _ => none⟩ =
        some ⟨[], [path ⟨0, 0x04b0⟩, path ⟨0, 0x04e4⟩], []⟩ := by
    rfl
  rw [guess] at found
  cases found
  revert asked
  decide

end MsysGit.WinGit
