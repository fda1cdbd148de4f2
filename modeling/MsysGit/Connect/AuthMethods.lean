import Mathlib.Data.List.Forall2
import MsysGit.Connect.Socks5
import MsysGit.Library.Buffer
import MsysGit.Library.SeparatedText
import MsysGit.Library.Trim

/-!
# Which method lists are read

`socks5_auth_parse` compares an item with the beginning of a name, as long as the item is.
So the lists it takes are those of abbreviations (`parse_splitOn`), and `parsesList_iff` says
that these are all it takes wrongly: an empty or blank item is refused, since with the length
`-1` the comparison is one with the rest of the list.

`socks5AuthParseArray` is the function with the array that it writes to.
-/

namespace MsysGit.Connect

open MsysGit.Library MsysGit.Library.CString

/-! ### The code -/

/-- How `socks5_auth_parse` ends, with an `auth_list` of this size. -/
inductive AuthEnd (size : ℕ) where
  | returned (n : ℕ) (authList : Buffer UInt8 size)
  | fatal
  /-- A store outside of `auth_list`. -/
  | outside

/-- `auth_list[i] = auth` -/
def storing {size : ℕ} (authList : Buffer UInt8 size) (i : ℕ) (auth : UInt8)
    (next : Buffer UInt8 size → AuthEnd size) : AuthEnd size :=
  if i < size then next (authList.store i [auth]) else .outside

/-- What follows the loop of `socks5_auth_parse`. -/
def lastMethod (maxAuth : ℤ) (start : Bytes) (i : ℕ) (authList : Buffer UInt8 maxAuth.toNat) :
    AuthEnd maxAuth.toNat :=
  if start ≠ [] ∧ (i : ℤ) < maxAuth then
    match socks5AuthParse1 start start.length with
    | some auth => storing authList i auth fun authList => .returned (i + 1) authList
    | none => .fatal
  else .fatal

/-- The loop of `socks5_auth_parse`.  Where there is a comma, the string is not empty. -/
def methodLoop (maxAuth : ℤ) (start : Bytes) (i : ℕ) (authList : Buffer UInt8 maxAuth.toNat) :
    AuthEnd maxAuth.toNat :=
  if (i : ℤ) < maxAuth then
    match strchr start 44 with
    | some comma =>
        match socks5AuthParse1 start (start.length - comma.length) with
        | some auth => storing authList i auth fun authList =>
            methodLoop maxAuth (comma.drop 1) (i + 1) authList
        | none => .fatal
    | none => lastMethod maxAuth start i authList
  else lastMethod maxAuth start i authList
termination_by maxAuth.toNat - i

/-- `socks5_auth_parse` -/
def socks5AuthParseArray (start : Bytes) (maxAuth : ℤ)
    (authList : Buffer UInt8 maxAuth.toNat) : AuthEnd maxAuth.toNat :=
  methodLoop maxAuth start 0 authList

/-- The end with these methods stored from `i` on. -/
def storedFrom {size : ℕ} (authList : Buffer UInt8 size) (i : ℕ) :
    Option (List UInt8) → AuthEnd size
  | some codes => .returned (i + codes.length) (authList.store i codes)
  | none => .fatal

/-- The stores stay inside, and the array gets the methods of the list. -/
theorem methodLoop_eq (maxAuth : ℤ) (free : ℕ) (start : Bytes) (i : ℕ)
    (authList : Buffer UInt8 maxAuth.toNat) (room : free = maxAuth.toNat - i) :
    methodLoop maxAuth start i authList = storedFrom authList i (socks5AuthParse start free) := by
  induction free generalizing start i authList with
  | zero =>
      have full : ¬(i : ℤ) < maxAuth := by omega
      rw [methodLoop, if_neg full, lastMethod, if_neg fun both => full both.2, socks5AuthParse]
      rfl
  | succ free ih =>
      have here : (i : ℤ) < maxAuth := by omega
      have inside : i < maxAuth.toNat := by omega
      rw [methodLoop, if_pos here, socks5AuthParse]
      cases strchr start 44 with
      | none =>
          show lastMethod maxAuth start i authList = _
          by_cases empty : start = []
          · simp [lastMethod, storedFrom, empty]
          · simp only [lastMethod, if_pos (And.intro empty here), if_neg empty]
            cases socks5AuthParse1 start start.length with
            | none => rfl
            | some auth => exact if_pos inside
      | some comma =>
          cases parsed : socks5AuthParse1 start (start.length - comma.length) with
          | none => simp [parsed, storedFrom]
          | some auth =>
              have rest := ih (comma.drop 1) (i + 1) (authList.store i [auth]) (by omega)
              simp only [parsed, storing, if_pos inside, rest]
              cases socks5AuthParse (comma.drop 1) free with
              | none => rfl
              | some codes =>
                  have count : i + 1 + codes.length = i + (auth :: codes).length := by
                    rw [List.length_cons]
                    omega
                  exact congrArg (AuthEnd.returned · _) count

theorem socks5AuthParseArray_eq (start : Bytes) (maxAuth : ℤ)
    (authList : Buffer UInt8 maxAuth.toNat) :
    socks5AuthParseArray start maxAuth authList =
      storedFrom authList 0 (socks5AuthParse start maxAuth.toNat) :=
  methodLoop_eq maxAuth _ start 0 authList (Nat.sub_zero _).symm

/-! ### One item -/

/-- The first method whose name begins so. -/
def abbreviation (word : Bytes) : Option UInt8 :=
  if word = [] then none
  else (socks5AuthTable.find? fun entry => word.isPrefixOf entry.1).map Prod.snd

/-- No name begins with a comma, or is empty. -/
theorem strncmpEq_name {entry : Bytes × UInt8} (inside : entry ∈ socks5AuthTable) {rest : Bytes}
    (other : ∀ c ∈ rest.head?, c = 44) (n : ℕ) : strncmpEq rest entry.1 (n + 1) = false := by
  have named : entry.1.head?.any (· ≠ 44) = true := by
    revert entry
    decide +kernel
  obtain ⟨name, auth⟩ := entry
  cases name with
  | nil => cases named
  | cons d name =>
      cases rest with
      | nil => rfl
      | cons c rest =>
          obtain rfl := other c rfl
          have differs : d ≠ 44 := by simpa using named
          rw [strncmpEq, decide_eq_false differs.symm, Bool.false_and]

/-- A blank item, of which nothing is left to compare, is compared with the rest of the list. -/
theorem socks5AuthParse1_blank {item rest : Bytes} (other : ∀ c ∈ rest.head?, c = 44)
    (blank : ∀ c ∈ item, isBlank c = true) :
    socks5AuthParse1 (item ++ rest) item.length = none := by
  have visible : ∀ c ∈ rest.head?, isBlank c = false := by
    intro c first
    rw [other c first]
    decide
  have start : (item ++ rest).dropWhile isBlank = rest := by
    rw [List.dropWhile_append_of_pos blank, dropWhile_of_head visible]
  have none : ∀ entry ∈ socks5AuthTable, ¬strncmpEq rest entry.1 (2 ^ 32 - 1) = true := by
    intro entry inside
    have longest : 2 ^ 32 - 1 = 4294967294 + 1 := rfl
    rw [longest, strncmpEq_name inside other]
    exact Bool.false_ne_true
  rw [socks5AuthParse1, start, List.length_append, Nat.add_sub_cancel, List.take_left,
    List.drop_length]
  exact congrArg (Option.map Prod.snd) (List.find?_eq_none.mpr none)

/-- **One item** is read as an abbreviation. -/
theorem socks5AuthParse1_append {item rest : Bytes} (other : ∀ c ∈ rest.head?, c = 44) :
    socks5AuthParse1 (item ++ rest) item.length = abbreviation (trim isBlank item) := by
  by_cases blank : ∀ c ∈ item, isBlank c = true
  · rw [socks5AuthParse1_blank other blank, abbreviation, if_pos (trim_eq_nil_iff.mpr blank)]
  · -- The item without the blanks in front, which the comparison begins at.
    obtain ⟨before, front, split⟩ : ∃ before, item = before ++ item.dropWhile isBlank ∧
        (item ++ rest).dropWhile isBlank = item.dropWhile isBlank ++ rest := by
      refine ⟨item.takeWhile isBlank, List.takeWhile_append_dropWhile.symm, ?_⟩
      have left : item.dropWhile isBlank ≠ [] := fun gone =>
        blank (List.dropWhile_eq_nil_iff.mp gone)
      rw [List.dropWhile_append, if_neg (by simpa using left)]
    obtain ⟨behind, -, whole⟩ := exists_rdropWhile isBlank (item.dropWhile isBlank)
    have word : trim isBlank item ≠ [] := trim_eq_nil_iff.not.mpr blank
    have offset : (item ++ rest).length - ((item ++ rest).dropWhile isBlank).length =
        before.length := by
      have sum := congrArg List.length front
      rw [List.length_append] at sum
      rw [split, List.length_append, List.length_append]
      omega
    have stop : ((item ++ rest).take item.length).drop before.length = item.dropWhile isBlank := by
      rw [List.take_left]
      conv_lhs => rw [front]
      exact List.drop_left
    have compared (name : Bytes) : strncmpEq ((item ++ rest).dropWhile isBlank) name
        (trim isBlank item).length = (trim isBlank item).isPrefixOf name := by
      conv_lhs => rw [split, whole, List.append_assoc]
      exact strncmpEq_append _ _ name
    rw [socks5AuthParse1, offset, stop, ← trim, if_neg word, abbreviation, if_neg word]
    simp only [compared]

/-! ### The list -/

theorem exists_forall₂ {α β : Type} {R : α → β → Prop} {xs : List α} :
    (∃ ys, List.Forall₂ R xs ys) ↔ ∀ x ∈ xs, ∃ y, R x y := by
  induction xs with
  | nil => simp
  | cons x xs ih =>
      rw [List.forall_mem_cons, ← ih]
      constructor
      · rintro ⟨_, _ | ⟨first, rest⟩⟩
        exact ⟨⟨_, first⟩, ⟨_, rest⟩⟩
      · rintro ⟨⟨y, first⟩, ⟨ys, rest⟩⟩
        exact ⟨y :: ys, .cons first rest⟩

/-- **The lists that are read** are those of abbreviations. -/
theorem parse_splitOn (free : ℕ) (start : Bytes) (codes : List UInt8) :
    socks5AuthParse start free = some codes ↔ (start.splitOn 44).length ≤ free ∧
      List.Forall₂ (fun item code => abbreviation (trim isBlank item) = some code)
        (start.splitOn 44) codes := by
  induction free generalizing start codes with
  | zero =>
      have some_item := List.length_pos_iff.mpr (List.splitOn_ne_nil 44 start)
      rw [socks5AuthParse]
      exact iff_of_false (Option.some_ne_none _).symm fun both => absurd both.1 (by omega)
  | succ free ih =>
      rw [socks5AuthParse]
      by_cases comma : 44 ∈ start
      · obtain ⟨item, rest, rfl, first⟩ := List.eq_append_cons_of_mem comma
        have one : socks5AuthParse1 (item ++ 44 :: rest) item.length =
            abbreviation (trim isBlank item) :=
          socks5AuthParse1_append fun c head => (Option.mem_some.mp head).symm
        have length : (item ++ 44 :: rest).length - (44 :: rest).length = item.length := by
          rw [List.length_append, Nat.add_sub_cancel]
        rw [strchr_append first, List.splitOn_append_cons_self_of_not_mem first]
        show (socks5AuthParse1 _ ((item ++ 44 :: rest).length - (44 :: rest).length) >>= fun auth =>
          socks5AuthParse rest free >>= fun codes => pure (auth :: codes)) = some codes ↔ _
        rw [length, one]
        simp only [Option.bind_eq_bind, Option.bind_eq_some_iff, Option.pure_def,
          Option.some.injEq, List.length_cons, Nat.add_le_add_iff_right, ih,
          List.forall₂_cons_left_iff]
        constructor
        · rintro ⟨auth, read, others, ⟨few, all⟩, rfl⟩
          exact ⟨few, auth, others, read, all, rfl⟩
        · rintro ⟨few, auth, others, read, all, rfl⟩
          exact ⟨auth, read, others, ⟨few, all⟩, rfl⟩
      · have one : socks5AuthParse1 start start.length = abbreviation (trim isBlank start) := by
          have alone : socks5AuthParse1 (start ++ []) start.length =
              abbreviation (trim isBlank start) := socks5AuthParse1_append (by simp)
          rwa [List.append_nil] at alone
        rw [strchr_of_notMem comma, List.splitOn_eq_singleton comma]
        by_cases empty : start = []
        · subst empty
          simp [trim, abbreviation, List.forall₂_cons_left_iff]
        · rw [if_neg empty, one]
          cases read : abbreviation (trim isBlank start) with
          | none => simp [List.forall₂_cons_left_iff, read]
          | some auth => simp [List.forall₂_cons_left_iff, read, eq_comm]

/-! ### The lists that are meant -/

/-- At most `maxAuth` items, each of which is the name of a method, with these codes. -/
def Listed (start : Bytes) (maxAuth : ℤ) (codes : List UInt8) : Prop :=
  ((start.splitOn 44).length : ℤ) ≤ maxAuth ∧
    List.Forall₂ (fun item code => (trim isBlank item, code) ∈ socks5AuthTable)
      (start.splitOn 44) codes

/-- At most `maxAuth` items, each of which is a beginning of a name, and one not a whole one. -/
structure Abbreviated (start : Bytes) (maxAuth : ℤ) : Prop where
  few : ((start.splitOn 44).length : ℤ) ≤ maxAuth
  begins : ∀ item ∈ start.splitOn 44, trim isBlank item ≠ [] ∧
    ∃ entry ∈ socks5AuthTable, trim isBlank item <+: entry.1
  short : ∃ item ∈ start.splitOn 44, ∀ entry ∈ socks5AuthTable, trim isBlank item ≠ entry.1

/-- The codes of a list are stored in the array, in order, and for any other text there is a
call of `fatal`. -/
structure ParsesList (start : Bytes) (maxAuth : ℤ) : Prop where
  listed : ∀ codes, Listed start maxAuth codes → ∀ authList,
    socks5AuthParseArray start maxAuth authList = .returned codes.length (authList.store 0 codes)
  other : (∀ codes, ¬Listed start maxAuth codes) → ∀ authList,
    socks5AuthParseArray start maxAuth authList = .fatal
  inside : ∀ authList, socks5AuthParseArray start maxAuth authList ≠ .outside

section Words

variable {word : Bytes} {code : UInt8}

theorem abbreviation_name (named : (word, code) ∈ socks5AuthTable) :
    abbreviation word = some code := by
  have all : ∀ entry ∈ socks5AuthTable, abbreviation entry.1 = some entry.2 := by decide +kernel
  exact all _ named

/-- There is a method for every beginning of a name. -/
theorem abbreviation_isSome : (∃ code, abbreviation word = some code) ↔
    word ≠ [] ∧ ∃ entry ∈ socks5AuthTable, word <+: entry.1 := by
  rw [← Option.isSome_iff_exists, abbreviation]
  split_ifs with empty
  · simp [empty]
  · rw [Option.isSome_map, List.find?_isSome]
    simp [empty]

end Words

/-- **`socks5_auth_parse`** takes the lists that are meant, and those of abbreviations. -/
theorem parsesList_iff (start : Bytes) (maxAuth : ℤ) :
    ParsesList start maxAuth ↔ ¬Abbreviated start maxAuth := by
  have fits : (start.splitOn 44).length ≤ maxAuth.toNat ↔
      ((start.splitOn 44).length : ℤ) ≤ maxAuth := by
    have some_item := List.length_pos_iff.mpr (List.splitOn_ne_nil 44 start)
    omega
  constructor
  · rintro parses ⟨few, begins, item, inside, short⟩
    obtain ⟨codes, read⟩ := exists_forall₂.mpr fun item inside =>
      abbreviation_isSome.mpr (begins item inside)
    have taken := (parse_splitOn maxAuth.toNat start codes).mpr ⟨fits.mpr few, read⟩
    have unlisted : ∀ codes, ¬Listed start maxAuth codes := by
      rintro codes ⟨-, named⟩
      obtain ⟨code, named⟩ := exists_forall₂.mp ⟨codes, named⟩ item inside
      exact short _ named rfl
    have result := parses.other unlisted (.filled 0 _)
    rw [socks5AuthParseArray_eq, taken] at result
    cases result
  · intro whole
    have read (codes : List UInt8) (listed : Listed start maxAuth codes) :
        socks5AuthParse start maxAuth.toNat = some codes :=
      (parse_splitOn _ start codes).mpr
        ⟨fits.mpr listed.1, listed.2.imp fun _ _ => abbreviation_name⟩
    refine ⟨fun codes listed authList => ?_, fun unlisted authList => ?_, fun authList => ?_⟩
    · rw [socks5AuthParseArray_eq, read codes listed, storedFrom, Nat.zero_add]
    · cases taken : socks5AuthParse start maxAuth.toNat with
      | none => rw [socks5AuthParseArray_eq, taken, storedFrom]
      | some codes =>
          obtain ⟨few, all⟩ := (parse_splitOn _ start codes).mp taken
          have begins (item : Bytes) (inside : item ∈ start.splitOn 44) :=
            abbreviation_isSome.mp (exists_forall₂.mp ⟨codes, all⟩ item inside)
          -- No item is short, so each is a name.
          have named : ∀ item ∈ start.splitOn 44,
              ∃ code, (trim isBlank item, code) ∈ socks5AuthTable := by
            intro item inside
            by_contra other
            refine whole ⟨fits.mp few, begins, item, inside, fun entry member same => ?_⟩
            exact other ⟨entry.2, same ▸ member⟩
          obtain ⟨codes, listed⟩ := exists_forall₂.mpr named
          exact absurd ⟨fits.mp few, listed⟩ (unlisted codes)
    · rw [socks5AuthParseArray_eq]
      cases socks5AuthParse start maxAuth.toNat with
      | none => exact nofun
      | some codes => exact nofun

/-- The beginning of `userpass`. -/
theorem not_parsesList_user : ¬ParsesList (text "user") 10 := by
  intro parses
  have read : abbreviation (trim isBlank (text "user")) = some authUserpass := by decide +kernel
  have unlisted : ∀ codes, ¬Listed (text "user") 10 codes := by
    rintro codes ⟨-, named⟩
    obtain ⟨code, named⟩ := exists_forall₂.mp ⟨codes, named⟩ (text "user") (by decide +kernel)
    rw [abbreviation_name named] at read
    obtain rfl := Option.some.inj read
    exact absurd named (by decide +kernel)
  have taken : socks5AuthParse (text "user") (10 : ℤ).toNat = some [authUserpass] := by
    decide +kernel
  have result := parses.other unlisted (.filled 0 _)
  rw [socks5AuthParseArray_eq, taken] at result
  cases result

end MsysGit.Connect
