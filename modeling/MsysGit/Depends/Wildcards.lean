import MsysGit.Depends.ImportSearch
import MsysGit.Library.SeparatedText

/-!
# Wildcards

`DirectorySearch` cuts its list of wildcards at each semicolon and keeps what it finds, at
most ten of them.  A wildcard with a star is compared with what stands behind the last dot of a
name.  `PrintWildcardError` says what wildcards can be (`Pattern`).

`matchesWildcard_iff` says which names a wildcard of these forms matches, and
`splitWildcards_of_wellFormed` and `splitWildcards_error_iff` what becomes of a list.
-/

namespace MsysGit.Depends

open MsysGit.Library MsysGit.Library.CString

/-! ### The code -/

/-- Why `DirectorySearch` returns `FALSE`. -/
inductive Failure
  | invalidWildcards
  | tooManyWildcards
  | invalidPath (directory : Bytes)
  | pathTooLarge
  /-- The error code of `FindNextFile`. -/
  | notListed (code : UInt32)
  deriving DecidableEq

/-- What it prints then. -/
def Failure.message : Failure → Bytes
  | invalidWildcards =>
      text "Error: invalid wildcards for filename\n" ++
      text "Wildcards can be:\n" ++
      text "\tfilename      match \"filename\"\n" ++
      text "\tfilename.ext  match \"filename.ext\"\n" ++
      text "\t*             match all files (with or without extensions)\n" ++
      text "\t*.*           match all files with extensions\n" ++
      text "\t*.            match all files without extensions\n" ++
      text "\t*.ext         match all files ending in \".ext\"\n" ++
      text "\t*.ext1;*.ext2 match all files ending in \".ext1\" or \".ext2\"\n"
  | tooManyWildcards => []
  | invalidPath directory => text "Invalid path \"" ++ directory ++ text "\"\n"
  | pathTooLarge => text "Error: File path is too large\n"
  | notListed code => text "FindNextFile failed: error code 0x" ++ hex code ++ text "\n"

/-- `MAX_WILDCARDS` -/
abbrev maxWildcards : ℕ := 10

/-- The loop that cuts the list at its semicolons, with the wildcards it has kept; `none` stands
for `MatchAllFiles`. -/
def splitLoop : List Bytes → List Bytes → Except Failure (Option (List Bytes))
  | wildcards, [] => .ok (some wildcards)
  | wildcards, [last] =>
      if last = text "*" then .ok none
      else if last = [] then .ok (some wildcards)
      else .ok (some (wildcards ++ [last]))
  | wildcards, item :: rest =>
      if wildcards.length = maxWildcards - 1 then .error .tooManyWildcards
      else if item = text "*" then .ok none
      else if item[0]? = some 42 ∧ item[1]? ≠ some 46 then .error .invalidWildcards
      else splitLoop (wildcards ++ [item]) rest

/-- The wildcards of a list. -/
def splitWildcards (fileWildcard : Option Bytes) : Except Failure (Option (List Bytes)) :=
  match fileWildcard with
  | none => .ok none
  | some list =>
      if list = [] ∨ (strchr list 44).isSome then .error .invalidWildcards
      else splitLoop [] (list.splitOn 59)

/-- The body of the loops over the wildcards. -/
def matchesWildcard (filename wildcard : Bytes) : Bool :=
  match strrchr filename 46 with
  | some fileExtension =>
      if wildcard[0]? = some 42 then
        (wildcard[1]? = none || wildcard[2]? = some 42) ||
          (wildcard[2]?.isSome && stricmpEq fileExtension.tail (wildcard.drop 2))
      else stricmpEq filename wildcard
  | none => wildcard = text "*." || stricmpEq filename wildcard

/-- Whether a file is added to the results. -/
def matchesFile (wildcards : Option (List Bytes)) (filename : Bytes) : Bool :=
  match wildcards with
  | none => true
  | some wildcards => wildcards.any (matchesWildcard filename)

/-! ### What wildcards can be -/

/-- The forms that `PrintWildcardError` lists. -/
inductive Pattern
  /-- `*` -/
  | all
  /-- `*.*` -/
  | extended
  /-- `*.` -/
  | bare
  /-- `*.ext` -/
  | ending (extension : Bytes)
  /-- `filename` or `filename.ext` -/
  | name (filename : Bytes)
  deriving DecidableEq

/-- How a form is written. -/
def Pattern.spelling : Pattern → Bytes
  | all => text "*"
  | extended => text "*.*"
  | bare => text "*."
  | ending extension => text "*." ++ extension
  | name filename => filename

/-- There is an extension or a name, and no further star in it. -/
def Pattern.Proper : Pattern → Prop
  | ending extension => extension ≠ [] ∧ 42 ∉ extension
  | name filename => filename ≠ [] ∧ 42 ∉ filename
  | _ => True

/-- The names that a form is there for; the case of letters does not matter. -/
def Pattern.Matches : Pattern → Bytes → Prop
  | all, _ => True
  | extended, filename => 46 ∈ filename
  | bare, filename => 46 ∉ filename
  | ending extension, filename => (46 :: extension).map tolower <:+ filename.map tolower
  | name wanted, filename => stricmpEq filename wanted = true

/-- The form asks for an extension that has a dot itself. -/
def Pattern.MultiDot : Pattern → Prop
  | ending extension => 46 ∈ extension
  | _ => False

theorem mem_map_tolower {s : Bytes} : 46 ∈ s.map tolower ↔ 46 ∈ s := by
  rw [List.mem_map]
  constructor
  · rintro ⟨c, inside, same⟩
    exact (tolower_eq_iff (by decide)).mp same ▸ inside
  · exact fun inside => ⟨46, inside, rfl⟩

theorem mem_of_stricmpEq {s t : Bytes} (same : stricmpEq s t = true) : 46 ∈ s ↔ 46 ∈ t := by
  rw [← mem_map_tolower, of_decide_eq_true same, mem_map_tolower]

/-- What stands behind the last dot is compared; the name ends in the extension if this is the
same, and the extension has no dot. -/
theorem suffix_iff {stem ext e : Bytes} (last : 46 ∉ ext) :
    (46 :: e).map tolower <:+ (stem ++ 46 :: ext).map tolower ∧ 46 ∉ e ↔
      stricmpEq ext e = true := by
  have whole : (stem ++ 46 :: ext).map tolower = stem.map tolower ++ 46 :: ext.map tolower := by
    rw [List.map_append]
    rfl
  rw [whole, stricmpEq, decide_eq_true_eq]
  constructor
  · rintro ⟨⟨front, split⟩, single⟩
    have left : strrchr (front ++ 46 :: e.map tolower) 46 = some (46 :: e.map tolower) :=
      strrchr_append (mem_map_tolower.not.mpr single)
    have right : strrchr (stem.map tolower ++ 46 :: ext.map tolower) 46 =
        some (46 :: ext.map tolower) := strrchr_append (mem_map_tolower.not.mpr last)
    rw [show front ++ 46 :: e.map tolower = _ from split, right] at left
    exact (List.cons.inj (Option.some.inj left)).2
  · intro same
    refine ⟨⟨stem.map tolower, ?_⟩, ?_⟩
    · rw [same]
      rfl
    · rwa [← mem_map_tolower, ← same, mem_map_tolower]

/-- **What a wildcard matches**: what its form is there for, unless it asks for an extension
with a dot. -/
theorem matchesWildcard_iff {p : Pattern} {filename : Bytes} (proper : p.Proper)
    (other : p ≠ .all) :
    matchesWildcard filename p.spelling = true ↔ p.Matches filename ∧ ¬p.MultiDot := by
  by_cases dotted : 46 ∈ filename
  · obtain ⟨before, after, split, last⟩ :=
      List.eq_append_cons_of_mem (List.mem_reverse.mpr dotted)
    obtain rfl : filename = after.reverse ++ 46 :: before.reverse := by
      rw [← List.reverse_reverse filename, split]
      simp
    have last : 46 ∉ before.reverse := fun inside => last (List.mem_reverse.mp inside)
    rw [matchesWildcard, strrchr_append last]
    cases p with
    | all => exact absurd rfl other
    | extended => exact iff_of_true rfl ⟨dotted, id⟩
    | bare => exact iff_of_false nofun fun both => both.1 dotted
    | ending e =>
        obtain ⟨c, rest, rfl⟩ := List.exists_cons_of_ne_nil proper.1
        have star : c ≠ 42 := fun same => proper.2 (same ▸ List.mem_cons_self)
        refine Iff.trans ?_ (suffix_iff last).symm
        simp [Pattern.spelling, text, star]
    | name n =>
        have first : n[0]? ≠ some 42 := fun here => proper.2 (List.mem_of_getElem? here)
        simp [Pattern.spelling, Pattern.Matches, Pattern.MultiDot, first]
  · have plain {w : Bytes} (here : 46 ∈ w) : ¬stricmpEq filename w = true := fun same =>
      dotted ((mem_of_stricmpEq same).mpr here)
    -- A name without a dot is matched by `*.`, or as it is.
    have by_name {w : Bytes} (named : w ≠ text "*.") :
        matchesWildcard filename w = stricmpEq filename w := by
      rw [matchesWildcard, strrchr_of_notMem dotted]
      simp [named]
    cases p with
    | all => exact absurd rfl other
    | extended =>
        rw [Pattern.spelling, by_name (by decide)]
        exact iff_of_false (plain (by decide)) fun both => dotted both.1
    | bare =>
        rw [matchesWildcard, strrchr_of_notMem dotted]
        exact iff_of_true rfl ⟨dotted, id⟩
    | ending e =>
        have longer : text "*." ++ e ≠ text "*." := fun same =>
          proper.1 (List.append_right_eq_self.mp same)
        rw [Pattern.spelling, by_name longer]
        refine iff_of_false (plain (by simp [text])) fun both => dotted ?_
        exact mem_map_tolower.mp (both.1.subset List.mem_cons_self)
    | name n =>
        have named : n ≠ text "*." := by
          rintro rfl
          exact proper.2 (by decide)
        rw [Pattern.spelling, by_name named]
        exact (and_iff_left id).symm

/-! ### Lists of wildcards -/

/-- Every part of the list has one of the forms. -/
def WellFormed (list : Bytes) : Prop :=
  44 ∉ list ∧ ∀ item ∈ list.splitOn 59, ∃ p : Pattern, p.Proper ∧ p.spelling = item

/-- Some wildcard of the list is there for the name. -/
def AsksFor (list filename : Bytes) : Prop :=
  ∃ p : Pattern, p.Proper ∧ p.spelling ∈ list.splitOn 59 ∧ p.Matches filename

/-- Some wildcard of the list is there for the name, without a dot in its extension. -/
def FoundBy (list filename : Bytes) : Prop :=
  ∃ p : Pattern, p.Proper ∧ p.spelling ∈ list.splitOn 59 ∧ p.Matches filename ∧ ¬p.MultiDot

/-- There are at most ten wildcards, or one of the first nine is for all files. -/
def Manageable (list : Bytes) : Prop :=
  text "*" ∈ (list.splitOn 59).take 9 ∨ (list.splitOn 59).length ≤ 10

theorem FoundBy.asksFor {list filename : Bytes} (found : FoundBy list filename) :
    AsksFor list filename := by
  obtain ⟨p, proper, listed, here, -⟩ := found
  exact ⟨p, proper, listed, here⟩

/-- The item begins with a star, and is neither `*` nor goes on with a dot. -/
def IsOdd (item : Bytes) : Prop := item ≠ text "*" ∧ item[0]? = some 42 ∧ item[1]? ≠ some 46

instance (item : Bytes) : Decidable (IsOdd item) := inferInstanceAs (Decidable (_ ∧ _ ∧ _))

/-- One round of the loop. -/
theorem splitLoop_cons {wildcards rest : List Bytes} {item : Bytes} (more : rest ≠ []) :
    splitLoop wildcards (item :: rest) =
      if wildcards.length = 9 then .error .tooManyWildcards
      else if item = text "*" then .ok none
      else if IsOdd item then .error .invalidWildcards
      else splitLoop (wildcards ++ [item]) rest := by
  obtain ⟨next, others, rfl⟩ := List.exists_cons_of_ne_nil more
  rw [splitLoop]
  · by_cases all : item = text "*"
    · simp only [all, if_true]
      rfl
    · simp only [all, if_false, IsOdd, ne_eq, not_false_eq_true, true_and]
      rfl
  · exact nofun

section Proper

variable {p : Pattern}

theorem Pattern.Proper.ne_nil (proper : p.Proper) : p.spelling ≠ [] := by
  cases p with
  | all | extended | bare => decide
  | ending e => exact List.cons_ne_nil _ _
  | name n => exact proper.1

theorem Pattern.Proper.not_isOdd (proper : p.Proper) : ¬IsOdd p.spelling := by
  cases p with
  | all | extended | bare => decide
  | ending e => exact fun odd => odd.2.2 rfl
  | name n => exact fun odd => proper.2 (List.mem_of_getElem? odd.2.1)

end Proper

theorem WellFormed.splitWildcards_eq {list : Bytes} (form : WellFormed list) :
    splitWildcards (some list) = splitLoop [] (list.splitOn 59) := by
  refine if_neg (not_or.mpr ⟨?_, ?_⟩)
  · rintro rfl
    obtain ⟨p, proper, empty⟩ := form.2 [] List.mem_cons_self
    exact proper.ne_nil empty
  · rw [strchr_of_notMem form.1]
    exact Bool.false_ne_true

/-- With `n` wildcards kept, the loop has room for the items, or comes to one for all files. -/
def Fits (n : ℕ) (items : List Bytes) : Prop :=
  text "*" ∈ items.take (9 - n) ∨ items.length ≤ 10 - n

theorem fits_singleton {n : ℕ} {item : Bytes} (room : n ≤ 9) : Fits n [item] :=
  Or.inr (by rw [List.length_singleton]; omega)

theorem fits_cons {n : ℕ} {item : Bytes} {rest : List Bytes} (more : rest ≠ []) (room : n ≤ 9) :
    Fits n (item :: rest) ↔ n ≠ 9 ∧ (item = text "*" ∨ Fits (n + 1) rest) := by
  have longer := List.length_pos_iff.mpr more
  rw [Fits, Fits, List.length_cons]
  by_cases full : n = 9
  · rw [full, List.take_zero]
    exact iff_of_false (not_or.mpr ⟨List.not_mem_nil, by omega⟩) fun both => both.1 rfl
  · rw [show 9 - n = 9 - (n + 1) + 1 by omega, List.take_succ_cons, List.mem_cons,
      show rest.length + 1 ≤ 10 - n ↔ rest.length ≤ 10 - (n + 1) by omega, or_assoc,
      and_iff_right full, eq_comm]

/-- The loop over wildcards that are all of the forms. -/
theorem splitLoop_of_proper {wildcards items : List Bytes} (some_item : items ≠ [])
    (room : wildcards.length ≤ 9)
    (proper : ∀ item ∈ items, ∃ p : Pattern, p.Proper ∧ p.spelling = item) :
    (Fits wildcards.length items → splitLoop wildcards items =
        .ok (if text "*" ∈ items then none else some (wildcards ++ items))) ∧
      (¬Fits wildcards.length items → splitLoop wildcards items = .error .tooManyWildcards) := by
  induction items generalizing wildcards with
  | nil => exact absurd rfl some_item
  | cons item rest ih =>
      obtain ⟨p, form, rfl⟩ := proper item List.mem_cons_self
      by_cases more : rest = []
      · subst more
        refine ⟨fun _ => ?_, fun full => absurd (fits_singleton room) full⟩
        rw [splitLoop, if_neg form.ne_nil]
        by_cases all : p.spelling = text "*"
        · rw [if_pos all, if_pos (List.mem_singleton.mpr all.symm)]
        · rw [if_neg all, if_neg fun listed => all (List.mem_singleton.mp listed).symm]
      rw [splitLoop_cons more, fits_cons more room]
      by_cases full : wildcards.length = 9
      · rw [if_pos full]
        exact ⟨fun fits => absurd full fits.1, fun _ => rfl⟩
      rw [if_neg full, and_iff_right full]
      by_cases all : p.spelling = text "*"
      · rw [if_pos all, if_pos (List.mem_cons.mpr (Or.inl all.symm))]
        exact ⟨fun _ => rfl, fun fails => absurd (Or.inl all) fails⟩
      · have room' : (wildcards ++ [p.spelling]).length ≤ 9 := by
          rw [List.length_append, List.length_singleton]
          omega
        have others := ih more room' fun item listed => proper item (List.mem_cons_of_mem _ listed)
        rw [List.length_append, List.length_singleton, List.append_assoc] at others
        rw [if_neg all, if_neg form.not_isOdd, or_iff_right all]
        refine ⟨fun fits => (others.1 fits).trans ?_, others.2⟩
        by_cases later : text "*" ∈ rest
        · rw [if_pos later, if_pos (List.mem_cons_of_mem _ later)]
        · rw [if_neg later, if_neg (List.not_mem_cons_of_ne_of_not_mem (Ne.symm all) later)]
          rfl

/-- A list of the forms that is not too long is read as what it says. -/
theorem splitWildcards_of_wellFormed {list : Bytes} (form : WellFormed list)
    (short : Manageable list) :
    ∃ wildcards, splitWildcards (some list) = .ok wildcards ∧
      ∀ filename, matchesFile wildcards filename = true ↔ FoundBy list filename := by
  refine ⟨_, form.splitWildcards_eq.trans ((splitLoop_of_proper (List.splitOn_ne_nil _ _)
    (Nat.zero_le _) form.2).1 short), fun filename => ?_⟩
  by_cases all : text "*" ∈ list.splitOn 59
  · rw [if_pos all]
    exact iff_of_true rfl ⟨.all, trivial, all, trivial, id⟩
  · rw [if_neg all, matchesFile, List.nil_append, List.any_eq_true]
    have other {p : Pattern} (listed : p.spelling ∈ list.splitOn 59) : p ≠ .all := by
      rintro rfl
      exact all listed
    constructor
    · rintro ⟨item, listed, here⟩
      obtain ⟨p, proper, rfl⟩ := form.2 item listed
      exact ⟨p, proper, listed, (matchesWildcard_iff proper (other listed)).mp here⟩
    · rintro ⟨p, proper, listed, here⟩
      exact ⟨p.spelling, listed, (matchesWildcard_iff proper (other listed)).mpr here⟩

/-- A longer one is given up. -/
theorem splitWildcards_of_many {list : Bytes} (form : WellFormed list)
    (many : ¬Manageable list) : splitWildcards (some list) = .error .tooManyWildcards :=
  form.splitWildcards_eq.trans ((splitLoop_of_proper (List.splitOn_ne_nil _ _)
    (Nat.zero_le _) form.2).2 many)

/-! ### Lists that are refused -/

/-- With `n` wildcards kept, the loop comes to an item that it gives up at: not the last one,
and before one for all files. -/
def Stuck (n : ℕ) (items : List Bytes) : Prop :=
  ∃ before item after, items = before ++ item :: after ∧ after ≠ [] ∧ text "*" ∉ before ∧
    (n + before.length = 9 ∨ IsOdd item)

theorem not_stuck_nil {n : ℕ} : ¬Stuck n [] := by
  rintro ⟨before, item, after, split, -⟩
  exact absurd split.symm (List.append_ne_nil_of_right_ne_nil _ (List.cons_ne_nil _ _))

theorem stuck_cons {n : ℕ} {item : Bytes} {rest : List Bytes} :
    Stuck n (item :: rest) ↔
      rest ≠ [] ∧ (n = 9 ∨ IsOdd item) ∨ item ≠ text "*" ∧ Stuck (n + 1) rest := by
  constructor
  · rintro ⟨before, item', after, split, more, none, reason⟩
    rcases List.cons_eq_append_iff.mp split with ⟨rfl, same⟩ | ⟨before, rfl, rfl⟩
    · obtain ⟨rfl, rfl⟩ := List.cons.inj same
      exact Or.inl ⟨more, reason⟩
    · rw [List.mem_cons, not_or] at none
      refine Or.inr ⟨Ne.symm none.1, before, item', after, rfl, more, none.2, ?_⟩
      exact reason.imp_left fun nine => by rw [List.length_cons] at nine; omega
  · rintro (⟨more, reason⟩ | ⟨other, before, item', after, rfl, more, none, reason⟩)
    · exact ⟨[], item, rest, rfl, more, List.not_mem_nil, reason⟩
    · refine ⟨item :: before, item', after, rfl, more,
        List.not_mem_cons_of_ne_of_not_mem (Ne.symm other) none, ?_⟩
      exact reason.imp_left fun nine => by rw [List.length_cons]; omega

theorem splitLoop_error_iff {wildcards items : List Bytes} :
    (∃ failure, splitLoop wildcards items = .error failure) ↔ Stuck wildcards.length items := by
  induction items generalizing wildcards with
  | nil => exact iff_of_false nofun not_stuck_nil
  | cons item rest ih =>
      rw [stuck_cons]
      by_cases more : rest = []
      · subst more
        refine iff_of_false ?_
          (not_or.mpr ⟨fun stuck => stuck.1 rfl, fun stuck => not_stuck_nil stuck.2⟩)
        rw [splitLoop]
        split_ifs <;> exact nofun
      rw [splitLoop_cons more]
      by_cases full : wildcards.length = 9
      · rw [if_pos full]
        exact iff_of_true ⟨_, rfl⟩ (Or.inl ⟨more, Or.inl full⟩)
      rw [if_neg full]
      by_cases all : item = text "*"
      · rw [if_pos all]
        refine iff_of_false nofun (not_or.mpr ⟨?_, fun stuck => stuck.1 all⟩)
        rintro ⟨-, nine | odd⟩
        · exact full nine
        · exact odd.1 all
      rw [if_neg all]
      by_cases odd : IsOdd item
      · rw [if_pos odd]
        exact iff_of_true ⟨_, rfl⟩ (Or.inl ⟨more, Or.inr odd⟩)
      · rw [if_neg odd, ih, List.length_append, List.length_singleton]
        refine ⟨fun stuck => Or.inr ⟨all, stuck⟩, fun stuck => ?_⟩
        rcases stuck with ⟨-, nine | odd'⟩ | ⟨-, later⟩
        · exact absurd nine full
        · exact absurd odd' odd
        · exact later

/-- The list is refused: it is empty, has a comma, or the loop gives up at one of its items. -/
def RefusedList (list : Bytes) : Prop := list = [] ∨ 44 ∈ list ∨ Stuck 0 (list.splitOn 59)

/-- **When a list is refused**, whatever its items are. -/
theorem splitWildcards_error_iff {list : Bytes} :
    (∃ failure, splitWildcards (some list) = .error failure) ↔ RefusedList list := by
  rw [RefusedList, splitWildcards]
  by_cases empty : list = []
  · rw [if_pos (Or.inl empty)]
    exact iff_of_true ⟨_, rfl⟩ (Or.inl empty)
  by_cases comma : 44 ∈ list
  · have found : (strchr list 44).isSome := by rw [strchr, if_pos comma]; rfl
    rw [if_pos (Or.inr found)]
    exact iff_of_true ⟨_, rfl⟩ (Or.inr (Or.inl comma))
  · have none : ¬(strchr list 44).isSome := by
      rw [strchr_of_notMem comma]
      exact Bool.false_ne_true
    rw [if_neg (not_or.mpr ⟨empty, none⟩), splitLoop_error_iff, or_iff_right empty,
      or_iff_right comma]
    rfl

end MsysGit.Depends
