import MsysGit.Depends.SearchList
import MsysGit.Depends.Wildcards

/-!
# Searching a directory

`DirectorySearch` goes through a directory that was opened with recursion, and through every
subdirectory whose name does not begin with a dot.  Whatever goes wrong on the way, it returns
`FALSE`, and nothing that was found before is used.

`searchEntries_eq_ok` says what the recursion comes to, and `directorySearch_right_iff` when it
finds what the wildcards ask for.
-/

namespace MsysGit.Depends

open MsysGit.Library MsysGit.Library.CString

/-! ### Directories -/

/-- What a directory lists, `.` and `..` apart. -/
inductive Tree
  | file (name : Bytes)
  /-- A subdirectory: whether `FindFirstFile` may list it, what it lists, and the error that
  ends the listing, if that is not `ERROR_NO_MORE_FILES`. -/
  | directory (name : Bytes) (readable : Bool) (entries : List Tree) (failure : Option UInt32)

/-- `DirectoryOpen`; `FindFirstFile` takes no pattern longer than `MAX_PATH`. -/
def directoryOpen (path : Bytes) (readable : Bool) : Except Failure Unit :=
  if readable ∧ path.length + 2 < maxPath then .ok () else .error (.invalidPath path)

/-- `"%s\\%s"` -/
def pathIn (base name : Bytes) : Bytes := base ++ text "\\" ++ name

/-- `AddFileToSearchResult`, where there is memory enough: what is added to the list. -/
def addFile (base name : Bytes) : Except Failure (List Bytes) :=
  if maxPath < base.length + name.length + 2 then .error .pathTooLarge
  else .ok [pathIn base name]

/-- The name begins with a dot. -/
def Dotted (name : Bytes) : Prop := name.head? = some 46

instance (name : Bytes) : Decidable (Dotted name) := inferInstanceAs (Decidable (_ = _))

/-- The end of the loop over the entries. -/
def endOfListing (failure : Option UInt32) : Except Failure Unit :=
  match failure with
  | none => .ok ()
  | some code => .error (.notListed code)

mutual

/-- The loop over the entries: what is found in them, in order. -/
def searchEntries (fileWildcard : Option Bytes) (wildcards : Option (List Bytes))
    (base : Bytes) : List Tree → Except Failure (List Bytes)
  | [] => .ok []
  | entry :: entries => do
      let found ← searchEntry fileWildcard wildcards base entry
      let others ← searchEntries fileWildcard wildcards base entries
      pure (found ++ others)

/-- The body of the loop. -/
def searchEntry (fileWildcard : Option Bytes) (wildcards : Option (List Bytes))
    (base : Bytes) : Tree → Except Failure (List Bytes)
  | .file name => if matchesFile wildcards name then addFile base name else .ok []
  | .directory name readable entries failure =>
      if Dotted name then .ok []
      else do
        directoryOpen (pathIn base name) readable
        -- The subdirectory reads the wildcards again.
        let wildcards ← splitWildcards fileWildcard
        let found ← searchEntries fileWildcard wildcards (pathIn base name) entries
        endOfListing failure
        pure found

end

/-- `DirectorySearch`, of a directory that is open. -/
def directorySearch (fileWildcard : Option Bytes) (base : Bytes) (entries : List Tree)
    (failure : Option UInt32) : Except Failure (List Bytes) := do
  let wildcards ← splitWildcards fileWildcard
  let found ← searchEntries fileWildcard wildcards base entries
  endOfListing failure
  pure found

/-! ### What is in a directory -/

/-- The directory can be opened. -/
def Opens (path : Bytes) (readable : Bool) : Prop :=
  readable = true ∧ path.length + 2 < maxPath

instance (path : Bytes) (readable : Bool) : Decidable (Opens path readable) :=
  inferInstanceAs (Decidable (_ ∧ _))

/-- A file of a directory, at any depth. -/
structure FileAt where
  base : Bytes
  name : Bytes
  /-- It lies below a subdirectory whose name begins with a dot. -/
  hidden : Bool

def FileAt.path (f : FileAt) : Bytes := pathIn f.base f.name

/-- The path is short enough. -/
def FileAt.Short (f : FileAt) : Prop := f.base.length + f.name.length + 2 ≤ maxPath

instance (f : FileAt) : Decidable f.Short := inferInstanceAs (Decidable (_ ≤ _))

mutual

/-- The files in the entries, and in all directories below that can be opened. -/
def filesIn (base : Bytes) (hidden : Bool) : List Tree → List FileAt
  | [] => []
  | entry :: entries => filesOf base hidden entry ++ filesIn base hidden entries

def filesOf (base : Bytes) (hidden : Bool) : Tree → List FileAt
  | .file name => [⟨base, name, hidden⟩]
  | .directory name readable entries _ =>
      if Opens (pathIn base name) readable then
        filesIn (pathIn base name) (hidden || Dotted name) entries
      else []

end

mutual

/-- All directories below can be opened and listed to the end, but for those whose names begin
with a dot and what is in them. -/
def ReadableIn (base : Bytes) : List Tree → Prop
  | [] => True
  | entry :: entries => ReadableOf base entry ∧ ReadableIn base entries

def ReadableOf (base : Bytes) : Tree → Prop
  | .file _ => True
  | .directory name readable entries failure =>
      ¬Dotted name → Opens (pathIn base name) readable ∧ failure = none ∧
        ReadableIn (pathIn base name) entries

end

/-! ### What the search comes to -/

mutual

theorem hidden_of_mem_filesIn {base : Bytes} {entries : List Tree} {f : FileAt}
    (inside : f ∈ filesIn base true entries) : f.hidden = true := by
  match entries with
  | [] => exact absurd inside List.not_mem_nil
  | entry :: entries =>
      rw [filesIn, List.mem_append] at inside
      exact inside.elim hidden_of_mem_filesOf hidden_of_mem_filesIn

theorem hidden_of_mem_filesOf {base : Bytes} {entry : Tree} {f : FileAt}
    (inside : f ∈ filesOf base true entry) : f.hidden = true := by
  match entry with
  | .file name =>
      rw [filesOf, List.mem_singleton] at inside
      rw [inside]
  | .directory name readable entries failure =>
      rw [filesOf, Bool.true_or] at inside
      split_ifs at inside
      · exact hidden_of_mem_filesIn inside
      · exact absurd inside List.not_mem_nil

end

/-- The files below a directory whose name begins with a dot. -/
theorem hidden_of_mem_dotted {base name : Bytes} {readable : Bool} {entries : List Tree}
    {failure : Option UInt32} {hidden : Bool} {f : FileAt} (dotted : Dotted name)
    (inside : f ∈ filesOf base hidden (.directory name readable entries failure)) :
    f.hidden = true := by
  rw [filesOf, decide_eq_true dotted, Bool.or_true] at inside
  split_ifs at inside
  · exact hidden_of_mem_filesIn inside
  · exact absurd inside List.not_mem_nil

/-- The search adds the file to its results. -/
def picks (wildcards : Option (List Bytes)) (f : FileAt) : Bool :=
  !f.hidden && matchesFile wildcards f.name

/-- What the search finds among the files. -/
def picked (wildcards : Option (List Bytes)) (files : List FileAt) : List Bytes :=
  (files.filter (picks wildcards)).map FileAt.path

/-- The paths that the search adds are short enough. -/
def PickedShort (wildcards : Option (List Bytes)) (files : List FileAt) : Prop :=
  ∀ f ∈ files, picks wildcards f = true → f.Short

section Search

variable {fileWildcard : Option Bytes} {wildcards : Option (List Bytes)} {base name : Bytes}
  {files others : List FileAt} {found : List Bytes}

theorem picked_append : picked wildcards (files ++ others) =
    picked wildcards files ++ picked wildcards others := by
  rw [picked, List.filter_append, List.map_append]
  rfl

theorem pickedShort_append : PickedShort wildcards (files ++ others) ↔
    PickedShort wildcards files ∧ PickedShort wildcards others := List.forall_mem_append

/-- Where all files are hidden, nothing is added. -/
theorem filter_picks_of_hidden (hidden : ∀ f ∈ files, f.hidden = true) :
    files.filter (picks wildcards) = [] := by
  refine List.filter_eq_nil_iff.mpr fun f inside => ?_
  rw [picks, hidden f inside]
  exact Bool.false_ne_true

theorem directoryOpen_eq_ok {path : Bytes} {readable : Bool} {u : Unit} :
    directoryOpen path readable = .ok u ↔ Opens path readable := by
  rw [directoryOpen, Opens]
  split_ifs with both
  · exact iff_of_true rfl both
  · exact iff_of_false nofun both

theorem endOfListing_eq_ok {failure : Option UInt32} {u : Unit} :
    endOfListing failure = .ok u ↔ failure = none := by
  cases failure with
  | none => exact iff_of_true rfl rfl
  | some code => exact iff_of_false nofun nofun

/-- A file is added to the results, or not. -/
theorem searchFile_eq_ok :
    (if matchesFile wildcards name then addFile base name else .ok []) = .ok found ↔
      PickedShort wildcards [⟨base, name, false⟩] ∧
        found = picked wildcards [⟨base, name, false⟩] := by
  have single : PickedShort wildcards [⟨base, name, false⟩] ↔
      (matchesFile wildcards name = true → base.length + name.length + 2 ≤ maxPath) :=
    List.forall_mem_singleton
  rw [single]
  by_cases here : matchesFile wildcards name = true
  · have one : picked wildcards [⟨base, name, false⟩] = [pathIn base name] := by
      rw [picked, List.filter_singleton, picks, here]
      rfl
    rw [if_pos here, one, addFile, forall_prop_of_true here]
    split_ifs with long
    · exact iff_of_false nofun fun both => absurd both.1 (Nat.not_le.mpr long)
    · rw [and_iff_right (Nat.le_of_not_lt long), Except.ok.injEq, eq_comm]
  · have nothing : picked wildcards [⟨base, name, false⟩] = [] := by
      rw [picked, List.filter_singleton, picks, Bool.eq_false_iff.mpr here]
      rfl
    rw [if_neg here, nothing, Except.ok.injEq, eq_comm]
    exact (and_iff_right fun other => absurd other here).symm

mutual

/-- **What the search comes to.** -/
theorem searchEntries_eq_ok (parsed : splitWildcards fileWildcard = .ok wildcards)
    {base : Bytes} {entries : List Tree} {found : List Bytes} :
    searchEntries fileWildcard wildcards base entries = .ok found ↔
      (ReadableIn base entries ∧ PickedShort wildcards (filesIn base false entries)) ∧
        found = picked wildcards (filesIn base false entries) := by
  match entries with
  | [] =>
      rw [searchEntries, ReadableIn, filesIn, Except.ok.injEq, true_and, eq_comm]
      exact (and_iff_right fun f inside => absurd inside List.not_mem_nil).symm
  | entry :: entries =>
      rw [searchEntries, bind_eq_ok_iff, ReadableIn, filesIn, picked_append, pickedShort_append]
      constructor
      · rintro ⟨first, here, rest⟩
        obtain ⟨later, there, whole⟩ := bind_ok rest
        obtain ⟨⟨readable, short⟩, rfl⟩ := (searchEntry_eq_ok parsed).mp here
        obtain ⟨⟨readable', short'⟩, rfl⟩ := (searchEntries_eq_ok parsed).mp there
        exact ⟨⟨⟨readable, readable'⟩, short, short'⟩, (Except.ok.inj whole).symm⟩
      · rintro ⟨⟨⟨readable, readable'⟩, short, short'⟩, rfl⟩
        exact ⟨_, (searchEntry_eq_ok parsed).mpr ⟨⟨readable, short⟩, rfl⟩, bind_eq_ok_iff.mpr
          ⟨_, (searchEntries_eq_ok parsed).mpr ⟨⟨readable', short'⟩, rfl⟩, rfl⟩⟩

theorem searchEntry_eq_ok (parsed : splitWildcards fileWildcard = .ok wildcards)
    {base : Bytes} {entry : Tree} {found : List Bytes} :
    searchEntry fileWildcard wildcards base entry = .ok found ↔
      (ReadableOf base entry ∧ PickedShort wildcards (filesOf base false entry)) ∧
        found = picked wildcards (filesOf base false entry) := by
  match entry with
  | .file name =>
      rw [searchEntry, ReadableOf, filesOf, true_and, searchFile_eq_ok]
  | .directory name readable entries failure =>
      rw [searchEntry, ReadableOf]
      by_cases dotted : Dotted name
      · have none : (filesOf base false (.directory name readable entries failure)).filter
            (picks wildcards) = [] :=
          filter_picks_of_hidden fun f inside => hidden_of_mem_dotted dotted inside
        rw [if_pos dotted, picked, none, Except.ok.injEq, eq_comm]
        refine (and_iff_right ⟨fun other => absurd dotted other, fun f inside picks => ?_⟩).symm
        exact absurd picks (List.filter_eq_nil_iff.mp none f inside)
      · have visible : (false || decide (Dotted name)) = false := decide_eq_false dotted
        rw [if_neg dotted, filesOf, visible, forall_prop_of_true dotted]
        constructor
        · intro run
          obtain ⟨_, opens, run⟩ := bind_ok run
          obtain ⟨wildcards', parsed', run⟩ := bind_ok run
          obtain ⟨found', searched, run⟩ := bind_ok run
          obtain ⟨_, ended, whole⟩ := bind_ok run
          obtain rfl := Except.ok.inj (parsed.symm.trans parsed')
          obtain ⟨⟨readable', short⟩, rfl⟩ := (searchEntries_eq_ok parsed).mp searched
          have opens := directoryOpen_eq_ok.mp opens
          rw [if_pos opens]
          exact ⟨⟨⟨opens, endOfListing_eq_ok.mp ended, readable'⟩, short⟩,
            (Except.ok.inj whole).symm⟩
        · rintro ⟨⟨⟨opens, ended, readable'⟩, short⟩, rfl⟩
          rw [if_pos opens] at short ⊢
          have searched := (searchEntries_eq_ok parsed).mpr ⟨⟨readable', short⟩, rfl⟩
          refine bind_eq_ok_iff.mpr ⟨(), directoryOpen_eq_ok.mpr opens, ?_⟩
          refine bind_eq_ok_iff.mpr ⟨_, parsed, ?_⟩
          refine bind_eq_ok_iff.mpr ⟨_, searched, ?_⟩
          exact bind_eq_ok_iff.mpr ⟨(), endOfListing_eq_ok.mpr ended, rfl⟩

end

/-- The search of a directory whose wildcards are read. -/
theorem directorySearch_eq_ok (parsed : splitWildcards fileWildcard = .ok wildcards)
    {entries : List Tree} {failure : Option UInt32} :
    directorySearch fileWildcard base entries failure = .ok found ↔
      (failure = none ∧ ReadableIn base entries ∧
        PickedShort wildcards (filesIn base false entries)) ∧
        found = picked wildcards (filesIn base false entries) := by
  constructor
  · intro run
    obtain ⟨wildcards', parsed', run⟩ := bind_ok run
    obtain ⟨found', searched, run⟩ := bind_ok run
    obtain ⟨_, ended, whole⟩ := bind_ok run
    obtain rfl := Except.ok.inj (parsed.symm.trans parsed')
    obtain ⟨clean, rfl⟩ := (searchEntries_eq_ok parsed).mp searched
    exact ⟨⟨endOfListing_eq_ok.mp ended, clean⟩, (Except.ok.inj whole).symm⟩
  · rintro ⟨⟨ended, clean⟩, rfl⟩
    refine bind_eq_ok_iff.mpr ⟨_, parsed, ?_⟩
    refine bind_eq_ok_iff.mpr ⟨_, (searchEntries_eq_ok parsed).mpr ⟨clean, rfl⟩, ?_⟩
    exact bind_eq_ok_iff.mpr ⟨(), endOfListing_eq_ok.mpr ended, rfl⟩

end Search

/-! ### What is asked for -/

section Right

variable {list base : Bytes} {entries : List Tree} {failure : Option UInt32}

open Classical in
/-- The paths of all files that the wildcards ask for; a path that is too long is no path. -/
noncomputable def askedIn (list base : Bytes) (entries : List Tree) : List Bytes :=
  ((filesIn base false entries).filter fun f => AsksFor list f.name ∧ f.Short).map FileAt.path

/-- A list of wildcards of the documented forms finds all files that it asks for, each once;
another one is refused. -/
def SearchRight (list base : Bytes) (entries : List Tree) (failure : Option UInt32) : Prop :=
  (WellFormed list → ∃ found, directorySearch (some list) base entries failure = .ok found ∧
      found.Perm (askedIn list base entries)) ∧
    (¬WellFormed list → ∃ error, splitWildcards (some list) = .error error)

/-- Of two tests, one of which is the weaker, both pick as many only where they pick the
same. -/
theorem perm_map_filter_iff {α β : Type} {l : List α} {p q : α → Bool} {f : α → β}
    (weaker : ∀ a ∈ l, p a = true → q a = true) :
    ((l.filter p).map f).Perm ((l.filter q).map f) ↔ ∀ a ∈ l, q a = true → p a = true := by
  constructor
  · intro perm a inside good
    have sub : (l.filter p).Sublist (l.filter q) := by
      have again : (l.filter q).filter p = l.filter p := by
        rw [List.filter_filter]
        refine List.filter_congr fun a inside => ?_
        cases here : p a with
        | true => rw [weaker a inside here, Bool.and_true]
        | false => exact Bool.false_and _
      rw [← again]
      exact List.filter_sublist
    have length := perm.length_eq
    rw [List.length_map, List.length_map] at length
    have picked : a ∈ l.filter p :=
      sub.eq_of_length length ▸ List.mem_filter.mpr ⟨inside, good⟩
    exact (List.mem_filter.mp picked).2
  · intro same
    rw [List.filter_congr fun a inside =>
      Bool.eq_iff_iff.mpr ⟨weaker a inside, same a inside⟩]

/-- **When the search is right**: a list of the documented forms has at most ten wildcards, or
one of the first nine is for all files; all directories that are searched can be read; and a
file that is asked for has a short path if and only if it is found: it lies in no directory with
a dot, and a wildcard without a dot in its extension asks for it.  Another list is refused at
one of its items. -/
theorem directorySearch_right_iff (list base : Bytes) (entries : List Tree)
    (failure : Option UInt32) :
    SearchRight list base entries failure ↔
      (WellFormed list → Manageable list ∧ failure = none ∧ ReadableIn base entries ∧
        ∀ f ∈ filesIn base false entries, AsksFor list f.name →
          (f.Short ↔ f.hidden = false ∧ FoundBy list f.name)) ∧
      (¬WellFormed list → RefusedList list) := by
  classical
  rw [SearchRight, splitWildcards_error_iff]
  refine and_congr_left' (forall_congr' fun form => ?_)
  by_cases many : Manageable list
  · obtain ⟨wildcards, parsed, finds⟩ := splitWildcards_of_wellFormed form many
    have picks_iff (f : FileAt) :
        picks wildcards f = true ↔ f.hidden = false ∧ FoundBy list f.name := by
      rw [picks, Bool.and_eq_true, finds, Bool.not_eq_true']
    simp only [directorySearch_eq_ok parsed, and_iff_right many]
    constructor
    · rintro ⟨found, ⟨⟨ended, readable, short⟩, rfl⟩, perm⟩
      refine ⟨ended, readable, fun f inside asked => ?_⟩
      have all := (perm_map_filter_iff fun f inside picks =>
        decide_eq_true ⟨((picks_iff f).mp picks).2.asksFor, short f inside picks⟩).mp perm
      constructor
      · exact fun fits => (picks_iff f).mp (all f inside (decide_eq_true ⟨asked, fits⟩))
      · exact fun found => short f inside ((picks_iff f).mpr found)
    · rintro ⟨ended, readable, right⟩
      have short (f : FileAt) (inside : f ∈ filesIn base false entries)
          (picks : picks wildcards f = true) : f.Short := by
        have found := (picks_iff f).mp picks
        exact (right f inside found.2.asksFor).mpr found
      refine ⟨_, ⟨⟨ended, readable, short⟩, rfl⟩, ?_⟩
      refine (perm_map_filter_iff fun f inside picks => decide_eq_true
        ⟨((picks_iff f).mp picks).2.asksFor, short f inside picks⟩).mpr fun f inside wanted => ?_
      obtain ⟨asked, fits⟩ := of_decide_eq_true wanted
      exact (picks_iff f).mpr ((right f inside asked).mp fits)
  · refine iff_of_false ?_ fun both => many both.1
    rintro ⟨found, run, -⟩
    obtain ⟨wildcards, parsed, -⟩ := bind_ok run
    rw [splitWildcards_of_many form many] at parsed
    cases parsed

/-- A subdirectory that cannot be opened takes the file beside it from the result. -/
theorem not_searchRight_locked :
    ¬SearchRight (text "*.dll") (text "d")
      [.file (text "a.dll"), .directory (text "locked") false [] none] none := by
  have form : WellFormed (text "*.dll") :=
    ⟨by decide, fun item listed => ⟨.ending (text "dll"), ⟨by decide, by decide⟩, by
      have parts : (text "*.dll").splitOn 59 = [text "*.dll"] := by decide
      rw [parts, List.mem_singleton] at listed
      rw [listed]
      decide⟩⟩
  intro right
  obtain ⟨found, run, -⟩ := right.1 form
  have fails : directorySearch (some (text "*.dll")) (text "d")
      [.file (text "a.dll"), .directory (text "locked") false [] none] none =
        .error (.invalidPath (text "d\\locked")) := by decide
  rw [fails] at run
  cases run

end Right

end MsysGit.Depends
