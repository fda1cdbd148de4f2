import Mathlib.Data.List.DropRight
import Mathlib.Tactic.Common
import MsysGit.Library.SuffixRemoval
import MsysGit.Library.WordExpansion

/-!
# Cygwin directories in the search path

`etc/profile` takes the entries with `/cygwin/` out of `PATH`.  It prints the list with `echo`,
has `tr` put each entry on a line of its own and `grep -v` leave lines out, and prints the result
with `echo` once more.  Neither `$PATH` nor `${p%:}` is quoted, so the shell splits the list into
words at each blank and takes a word for a pattern: `echo` puts one blank between two words, and
the names of the files that a word matches in its place.

The list that comes out is the one that is meant if and only if that has single blanks only, and no
word in it matches other files (`profilePath_eq_iff`).
-/

namespace MsysGit.EtcProfile

open MsysGit.Library

abbrev Str := List Char

/-- `IFS`: blank, tab and newline. -/
def isBlank (c : Char) : Bool := c = ' ' || c = '\t' || c = '\n'

/-- `/cygwin/` -/
def cygwin : Str := "/cygwin/".toList

/-! ### The shell -/

/-- The files that are there when the profile is read, as far as the shell finds them. -/
structure Files where
  /-- The names of the files that a word matches. -/
  found : Str → List Str
  /-- Other words are no patterns. -/
  pattern : ∀ w, found w ≠ [] → '*' ∈ w ∨ '?' ∈ w ∨ '[' ∈ w
  /-- There is no colon in the name of a file, so that a word that reaches from one entry into the
  next one matches nothing. -/
  across : ∀ w, ':' ∈ w → found w = []
  /-- Nor is one of `*`, `?` and newline, and a name is not made of blanks only. -/
  characters : ∀ w, ∀ n ∈ found w, ∀ c ∈ [':', '*', '?', '\n'], c ∉ n
  visible : ∀ w, ∀ n ∈ found w, words isBlank n ≠ []
  /-- A pattern in brackets stands for one character. -/
  brackets : ∀ w, ∀ n ∈ found w, '*' ∉ w → '?' ∉ w → n = w ∨ n.length < w.length
  /-- A directory that a word names is in what it matches. -/
  directory : ∀ w, ∀ n ∈ found w, cygwin <:+: w → cygwin <:+: n

namespace Files

variable (files : Files)

/-- What the shell puts in the place of a word. -/
def expand (w : Str) : List Str := if files.found w = [] then [w] else files.found w

/-- What `echo $s` prints; the first word is no option, since the list begins with a dot. -/
def echo (s : Str) : Str := expandWords isBlank ' ' files.expand s ++ ['\n']

end Files

/-- `$(…)`: newlines at the end are removed. -/
def substituted (s : Str) : Str := s.rdropWhile (· = '\n')

/-- `tr a b` -/
def tr (a b : Char) (s : Str) : Str := s.map fun c => if c = a then b else c

/-- The lines that `grep` reads; the last one may not be terminated. -/
def lines (s : Str) : List Str :=
  if (s.splitOn '\n').getLast? = some [] then (s.splitOn '\n').dropLast else s.splitOn '\n'

/-- `grep -v` -/
def grepV (text s : Str) : Str := terminated '\n' ((lines s).filter (¬ text <:+: ·))

/-! ### The profile -/

/-- `PATH` with the directories of MSYS in front. -/
def searchPath (mingw32 : Bool) (old : Str) : Str :=
  if mingw32 then ".:/usr/local/bin:/mingw/bin:/bin:".toList ++ old
  else ".:/usr/local/bin:/bin:/mingw/bin:".toList ++ old

/-- `$(p=$(echo $PATH | tr ":" "\n" | grep -v "/cygwin/" | tr "\n" ":"); echo ${p%:})` -/
def stripCygwin (files : Files) (path : Str) : Str :=
  let p := substituted (tr '\n' ':' (grepV cygwin (tr ':' '\n' (files.echo path))))
  substituted (files.echo (removeSuffix (· = [':']) p))

/-- `PATH` as the profile sets it; `mingw32` is what it finds about `MSYSTEM`. -/
def profilePath (files : Files) (mingw32 : Bool) (old : Str) : Str :=
  let path := searchPath mingw32 old
  if cygwin <:+: path then stripCygwin files path else path

/-! ### What is meant -/

/-- No `/cygwin/` in an entry. -/
def wanted (e : Str) : Bool := ¬ cygwin <:+: e

/-- The list without the entries that contain `/cygwin/`. -/
def withoutCygwin (path : Str) : Str := join ':' ((path.splitOn ':').filter wanted)

/-- What the shell prints as it is. -/
structure Plain (files : Files) (s : Str) : Prop where
  /-- No tab and no newline. -/
  blanks : ∀ c ∈ s, isBlank c = true → c = ' '
  /-- No blank at an end, and none beside another one. -/
  single : [] ∉ s.splitOn ' '
  /-- No word matches other files than the one that it names. -/
  inert : ∀ w ∈ words isBlank s, files.expand w = [w]

/-! ### Words and files -/

theorem solid_cygwin : Solid isBlank cygwin := solid_of_all (by decide)

theorem solid_dot : Solid isBlank ".:".toList := solid_of_all (by decide)

theorem blank_space : isBlank ' ' = true := by decide

namespace Files

variable {files : Files} {w v n m : Str}

theorem mem_expand (member : m ∈ files.expand v) : m = v ∨ m ∈ files.found v := by
  unfold expand at member
  split_ifs at member with none
  · exact Or.inl (List.mem_singleton.mp member)
  · exact Or.inr member

theorem expand_ne_nil (files : Files) (w : Str) : files.expand w ≠ [] := by
  unfold expand
  split_ifs with none
  · exact List.cons_ne_nil _ _
  · exact none

/-- A word of a name that is found does not lead back to a longer word. -/
theorem eq_of_back (found : n ∈ files.found w) (word : v ∈ words isBlank n)
    (comes : m ∈ files.expand v) (back : w ∈ words isBlank m) : n = w := by
  have v_in_n := infix_of_mem_pieces (List.mem_of_mem_filter word)
  have w_in_m := infix_of_mem_pieces (List.mem_of_mem_filter back)
  have no_star : '*' ∉ n := files.characters w n found '*' (by decide)
  have no_mark : '?' ∉ n := files.characters w n found '?' (by decide)
  have v_star : '*' ∉ v := fun inside => no_star (v_in_n.subset inside)
  have v_mark : '?' ∉ v := fun inside => no_mark (v_in_n.subset inside)
  have m_like : '*' ∉ m ∧ '?' ∉ m ∧ m.length ≤ v.length := by
    rcases mem_expand comes with rfl | found'
    · exact ⟨v_star, v_mark, Nat.le_refl _⟩
    · refine ⟨files.characters v m found' '*' (by decide),
        files.characters v m found' '?' (by decide), ?_⟩
      rcases files.brackets v m found' v_star v_mark with rfl | shorter
      · exact Nat.le_refl _
      · exact Nat.le_of_lt shorter
  have w_star : '*' ∉ w := fun inside => m_like.1 (w_in_m.subset inside)
  have w_mark : '?' ∉ w := fun inside => m_like.2.1 (w_in_m.subset inside)
  rcases files.brackets w n found w_star w_mark with same | shorter
  · exact same
  · have long := w_in_m.length_le
    have long' := v_in_n.length_le
    have long_m := m_like.2.2
    omega

theorem visible_expand (files : Files) (visible : words isBlank w ≠ []) :
    ∀ m ∈ files.expand w, words isBlank m ≠ [] := by
  intro m member
  rcases mem_expand member with rfl | found
  · exact visible
  · exact files.visible w m found

theorem yield_ne_nil (visible : words isBlank w ≠ []) : yield isBlank files.expand w ≠ [] := by
  obtain ⟨m, others, whole⟩ := List.exists_cons_of_ne_nil (files.expand_ne_nil w)
  have some_word := files.visible_expand visible m (whole ▸ List.mem_cons_self)
  rw [yield, whole, List.flatMap_cons]
  exact List.append_ne_nil_of_left_ne_nil some_word _

theorem steady (files : Files) : Steady isBlank files.expand where
  some_word w letters solid := yield_ne_nil (words_of_solid solid letters ▸ List.cons_ne_nil _ _)
  steady w letters solid back := by
    by_cases none : files.found w = []
    · rw [expand, if_pos none]
    · have all_found : files.expand w = files.found w := if_neg none
      -- each name leads back to the word, so there is one name, which is the word
      have isWord : ∀ v ∈ yield isBlank files.expand w, yield isBlank files.expand v ≠ [] := by
        intro v member
        obtain ⟨m, -, inside⟩ := List.mem_flatMap.mp member
        refine yield_ne_nil ?_
        rw [words_of_solid (solid_of_mem_words inside) (ne_nil_of_mem_words inside)]
        exact List.cons_ne_nil _ _
      have each : ∀ n ∈ files.found w, n = w := by
        intro n found
        obtain ⟨v, others, whole⟩ := List.exists_cons_of_ne_nil (files.visible w n found)
        have word : v ∈ words isBlank n := whole ▸ List.mem_cons_self
        have from_w : v ∈ yield isBlank files.expand w :=
          List.mem_flatMap.mpr ⟨n, all_found ▸ found, word⟩
        obtain ⟨x, others', one⟩ := List.exists_cons_of_ne_nil (isWord v from_w)
        have from_v : x ∈ yield isBlank files.expand v := one ▸ List.mem_cons_self
        have same : x = w := by
          have member := List.mem_flatMap.mpr ⟨v, from_w, from_v⟩
          rw [back] at member
          exact List.mem_singleton.mp member
        obtain ⟨m, comes, inside⟩ := List.mem_flatMap.mp from_v
        exact eq_of_back found word comes (same ▸ inside)
      have few : (files.found w).length ≤ 1 := by
        have visible : words isBlank w ≠ [] :=
          words_of_solid solid letters ▸ List.cons_ne_nil _ _
        have first := length_le_flatMap (files.visible_expand visible)
        have second := length_le_flatMap isWord
        rw [back] at second
        exact all_found ▸ Nat.le_trans first second
      rw [all_found]
      match found : files.found w with
      | [] => exact absurd found none
      | [n] => rw [each n (found ▸ List.mem_cons_self)]
      | n :: n' :: others => rw [found] at few; simp at few

/-- `/cygwin/` stays in what a word becomes. -/
theorem cygwin_expand (inside : cygwin <:+: w) : ∃ v ∈ files.expand w, cygwin <:+: v := by
  obtain ⟨m, others, whole⟩ := List.exists_cons_of_ne_nil (files.expand_ne_nil w)
  have member : m ∈ files.expand w := whole ▸ List.mem_cons_self
  refine ⟨m, member, ?_⟩
  rcases mem_expand member with rfl | found
  · exact inside
  · exact files.directory w m found inside

theorem drops (files : Files) : Drops isBlank ' ' files.expand wanted where
  of_inner e dropped := by
    have inside : cygwin <:+: e := by simpa [wanted] using dropped
    simpa [wanted] using infix_inner solid_cygwin (List.cons_ne_nil _ _)
      (fun _ => cygwin_expand) inside
  of_outer e dropped := by
    have inside : cygwin <:+: e := by simpa [wanted] using dropped
    simpa [wanted] using infix_outer solid_cygwin (List.cons_ne_nil _ _)
      (fun _ => cygwin_expand) inside

theorem notMem_expand {c : Char} (special : c ∈ [':', '*', '?', '\n']) (w : Str) (clean : c ∉ w) :
    ∀ v ∈ files.expand w, c ∉ v := by
  intro v member
  rcases mem_expand member with rfl | found
  · exact clean
  · exact files.characters w v found c special

theorem expand_across (files : Files) (w : Str) (colon : ':' ∈ w) : files.expand w = [w] :=
  if_pos (files.across w colon)

end Files

/-! ### The pipe -/

theorem tr_terminated {a b : Char} {es : List Str} (clean : ∀ e ∈ es, a ∉ e) :
    tr a b (terminated a es) = terminated b es := by
  induction es with
  | nil => rfl
  | cons e es ih =>
      obtain ⟨here, there⟩ := List.forall_mem_cons.mp clean
      have same : e.map (fun c => if c = a then b else c) = e := by
        refine (List.map_congr_left fun c member => if_neg ?_).trans (List.map_id' e)
        rintro rfl
        exact here member
      rw [terminated_cons, terminated_cons, ← ih there, tr, tr, List.map_append, same,
        List.map_cons, if_pos rfl]

theorem lines_terminated {es : List Str} (clean : ∀ e ∈ es, '\n' ∉ e) :
    lines (terminated '\n' es) = es := by
  have split : (terminated '\n' es).splitOn '\n' = es ++ [[]] := by
    induction es with
    | nil => rfl
    | cons e es ih =>
        obtain ⟨here, there⟩ := List.forall_mem_cons.mp clean
        rw [terminated_cons, List.splitOn_append_cons_self_of_not_mem here, ih there,
          List.cons_append]
  rw [lines, split, if_pos List.getLast?_concat, List.dropLast_concat]

/-- A list goes through the pipe and loses its entries with `/cygwin/`. -/
theorem pipe_join {es : List Str} (some_entry : es ≠ []) (some_wanted : es.filter wanted ≠ [])
    (no_colon : ∀ e ∈ es, ':' ∉ e) (no_line : ∀ e ∈ es, '\n' ∉ e) :
    removeSuffix (· = [':'])
        (substituted (tr '\n' ':' (grepV cygwin (tr ':' '\n' (join ':' es ++ ['\n']))))) =
      join ':' (es.filter wanted) := by
  have one_line : tr ':' '\n' (join ':' es ++ ['\n']) = terminated '\n' es := by
    have same : tr ':' '\n' (join ':' es ++ ['\n']) = tr ':' '\n' (join ':' es ++ [':']) := by
      simp [tr]
    rw [same, join_append_sep some_entry, tr_terminated no_colon]
  have filtered : grepV cygwin (terminated '\n' es) = terminated '\n' (es.filter wanted) := by
    rw [grepV, lines_terminated no_line]
    rfl
  have no_line' : ∀ e ∈ es.filter wanted, '\n' ∉ e := fun e member =>
    no_line e (List.mem_of_mem_filter member)
  rw [one_line, filtered, tr_terminated no_line', ← join_append_sep some_wanted, substituted,
    List.rdropWhile_concat_neg _ _ _ (by decide)]
  refine removeSuffix_append (by decide) (fun u suffix fits => by simpa using fits) _

/-! ### Entry by entry -/

/-- The entries behind the dot. -/
def listed (mingw32 : Bool) (old : Str) : List Str :=
  "/usr/local/bin".toList ::
    ((if mingw32 then "/mingw/bin:/bin:".toList else "/bin:/mingw/bin:".toList) ++ old).splitOn ':'

section Run

variable (files : Files) (mingw32 : Bool) (old : Str)

theorem searchPath_eq : searchPath mingw32 old = ".:".toList ++ join ':' (listed mingw32 old) := by
  rw [listed, join_cons (List.splitOn_ne_nil _ _)]
  conv_rhs => rw [join, List.intercalate_splitOn]
  cases mingw32 <;> rfl

theorem colon_notMem_listed : ∀ e ∈ listed mingw32 old, ':' ∉ e :=
  List.forall_mem_cons.mpr ⟨by decide, fun _ => notMem_of_mem_splitOn⟩

/-- `/usr/local/bin` stays in the list. -/
theorem some_wanted_listed : (listed mingw32 old).filter wanted ≠ [] := by
  rw [listed, List.filter_cons_of_pos (by decide)]
  exact List.cons_ne_nil _ _

theorem withoutCygwin_searchPath : withoutCygwin (searchPath mingw32 old) =
    ".:".toList ++ join ':' ((listed mingw32 old).filter wanted) := by
  have split : (searchPath mingw32 old).splitOn ':' = ".".toList :: listed mingw32 old := by
    have dot : ':' ∉ ".".toList := by decide
    rw [searchPath_eq]
    refine (List.splitOn_append_cons_self_of_not_mem dot _).trans ?_
    exact congrArg (List.cons _) (List.splitOn_intercalate ':' (colon_notMem_listed mingw32 old)
      (List.cons_ne_nil _ _))
  rw [withoutCygwin, split, List.filter_cons_of_pos (by decide),
    join_cons (some_wanted_listed mingw32 old)]
  rfl

/-- Also in the list that is printed. -/
theorem some_wanted : (expandEntries isBlank ' ' files.expand (listed mingw32 old)).filter wanted
    ≠ [] := by
  have solid : Solid isBlank "/usr/local/bin".toList := solid_of_all (by decide)
  obtain ⟨next, others, behind⟩ := List.exists_cons_of_ne_nil (List.splitOn_ne_nil ':'
    ((if mingw32 then "/mingw/bin:/bin:".toList else "/bin:/mingw/bin:".toList) ++ old))
  rw [listed, behind, expandEntries, inner_of_solid solid, List.filter_cons_of_pos (by decide)]
  exact List.cons_ne_nil _ _

/-- The list as `echo` prints it, for entries behind the dot. -/
theorem expandWords_dot {es : List Str} (some_entry : es ≠ []) :
    expandWords isBlank ' ' files.expand (".:".toList ++ join ':' es) =
      ".:".toList ++ join ':' (expandEntries isBlank ' ' files.expand es) :=
  expandWords_join (by decide) files.expand_across some_entry solid_dot (by decide)

theorem newline_notMem (s : Str) : '\n' ∉ expandWords isBlank ' ' files.expand s := by
  refine notMem_join (by decide) fun v member => ?_
  obtain ⟨w, word, comes⟩ := List.mem_flatMap.mp member
  refine Files.notMem_expand (by decide) w (fun inside => ?_) v comes
  exact absurd (solid_of_mem_words word '\n' inside) (by decide)

/-- `$(echo $s)` -/
theorem substituted_echo (s : Str) :
    substituted (files.echo s) = expandWords isBlank ' ' files.expand s := by
  rw [Files.echo, substituted, List.rdropWhile_concat_pos _ _ _ (by decide),
    List.rdropWhile_eq_self_iff]
  intro some_char last
  have newline : (expandWords isBlank ' ' files.expand s).getLast some_char = '\n' := by
    simpa using last
  exact newline_notMem files s (newline ▸ List.getLast_mem some_char)

theorem stripCygwin_searchPath : stripCygwin files (searchPath mingw32 old) =
    ".:".toList ++ join ':' (expandEntries isBlank ' ' files.expand
      ((expandEntries isBlank ' ' files.expand (listed mingw32 old)).filter wanted)) := by
  have some_listed : listed mingw32 old ≠ [] := List.cons_ne_nil _ _
  have printed := expandWords_dot files some_listed
  rw [← searchPath_eq] at printed
  have no_line := newline_notMem files (searchPath mingw32 old)
  have dot (es : List Str) (some_entry : es ≠ []) :
      ".:".toList ++ join ':' es = join ':' (".".toList :: es) := by
    rw [join_cons some_entry]
    rfl
  have as_list := printed.trans (dot _ (expandEntries_ne_nil some_listed))
  have some_left := some_wanted files mingw32 old
  have piped : removeSuffix (· = [':']) (substituted (tr '\n' ':' (grepV cygwin
      (tr ':' '\n' (files.echo (searchPath mingw32 old)))))) =
        ".:".toList ++ join ':'
          ((expandEntries isBlank ' ' files.expand (listed mingw32 old)).filter wanted) := by
    have left : (".".toList :: expandEntries isBlank ' ' files.expand (listed mingw32 old)).filter
        wanted = ".".toList ::
          (expandEntries isBlank ' ' files.expand (listed mingw32 old)).filter wanted :=
      List.filter_cons_of_pos (by decide)
    rw [Files.echo, as_list, pipe_join (List.cons_ne_nil _ _) (left ▸ List.cons_ne_nil _ _), left,
      dot _ some_left]
    · exact List.forall_mem_cons.mpr ⟨by decide, notMem_expandEntries (by decide)
        (Files.notMem_expand (by decide)) (colon_notMem_listed mingw32 old)⟩
    · intro e member inside
      exact no_line (as_list ▸ (infix_join member).subset inside)
  rw [stripCygwin, piped, substituted_echo, expandWords_dot files some_left]

end Run

/-! ### What is left of the list -/

/-- A word without a pattern character stands for itself. -/
theorem Files.expand_of_no_pattern (files : Files) {w : Str}
    (letters : ∀ c ∈ ['*', '?', '['], c ∉ w) : files.expand w = [w] := by
  refine if_pos (by_contra fun some => ?_)
  rcases files.pattern w some with inside | inside | inside
  · exact letters '*' (by decide) inside
  · exact letters '?' (by decide) inside
  · exact letters '[' (by decide) inside

/-- A list without patterns, checked by evaluation. -/
theorem plain_of_no_pattern {files : Files} {s : Str}
    (blanks : (s.all fun c => !isBlank c || c = ' ') = true) (single : [] ∉ s.splitOn ' ')
    (letters : (['*', '?', '['].all fun c => c ∉ s) = true) : Plain files s where
  blanks c inside blank := by
    have letter := List.all_eq_true.mp blanks c inside
    simpa [blank] using letter
  single := single
  inert w word := files.expand_of_no_pattern fun c pattern inside => by
    have absent : c ∉ s := by simpa using List.all_eq_true.mp letters c pattern
    exact absent ((infix_of_mem_pieces (List.mem_of_mem_filter word)).subset inside)

theorem plain_iff {files : Files} {s : Str} (some_word : words isBlank s ≠ []) :
    Plain files s ↔ expandWords isBlank ' ' files.expand s = s := by
  rw [expandWords_eq_self_iff files.steady blank_space,
    join_words_eq_self_iff blank_space some_word]
  exact ⟨fun plain => ⟨⟨plain.blanks, plain.single⟩, plain.inert⟩,
    fun ⟨⟨blanks, single⟩, inert⟩ => ⟨blanks, single, inert⟩⟩

/-- **The entries with `/cygwin/` are left out, and nothing else is changed**, if and only if the
shell prints the rest of the list as it is. -/
theorem profilePath_eq_iff (files : Files) (mingw32 : Bool) (old : Str)
    (inside : cygwin <:+: searchPath mingw32 old) :
    profilePath files mingw32 old = withoutCygwin (searchPath mingw32 old) ↔
      Plain files (withoutCygwin (searchPath mingw32 old)) := by
  have some_listed := some_wanted_listed mingw32 old
  have some_word : words isBlank (withoutCygwin (searchPath mingw32 old)) ≠ [] := by
    rw [withoutCygwin_searchPath]
    exact words_solid_append_ne_nil solid_dot (by decide) _
  have clean := colon_notMem_listed mingw32 old
  have filtered (es : List Str) (clean : ∀ e ∈ es, ':' ∉ e) : ∀ e ∈ es.filter wanted, ':' ∉ e :=
    fun e member => clean e (List.mem_of_mem_filter member)
  have expanded (es : List Str) (clean : ∀ e ∈ es, ':' ∉ e) :
      ∀ e ∈ expandEntries isBlank ' ' files.expand es, ':' ∉ e :=
    notMem_expandEntries (by decide) (Files.notMem_expand (by decide)) clean
  rw [profilePath, if_pos inside, plain_iff some_word, stripCygwin_searchPath,
    withoutCygwin_searchPath, expandWords_dot files some_listed, List.append_right_inj,
    List.append_right_inj,
    join_inj (expanded _ (filtered _ (expanded _ clean))) (filtered _ clean)
      (expandEntries_ne_nil (some_wanted files mingw32 old)) some_listed,
    join_inj (expanded _ (filtered _ clean)) (filtered _ clean)
      (expandEntries_ne_nil some_listed) some_listed,
    expandEntries_filter_iff files.steady blank_space files.drops]

/-- Where no word matches a file. -/
def Files.none : Files where
  found _ := []
  pattern _ some := absurd rfl some
  across _ _ := rfl
  characters _ _ found := absurd found List.not_mem_nil
  visible _ _ found := absurd found List.not_mem_nil
  brackets _ _ found := absurd found List.not_mem_nil
  directory _ _ found := absurd found List.not_mem_nil

theorem profilePath_single_blank :
    profilePath Files.none true "/c/Program Files/vim:/c/cygwin/bin".toList =
      withoutCygwin (searchPath true "/c/Program Files/vim:/c/cygwin/bin".toList) :=
  (profilePath_eq_iff Files.none true _ (by decide +kernel)).mpr
    (plain_of_no_pattern (by decide +kernel) (by decide +kernel) (by decide +kernel))

/-- Of two blanks in the name of a directory one is lost. -/
theorem profilePath_repeated_blank :
    cygwin <:+: searchPath true "/c/My  Tools:/c/cygwin/bin".toList ∧
      withoutCygwin (searchPath true "/c/My  Tools:/c/cygwin/bin".toList) =
        ".:/usr/local/bin:/mingw/bin:/bin:/c/My  Tools".toList ∧
      profilePath Files.none true "/c/My  Tools:/c/cygwin/bin".toList =
        ".:/usr/local/bin:/mingw/bin:/bin:/c/My Tools".toList := by
  decide +kernel

end MsysGit.EtcProfile
