import Mathlib.Data.List.Basic
import Mathlib.Tactic.Common

/-!
# A value behind an equals sign, as the shell reads it

`readValue` reads the text behind `name=` in a line that the shell evaluates.  It returns the
value if the line does nothing but assign one: quotes and backslashes are removed, blanks and a
comment may follow.  Anything else (an expansion, an operator, another word, a quote
that is not closed) is `none`.

* `readValue_bare_eq_self_iff`: which texts are read as themselves.
* `readValue_quoted_eq_iff`: which ones are when they are put between double quotes.

Whatever is removed makes the value shorter than the text (`length_readValue`), so a text in
which the shell removes anything is not read as itself.
-/

namespace MsysGit.Library.Shell

/-! ### The reading -/

/-- A blank or a newline. -/
def isBlank (c : Char) : Bool := c = ' ' || c = '\t' || c = '\n'

/-- The characters of operators. -/
def isOperator (c : Char) : Bool := c ∈ [';', '&', '|', '<', '>', '(', ')']

/-- The next character makes a dollar sign the beginning of an expansion. -/
def beginsExpansion (s : List Char) : Bool :=
  s.head?.any fun c => c.isAlphanum || c ∈ "_@*#?-$!\x7b([".toList

/-- The next character makes a dollar sign the beginning of a quotation. -/
def beginsQuotation (s : List Char) : Bool := s.head?.any fun c => c = '\'' || c = '"'

/-- Between double quotes, a backslash in front of it is removed. -/
def isEscapable (c : Char) : Bool := c ∈ ['$', '\x60', '"', '\\', '\n']

/-- Nothing but blanks and comments. -/
def isIdle : Bool → List Char → Bool
  | _, [] => true
  | true, c :: s => isIdle (c ≠ '\n') s
  | false, c :: s => if isBlank c then isIdle false s else if c = '#' then isIdle true s else false

/-- What the shell has for the text behind a tilde. -/
structure Tildes where
  /-- The login names that have a home directory; no name is the user that runs the shell. -/
  login : List Char → Bool
  /-- `OLDPWD` is set. -/
  previous : Bool
  /-- The directories on the stack, the working directory among them. -/
  depth : ℕ

/-- A place on the stack of directories. -/
def Tildes.isPlace (tildes : Tildes) (digits : List Char) : Bool :=
  digits ≠ [] && digits.all Char.isDigit && Nat.ofDigitChars 10 digits 0 < tildes.depth

/-- A tilde with this text behind it stands for a directory. -/
def Tildes.expands (tildes : Tildes) (text : List Char) : Bool :=
  tildes.login text || match text with
    | ['+'] => true
    | ['-'] => tildes.previous
    | '+' :: digits => tildes.isPlace digits
    | '-' :: digits => tildes.isPlace digits
    | digits => tildes.isPlace digits

/-- The text behind a tilde that belongs to it. -/
def tildePrefix (s : List Char) : List Char :=
  s.takeWhile fun c => c ≠ '/' && c ≠ ':' && !isBlank c && !isOperator c

/-- Where in a word the reading is. -/
inductive Mode
  /-- Outside quotes; a tilde here can stand for a directory if `start` holds. -/
  | bare (start : Bool)
  | single
  | double

/-- The value that is assigned. -/
def readValue (tildes : Tildes) : Mode → List Char → Option (List Char)
  | .single, [] => none
  | .single, c :: s =>
      if c = '\'' then readValue tildes (.bare false) s
      else (readValue tildes .single s).map (c :: ·)
  | .double, [] => none
  | .double, '\\' :: c :: s =>
      if c = '\n' then readValue tildes .double s
      else if isEscapable c then (readValue tildes .double s).map (c :: ·)
      else (readValue tildes .double (c :: s)).map ('\\' :: ·)
  | .double, c :: s =>
      if c = '"' then readValue tildes (.bare false) s
      else if c = '\x60' || c = '$' && beginsExpansion s then none
      else (readValue tildes .double s).map (c :: ·)
  | .bare _, [] => some []
  | .bare start, '\\' :: c :: s =>
      if c = '\n' then readValue tildes (.bare start) s
      else (readValue tildes (.bare false) s).map (c :: ·)
  | .bare start, c :: s =>
      if isBlank c then if isIdle false s then some [] else none
      else if c = '\'' then readValue tildes .single s
      else if c = '"' then readValue tildes .double s
      else if isOperator c || c = '\x60' || c = '$' && (beginsExpansion s || beginsQuotation s) ||
          c = '~' && start && tildes.expands (tildePrefix s) then none
      else (readValue tildes (.bare (c = ':')) s).map (c :: ·)

/-! ### What is read as it stands -/

/-- Outside quotes, the shell reads `c` in front of `s` as itself. -/
def staysBare (tildes : Tildes) (start : Bool) (c : Char) (s : List Char) : Bool :=
  !(isBlank c || c = '\'' || c = '"' || isOperator c || c = '\x60' ||
    c = '$' && (beginsExpansion s || beginsQuotation s) || c = '\\' && s ≠ [] ||
    c = '~' && start && tildes.expands (tildePrefix s))

/-- All of a text, behind an equals sign or a colon if `start` holds. -/
def readsBare (tildes : Tildes) : Bool → List Char → Bool
  | _, [] => true
  | start, c :: s => staysBare tildes start c s && readsBare tildes (c = ':') s

/-- Between double quotes, the shell reads `c` in front of `s` as itself. -/
def staysQuoted (c : Char) (s : List Char) : Bool :=
  !(c = '"' || c = '\x60' || c = '$' && beginsExpansion s || c = '\\' && s.head?.all isEscapable)

/-- All of a text, up to the closing quote. -/
def readsQuoted : List Char → Bool
  | [] => true
  | c :: s => staysQuoted c s && readsQuoted s

/-! ### Lengths -/

/-- The quote that is still to be closed. -/
def Mode.pending : Mode → ℕ
  | .bare _ => 0
  | .single => 1
  | .double => 1

variable {tildes : Tildes} {start : Bool} {m : Mode} {s v : List Char} {c : Char}

/-- What is read is not longer than the text, and shorter inside quotes. -/
theorem length_readValue (found : readValue tildes m s = some v) :
    v.length + m.pending ≤ s.length := by
  fun_induction readValue tildes m s generalizing v with
  | case1 | case4 | case9 | case15 | case18 => cases found
  | case2 | case5 | case8 | case12 | case16 | case17 =>
      rename_i ih
      have shorter := ih found
      simp only [Mode.pending, List.length_cons] at shorter ⊢
      omega
  | case3 | case6 | case7 | case10 | case13 | case19 =>
      rename_i ih
      obtain ⟨v, read, rfl⟩ := Option.map_eq_some_iff.mp found
      have shorter := ih read
      simp only [Mode.pending, List.length_cons] at shorter ⊢
      omega
  | case11 | case14 =>
      cases found
      exact Nat.zero_le _

/-! ### Outside quotes -/

theorem readValue_bare_cons (last : c = '\\' → s = []) :
    readValue tildes (.bare start) (c :: s) =
      if isBlank c then if isIdle false s then some [] else none
      else if c = '\'' then readValue tildes .single s
      else if c = '"' then readValue tildes .double s
      else if isOperator c || c = '\x60' || c = '$' && (beginsExpansion s || beginsQuotation s) ||
          c = '~' && start && tildes.expands (tildePrefix s) then none
      else (readValue tildes (.bare (c = ':')) s).map (c :: ·) := by
  rw [readValue]
  intro c' s' slash rest
  rw [last slash] at rest
  cases rest

theorem readValue_bare_stays (stays : staysBare tildes start c s = true) :
    readValue tildes (.bare start) (c :: s) =
      (readValue tildes (.bare (c = ':')) s).map (c :: ·) := by
  simp only [staysBare, Bool.not_eq_true', Bool.or_eq_false_iff] at stays
  obtain ⟨⟨⟨⟨⟨⟨⟨blank, single⟩, double⟩, operator⟩, backquote⟩, dollar⟩, slash⟩, tilde⟩ := stays
  rw [readValue_bare_cons, if_neg (Bool.eq_false_iff.mp blank),
    if_neg (of_decide_eq_false single), if_neg (of_decide_eq_false double), if_neg]
  · rw [operator, backquote, dollar, tilde]
    exact Bool.false_ne_true
  · intro here
    simpa [here] using slash

/-- A backslash is removed. -/
theorem length_bare_backslash (found : readValue tildes (.bare start) ('\\' :: c :: s) = some v) :
    v.length < s.length + 2 := by
  rw [readValue] at found
  split_ifs at found with newline
  · have shorter := length_readValue found
    omega
  · obtain ⟨v, read, rfl⟩ := Option.map_eq_some_iff.mp found
    have shorter := length_readValue read
    rw [List.length_cons]
    omega

/-- What does not stay makes the value shorter. -/
theorem length_lt_of_not_staysBare (other : staysBare tildes start c s = false)
    (found : readValue tildes (.bare start) (c :: s) = some v) : v.length < s.length + 1 := by
  by_cases last : c = '\\' → s = []
  · rw [readValue_bare_cons last] at found
    split_ifs at found with blank idle single double special
    · cases found
      exact Nat.succ_pos _
    · exact Nat.lt_succ_of_le (Nat.le_of_succ_le (length_readValue found))
    · exact Nat.lt_succ_of_le (Nat.le_of_succ_le (length_readValue found))
    · -- Nothing is left that would not stay.
      have slash : (decide (c = '\\') && decide (s ≠ [])) = false := by
        by_cases here : c = '\\'
        · rw [last here]
          exact Bool.and_false _
        · rw [decide_eq_false here, Bool.false_and]
      simp only [Bool.not_eq_true, Bool.or_eq_false_iff] at special
      obtain ⟨⟨⟨operator, backquote⟩, dollar⟩, tilde⟩ := special
      have stays : staysBare tildes start c s = true := by
        rw [staysBare, Bool.eq_false_iff.mpr blank, decide_eq_false single, decide_eq_false double,
          operator, backquote, dollar, slash, tilde]
        rfl
      rw [stays] at other
      cases other
  · rw [Classical.not_imp] at last
    obtain ⟨rfl, more⟩ := last
    obtain ⟨d, s, rfl⟩ := List.exists_cons_of_ne_nil more
    rw [List.length_cons]
    exact length_bare_backslash found

theorem readValue_of_readsBare (reads : readsBare tildes start s = true) :
    readValue tildes (.bare start) s = some s := by
  induction s generalizing start with
  | nil => rw [readValue]
  | cons c s ih =>
      rw [readsBare, Bool.and_eq_true] at reads
      rw [readValue_bare_stays reads.1, ih reads.2, Option.map_some]

/-- A value that is as long as the text is the text. -/
theorem readsBare_of_length (found : readValue tildes (.bare start) s = some v)
    (long : s.length ≤ v.length) : readsBare tildes start s = true := by
  induction s generalizing start v with
  | nil => rw [readsBare]
  | cons c s ih =>
      rw [readsBare, Bool.and_eq_true]
      cases stays : staysBare tildes start c s with
      | false =>
          have shorter := length_lt_of_not_staysBare stays found
          rw [List.length_cons] at long
          omega
      | true =>
          rw [readValue_bare_stays stays] at found
          obtain ⟨v, read, rfl⟩ := Option.map_eq_some_iff.mp found
          exact ⟨rfl, ih read (Nat.le_of_succ_le_succ long)⟩

/-- **Without quotes**, a text is read as itself if every character is. -/
theorem readValue_bare_eq_self_iff :
    readValue tildes (.bare start) s = some s ↔ readsBare tildes start s = true :=
  ⟨fun found => readsBare_of_length found (Nat.le_refl _), readValue_of_readsBare⟩

-- Two directories on the stack, and no directory before this one.
example : ["~+", "~-", "~-1", "~2"].map
    (fun text => readsBare ⟨fun name => name = [], false, 2⟩ true text.toList) =
      [false, true, false, true] := by
  decide

theorem quote_notMem_of_readsBare (reads : readsBare tildes start s = true) : '"' ∉ s := by
  induction s generalizing start with
  | nil => exact List.not_mem_nil
  | cons c s ih =>
      rw [readsBare, Bool.and_eq_true] at reads
      rw [List.mem_cons, not_or]
      refine ⟨?_, ih reads.2⟩
      rintro rfl
      cases reads.1

/-! ### Between double quotes -/

theorem beginsExpansion_quote (s : List Char) :
    beginsExpansion (s ++ ['"']) = beginsExpansion s := by
  cases s with
  | nil => rfl
  | cons c s => rfl

theorem readValue_double_cons (last : c = '\\' → s = []) :
    readValue tildes .double (c :: s) =
      if c = '"' then readValue tildes (.bare false) s
      else if c = '\x60' || c = '$' && beginsExpansion s then none
      else (readValue tildes .double s).map (c :: ·) := by
  rw [readValue]
  intro c' s' slash rest
  rw [last slash] at rest
  cases rest

theorem readValue_double_stays (stays : staysQuoted c s = true) :
    readValue tildes .double (c :: (s ++ ['"'])) =
      (readValue tildes .double (s ++ ['"'])).map (c :: ·) := by
  simp only [staysQuoted, Bool.not_eq_true', Bool.or_eq_false_iff] at stays
  obtain ⟨⟨⟨quote, backquote⟩, dollar⟩, slash⟩ := stays
  by_cases here : c = '\\'
  · -- The backslash is kept in front of a character that it does not escape.
    subst here
    cases s with
    | nil => cases slash
    | cons d s =>
        have plain : isEscapable d = false := slash
        have no_newline : ¬ d = '\n' := by
          rintro rfl
          cases plain
        rw [List.cons_append, readValue, if_neg no_newline, if_neg (Bool.eq_false_iff.mp plain)]
  · rw [readValue_double_cons fun slash => absurd slash here, beginsExpansion_quote,
      if_neg (of_decide_eq_false quote), backquote, dollar]
    rfl

/-- What does not stay makes the value shorter, or the closing quote does. -/
theorem length_lt_of_not_staysQuoted (other : staysQuoted c s = false)
    (found : readValue tildes .double (c :: (s ++ ['"'])) = some v) : v.length < s.length + 1 := by
  by_cases here : c = '\\'
  · subst here
    cases s with
    | nil =>
        rw [List.nil_append, readValue] at found
        cases found
    | cons d s =>
        have escaped : isEscapable d = true := by
          by_contra plain
          rw [Bool.not_eq_true] at plain
          have stays : staysQuoted '\\' (d :: s) = !(isEscapable d) := rfl
          rw [stays, plain] at other
          cases other
        rw [List.cons_append, readValue, if_pos escaped] at found
        rw [List.length_cons]
        split_ifs at found with newline
        · have shorter := length_readValue found
          rw [List.length_append] at shorter
          simp only [Mode.pending, List.length_singleton] at shorter
          omega
        · obtain ⟨v, read, rfl⟩ := Option.map_eq_some_iff.mp found
          have shorter := length_readValue read
          rw [List.length_append] at shorter
          simp only [Mode.pending, List.length_singleton] at shorter
          rw [List.length_cons]
          omega
  · rw [readValue_double_cons fun slash => absurd slash here, beginsExpansion_quote] at found
    split_ifs at found with quote special
    · by_contra long
      have reads := readsBare_of_length found (by
        rw [List.length_append]
        exact Nat.not_lt.mp long)
      exact quote_notMem_of_readsBare reads (List.mem_append_right _ List.mem_cons_self)
    · rw [Bool.not_eq_true, Bool.or_eq_false_iff] at special
      have stays : staysQuoted c s = true := by
        rw [staysQuoted, decide_eq_false quote, special.1, special.2, decide_eq_false here]
        rfl
      rw [stays] at other
      cases other

theorem readValue_double_eq_iff :
    readValue tildes .double (s ++ ['"']) = some s ↔ readsQuoted s = true := by
  induction s with
  | nil =>
      rw [List.nil_append, readValue_double_cons (c := '"') fun _ => rfl, if_pos rfl, readValue,
        readsQuoted]
      exact iff_of_true rfl rfl
  | cons c s ih =>
      rw [List.cons_append, readsQuoted, Bool.and_eq_true]
      cases stays : staysQuoted c s with
      | false =>
          refine iff_of_false (fun found => ?_) fun both => Bool.false_ne_true both.1
          exact absurd (length_lt_of_not_staysQuoted stays found) (Nat.lt_irrefl _)
      | true =>
          rw [readValue_double_stays stays, Option.map_eq_some_iff]
          constructor
          · rintro ⟨v, read, same⟩
            cases same
            exact ⟨rfl, ih.mp read⟩
          · rintro ⟨-, reads⟩
            exact ⟨s, ih.mpr reads, rfl⟩

/-- **Between double quotes**, a text is read as itself if every character is. -/
theorem readValue_quoted_eq_iff :
    readValue tildes (.bare start) ('"' :: (s ++ ['"'])) = some s ↔ readsQuoted s = true := by
  have opened : readValue tildes (.bare start) ('"' :: (s ++ ['"'])) =
      readValue tildes .double (s ++ ['"']) := by
    rw [readValue_bare_cons (c := '"') fun slash => absurd slash (by decide)]
    rfl
  rw [opened]
  exact readValue_double_eq_iff

/-! ### Both ways -/

/-- A text without quotes, backslashes, blanks, operators and expansions. -/
def IsPlain (tildes : Tildes) (s : List Char) : Prop :=
  readsBare tildes true s = true ∧ '\\' ∉ s

instance : Decidable (IsPlain tildes s) := inferInstanceAs (Decidable (_ ∧ _))

theorem readsQuoted_of_plain (reads : readsBare tildes start s = true) (no_slash : '\\' ∉ s) :
    readsQuoted s = true := by
  induction s generalizing start with
  | nil => rw [readsQuoted]
  | cons c s ih =>
      rw [readsBare, Bool.and_eq_true] at reads
      rw [List.mem_cons, not_or] at no_slash
      rw [readsQuoted, Bool.and_eq_true]
      refine ⟨?_, ih reads.2 no_slash.2⟩
      have stays := reads.1
      simp only [staysBare, Bool.not_eq_true', Bool.or_eq_false_iff] at stays
      obtain ⟨⟨⟨⟨⟨⟨⟨-, -⟩, double⟩, -⟩, backquote⟩, dollar⟩, -⟩, -⟩ := stays
      have expansion : (decide (c = '$') && beginsExpansion s) = false := by
        rw [Bool.and_eq_false_iff] at dollar ⊢
        exact dollar.imp_right fun none => (Bool.or_eq_false_iff.mp none).1
      rw [staysQuoted, double, backquote, expansion, decide_eq_false (Ne.symm no_slash.1)]
      rfl

/-- A backslash that is read as itself outside quotes is the last character. -/
theorem getLast?_of_readsBare (reads : readsBare tildes start s = true) (slash : '\\' ∈ s) :
    s.getLast? = some '\\' := by
  induction s generalizing start with
  | nil => cases slash
  | cons c s ih =>
      rw [readsBare, Bool.and_eq_true] at reads
      rcases List.mem_cons.mp slash with rfl | later
      · have last : s = [] := by
          by_contra more
          have stays := reads.1
          simp only [staysBare, Bool.not_eq_true', Bool.or_eq_false_iff] at stays
          simpa [more] using stays.1.2
        rw [last]
        rfl
      · rw [List.getLast?_cons, ih reads.2 later]
        rfl

/-- Between quotes, no backslash can be the last character. -/
theorem getLast?_of_readsQuoted (reads : readsQuoted s = true) : s.getLast? ≠ some '\\' := by
  induction s with
  | nil => nofun
  | cons c s ih =>
      rw [readsQuoted, Bool.and_eq_true] at reads
      cases s with
      | nil =>
          intro last
          cases last
          cases reads.1
      | cons d s =>
          rw [List.getLast?_cons_cons]
          exact ih reads.2

/-- **Both ways of writing a value** give the value back exactly if it is plain. -/
theorem isPlain_iff :
    readsBare tildes true s = true ∧ readsQuoted s = true ↔ IsPlain tildes s := by
  constructor
  · rintro ⟨bare, quoted⟩
    exact ⟨bare, fun slash => getLast?_of_readsQuoted quoted (getLast?_of_readsBare bare slash)⟩
  · rintro ⟨bare, no_slash⟩
    exact ⟨bare, readsQuoted_of_plain bare no_slash⟩

end MsysGit.Library.Shell
