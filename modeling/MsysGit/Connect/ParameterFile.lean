import MsysGit.Library.Lines
import MsysGit.Library.SeparatedText
import MsysGit.Library.Trim
import MsysGit.Connect.Socks5

/-!
# Parameter files

`read_parameter_file` fills `parameter_table` from files with lines `NAME = value`, and
`getparam` looks there for what the environment does not define.  The table is a list of
names of its own: a name that is not among them cannot be set from a file.

A line is read with one call of `fgets`; a line without its newline in the buffer ends
the process, even if it is the last one of the file.
-/

namespace MsysGit.Connect

open MsysGit.Library MsysGit.Library.CString

/-! ### The code -/

abbrev ParameterTable := List (String × Option Bytes)

/-- The names in `parameter_table`. -/
def parameterNames : List String :=
  ["SOCKS_SERVER", "SOCKS5_SERVER", "SOCKS4_SERVER", "SOCKS_RESOLVE", "SOCKS5_RESOLVE",
    "SOCKS4_RESOLVE", "SOCKS5_USER", "SOCKS5_PASSWD", "SOCKS5_PASSWORD", "HTTP_PROXY",
    "HTTP_PROXY_USER", "HTTP_PROXY_PASSWORD", "CONNECT_USER", "CONNECT_PASSWORD", "SSH_ASKPASS",
    "SOCKS5_DIRECT", "SOCKS4_DIRECT", "SOCKS_DIRECT", "HTTP_DIRECT", "CONNECT_DIRECT",
    "SOCKS5_AUTH"]

/-- The names that are given to `getparam`, in the order of the calls. -/
def lookedUpNames : List String :=
  ["SOCKS5_DIRECT", "SOCKS4_DIRECT", "SOCKS_DIRECT", "HTTP_DIRECT", "CONNECT_DIRECT",
    "SOCKS5_USER", "SOCKS4_USER", "SOCKS_USER", "HTTP_PROXY_USER", "CONNECT_USER",
    "HTTP_PROXY_PASSWORD", "SOCKS5_PASSWD", "SOCKS5_PASSWORD", "CONNECT_PASSWORD",
    "SOCKS5_SERVER", "SOCKS4_SERVER", "SOCKS_SERVER", "SOCKS5_RESOLVE", "SOCKS4_RESOLVE",
    "SOCKS_RESOLVE", "HTTP_PROXY", "TELNET_PROXY", "SSH_ASKPASS", "SOCKS5_AUTH"]

/-- The table at the start. -/
def parameterTable : ParameterTable := parameterNames.map fun name => (name, none)

/-- `item->value = strdup(value)` for the first item of the name, if there is one. -/
def setParameter (param value : Bytes) : ParameterTable → Option ParameterTable
  | [] => none
  | item :: items =>
      if text item.1 = param then some ((item.1, some value) :: items)
      else (setParameter param value items).map (item :: ·)

/-- What a line says. -/
inductive ParameterLine where
  | blank
  | missingEqualSign
  | setting (param value : Bytes)

/-- The string in the buffer, without the newline, taken apart. -/
def parameterLine (lbuf : Bytes) : ParameterLine :=
  let line := cutAt lbuf 35
  let param := line.dropWhile isBlank
  if param = [] then .blank
  else
    match strchr param 61 with
    | none => .missingEqualSign
    | some equals =>
        let name := (param.take (param.length - equals.length)).rdropWhile isBlank
        let value := (equals.tail.dropWhile isBlank).rdropWhile isBlank
        -- Without a name, the terminator goes to the start of the buffer and not behind `param`.
        if name = [] ∧ param.length < line.length then .setting (equals.rdropWhile isBlank) value
        else .setting name value

/-- The error messages, with the name and the number of the line in front. -/
inductive ParameterError where
  | missingEqualSign (file : String) (line : ℕ)
  | unknownParameter (file : String) (line : ℕ) (param : Bytes)

structure ParameterState where
  table : ParameterTable
  errors : List ParameterError

/-- The body of the loop over the lines. -/
def readLine (file : String) (line : ℕ) (lbuf : Bytes) (s : ParameterState) : ParameterState :=
  match parameterLine lbuf with
  | .blank => s
  | .missingEqualSign => { s with errors := s.errors ++ [.missingEqualSign file line] }
  | .setting param value =>
      match setParameter param value s.table with
      | none => { s with errors := s.errors ++ [.unknownParameter file line param] }
      | some table => { s with table := table }

/-- The loop over the lines; `none` is a call of `fatal`.  The fuel is the number of bytes left. -/
def readLines (file : String) : ℕ → ℕ → Bytes → ParameterState → Option ParameterState
  | 0, _, _, s => some s
  | fuel + 1, line, content, s =>
      if content = [] then some s
      else
        -- `fgets(lbuf, 1024, f)`; `lbuf` is a C string.
        let (chunk, rest) := takeLine 10 1023 content
        let lbuf := cstr chunk 0
        match strchr lbuf 10 with
        | none => none
        | some newline =>
            readLines file fuel (line + 1) rest
              (readLine file line (lbuf.take (lbuf.length - newline.length)) s)

/-- `read_parameter_file_1`, with the content of the file if it can be opened. -/
def readParameterFile1 (file : String) (content : Option Bytes) (s : ParameterState) :
    Option ParameterState :=
  match content with
  | none => some s
  | some content => readLines file content.length 1 content s

/-- The parameter files: `/etc/connectrc`, and where there is one a file in the home directory. -/
structure ParameterFiles where
  parameterFile : Option Bytes
  /-- Its name and content; none on Windows. -/
  dotFile : Option (String × Option Bytes)

/-- `read_parameter_file` -/
def readParameterFile (files : ParameterFiles) : Option ParameterState := do
  let s ← readParameterFile1 "/etc/connectrc" files.parameterFile ⟨parameterTable, []⟩
  match files.dotFile with
  | none => pure s
  | some (name, content) => readParameterFile1 name content s

/-! ### What the files say -/

/-- The environment variable is set. -/
def Globals.setenv (g : Globals) (name : String) (value : Bytes) : Globals :=
  { g with getenv := fun n => if n = name then some value else g.getenv n }

/-- What can be written behind an equal sign. -/
def IsValue (value : Bytes) : Prop := 35 ∉ value ∧ Trimmed isBlank value

/-- The line is `NAME = value`, with any blanks around both and a comment perhaps. -/
def Assigns (name : String) (line value : Bytes) : Prop :=
  IsValue value ∧ ∃ b₁ b₂ b₃ b₄ comment,
    (∀ c ∈ b₁ ++ b₂ ++ b₃ ++ b₄, isBlank c = true) ∧ (∀ c ∈ comment.head?, c = 35) ∧
    line = b₁ ++ (text name ++ (b₂ ++ 61 :: (b₃ ++ value ++ b₄ ++ comment)))

/-- The contents of the files that can be opened, as they are read. -/
def ParameterFiles.contents (files : ParameterFiles) : List Bytes :=
  files.parameterFile.toList ++ (files.dotFile.bind Prod.snd).toList

/-- The lines of all files. -/
def ParameterFiles.lines (files : ParameterFiles) : List Bytes :=
  files.contents.flatMap fun content => content.splitOn 10

/-- Every line ends with a newline and fits the buffer, and no byte is zero. -/
def ReadableFile (content : Bytes) : Prop :=
  (∀ c ∈ content.getLast?, c = 10) ∧ ∀ line ∈ content.splitOn 10, line.length ≤ 1022 ∧ 0 ∉ line

instance (content : Bytes) : Decidable (ReadableFile content) :=
  inferInstanceAs (Decidable ((∀ c ∈ content.getLast?, c = 10) ∧ _))

/-- The last of the lines that give the parameter a value gives it this one. -/
def LastAssigns (name : String) (lines : List Bytes) (value : Bytes) : Prop :=
  ∃ earlier line later, lines = earlier ++ line :: later ∧ Assigns name line value ∧
    ∀ other ∈ later, ∀ w, ¬ Assigns name other w

/-! ### One line -/

/-- A name that can stand in front of an equal sign. -/
def IsName (name : Bytes) : Prop :=
  name ≠ [] ∧ ∀ c ∈ name, isBlank c = false ∧ c ≠ 35 ∧ c ≠ 61

instance (name : Bytes) : Decidable (IsName name) := inferInstanceAs (Decidable (_ ∧ _))

theorem IsName.trimmed {name : Bytes} (isName : IsName name) : Trimmed isBlank name :=
  ⟨fun c first => (isName.2 c (List.mem_of_mem_head? first)).1,
    fun c last => (isName.2 c (List.mem_of_mem_getLast? last)).1⟩

/-- No blank is a number sign or an equal sign. -/
theorem ne_of_isBlank {c : UInt8} (blank : isBlank c = true) : c ≠ 35 ∧ c ≠ 61 := by
  constructor
  · rintro rfl
    exact absurd blank (by decide)
  · rintro rfl
    exact absurd blank (by decide)

/-- What is left of a line with a comment. -/
theorem takeWhile_comment {line comment : Bytes} (clean : 35 ∉ line)
    (starts : ∀ c ∈ comment.head?, c = 35) : (line ++ comment).takeWhile (· ≠ 35) = line := by
  rw [takeWhile_ne_append clean]
  cases comment with
  | nil => exact List.append_nil line
  | cons c comment =>
      rw [starts c rfl]
      exact List.append_nil line

/-- A line that gives a value is read as one that does. -/
theorem parameterLine_of_assigns {name : String} {line value : Bytes}
    (isName : IsName (text name)) (assigns : Assigns name line value) :
    parameterLine line = .setting (text name) value := by
  obtain ⟨⟨no_comment, trimmed⟩, b₁, b₂, b₃, b₄, comment, blanks, starts, rfl⟩ := assigns
  have blank₁ : ∀ c ∈ b₁, isBlank c = true := fun c inside => blanks c (by simp [inside])
  have blank₂ : ∀ c ∈ b₂, isBlank c = true := fun c inside => blanks c (by simp [inside])
  have blank₃ : ∀ c ∈ b₃, isBlank c = true := fun c inside => blanks c (by simp [inside])
  have blank₄ : ∀ c ∈ b₄, isBlank c = true := fun c inside => blanks c (by simp [inside])
  have clean : 35 ∉ b₁ ++ (text name ++ (b₂ ++ 61 :: (b₃ ++ value ++ b₄))) := by
    have apart : ∀ {b : Bytes}, (∀ c ∈ b, isBlank c = true) → 35 ∉ b := fun all inside =>
      (ne_of_isBlank (all 35 inside)).1 rfl
    have name_clean : 35 ∉ text name := fun inside => (isName.2 35 inside).2.1 rfl
    simp [apart blank₁, apart blank₂, apart blank₃, apart blank₄, name_clean, no_comment]
  have first : 61 ∉ text name ++ b₂ := by
    rw [List.mem_append, not_or]
    exact ⟨fun inside => (isName.2 61 inside).2.2 rfl, fun inside =>
      (ne_of_isBlank (blank₂ 61 inside)).2 rfl⟩
  have cut : (b₁ ++ (text name ++ (b₂ ++ 61 :: (b₃ ++ value ++ b₄ ++ comment)))).takeWhile
      (· ≠ 35) = b₁ ++ (text name ++ (b₂ ++ 61 :: (b₃ ++ value ++ b₄))) := by
    rw [← takeWhile_comment clean starts]
    simp only [List.append_assoc, List.cons_append]
  have param : (b₁ ++ (text name ++ (b₂ ++ 61 :: (b₃ ++ value ++ b₄)))).dropWhile isBlank =
      text name ++ b₂ ++ 61 :: (b₃ ++ value ++ b₄) := by
    have start : ∀ c ∈ (text name ++ (b₂ ++ 61 :: (b₃ ++ value ++ b₄))).head?,
        isBlank c = false := by
      intro c head
      rw [List.head?_append_of_ne_nil _ isName.1] at head
      exact isName.trimmed.1 c head
    rw [List.dropWhile_append_of_pos blank₁, dropWhile_of_head start, List.append_assoc (text name)]
  rw [parameterLine]
  simp only [cutAt_eq, cut, param]
  have before : (text name ++ b₂).rdropWhile isBlank = text name := by
    rw [rdropWhile_append_blanks blank₂, rdropWhile_of_getLast isName.trimmed.2]
  have value_eq : ((b₃ ++ value ++ b₄).dropWhile isBlank).rdropWhile isBlank = value :=
    trim_append trimmed blank₃ blank₄
  rw [if_neg (by simp), strchr_append first]
  have front : (text name ++ b₂ ++ 61 :: (b₃ ++ value ++ b₄)).take
      ((text name ++ b₂ ++ 61 :: (b₃ ++ value ++ b₄)).length -
        (61 :: (b₃ ++ value ++ b₄)).length) = text name ++ b₂ := by
    rw [List.length_append, Nat.add_sub_cancel, List.take_left]
  dsimp only [List.tail_cons]
  rw [front, before, value_eq, if_neg fun both => isName.1 both.1]

/-- A line that is read as one that gives a value to a name does. -/
theorem assigns_of_parameterLine {name : String} {line value : Bytes}
    (isName : IsName (text name)) (parsed : parameterLine line = .setting (text name) value) :
    Assigns name line value := by
  rw [parameterLine, cutAt_eq] at parsed
  have whole := List.takeWhile_append_dropWhile (p := fun c => decide (c ≠ 35)) (l := line)
  have clean := notMem_takeWhile_ne 35 line
  have starts : ∀ c ∈ (line.dropWhile (· ≠ 35)).head?, c = 35 := fun _ => head?_dropWhile_ne
  revert parsed whole clean starts
  generalize line.takeWhile (· ≠ 35) = front
  generalize line.dropWhile (· ≠ 35) = comment
  intro parsed whole clean starts
  have skipped := List.takeWhile_append_dropWhile (p := isBlank) (l := front)
  have blank₁ : ∀ c ∈ front.takeWhile isBlank, isBlank c = true := fun c =>
    List.mem_takeWhile_imp
  dsimp only at parsed
  split at parsed
  · cases parsed
  · by_cases inside : 61 ∈ front.dropWhile isBlank
    · obtain ⟨before, rest, split, first⟩ := List.eq_append_cons_of_mem inside
      have taken : (before ++ 61 :: rest).take
          ((before ++ 61 :: rest).length - (61 :: rest).length) = before := by
        rw [List.length_append, Nat.add_sub_cancel, List.take_left]
      rw [split, strchr_append first] at parsed
      dsimp only [List.tail_cons] at parsed
      rw [taken] at parsed
      split at parsed
      · -- The name would begin with the equal sign.
        obtain ⟨named, -⟩ := ParameterLine.setting.inj parsed
        obtain ⟨blanks, -, behind⟩ := exists_rdropWhile isBlank (61 :: rest)
        rw [named] at behind
        have begins : (text name).head? = some 61 := by
          have front : (text name ++ blanks).head? = (text name).head? :=
            List.head?_append_of_ne_nil (text name) isName.1
          rw [← front, ← behind]
          rfl
        exact absurd rfl (isName.2 61 (List.mem_of_mem_head? begins)).2.2
      · obtain ⟨named, rfl⟩ := ParameterLine.setting.inj parsed
        obtain ⟨b₂, blank₂, split₂⟩ := exists_rdropWhile isBlank before
        obtain ⟨b₃, b₄, blank₃, blank₄, split₃⟩ := exists_trim isBlank rest
        rw [named] at split₂
        have value_clean : 35 ∉ trim isBlank rest := by
          intro mem
          refine clean ?_
          rw [← skipped, split, split₃]
          simp [mem]
        refine ⟨⟨value_clean, trimmed_trim rest⟩, front.takeWhile isBlank, b₂, b₃, b₄, comment,
          ?_, starts, ?_⟩
        · simp only [List.forall_mem_append]
          exact ⟨⟨⟨blank₁, blank₂⟩, blank₃⟩, blank₄⟩
        · calc line = front.takeWhile isBlank ++ (before ++ 61 :: rest) ++ comment := by
                rw [← split, skipped, whole]
            _ = front.takeWhile isBlank ++ (text name ++ b₂ ++
                  61 :: (b₃ ++ trim isBlank rest ++ b₄)) ++ comment := by
                rw [← split₂, ← split₃]
            _ = _ := by
                simp only [List.append_assoc, List.cons_append]
                rfl
    · rw [strchr_of_notMem inside] at parsed
      cases parsed

theorem parameterLine_eq_setting_iff {name : String} {line value : Bytes}
    (isName : IsName (text name)) :
    parameterLine line = .setting (text name) value ↔ Assigns name line value :=
  ⟨assigns_of_parameterLine isName, parameterLine_of_assigns isName⟩

/-! ### The table -/

/-- The value that the table has for a name. -/
def storedValue (table : ParameterTable) (name : String) : Option Bytes :=
  ((table.find? fun item => item.1 = name).map Prod.snd).join

theorem storedValue_cons {item : String × Option Bytes} {table : ParameterTable} {name : String} :
    storedValue (item :: table) name =
      if item.1 = name then item.2 else storedValue table name := by
  rw [storedValue, List.find?_cons]
  by_cases here : item.1 = name
  · simp [here]
  · simp [here, storedValue]

theorem setParameter_of_eq_none {param value : Bytes} {table : ParameterTable}
    (unknown : setParameter param value table = none) {name : String}
    (inside : name ∈ table.map Prod.fst) : text name ≠ param := by
  induction table with
  | nil => exact absurd inside List.not_mem_nil
  | cons item table ih =>
      rw [setParameter] at unknown
      split at unknown
      · cases unknown
      · rename_i other
        rcases List.mem_cons.mp inside with rfl | inside
        · exact other
        · exact ih (Option.map_eq_none_iff.mp unknown) inside

/-- Setting a parameter changes its value only. -/
theorem setParameter_of_eq_some {param value : Bytes} {table table' : ParameterTable}
    (set : setParameter param value table = some table') :
    table'.map Prod.fst = table.map Prod.fst ∧ ∀ name,
      (∀ other ∈ table.map Prod.fst, text other = text name → other = name) →
      name ∈ table.map Prod.fst →
      storedValue table' name =
        if text name = param then some value else storedValue table name := by
  induction table generalizing table' with
  | nil => cases set
  | cons item table ih =>
      rw [setParameter] at set
      split at set
      · rename_i here
        obtain rfl := Option.some.inj set
        refine ⟨rfl, fun name apart _ => ?_⟩
        rw [storedValue_cons, storedValue_cons]
        by_cases same : item.1 = name
        · rw [if_pos same, if_pos (same ▸ here)]
        · have different : ¬ text name = param := fun also =>
            same (apart item.1 List.mem_cons_self (here.trans also.symm))
          rw [if_neg same, if_neg same, if_neg different]
      · rename_i other
        obtain ⟨rest, set', rfl⟩ := Option.map_eq_some_iff.mp set
        obtain ⟨names, values⟩ := ih set'
        refine ⟨congrArg (item.1 :: ·) names, fun name apart inside => ?_⟩
        rw [storedValue_cons, storedValue_cons]
        by_cases same : item.1 = name
        · rw [if_pos same, if_pos same, if_neg (same ▸ other)]
        · rw [if_neg same, if_neg same]
          have inside' : name ∈ table.map Prod.fst :=
            (List.mem_cons.mp inside).resolve_left (Ne.symm same)
          exact values name (fun other mem => apart other (List.mem_cons_of_mem _ mem)) inside'

theorem isName_of_mem {name : String} (inside : name ∈ parameterNames) : IsName (text name) := by
  revert name
  decide +kernel

theorem text_injective {other name : String} (inside : other ∈ parameterNames)
    (inside' : name ∈ parameterNames) (same : text other = text name) : other = name := by
  have all : ∀ other ∈ parameterNames, ∀ name ∈ parameterNames,
      text other = text name → other = name := by decide +kernel
  exact all other inside name inside' same

/-! ### The lines -/

/-- The table has its names. -/
def ParameterState.Sound (s : ParameterState) : Prop := s.table.map Prod.fst = parameterNames

/-- **One line** sets the parameter it gives a value to. -/
theorem readLine_spec {s : ParameterState} (sound : s.Sound) (file : String) (n : ℕ)
    (line : Bytes) :
    (readLine file n line s).Sound ∧ ∀ name ∈ parameterNames,
      (∀ value, Assigns name line value →
        storedValue (readLine file n line s).table name = some value) ∧
      ((∀ value, ¬ Assigns name line value) →
        storedValue (readLine file n line s).table name = storedValue s.table name) := by
  have parsed_iff : ∀ name ∈ parameterNames, ∀ value,
      parameterLine line = .setting (text name) value ↔ Assigns name line value :=
    fun name inside value => parameterLine_eq_setting_iff (isName_of_mem inside)
  have silent : (∀ param value, parameterLine line ≠ .setting param value) →
      ∀ name ∈ parameterNames, ∀ value, ¬ Assigns name line value :=
    fun none name inside value assigns => none _ _ ((parsed_iff name inside value).mpr assigns)
  rw [readLine]
  cases parsed : parameterLine line with
  | blank =>
      refine ⟨sound, fun name inside => ⟨fun value assigns => ?_, fun _ => rfl⟩⟩
      exact absurd assigns (silent (by simp [parsed]) name inside value)
  | missingEqualSign =>
      refine ⟨sound, fun name inside => ⟨fun value assigns => ?_, fun _ => rfl⟩⟩
      exact absurd assigns (silent (by simp [parsed]) name inside value)
  | setting param value =>
      dsimp only
      cases set : setParameter param value s.table with
      | none =>
          refine ⟨sound, fun name inside => ⟨fun value' assigns => ?_, fun _ => rfl⟩⟩
          rw [← parsed_iff name inside, parsed] at assigns
          have here : name ∈ s.table.map Prod.fst := by rwa [sound]
          exact absurd (ParameterLine.setting.inj assigns).1.symm (setParameter_of_eq_none set here)
      | some table =>
          obtain ⟨names, values⟩ := setParameter_of_eq_some set
          refine ⟨names.trans sound, fun name inside => ?_⟩
          have stored := values name
            (fun other mem => text_injective (sound ▸ mem) inside) (by rwa [sound])
          constructor
          · intro value' assigns
            rw [← parsed_iff name inside, parsed] at assigns
            obtain ⟨rfl, rfl⟩ := ParameterLine.setting.inj assigns
            rw [stored, if_pos rfl]
          · intro other
            rw [stored, if_neg]
            rintro rfl
            exact other value ((parsed_iff name inside value).mp parsed)

/-- Lines with the name of their file and their number in it. -/
def numbered (file : String) : ℕ → List Bytes → List (String × ℕ × Bytes)
  | _, [] => []
  | n, line :: lines => (file, n, line) :: numbered file (n + 1) lines

def runLines (lines : List (String × ℕ × Bytes)) (s : ParameterState) : ParameterState :=
  lines.foldl (fun s line => readLine line.1 line.2.1 line.2.2 s) s

theorem runLines_append (lines later : List (String × ℕ × Bytes)) (s : ParameterState) :
    runLines (lines ++ later) s = runLines later (runLines lines s) := List.foldl_append

theorem map_numbered (file : String) (n : ℕ) (lines : List Bytes) :
    (numbered file n lines).map (fun line => line.2.2) = lines := by
  induction lines generalizing n with
  | nil => rfl
  | cons line lines ih => rw [numbered, List.map_cons, ih]

theorem lastAssigns_cons {name : String} {line value : Bytes} {lines : List Bytes} :
    LastAssigns name (line :: lines) value ↔
      LastAssigns name lines value ∨
        Assigns name line value ∧ ∀ other ∈ lines, ∀ w, ¬ Assigns name other w := by
  constructor
  · rintro ⟨earlier, last, later, split, assigns, silent⟩
    rcases List.cons_eq_append_iff.mp split with ⟨rfl, here⟩ | ⟨earlier', rfl, rest⟩
    · cases here
      exact Or.inr ⟨assigns, silent⟩
    · exact Or.inl ⟨earlier', last, later, rest, assigns, silent⟩
  · rintro (⟨earlier, last, later, rfl, assigns, silent⟩ | ⟨assigns, silent⟩)
    · exact ⟨line :: earlier, last, later, rfl, assigns, silent⟩
    · exact ⟨[], line, lines, rfl, assigns, silent⟩

/-- If some line gives a value, there is a last one that does. -/
theorem exists_lastAssigns {name : String} {lines : List Bytes}
    (some_line : ∃ line ∈ lines, ∃ value, Assigns name line value) :
    ∃ value, LastAssigns name lines value := by
  induction lines with
  | nil =>
      obtain ⟨line, inside, -⟩ := some_line
      exact absurd inside List.not_mem_nil
  | cons line lines ih =>
      by_cases later : ∃ line ∈ lines, ∃ value, Assigns name line value
      · obtain ⟨value, last⟩ := ih later
        exact ⟨value, lastAssigns_cons.mpr (Or.inl last)⟩
      · obtain ⟨line', inside, value, assigns⟩ := some_line
        have here : line' = line := (List.mem_cons.mp inside).resolve_right fun mem =>
          later ⟨line', mem, value, assigns⟩
        subst here
        refine ⟨value, lastAssigns_cons.mpr (Or.inr ⟨assigns, fun other mem w also => ?_⟩)⟩
        exact later ⟨other, mem, w, also⟩

/-- **All lines**: the last one that gives the parameter a value decides. -/
theorem runLines_spec {s : ParameterState} (sound : s.Sound) {name : String}
    (inside : name ∈ parameterNames) (lines : List (String × ℕ × Bytes)) :
    (∀ value, LastAssigns name (lines.map fun line => line.2.2) value →
      storedValue (runLines lines s).table name = some value) ∧
    ((∀ line ∈ lines, ∀ value, ¬ Assigns name line.2.2 value) →
      storedValue (runLines lines s).table name = storedValue s.table name) := by
  induction lines generalizing s with
  | nil =>
      refine ⟨fun value last => ?_, fun _ => rfl⟩
      obtain ⟨earlier, line, later, split, -⟩ := last
      simp at split
  | cons line lines ih =>
      obtain ⟨sound', one⟩ := readLine_spec sound line.1 line.2.1 line.2.2
      obtain ⟨sets, keeps⟩ := ih sound'
      constructor
      · intro value last
        rw [List.map_cons, lastAssigns_cons] at last
        rcases last with last | ⟨assigns, silent⟩
        · exact sets value last
        · have kept := keeps fun other mem w => silent _ (List.mem_map_of_mem mem) w
          exact kept.trans ((one name inside).1 value assigns)
      · intro silent
        have kept := keeps fun other mem => silent other (List.mem_cons_of_mem _ mem)
        exact kept.trans ((one name inside).2 (silent line List.mem_cons_self))

/-! ### The files -/

theorem readableFile_nil : ReadableFile [] := by
  refine ⟨fun c last => absurd last (by simp), fun line inside => ?_⟩
  obtain rfl : line = [] := by simpa using inside
  decide

theorem readableFile_append {line rest : Bytes} (single : 10 ∉ line) :
    ReadableFile (line ++ 10 :: rest) ↔ (line.length ≤ 1022 ∧ 0 ∉ line) ∧ ReadableFile rest := by
  have last : (∀ c ∈ (line ++ 10 :: rest).getLast?, c = 10) ↔ ∀ c ∈ rest.getLast?, c = 10 := by
    rw [List.getLast?_append_of_ne_nil line (List.cons_ne_nil 10 rest), List.getLast?_cons]
    cases rest.getLast? with
    | none => simp
    | some c => simp
  rw [ReadableFile, ReadableFile, last, List.splitOn_append_cons_self_of_not_mem single,
    List.forall_mem_cons]
  exact ⟨fun ⟨ended, here, others⟩ => ⟨here, ended, others⟩, fun ⟨here, ended, others⟩ =>
    ⟨ended, here, others⟩⟩

theorem not_readableFile {content : Bytes} (some_left : content ≠ []) (single : 10 ∉ content) :
    ¬ ReadableFile content := by
  rintro ⟨ended, -⟩
  have last := List.getLast?_eq_some_getLast some_left
  exact single (ended _ last ▸ List.getLast_mem some_left)

/-- No newline is found in the buffer. -/
theorem strchr_cstr_of_notMem {chunk : Bytes} (single : 10 ∉ chunk) :
    strchr (cstr chunk 0) 10 = none := by
  refine strchr_of_notMem fun inside => single ?_
  have part : cstr chunk 0 <+: chunk := List.takeWhile_prefix _
  exact part.subset inside

/-- The buffer after one line: it has the line and its newline, if it is not too long and has no
zero in it. -/
theorem strchr_takeLine {line : Bytes} (rest : Bytes) (single : 10 ∉ line) :
    (line.length ≤ 1022 ∧ 0 ∉ line → takeLine 10 1023 (line ++ 10 :: rest) = (line ++ [10], rest) ∧
      cstr (line ++ [10]) 0 = line ++ [10]) ∧
    (¬ (line.length ≤ 1022 ∧ 0 ∉ line) →
      strchr (cstr (takeLine 10 1023 (line ++ 10 :: rest)).1 0) 10 = none) := by
  constructor
  · rintro ⟨short, clean⟩
    refine ⟨takeLine_line single (Nat.lt_succ_of_le short), ?_⟩
    rw [cstr, List.drop_zero, List.takeWhile_eq_self_iff]
    intro c inside
    refine decide_eq_true ?_
    rintro rfl
    rcases List.mem_append.mp inside with mem | mem
    · exact clean mem
    · exact absurd mem (by decide)
  · intro bad
    by_cases short : line.length ≤ 1022
    · have zero : 0 ∈ line := by
        by_contra clean
        exact bad ⟨short, clean⟩
      rw [takeLine_line single (Nat.lt_succ_of_le short)]
      -- The string ends before the newline.
      obtain ⟨before, behind, rfl, -⟩ := List.eq_append_cons_of_mem zero
      have ended : cstr (before ++ 0 :: behind ++ [10]) 0 = cstr before 0 := by
        rw [List.append_assoc, List.cons_append, cstr_terminated]
      dsimp only
      rw [ended]
      exact strchr_cstr_of_notMem fun mem => single (List.mem_append_left _ mem)
    · rw [takeLine_long single (by omega)]
      exact strchr_cstr_of_notMem fun mem => single (List.mem_of_mem_take mem)

/-- **One file**: all of its lines are read, or the process ends. -/
theorem readLines_spec (file : String) {fuel : ℕ} {content : Bytes}
    (enough : content.length ≤ fuel) (n : ℕ) (s : ParameterState) :
    (ReadableFile content →
      readLines file fuel n content s = some (runLines (numbered file n (content.splitOn 10)) s)) ∧
    (¬ ReadableFile content → readLines file fuel n content s = none) := by
  induction fuel generalizing content n s with
  | zero =>
      obtain rfl : content = [] := List.length_eq_zero_iff.mp (Nat.le_zero.mp enough)
      exact ⟨fun _ => rfl, fun bad => absurd readableFile_nil bad⟩
  | succ fuel ih =>
      rw [readLines]
      by_cases empty : content = []
      · subst empty
        rw [if_pos rfl]
        exact ⟨fun _ => rfl, fun bad => absurd readableFile_nil bad⟩
      · rw [if_neg empty]
        by_cases newline : 10 ∈ content
        · obtain ⟨line, rest, rfl, single⟩ := List.eq_append_cons_of_mem newline
          obtain ⟨good, bad⟩ := strchr_takeLine rest single
          rw [readableFile_append single, List.splitOn_append_cons_self_of_not_mem single]
          by_cases fits : line.length ≤ 1022 ∧ 0 ∉ line
          · obtain ⟨taken, string⟩ := good fits
            have shorter : rest.length ≤ fuel := by
              rw [List.length_append, List.length_cons] at enough
              omega
            rw [taken]
            dsimp only
            rw [string, strchr_append single]
            dsimp only
            rw [List.length_append, Nat.add_sub_cancel, List.take_left, and_iff_right fits]
            exact ih shorter (n + 1) _
          · have stuck := bad fits
            dsimp only
            rw [stuck]
            exact ⟨fun readable => absurd readable.1 fits, fun _ => rfl⟩
        · have stuck : strchr (cstr (takeLine 10 1023 content).1 0) 10 = none := by
            refine strchr_cstr_of_notMem fun mem => newline ?_
            rw [← takeLine_append 10 1023 content]
            exact List.mem_append_left _ mem
          dsimp only
          rw [stuck]
          exact ⟨fun readable => absurd readable (not_readableFile empty newline), fun _ => rfl⟩

/-- The lines of a file, if it can be opened. -/
def fileLines (file : String) (content : Option Bytes) : List (String × ℕ × Bytes) :=
  content.elim [] fun content => numbered file 1 (content.splitOn 10)

/-- The lines of all files. -/
def ParameterFiles.numbered (files : ParameterFiles) : List (String × ℕ × Bytes) :=
  fileLines "/etc/connectrc" files.parameterFile ++
    files.dotFile.elim [] fun dotFile => fileLines dotFile.1 dotFile.2

theorem map_fileLines (file : String) (content : Option Bytes) :
    (fileLines file content).map (fun line => line.2.2) =
      content.toList.flatMap fun content => content.splitOn 10 := by
  cases content with
  | none => rfl
  | some content => simp [fileLines, map_numbered]

theorem map_numbered_files (files : ParameterFiles) :
    files.numbered.map (fun line => line.2.2) = files.lines := by
  rw [ParameterFiles.numbered, ParameterFiles.lines, ParameterFiles.contents,
    List.flatMap_append, List.map_append, map_fileLines]
  cases files.dotFile with
  | none => rfl
  | some dotFile => exact congrArg _ (map_fileLines dotFile.1 dotFile.2)

theorem readParameterFile1_spec (file : String) (content : Option Bytes) (s : ParameterState) :
    ((∀ c ∈ content.toList, ReadableFile c) →
      readParameterFile1 file content s = some (runLines (fileLines file content) s)) ∧
    (¬ (∀ c ∈ content.toList, ReadableFile c) → readParameterFile1 file content s = none) := by
  cases content with
  | none => exact ⟨fun _ => rfl, fun bad => absurd (fun c inside => nomatch inside) bad⟩
  | some content =>
      rw [Option.toList_some, List.forall_mem_singleton]
      exact readLines_spec file (Nat.le_refl content.length) 1 s

/-- **All files** are read, or the process ends. -/
theorem readParameterFile_spec (files : ParameterFiles) :
    ((∀ content ∈ files.contents, ReadableFile content) →
      readParameterFile files = some (runLines files.numbered ⟨parameterTable, []⟩)) ∧
    (¬ (∀ content ∈ files.contents, ReadableFile content) → readParameterFile files = none) := by
  obtain ⟨good, bad⟩ :=
    readParameterFile1_spec "/etc/connectrc" files.parameterFile ⟨parameterTable, []⟩
  rw [readParameterFile, ParameterFiles.contents, ParameterFiles.numbered,
    List.forall_mem_append]
  by_cases first : ∀ c ∈ files.parameterFile.toList, ReadableFile c
  · rw [good first, and_iff_right first]
    cases files.dotFile with
    | none =>
        refine ⟨fun _ => ?_, fun bad => absurd (fun c inside => nomatch inside) bad⟩
        rw [Option.elim_none, List.append_nil]
        rfl
    | some dotFile =>
        have second := readParameterFile1_spec dotFile.1 dotFile.2
          (runLines (fileLines "/etc/connectrc" files.parameterFile) ⟨parameterTable, []⟩)
        rw [Option.elim_some, runLines_append]
        exact second
  · rw [bad first]
    exact ⟨fun both => absurd both.1 first, fun _ => rfl⟩

/-! ### The result -/

/-- Reading the files makes the parameter what setting the environment variable makes it. -/
def ActsLikeEnvironment (g : Globals) (files : ParameterFiles) (name : String) (value : Bytes) :
    Prop :=
  ∃ s, readParameterFile files = some s ∧
    ({ g with parameterTable := s.table } : Globals).getparam name =
      (g.setenv name value).getparam name

theorem getparam_setenv (g : Globals) (name : String) (value : Bytes) :
    (g.setenv name value).getparam name = some value := by
  simp [Globals.setenv, Globals.getparam]

theorem getparam_table {g : Globals} {name : String} (unset : g.getenv name = none)
    (table : ParameterTable) :
    ({ g with parameterTable := table } : Globals).getparam name = storedValue table name := by
  rw [Globals.getparam, unset]
  rfl

theorem storedValue_of_notMem {table : ParameterTable} {name : String}
    (unknown : name ∉ table.map Prod.fst) : storedValue table name = none := by
  have missing : table.find? (fun item => item.1 = name) = none := by
    rw [List.find?_eq_none]
    intro item inside same
    exact unknown (List.mem_map.mpr ⟨item, inside, of_decide_eq_true same⟩)
  rw [storedValue, missing]
  rfl

/-- The names of the table stay. -/
theorem runLines_sound {s : ParameterState} (sound : s.Sound)
    (lines : List (String × ℕ × Bytes)) : (runLines lines s).Sound := by
  induction lines generalizing s with
  | nil => exact sound
  | cons line lines ih => exact ih (readLine_spec sound line.1 line.2.1 line.2.2).1

theorem parameterTable_sound : (⟨parameterTable, []⟩ : ParameterState).Sound := by
  rw [ParameterState.Sound, parameterTable, List.map_map]
  exact List.map_id parameterNames

/-- The names that are looked up and missing in the table. -/
def unlistedNames : List String := ["SOCKS4_USER", "SOCKS_USER", "TELNET_PROXY"]

theorem mem_parameterNames_iff {name : String} (looked : name ∈ lookedUpNames) :
    name ∈ parameterNames ↔ name ∉ unlistedNames := by
  revert name
  decide +kernel

/-- **Parameter files.**  A line `NAME = value` for a name that is looked up does what setting the
environment variable would, if and only if the table has the name, all files can be read to their
end, and no line behind it that gives the name a value decides otherwise. -/
theorem actsLikeEnvironment_iff {g : Globals} {files : ParameterFiles} {name : String}
    {value : Bytes} (looked : name ∈ lookedUpNames) (unset : g.getenv name = none)
    (written : ∃ line ∈ files.lines, Assigns name line value) :
    ActsLikeEnvironment g files name value ↔
      name ∉ unlistedNames ∧ (∀ content ∈ files.contents, ReadableFile content) ∧
        LastAssigns name files.lines value := by
  obtain ⟨good, bad⟩ := readParameterFile_spec files
  rw [ActsLikeEnvironment, getparam_setenv, ← mem_parameterNames_iff looked]
  by_cases readable : ∀ content ∈ files.contents, ReadableFile content
  · rw [good readable, and_iff_right readable]
    simp only [Option.some.injEq, exists_eq_left', getparam_table unset]
    by_cases known : name ∈ parameterNames
    · obtain ⟨sets, -⟩ := runLines_spec parameterTable_sound known files.numbered
      rw [map_numbered_files] at sets
      obtain ⟨line, inside, assigns⟩ := written
      obtain ⟨value', last⟩ := exists_lastAssigns ⟨line, inside, value, assigns⟩
      rw [and_iff_right known]
      constructor
      · intro stored
        obtain rfl := Option.some.inj ((sets value' last).symm.trans stored)
        exact last
      · exact sets value
    · have sound := runLines_sound parameterTable_sound files.numbered
      rw [storedValue_of_notMem (by rwa [sound])]
      exact iff_of_false (Option.some_ne_none value).symm fun both => known both.1
  · rw [bad readable]
    refine iff_of_false ?_ fun all => readable all.2.1
    rintro ⟨s, read, -⟩
    cases read

/-- One parameter file, as on Windows. -/
def oneFile (content : String) : ParameterFiles where
  parameterFile := some (text content)
  dotFile := none

theorem assigns_user : Assigns "HTTP_PROXY_USER" (text "HTTP_PROXY_USER=u") (text "u") := by
  refine ⟨⟨by decide, ?_⟩, [], [], [], [], [], by simp, by simp, by decide⟩
  constructor <;> decide +kernel

theorem actsLikeEnvironment_iff_user :
    ActsLikeEnvironment Globals.initial (oneFile "HTTP_PROXY_USER=u\n") "HTTP_PROXY_USER"
      (text "u") := by
  have lines : (oneFile "HTTP_PROXY_USER=u\n").lines = [text "HTTP_PROXY_USER=u", []] := by
    decide +kernel
  refine (actsLikeEnvironment_iff (by decide) rfl ?_).mpr ⟨by decide, ?_, ?_⟩
  · rw [lines]
    exact ⟨_, List.mem_cons_self, assigns_user⟩
  · decide +kernel
  · rw [lines]
    refine ⟨[], _, [[]], rfl, assigns_user, fun other inside w assigns => ?_⟩
    obtain rfl := List.mem_singleton.mp inside
    obtain ⟨-, b₁, b₂, b₃, b₄, comment, -, -, split⟩ := assigns
    simp at split

/-- Without the last newline the line ends the process. -/
theorem not_actsLikeEnvironment :
    ¬ ∀ (g : Globals) (files : ParameterFiles) (name : String) (value : Bytes),
      name ∈ lookedUpNames → g.getenv name = none →
      (∃ line ∈ files.lines, Assigns name line value) →
      ActsLikeEnvironment g files name value := by
  intro all
  have lines : (oneFile "HTTP_PROXY_USER=u").lines = [text "HTTP_PROXY_USER=u"] := by
    decide +kernel
  obtain ⟨s, read, -⟩ := all .initial (oneFile "HTTP_PROXY_USER=u") "HTTP_PROXY_USER" (text "u")
    (by decide) rfl (lines ▸ ⟨_, List.mem_cons_self, assigns_user⟩)
  rw [(readParameterFile_spec _).2] at read
  · cases read
  · decide +kernel

end MsysGit.Connect
