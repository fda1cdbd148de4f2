import MsysGit.Library.ArgumentQuoting

/-!
# The command line of ccache

`argvtos` makes one command line of the arguments.  It goes over them twice: first to
compute how much memory is needed, then to write.  Both passes count backslashes and
account for them when they meet the next character, or the end of the argument.

Lengths are natural numbers; the code's `int` holds those of command lines shorter than `2 ^ 31`.
-/

namespace MsysGit.CcacheWin32

open MsysGit.Library

/-! ### The code -/

/-- The variables of the first pass. -/
structure Measure where
  len : ℕ
  bsCount : ℕ

def Measure.char (m : Measure) (c : Char) : Measure :=
  if c = '\\' then { m with bsCount := m.bsCount + 1 }
  else if c = '"' then ⟨m.len + (2 * m.bsCount + 2), 0⟩
  else ⟨m.len + (m.bsCount + 1), 0⟩

def Measure.arg (m : Measure) (arg : List Char) : Measure :=
  let m := arg.foldl Measure.char { m with len := m.len + 1 }
  ⟨m.len + m.bsCount * 2 + 2, 0⟩

/-- The first pass: the length, for command lines shorter than `2 ^ 31`. -/
def argvtosLength (argv : List (List Char)) : ℕ := (argv.foldl Measure.arg ⟨0, 0⟩).len

/-- The variables of the second pass. -/
structure Writing where
  str : List Char
  bsCount : ℕ

def Writing.char (w : Writing) (c : Char) : Writing :=
  if c = '\\' then { w with bsCount := w.bsCount + 1 }
  else if c = '"' then ⟨w.str ++ List.replicate (2 * w.bsCount) '\\' ++ ['\\', '"'], 0⟩
  else ⟨w.str ++ List.replicate w.bsCount '\\' ++ [c], 0⟩

def Writing.arg (w : Writing) (arg : List Char) : Writing :=
  let w := arg.foldl Writing.char { w with str := w.str ++ ['"'] }
  ⟨w.str ++ List.replicate (2 * w.bsCount) '\\' ++ ['"'] ++ [' '], 0⟩

/-- `argvtos`: what the second pass writes. -/
def argvtos (argv : List (List Char)) : List Char := (argv.foldl Writing.arg ⟨[], 0⟩).str

/-! ### The second pass -/

/-- The characters of an argument are escaped as one goes. -/
theorem foldl_writing_char (w : Writing) (s : List Char) :
    (s.foldl Writing.char w).str ++ List.replicate (2 * (s.foldl Writing.char w).bsCount) '\\' =
      w.str ++ escape w.bsCount s := by
  induction s generalizing w with
  | nil => rfl
  | cons c s ih =>
      rw [List.foldl_cons, ih, Writing.char, escape]
      split_ifs
      · rfl
      · simp
      · simp

theorem writing_arg (w : Writing) (no_slash : w.bsCount = 0) (arg : List Char) :
    w.arg arg = ⟨w.str ++ (quote arg ++ [' ']), 0⟩ := by
  rw [Writing.arg, foldl_writing_char, no_slash, quote]
  simp

/-- What is written is the quoted arguments, each with a space behind it. -/
theorem argvtos_eq (argv : List (List Char)) :
    argvtos argv = argv.flatMap fun arg => quote arg ++ [' '] := by
  suffices general : ∀ w : Writing, w.bsCount = 0 →
      (argv.foldl Writing.arg w).str = w.str ++ argv.flatMap fun arg => quote arg ++ [' '] by
    exact general ⟨[], 0⟩ rfl
  induction argv with
  | nil => exact fun w _ => (List.append_nil w.str).symm
  | cons arg argv ih =>
      intro w no_slash
      rw [List.foldl_cons, writing_arg w no_slash, ih _ rfl, List.flatMap_cons,
        List.append_assoc]

/-! ### The first pass -/

/-- Both passes have seen the same: the length is that of what is written. -/
structure Agree (m : Measure) (w : Writing) : Prop where
  len : m.len = w.str.length
  bsCount : m.bsCount = w.bsCount

theorem Agree.char {m : Measure} {w : Writing} (agree : Agree m w) (c : Char) :
    Agree (m.char c) (w.char c) := by
  rw [Measure.char, Writing.char]
  split_ifs
  · exact ⟨agree.len, congrArg (· + 1) agree.bsCount⟩
  · refine ⟨?_, rfl⟩
    simp only [List.length_append, List.length_replicate, List.length_cons, List.length_nil,
      agree.len, agree.bsCount]
    omega
  · refine ⟨?_, rfl⟩
    simp only [List.length_append, List.length_replicate, List.length_cons, List.length_nil,
      agree.len, agree.bsCount]
    omega

theorem Agree.chars {m : Measure} {w : Writing} (agree : Agree m w) (s : List Char) :
    Agree (s.foldl Measure.char m) (s.foldl Writing.char w) := by
  induction s generalizing m w with
  | nil => exact agree
  | cons c s ih => exact ih (agree.char c)

theorem Agree.arg {m : Measure} {w : Writing} (agree : Agree m w) (arg : List Char) :
    Agree (m.arg arg) (w.arg arg) := by
  have opened : Agree { m with len := m.len + 1 } { w with str := w.str ++ ['"'] } :=
    ⟨by rw [List.length_append, agree.len]; rfl, agree.bsCount⟩
  have whole := opened.chars arg
  refine ⟨?_, rfl⟩
  simp only [Measure.arg, Writing.arg, List.length_append, List.length_replicate,
    List.length_cons, List.length_nil, whole.len, whole.bsCount]
  omega

theorem argvtosLength_eq (argv : List (List Char)) :
    argvtosLength argv = (argvtos argv).length := by
  suffices general : ∀ m w, Agree m w →
      Agree (argv.foldl Measure.arg m) (argv.foldl Writing.arg w) by
    exact (general ⟨0, 0⟩ ⟨[], 0⟩ ⟨rfl, rfl⟩).len
  induction argv with
  | nil => exact fun m w agree => agree
  | cons arg argv ih => exact fun m w agree => ih _ _ (agree.arg arg)

/-- **The command line** is read as the arguments it was made of, and has the length for which
memory was allocated. -/
theorem argvtos_roundTrip (argv : List (List Char)) :
    arguments (argvtos argv) = argv ∧ (argvtos argv).length = argvtosLength argv :=
  ⟨by rw [argvtos_eq, arguments_quotes], (argvtosLength_eq argv).symm⟩

example : argvtos ["a\\\"b\\".toList, []] = "\"a\\\\\\\"b\\\\\" \"\" ".toList := by decide

end MsysGit.CcacheWin32
