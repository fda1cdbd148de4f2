import MsysGit.GitWrapper.HomeDirectory

/-!
# The search path that cmd/git.exe sets

`main` puts the `bin` and `mingw\bin` directories of the installation in front of `PATH`.
It builds the whole list with `PathAppend`, which is made for a single path: when the
list so far, with the installation directory in it twice, has `MAX_PATH` characters, it
is refused, and nothing is left of it.

`PathAppend` is a parameter; `PathAppendRules` says what is relied on.
-/

namespace MsysGit.GitWrapper

/-! ### The code -/

def maxPath : ℕ := 260

def binEntry : Str := "bin;".toList

def mingwEntry : Str := "mingw\\bin;".toList

/-- The part of `main` that extends `PATH`; `exepath` is the installation directory. -/
def extendedPath (pathAppend : Str → Str → Str) (exepath : Str) (path : Option Str) : Str :=
  let len := (getEnvironmentVariable path 0).len + 2 * maxPath
  let path2 := pathAppend exepath binEntry
  let path2 := pathAppend (path2 ++ exepath) mingwEntry
  path2 ++ (getEnvironmentVariable path (len - path2.length)).stored

/-! ### What is relied on, and what is meant -/

/-- Two paths with one backslash between them. -/
def joined (path more : Str) : Str :=
  if path.getLast? = some '\\' then path ++ more else path ++ '\\' :: more

/-- `PathAppend` joins paths, unless the result has `MAX_PATH` or more characters: then the buffer
has no path afterwards. -/
structure PathAppendRules (pathAppend : Str → Str → Str) : Prop where
  joins : ∀ path more, path ≠ [] → (joined path more).length < maxPath →
    pathAppend path more = joined path more
  refuses : ∀ path more, path ≠ [] → maxPath ≤ (joined path more).length →
    pathAppend path more = []

/-- The two directories and the old value, with semicolons between them. -/
def meantPath (exepath : Str) (path : Option Str) : Str :=
  joined exepath "bin".toList ++ ';' :: joined exepath "mingw\\bin".toList ++ ';' :: expand path

/-- The length of both directories and their semicolons. -/
def frontLength (exepath : Str) : ℕ :=
  2 * exepath.length + if exepath.getLast? = some '\\' then 14 else 16

/-! ### The path -/

/-- The old value always fits behind what is in front of it. -/
theorem stored_getEnvironmentVariable (path : Option Str) {size : ℕ}
    (enough : (getEnvironmentVariable path 0).len ≤ size) :
    (getEnvironmentVariable path size).stored = expand path := by
  cases path with
  | none => rfl
  | some text =>
      have room : text.length < size := by
        rw [getEnvironmentVariable, if_neg (Nat.not_lt_zero _)] at enough
        exact enough
      rw [getEnvironmentVariable, if_pos room]
      rfl

theorem length_joined (path more : Str) :
    (joined path more).length =
      path.length + more.length + if path.getLast? = some '\\' then 0 else 1 := by
  rw [joined]
  split
  · exact List.length_append
  · rw [List.length_append, List.length_cons, Nat.add_assoc]

theorem joined_append (path more behind : Str) :
    joined path (more ++ behind) = joined path more ++ behind := by
  rw [joined, joined]
  split
  · exact (List.append_assoc _ _ _).symm
  · simp

/-- What stands in front does not matter to how a path is joined. -/
theorem append_joined (front : Str) {path : Str} (nonempty : path ≠ []) (more : Str) :
    joined (front ++ path) more = front ++ joined path more := by
  rw [joined, joined, List.getLast?_append_of_ne_nil front nonempty]
  split <;> simp

section Extended

variable {pathAppend : Str → Str → Str} {exepath : Str}

/-- The list in front of the old value: both directories, or nothing. -/
def front (pathAppend : Str → Str → Str) (exepath : Str) : Str :=
  pathAppend (pathAppend exepath binEntry ++ exepath) mingwEntry

theorem front_of_short (rules : PathAppendRules pathAppend) (nonempty : exepath ≠ [])
    (short : frontLength exepath < maxPath) :
    front pathAppend exepath = joined exepath binEntry ++ joined exepath mingwEntry := by
  have first : (joined exepath binEntry).length < maxPath := by
    rw [length_joined]
    rw [frontLength] at short
    have four : binEntry.length = 4 := rfl
    split_ifs at short ⊢ <;> omega
  have second : (joined (joined exepath binEntry ++ exepath) mingwEntry).length < maxPath := by
    rw [append_joined _ nonempty, List.length_append, length_joined, length_joined]
    rw [frontLength] at short
    have four : binEntry.length = 4 := rfl
    have ten : mingwEntry.length = 10 := rfl
    split_ifs at short ⊢ <;> omega
  rw [front, rules.joins exepath binEntry nonempty first,
    rules.joins _ mingwEntry (by simp [nonempty]) second, append_joined _ nonempty]

/-- Longer ones are lost. -/
theorem front_of_long (rules : PathAppendRules pathAppend) (nonempty : exepath ≠ [])
    (long : maxPath ≤ frontLength exepath) : front pathAppend exepath = [] := by
  have four : binEntry.length = 4 := rfl
  have ten : mingwEntry.length = 10 := rfl
  rw [front]
  by_cases first : (joined exepath binEntry).length < maxPath
  · rw [rules.joins exepath binEntry nonempty first]
    refine rules.refuses _ mingwEntry (by simp [nonempty]) ?_
    rw [append_joined _ nonempty, List.length_append, length_joined, length_joined]
    rw [frontLength] at long
    split_ifs at long ⊢ <;> omega
  · -- The first call has failed, and the second one sees a list without the first directory.
    rw [rules.refuses exepath binEntry nonempty (Nat.le_of_not_lt first), List.nil_append]
    refine rules.refuses exepath mingwEntry nonempty ?_
    rw [length_joined] at first ⊢
    omega

theorem meantPath_eq (exepath : Str) (path : Option Str) : meantPath exepath path =
    joined exepath binEntry ++ joined exepath mingwEntry ++ expand path := by
  have bin : joined exepath binEntry = joined exepath "bin".toList ++ [';'] :=
    joined_append exepath "bin".toList [';']
  have mingw : joined exepath mingwEntry = joined exepath "mingw\\bin".toList ++ [';'] :=
    joined_append exepath "mingw\\bin".toList [';']
  rw [meantPath, bin, mingw]
  simp

/-- There is room for `PATH` behind the front part, unless that is too long. -/
theorem extendedPath_of_room (path : Option Str)
    (room : (front pathAppend exepath).length ≤ 2 * maxPath) :
    extendedPath pathAppend exepath path = front pathAppend exepath ++ expand path := by
  show front pathAppend exepath ++ (getEnvironmentVariable path
    ((getEnvironmentVariable path 0).len + 2 * maxPath -
      (front pathAppend exepath).length)).stored = _
  rw [stored_getEnvironmentVariable]
  omega

/-- **The search path** is as meant if and only if the list in front of the old value is shorter
than `MAX_PATH`. -/
theorem extendedPath_eq_iff (rules : PathAppendRules pathAppend) (nonempty : exepath ≠ [])
    (path : Option Str) :
    extendedPath pathAppend exepath path = meantPath exepath path ↔
      frontLength exepath < maxPath := by
  rw [meantPath_eq]
  by_cases short : frontLength exepath < maxPath
  · refine iff_of_true ?_ short
    have closed := front_of_short rules nonempty short
    rw [extendedPath_of_room, closed]
    rw [closed, List.length_append, length_joined, length_joined]
    rw [frontLength] at short
    have four : binEntry.length = 4 := rfl
    have ten : mingwEntry.length = 10 := rfl
    split_ifs at short ⊢ <;> omega
  · have lost := front_of_long rules nonempty (Nat.le_of_not_lt short)
    refine iff_of_false ?_ short
    rw [extendedPath_of_room _ (by rw [lost]; exact Nat.zero_le _), lost]
    intro same
    have lengths := congrArg List.length same
    rw [List.length_append, List.length_append, List.length_append, length_joined,
      length_joined] at lengths
    have four : binEntry.length = 4 := rfl
    rw [List.length_nil] at lengths
    omega

end Extended

/-- A `PathAppend` that does nothing but join or refuse. -/
def plainPathAppend (path more : Str) : Str :=
  if (joined path more).length < maxPath then joined path more else []

theorem plainPathAppend_rules : PathAppendRules plainPathAppend where
  joins _ _ _ short := if_pos short
  refuses _ _ _ long := if_neg (Nat.not_lt.mpr long)

theorem extendedPath_eq_iff_git :
    extendedPath plainPathAppend "C:\\Git".toList (some "C:\\W".toList) =
      meantPath "C:\\Git".toList (some "C:\\W".toList) :=
  (extendedPath_eq_iff plainPathAppend_rules (by decide) _).mpr (by decide)

/-- An installation directory of 122 characters is too long. -/
theorem not_extendedPath_eq :
    ¬ ∀ (pathAppend : Str → Str → Str) (exepath : Str) (path : Option Str),
      PathAppendRules pathAppend → exepath ≠ [] → exepath.length < maxPath →
      extendedPath pathAppend exepath path = meantPath exepath path := by
  intro all
  have same := all plainPathAppend ("C:\\".toList ++ List.replicate 119 'g') none
    plainPathAppend_rules (by decide) (by decide +kernel)
  have lost : extendedPath plainPathAppend ("C:\\".toList ++ List.replicate 119 'g') none = [] := by
    decide +kernel
  rw [lost] at same
  exact absurd same (by decide)

end MsysGit.GitWrapper
