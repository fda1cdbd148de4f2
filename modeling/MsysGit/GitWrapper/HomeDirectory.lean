import Mathlib.Data.List.Basic
import Mathlib.Tactic.Common

/-!
# The home directory of the three launchers

`cmd/git.exe` (C), `cmd/gitk.cmd` (batch) and `etc/profile` (shell) each choose the
home directory from `HOME`, `HOMEDRIVE` with `HOMEPATH`, and `USERPROFILE`.

The batch file and the profile take the first of the three that is a directory.  The
wrapper only looks at which variables are set.

`resolve` says which texts name an existing directory, and which one.  What `cmd.exe`
makes of a line of the batch file is a parameter: for values without the characters
that have a meaning on a command line it is what the line says.
-/

namespace MsysGit.GitWrapper

abbrev Str := List Char

/-- The variables that are read; each may be unset, and a set one may be empty. -/
structure HomeVariables where
  home : Option Str
  homeDrive : Option Str
  homePath : Option Str
  userProfile : Option Str

/-- How an unset variable expands in batch files and in the shell. -/
def expand (value : Option Str) : Str := value.getD []

/-- `%HOMEDRIVE%%HOMEPATH%` -/
def HomeVariables.driveAndPath (env : HomeVariables) : Str :=
  expand env.homeDrive ++ expand env.homePath

/-! ### `main` of the wrapper -/

/-- What a call of `GetEnvironmentVariable` returns, and the text that it stores. -/
structure EnvironmentRead where
  len : ℕ
  stored : Str

/-- `GetEnvironmentVariable` with a buffer of `size` characters: the length, or when the
buffer is too small the size that is needed, terminator included, or 0 for a variable that
is not set. -/
def getEnvironmentVariable (value : Option Str) (size : ℕ) : EnvironmentRead :=
  match value with
  | none => ⟨0, []⟩
  | some text => if text.length < size then ⟨text.length, text⟩ else ⟨text.length + 1, []⟩

/-- The part of `main` that sets `HOME`. -/
def wrapperHome (env : HomeVariables) : Option Str :=
  if (getEnvironmentVariable env.home 0).len = 0 then
    let len := (getEnvironmentVariable env.homePath 0).len
    if len = 0 then
      let len := (getEnvironmentVariable env.userProfile 0).len
      if len ≠ 0 then some (getEnvironmentVariable env.userProfile len).stored else env.home
    else
      let len := len + (getEnvironmentVariable env.homeDrive 0).len
      let n := getEnvironmentVariable env.homeDrive len
      -- The second text is stored behind the `n` characters of the first.
      some (n.stored.take n.len ++ (getEnvironmentVariable env.homePath (len - n.len)).stored)
  else env.home

/-! ### The scripts -/

section Scripts

variable {Dir : Type*} (resolve : Str → Option Dir)

/-- What becomes of `HOME` in `@if not exist "%HOME%" @set HOME=text`.  Setting it to
nothing unsets it. -/
def ifNotExistSet (home : Option Str) (text : Str) : Option Str :=
  if (resolve (expand home)).isSome then home else if text = [] then none else some text

/-- Characters with a meaning on a command line. -/
def special : List Char := ['"', '&', '|', '<', '>', '^']

/-- `cmd.exe` does what the line says when no such character is in the text, and no quote
in the quoted value. -/
def Documented (cmd : Option Str → Str → Option Str) : Prop :=
  ∀ home text, '"' ∉ expand home → (∀ c ∈ text, c ∉ special) →
    cmd home text = ifNotExistSet resolve home text

/-- The two lines of `gitk.cmd`. -/
def gitkHome (cmd : Option Str → Str → Option Str) (env : HomeVariables) : Option Str :=
  let home := cmd env.home env.driveAndPath
  cmd home (expand env.userProfile)

/-- What `etc/profile` selects; `root` is the directory it falls back to. -/
def profileHome (root : Dir) (env : HomeVariables) : Option Dir :=
  let isDirectory (text : Str) : Bool := text ≠ [] && (resolve text).isSome
  let home := expand env.home
  let home :=
    if !isDirectory home then
      let home := env.driveAndPath
      if !isDirectory home then expand env.userProfile else home
    else home
  -- The fallback tests for a directory only.
  if (resolve home).isNone then some root else resolve home

/-! ### Agreement -/

/-- One of the three texts names an existing directory. -/
def SomeHome (env : HomeVariables) : Prop :=
  (resolve (expand env.home)).isSome ∨ (resolve env.driveAndPath).isSome ∨
    (resolve (expand env.userProfile)).isSome

/-- The three launchers choose the same directory. -/
def SameHome (cmd : Option Str → Str → Option Str) (root : Dir) (env : HomeVariables) : Prop :=
  ∃ dir, resolve (expand (wrapperHome env)) = some dir ∧
    resolve (expand (gitkHome cmd env)) = some dir ∧ profileHome resolve root env = some dir

/-- **What the wrapper takes for granted**: the variables it relies on name a directory.
When it falls back to `USERPROFILE`, `HOMEDRIVE` alone must not be another one. -/
def FirstExists (env : HomeVariables) : Prop :=
  match env.home, env.homePath with
  | some home, _ => (resolve home).isSome
  | none, some _ => (resolve env.driveAndPath).isSome
  | none, none =>
      resolve env.driveAndPath = none ∨
        resolve env.driveAndPath = resolve (expand env.userProfile)

/-- Values that `cmd.exe` takes literally. -/
def HomeVariables.Plain (env : HomeVariables) : Prop :=
  '"' ∉ expand env.home ∧ (∀ c ∈ env.driveAndPath, c ∉ special) ∧
    ∀ c ∈ expand env.userProfile, c ∉ special

end Scripts

/-- The buffer is always large enough. -/
theorem wrapperHome_eq (env : HomeVariables) : wrapperHome env =
    match env.home, env.homePath with
    | some home, _ => some home
    | none, some _ => some env.driveAndPath
    | none, none => env.userProfile := by
  obtain ⟨home, homeDrive, homePath, userProfile⟩ := env
  cases home with
  | some home => simp [wrapperHome, getEnvironmentVariable]
  | none =>
      cases homePath with
      | none =>
          cases userProfile with
          | none => simp [wrapperHome, getEnvironmentVariable]
          | some text => simp [wrapperHome, getEnvironmentVariable]
      | some path =>
          cases homeDrive with
          | none =>
              simp [wrapperHome, getEnvironmentVariable, HomeVariables.driveAndPath, expand]
          | some drive =>
              have fits : drive.length < path.length + 1 + (drive.length + 1) := by omega
              have left : path.length < path.length + 1 + (drive.length + 1) - drive.length := by
                omega
              simp [wrapperHome, getEnvironmentVariable, HomeVariables.driveAndPath, expand, fits,
                left]

/-! ### What the scripts choose -/

section Choice

variable {Dir : Type*} {resolve : Str → Option Dir} {cmd : Option Str → Str → Option Str}
  {root dir : Dir} {env : HomeVariables}

/-- The first of the three texts that names a directory. -/
def firstHome (resolve : Str → Option Dir) (env : HomeVariables) : Option Dir :=
  ((resolve (expand env.home)).or (resolve env.driveAndPath)).or (resolve (expand env.userProfile))

/-- A line of the batch file falls back to its text. -/
theorem resolve_ifNotExistSet (resolve : Str → Option Dir) (home : Option Str) (text : Str) :
    resolve (expand (ifNotExistSet resolve home text)) =
      (resolve (expand home)).or (resolve text) := by
  rw [ifNotExistSet]
  cases found : resolve (expand home) with
  | some dir =>
      rw [Option.isSome_some, if_pos rfl, found]
      rfl
  | none =>
      rw [Option.isSome_none, if_neg Bool.false_ne_true, Option.none_or]
      by_cases empty : text = []
      · rw [if_pos empty, empty]
        rfl
      · rw [if_neg empty]
        rfl

theorem gitkHome_eq (documented : Documented resolve cmd)
    (plain : env.Plain) : resolve (expand (gitkHome cmd env)) = firstHome resolve env := by
  obtain ⟨home_plain, path_plain, profile_plain⟩ := plain
  have first := documented env.home env.driveAndPath home_plain path_plain
  have still : '"' ∉ expand (ifNotExistSet resolve env.home env.driveAndPath) := by
    rw [ifNotExistSet]
    split_ifs with found empty
    · exact home_plain
    · exact List.not_mem_nil
    · exact fun quote => path_plain '"' quote List.mem_cons_self
  rw [gitkHome, first]
  show resolve (expand (cmd _ (expand env.userProfile))) = _
  rw [documented _ _ still profile_plain, resolve_ifNotExistSet resolve,
    resolve_ifNotExistSet resolve]
  rfl

theorem profileHome_eq (blank : resolve [] = none) :
    profileHome resolve root env = (firstHome resolve env).or (some root) := by
  have test : ∀ text, (text ≠ [] && (resolve text).isSome) = (resolve text).isSome := by
    intro text
    by_cases empty : text = []
    · simp [empty, blank]
    · simp [empty]
  simp only [profileHome, test, firstHome]
  cases atHome : resolve (expand env.home) with
  | some dir => simp [atHome]
  | none =>
      cases atPath : resolve env.driveAndPath with
      | some dir => simp [atPath]
      | none =>
          cases atProfile : resolve (expand env.userProfile) with
          | some dir => simp [atProfile]
          | none => simp [atProfile]

theorem exists_firstHome (found : SomeHome resolve env) :
    ∃ dir, firstHome resolve env = some dir := by
  rw [← Option.isSome_iff_exists, firstHome, Option.isSome_or, Option.isSome_or]
  simpa [SomeHome, or_assoc] using found

/-- **The wrapper's choice** is the first of the three only where it may be taken for granted. -/
theorem wrapperHome_eq_some_iff (blank : resolve [] = none)
    (first : firstHome resolve env = some dir) :
    resolve (expand (wrapperHome env)) = some dir ↔ FirstExists resolve env := by
  rw [firstHome] at first
  rw [wrapperHome_eq, FirstExists]
  cases home : env.home with
  | some text =>
      rw [home] at first
      show resolve text = some dir ↔ (resolve text).isSome
      refine ⟨Option.isSome_of_eq_some, fun there => ?_⟩
      obtain ⟨here, is_here⟩ := Option.isSome_iff_exists.mp there
      rw [← first, expand, Option.getD_some, is_here]
      rfl
  | none =>
      rw [home, expand, Option.getD_none, blank, Option.none_or] at first
      cases path : env.homePath with
      | some text =>
          show resolve env.driveAndPath = some dir ↔ (resolve env.driveAndPath).isSome
          refine ⟨Option.isSome_of_eq_some, fun there => ?_⟩
          obtain ⟨here, is_here⟩ := Option.isSome_iff_exists.mp there
          rw [← first, is_here]
          rfl
      | none =>
          show resolve (expand env.userProfile) = some dir ↔ resolve env.driveAndPath = none ∨
            resolve env.driveAndPath = resolve (expand env.userProfile)
          cases drive : resolve env.driveAndPath with
          | none =>
              rw [drive, Option.none_or] at first
              exact ⟨fun _ => Or.inl rfl, fun _ => first⟩
          | some other =>
              obtain rfl : other = dir := by simpa [drive] using first
              refine ⟨fun same => Or.inr same.symm, ?_⟩
              rintro (none | same)
              · cases none
              · exact same.symm

/-- **When the launchers agree.**  They do not unless the variables that the wrapper relies on
name a directory; and with values that `cmd.exe` takes literally they do when these are. -/
theorem sameHome_firstExists (blank : resolve [] = none) (documented : Documented resolve cmd)
    (found : SomeHome resolve env) :
    (SameHome resolve cmd root env → FirstExists resolve env) ∧
      (env.Plain → FirstExists resolve env → SameHome resolve cmd root env) := by
  obtain ⟨dir, first⟩ := exists_firstHome found
  have profile : profileHome resolve root env = some dir := by
    rw [profileHome_eq blank, first]
    rfl
  constructor
  · rintro ⟨same, wrapper, -, selected⟩
    obtain rfl := Option.some.inj (profile.symm.trans selected)
    exact (wrapperHome_eq_some_iff blank first).mp wrapper
  · intro plain exists_
    refine ⟨dir, (wrapperHome_eq_some_iff blank first).mpr exists_, ?_, profile⟩
    rw [gitkHome_eq documented plain, first]

end Choice

/-! ### Two environments -/

/-- The directories `D:\u` (1) and `C:\u` (2). -/
def twoDirectories (text : Str) : Option ℕ :=
  if text = "D:\\u".toList then some 1 else if text = "C:\\u".toList then some 2 else none

/-- `HOME` is not set, and the roaming profile is there. -/
def roaming : HomeVariables where
  home := none
  homeDrive := some "D:".toList
  homePath := some "\\u".toList
  userProfile := some "C:\\u".toList

/-- All three choose the roaming profile. -/
theorem sameHome_roaming :
    SameHome twoDirectories (ifNotExistSet twoDirectories) 0 roaming := by
  have agree : (_ → _) ∧
      (_ → _ → SameHome twoDirectories (ifNotExistSet twoDirectories) 0 roaming) :=
    sameHome_firstExists rfl (fun _ _ _ _ => rfl) (Or.inr (Or.inl rfl))
  have plain : roaming.Plain := by
    refine ⟨List.not_mem_nil, ?_, ?_⟩
    · simp [HomeVariables.driveAndPath, expand, roaming, special]
    · simp [expand, roaming, special]
  exact agree.2 plain rfl

/-- The share with the roaming profile is not there. -/
def disconnected : HomeVariables := { roaming with homeDrive := some "E:".toList }

/-- The wrapper chooses `E:\u` all the same. -/
theorem not_sameHome_disconnected : ¬ ∀ (resolve : Str → Option ℕ)
    (cmd : Option Str → Str → Option Str) (root : ℕ) (env : HomeVariables),
    resolve [] = none → Documented resolve cmd → SomeHome resolve env →
      SameHome resolve cmd root env := by
  intro always
  obtain ⟨dir, wrapper, -, -⟩ := always twoDirectories (ifNotExistSet twoDirectories) 0 disconnected
    rfl (fun _ _ _ _ => rfl) (Or.inr (Or.inr rfl))
  have missing : twoDirectories (expand (wrapperHome disconnected)) = none := rfl
  rw [missing] at wrapper
  cases wrapper

end MsysGit.GitWrapper
