import MsysGit.Library.KeyTree
import MsysGit.Library.QuotedArguments
import MsysGit.WinGit.ModuleUsers

/-!
# Context menu entries

The installer puts `Git Bash Here` and `Git GUI Here` into four registry keys of
Explorer, whose subkeys `command` hold the command lines to be run.  All installations
use the same keys.  `DeleteContextMenuEntries` takes a key for its own when the name of
the installation directory occurs anywhere in the command.

A command belongs to the installation in whose directory the program or the script lies
that it runs.  Which files those are is left open (`files`); for a program with a script
as its first argument it is `programAndScript`.
-/

namespace MsysGit.WinGit

open MsysGit.Library

/-! ### The code -/

/-- The registry keys of Explorer, and the messages so far. -/
structure MenuRegistry where
  /-- The default values of the keys of `HKEY_LOCAL_MACHINE` (`true`) and of
  `HKEY_CURRENT_USER`, empty for a key that has none. -/
  keys : Bool → KeyTree Char Str
  log : List String

/-- The value read, or nothing when there is none. -/
def MenuRegistry.regQueryStringValue (r : MenuRegistry) (rootKey : Bool) (key : Str) : Str :=
  (r.keys rootKey key).getD []

def MenuRegistry.regDeleteKeyIncludingSubkeys (r : MenuRegistry) (ok rootKey : Bool) (key : Str) :
    Bool × MenuRegistry :=
  (ok, if ok then
    { r with keys := Function.update r.keys rootKey (eraseBelow '\\' key (r.keys rootKey)) }
  else r)

/-- The array `Keys`. -/
def contextMenuKeys : List Str :=
  ["SOFTWARE\\Classes\\Directory\\shell\\git_shell".toList,
    "SOFTWARE\\Classes\\Directory\\Background\\shell\\git_shell".toList,
    "SOFTWARE\\Classes\\Directory\\shell\\git_gui".toList,
    "SOFTWARE\\Classes\\Directory\\Background\\shell\\git_gui".toList]

def commandKey (key : Str) : Str := key ++ "\\command".toList

/-- A call of `DeleteContextMenuEntries`. -/
structure MenuRemoval where
  appDir : Str
  isAdminLoggedOn : Bool
  /-- Whether a key can be deleted. -/
  succeeds : Str → Bool

/-- One round of the loop. -/
def MenuRemoval.deleteContextMenuEntry (step : MenuRemoval) (r : MenuRegistry) (key : Str) :
    MenuRegistry :=
  let rootKey := step.isAdminLoggedOn
  let command := r.regQueryStringValue rootKey (commandKey key)
  if 0 < pos step.appDir command then
    let result := r.regDeleteKeyIncludingSubkeys (step.succeeds key) rootKey key
    if result.1 then result.2
    else
      { result.2 with log :=
          result.2.log ++ ["Unable to remove \"Git Bash / GUI Here\" shell extension."] }
  else r

def MenuRemoval.deleteContextMenuEntries (step : MenuRemoval) (r : MenuRegistry) : MenuRegistry :=
  contextMenuKeys.foldl step.deleteContextMenuEntry r

/-- The command of `Git Bash Here`.  The placeholder is `%1` for a directory and `%v` for
its background. -/
def shellHereCommand (syswow64 appDir placeholder : Str) : Str :=
  '"' :: (syswow64 ++ "\\wscript".toList) ++ '"' ::
    (' ' :: ('"' :: (appDir ++ "\\Git Bash.vbs".toList) ++ ['"']) ++
      (' ' :: ('"' :: placeholder ++ ['"'])))

/-- The command of `Git GUI Here`. -/
def guiHereCommand (appDir placeholder : Str) : Str :=
  '"' :: (appDir ++ "\\bin\\wish.exe".toList) ++ '"' ::
    (' ' :: ('"' :: (appDir ++ "\\libexec\\git-core\\git-gui".toList) ++ ['"']) ++
      (' ' :: ("\"--working-dir\" ".toList ++ ('"' :: placeholder ++ ['"']))))

/-! ### Whose entries are removed -/

section Removal

variable (fold : Char → Char) (files : Str → List Str) (step : MenuRemoval) (r : MenuRegistry)

/-- The key's command runs a file in the installation directory or below it. -/
def MenuRemoval.Owns (key : Str) : Prop :=
  ∃ command ∈ r.keys step.isAdminLoggedOn (commandKey key),
    ∃ file ∈ files command, Below fold '\\' step.appDir file

instance (key : Str) : Decidable (step.Owns fold files r key) :=
  inferInstanceAs (Decidable (∃ _ ∈ r.keys step.isAdminLoggedOn (commandKey key), _))

/-- The keys that run something in the installation directory are gone, with all that is
below them, and the others are as they were. -/
def MenuRemoval.RemovesOwn : Prop :=
  ∀ key ∈ contextMenuKeys,
    (step.Owns fold files r key → ∀ k, Below id '\\' key k →
      (step.deleteContextMenuEntries r).keys step.isAdminLoggedOn k = none) ∧
    (¬ step.Owns fold files r key → ∀ k, Below id '\\' key k →
      (step.deleteContextMenuEntries r).keys step.isAdminLoggedOn k =
        r.keys step.isAdminLoggedOn k)

/-- The name of the directory tells whose the key is. -/
structure MenuRemoval.TellsApart (key : Str) : Prop where
  /-- A command of this installation has the name in it, as it is spelled. -/
  found : step.Owns fold files r key →
    0 < pos step.appDir (r.regQueryStringValue step.isAdminLoggedOn (commandKey key))
  /-- A command of another one has not, unless its key cannot be deleted. -/
  own : 0 < pos step.appDir (r.regQueryStringValue step.isAdminLoggedOn (commandKey key)) →
    step.succeeds key = true → step.Owns fold files r key
  deleted : step.Owns fold files r key → step.succeeds key = true

/-- The files that are run by a program that takes a script as its first argument. -/
def programAndScript (command : Str) : List Str := (commandLineToArgvW command).take 2

end Removal

/-! ### The loop -/

section Loop

variable {fold : Char → Char} {files : Str → List Str} {step : MenuRemoval} {r : MenuRegistry}
  {key k : Str}

theorem not_pos_nil (sub : Str) : ¬ 0 < pos sub [] := by
  rw [pos_pos_iff]
  rintro ⟨nonempty, inside⟩
  exact nonempty (List.infix_nil.mp inside)

theorem below_commandKey (key : Str) : Below id '\\' key (commandKey key) :=
  below_append id '\\' key "command".toList

/-- The key is deleted when its turn comes. -/
def MenuRemoval.erases (step : MenuRemoval) (key : Str) (t : KeyTree Char Str) : Bool :=
  decide (0 < pos step.appDir ((t (commandKey key)).getD [])) && step.succeeds key

theorem MenuRemoval.looksBelow (step : MenuRemoval) : LooksBelow '\\' step.erases := by
  intro key t t' same
  unfold erases
  rw [same _ (below_commandKey key)]

theorem separate_contextMenuKeys : contextMenuKeys.Pairwise (Apart '\\') := by
  decide +kernel

/-- One round. -/
theorem MenuRemoval.deleteContextMenuEntry_keys :
    (step.deleteContextMenuEntry r key).keys = Function.update r.keys step.isAdminLoggedOn
      (if step.erases key (r.keys step.isAdminLoggedOn) = true then
        eraseBelow '\\' key (r.keys step.isAdminLoggedOn)
      else r.keys step.isAdminLoggedOn) := by
  unfold deleteContextMenuEntry MenuRegistry.regQueryStringValue
    MenuRegistry.regDeleteKeyIncludingSubkeys erases
  by_cases found : 0 < pos step.appDir ((r.keys step.isAdminLoggedOn (commandKey key)).getD [])
  · cases done : step.succeeds key with
    | true => simp [found]
    | false => simp [found]
  · simp [found]

/-- The whole loop, in the root it works on. -/
theorem MenuRemoval.deleteContextMenuEntries_keys (step : MenuRemoval) (r : MenuRegistry) :
    (step.deleteContextMenuEntries r).keys step.isAdminLoggedOn =
      eraseEach '\\' step.erases contextMenuKeys (r.keys step.isAdminLoggedOn) := by
  apply Eq.symm
  apply List.foldl_hom (fun r : MenuRegistry => r.keys step.isAdminLoggedOn)
  intro r key
  rw [deleteContextMenuEntry_keys, Function.update_self]

/-- The other root is left alone. -/
theorem MenuRemoval.deleteContextMenuEntries_other {rootKey : Bool}
    (other : rootKey ≠ step.isAdminLoggedOn) :
    (step.deleteContextMenuEntries r).keys rootKey = r.keys rootKey := by
  unfold deleteContextMenuEntries
  induction contextMenuKeys generalizing r with
  | nil => rfl
  | cons key keys ih =>
      rw [List.foldl_cons, ih, deleteContextMenuEntry_keys, Function.update_of_ne other]

/-- What becomes of one of the four keys is decided by its command alone. -/
theorem MenuRemoval.keys_below (member : key ∈ contextMenuKeys) (below : Below id '\\' key k) :
    (step.deleteContextMenuEntries r).keys step.isAdminLoggedOn k =
      if step.erases key (r.keys step.isAdminLoggedOn) = true then none
      else r.keys step.isAdminLoggedOn k := by
  rw [deleteContextMenuEntries_keys]
  exact eraseEach_below step.looksBelow separate_contextMenuKeys member below

/-- Keys outside the four are left alone. -/
theorem MenuRemoval.keys_outside (outside : ∀ key ∈ contextMenuKeys, ¬ Below id '\\' key k) :
    (step.deleteContextMenuEntries r).keys step.isAdminLoggedOn k =
      r.keys step.isAdminLoggedOn k := by
  rw [deleteContextMenuEntries_keys, eraseEach_eq step.looksBelow separate_contextMenuKeys, if_neg]
  rintro ⟨key, member, below, -⟩
  exact outside key member below

theorem MenuRemoval.erases_iff :
    step.erases key (r.keys step.isAdminLoggedOn) = true ↔
      0 < pos step.appDir (r.regQueryStringValue step.isAdminLoggedOn (commandKey key)) ∧
        step.succeeds key = true := by
  unfold erases MenuRegistry.regQueryStringValue
  rw [Bool.and_eq_true, decide_eq_true_iff]

theorem MenuRemoval.removesOwn_of_tellsApart
    (apart : ∀ key ∈ contextMenuKeys, step.TellsApart fold files r key) :
    step.RemovesOwn fold files r := by
  intro key member
  have tells := apart key member
  constructor
  · intro owns k below
    rw [keys_below member below, if_pos]
    exact erases_iff.mpr ⟨tells.found owns, tells.deleted owns⟩
  · intro others k below
    rw [keys_below member below, if_neg]
    intro erased
    obtain ⟨occurs, done⟩ := erases_iff.mp erased
    exact others (tells.own occurs done)

/-- The uninstaller removes its own entries and no others exactly when the name of its
directory tells them apart. -/
theorem MenuRemoval.removesOwn_iff (fold : Char → Char) (files : Str → List Str)
    (step : MenuRemoval) (r : MenuRegistry) :
    step.RemovesOwn fold files r ↔
      ∀ key ∈ contextMenuKeys, step.TellsApart fold files r key := by
  refine ⟨fun removes key member => ?_, removesOwn_of_tellsApart⟩
  have here : (step.deleteContextMenuEntries r).keys step.isAdminLoggedOn (commandKey key) = _ :=
    keys_below member (below_commandKey key)
  have owned : step.Owns fold files r key →
      step.erases key (r.keys step.isAdminLoggedOn) = true := by
    intro owns
    by_contra kept
    rw [if_neg kept, (removes key member).1 owns _ (below_commandKey key)] at here
    obtain ⟨command, stored, _⟩ := owns
    rw [← here] at stored
    cases stored
  refine ⟨fun owns => (erases_iff.mp (owned owns)).1, fun occurs done => ?_,
    fun owns => (erases_iff.mp (owned owns)).2⟩
  by_contra others
  rw [if_pos (erases_iff.mpr ⟨occurs, done⟩),
    (removes key member).2 others _ (below_commandKey key)] at here
  -- There is no command in which the name could occur.
  unfold MenuRegistry.regQueryStringValue at occurs
  rw [here] at occurs
  exact not_pos_nil step.appDir occurs

end Loop

/-! ### Entries of installations -/

section Installed

variable {fold : Char → Char} {files : Str → List Str} {step : MenuRemoval} {r : MenuRegistry}
  {key syswow64 appDir placeholder : Str}

theorem programAndScript_quoted {program script more : Str} {c : Char} (plain : '"' ∉ program)
    (plain' : '"' ∉ script ++ [c]) (no_slash : c ≠ '\\') (separate : Separate more) :
    programAndScript ('"' :: program ++ '"' :: (' ' :: ('"' :: (script ++ [c]) ++ ['"']) ++ more)) =
      [program, script ++ [c]] := by
  obtain ⟨outside, whole⟩ := arguments_quoted plain' no_slash
  unfold programAndScript
  rw [commandLineToArgvW_quoted plain, List.cons_append, arguments_blank _ (by decide),
    arguments_append outside separate, whole]
  rfl

theorem programAndScript_shellHere (plain : '"' ∉ syswow64) (plain' : '"' ∉ appDir) :
    programAndScript (shellHereCommand syswow64 appDir placeholder) =
      [syswow64 ++ "\\wscript".toList, appDir ++ "\\Git Bash.vbs".toList] := by
  have script : appDir ++ "\\Git Bash.vbs".toList = appDir ++ "\\Git Bash.vb".toList ++ ['s'] := by
    rw [List.append_assoc]
    rfl
  rw [shellHereCommand, script]
  apply programAndScript_quoted
  · simp [plain]
  · simp [plain']
  · decide
  · exact separate_cons (by decide)

theorem programAndScript_guiHere (plain : '"' ∉ appDir) :
    programAndScript (guiHereCommand appDir placeholder) =
      [appDir ++ "\\bin\\wish.exe".toList, appDir ++ "\\libexec\\git-core\\git-gui".toList] := by
  have script : appDir ++ "\\libexec\\git-core\\git-gui".toList =
      appDir ++ "\\libexec\\git-core\\git-gu".toList ++ ['i'] := by
    rw [List.append_assoc]
    rfl
  rw [guiHereCommand, script]
  apply programAndScript_quoted
  · simp [plain]
  · simp [plain]
  · decide
  · exact separate_cons (by decide)

/-- A key that is absent, or whose command runs something in this installation, is told
apart. -/
theorem MenuRemoval.tellsApart_of_own (nonempty : step.appDir ≠ [])
    (done : step.succeeds key = true)
    (own : ∀ command ∈ r.keys step.isAdminLoggedOn (commandKey key),
      step.appDir <:+: command ∧ ∃ file ∈ files command, Below fold '\\' step.appDir file) :
    step.TellsApart fold files r key := by
  refine ⟨fun owns => ?_, fun occurs _ => ?_, fun _ => done⟩
  · obtain ⟨command, stored, _⟩ := owns
    unfold MenuRegistry.regQueryStringValue
    rw [Option.mem_def.mp stored]
    exact pos_pos_iff.mpr ⟨nonempty, (own command stored).1⟩
  · unfold MenuRegistry.regQueryStringValue at occurs
    cases stored : r.keys step.isAdminLoggedOn (commandKey key) with
    | none =>
        rw [stored] at occurs
        exact absurd occurs (not_pos_nil step.appDir)
    | some command => exact ⟨command, stored, (own command stored).2⟩

/-- The commands that the installer writes. -/
def Installs (syswow64 appDir command : Str) : Prop :=
  ∃ placeholder, command = shellHereCommand syswow64 appDir placeholder ∨
    command = guiHereCommand appDir placeholder

theorem infix_of_installs {command : Str} (installs : Installs syswow64 appDir command) :
    appDir <:+: command := by
  obtain ⟨placeholder, rfl | rfl⟩ := installs
  · exact ⟨'"' :: (syswow64 ++ "\\wscript\" \"".toList),
      "\\Git Bash.vbs\" \"".toList ++ placeholder ++ ['"'], by simp [shellHereCommand]⟩
  · exact ⟨['"'], "\\bin\\wish.exe\" \"".toList ++ appDir ++
      "\\libexec\\git-core\\git-gui\" \"--working-dir\" \"".toList ++ placeholder ++ ['"'],
      by simp [guiHereCommand]⟩

/-- What an installation has written, its uninstaller removes. -/
theorem MenuRemoval.removesOwn_of_installs (nonempty : step.appDir ≠ []) (plain : '"' ∉ syswow64)
    (plain' : '"' ∉ step.appDir) (done : ∀ key ∈ contextMenuKeys, step.succeeds key = true)
    (written : ∀ key ∈ contextMenuKeys, ∀ command ∈ r.keys step.isAdminLoggedOn (commandKey key),
      Installs syswow64 step.appDir command) :
    step.RemovesOwn fold programAndScript r := by
  apply removesOwn_of_tellsApart
  intro key member
  apply tellsApart_of_own nonempty (done key member)
  intro command stored
  have installs := written key member command stored
  refine ⟨infix_of_installs installs, ?_⟩
  obtain ⟨placeholder, rfl | rfl⟩ := installs
  · rw [programAndScript_shellHere plain plain']
    exact ⟨_, List.mem_cons_of_mem _ List.mem_cons_self, below_append fold '\\' _ _⟩
  · rw [programAndScript_guiHere plain']
    exact ⟨_, List.mem_cons_self, below_append fold '\\' _ _⟩

/-- An installation whose directory's name begins with that of this one loses its
entries. -/
theorem MenuRemoval.takes_neighbour {c : Char} {more : Str} (nonempty : step.appDir ≠ [])
    (no_root : step.appDir.getLast? ≠ some '\\') (other : fold c ≠ fold '\\')
    (plain : '"' ∉ step.appDir ++ c :: more) (member : key ∈ contextMenuKeys)
    (done : step.succeeds key = true)
    (stored : r.keys step.isAdminLoggedOn (commandKey key) =
      some (guiHereCommand (step.appDir ++ c :: more) placeholder)) :
    ¬ step.Owns fold programAndScript r key ∧
      (step.deleteContextMenuEntries r).keys step.isAdminLoggedOn (commandKey key) = none := by
  have neighbour : ∀ rest, ¬ Below fold '\\' step.appDir (step.appDir ++ c :: more ++ rest) := by
    intro rest
    rw [List.append_assoc]
    exact not_below_sibling no_root other
  constructor
  · rintro ⟨command, here, file, runs, below⟩
    obtain rfl := Option.some.inj (stored.symm.trans here)
    rw [programAndScript_guiHere plain] at runs
    rcases List.mem_cons.mp runs with rfl | runs
    · exact neighbour _ below
    · obtain rfl := List.mem_singleton.mp runs
      exact neighbour _ below
  · rw [keys_below member (below_commandKey key), if_pos]
    apply erases_iff.mpr
    refine ⟨pos_pos_iff.mpr ⟨nonempty, ?_⟩, done⟩
    unfold MenuRegistry.regQueryStringValue
    rw [stored]
    have begins : step.appDir <:+: step.appDir ++ c :: more := (List.prefix_append _ _).isInfix
    exact begins.trans (@infix_of_installs [] _ _ ⟨placeholder, Or.inr rfl⟩)

/-- The uninstaller of `C:\Git`, run by an administrator. -/
def MenuRemoval.ofGit : MenuRemoval where
  appDir := "C:\\Git".toList
  isAdminLoggedOn := true
  succeeds := fun _ => true

/-- All users have one key, with a command. -/
def MenuRegistry.withCommand (key command : Str) : MenuRegistry where
  keys := fun rootKey k =>
    if rootKey = false then none
    else if k = key then some []
    else if k = commandKey key then some command
    else none
  log := []

/-- `Git GUI Here` of an installation, as the only entry. -/
def MenuRegistry.withGitGui (appDir : Str) : MenuRegistry :=
  .withCommand "SOFTWARE\\Classes\\Directory\\shell\\git_gui".toList
    (guiHereCommand appDir "%1".toList)

/-- The uninstaller of `C:\Git` removes an entry of `C:\Git2` and misses its own when it
is written `c:\git`. -/
theorem MenuRemoval.confuses_entries :
    ¬ ofGit.RemovesOwn Char.toUpper programAndScript (.withGitGui "C:\\Git2".toList) ∧
      ¬ ofGit.RemovesOwn Char.toUpper programAndScript (.withGitGui "c:\\git".toList) := by
  have member : "SOFTWARE\\Classes\\Directory\\shell\\git_gui".toList ∈ contextMenuKeys := by
    decide
  constructor
  · intro removes
    have other : Char.toUpper '2' ≠ Char.toUpper '\\' := by decide
    have stored : (MenuRegistry.withGitGui "C:\\Git2".toList).keys ofGit.isAdminLoggedOn
        (commandKey "SOFTWARE\\Classes\\Directory\\shell\\git_gui".toList) =
          some (guiHereCommand (ofGit.appDir ++ ['2']) "%1".toList) := by decide
    obtain ⟨others, gone⟩ := takes_neighbour (by decide) (by decide) other (by decide) member rfl
      stored
    have kept := (removes _ member).2 others _ (below_commandKey _)
    rw [gone, stored] at kept
    cases kept
  · intro removes
    have gone := (removes _ member).1 (by decide) _ (below_commandKey _)
    exact absurd gone (by decide)

end Installed

end MsysGit.WinGit
