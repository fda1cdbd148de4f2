import MsysGit.Library.Replacement
import MsysGit.WinGit.ContextMenu

/-!
# The life of the context menu entries

After an installation, `CurStepChanged` writes the entries that have been selected: first the
title of a key, then its command, then the same for the background of a directory, where
`%v` stands in place of `%1`.  Whatever fails stops the writing of this entry.  With the
shell extension selected, the entries of earlier installations are deleted instead.

Whatever is selected in whatever number of installations into one directory, the
uninstaller leaves nothing in the four keys, except for the title of a key whose command
could not be written (`uninstalled_of_installs`).
-/

namespace MsysGit.WinGit

open MsysGit.Library

/-! ### The code -/

/-- `RegWriteStringValue`, of the default value. -/
def MenuRegistry.regWriteStringValue (r : MenuRegistry) (ok rootKey : Bool) (key value : Str) :
    Bool × MenuRegistry :=
  (ok, if ok then
    { r with keys :=
        Function.update r.keys rootKey (writeValue '\\' key value [] (r.keys rootKey)) }
  else r)

/-- The part of `CurStepChanged` that is about Explorer. -/
structure MenuInstall where
  appDir : Str
  /-- `{syswow64}` -/
  syswow64 : Str
  isAdminLoggedOn : Bool
  /-- `IsComponentSelected`, of the three components. -/
  shellHere : Bool
  guiHere : Bool
  cheetah : Bool
  /-- Whether a value can be written. -/
  writes : Str → Bool
  /-- Whether a key can be deleted. -/
  deletes : Str → Bool

/-- `%1` -/
def directoryPlaceholder : Str := "%1".toList

/-- `%v` -/
def backgroundPlaceholder : Str := "%v".toList

/-- The keys and texts of an entry. -/
structure MenuEntry where
  key : Str
  background : Str
  /-- `Msg` -/
  title : Str
  /-- `Cmd` -/
  command : Str
  message : String

/-- An entry is written, up to the first failure. -/
def MenuInstall.createEntry (step : MenuInstall) (entry : MenuEntry) (r : MenuRegistry) :
    MenuRegistry :=
  let rootKey := step.isAdminLoggedOn
  let write (key value : Str) (r : MenuRegistry) :=
    r.regWriteStringValue (step.writes key) rootKey key value
  let failed (r : MenuRegistry) : MenuRegistry := { r with log := r.log ++ [entry.message] }
  let titled := write entry.key entry.title r
  if !titled.1 then failed titled.2
  else
    let named := write (commandKey entry.key) entry.command titled.2
    if !named.1 then failed named.2
    -- `StringChangeEx` returns how many it has replaced.
    else if occurrences directoryPlaceholder entry.command ≠ 1 then failed named.2
    else
      let titled' := write entry.background entry.title named.2
      if !titled'.1 then failed titled'.2
      else
        let named' := write (commandKey entry.background)
          (replaceAll directoryPlaceholder backgroundPlaceholder entry.command) titled'.2
        if !named'.1 then failed named'.2 else named'.2

/-- `Git Bash Here` -/
def MenuInstall.shellEntry (step : MenuInstall) : MenuEntry where
  key := "SOFTWARE\\Classes\\Directory\\shell\\git_shell".toList
  background := "SOFTWARE\\Classes\\Directory\\Background\\shell\\git_shell".toList
  title := "Git Ba&sh Here".toList
  command := shellHereCommand step.syswow64 step.appDir directoryPlaceholder
  message := "Unable to create \"Git Bash Here\" shell extension."

/-- `Git GUI Here` -/
def MenuInstall.guiEntry (step : MenuInstall) : MenuEntry where
  key := "SOFTWARE\\Classes\\Directory\\shell\\git_gui".toList
  background := "SOFTWARE\\Classes\\Directory\\Background\\shell\\git_gui".toList
  title := "Git &GUI Here".toList
  command := guiHereCommand step.appDir directoryPlaceholder
  message := "Unable to create \"Git GUI Here\" shell extension."

/-- The call of `DeleteContextMenuEntries`. -/
def MenuInstall.removal (step : MenuInstall) : MenuRemoval where
  appDir := step.appDir
  isAdminLoggedOn := step.isAdminLoggedOn
  succeeds := step.deletes

def MenuInstall.createEntries (step : MenuInstall) (r : MenuRegistry) : MenuRegistry :=
  let shell := if step.shellHere then step.createEntry step.shellEntry r else r
  let gui := if step.guiHere then step.createEntry step.guiEntry shell else shell
  if step.cheetah then step.removal.deleteContextMenuEntries gui else gui

/-! ### What the installations of a directory leave -/

/-- What is in the four keys is this installation's, and what is outside is as it was. -/
structure OursOnly (syswow64 appDir : Str) (before t : KeyTree Char Str) : Prop where
  commands : ∀ key ∈ contextMenuKeys, ∀ command, t (commandKey key) = some command →
    Installs syswow64 appDir command
  /-- Without a command there is at most the key. -/
  bare : ∀ key ∈ contextMenuKeys, t (commandKey key) = none →
    ∀ k, Below id '\\' key k → k ≠ key → t k = none
  /-- Outside, keys may have come into being that are above the four. -/
  others : ∀ k, (∀ key ∈ contextMenuKeys, ¬ Below id '\\' key k) →
    t k = before k ∨ before k = none ∧ t k = some [] ∧
      ∃ key ∈ contextMenuKeys, Above '\\' k (commandKey key)

section Writing

variable {syswow64 appDir : Str} {before t : KeyTree Char Str} {key value : Str}

theorem no_root_of_contextMenuKeys : ∀ key ∈ contextMenuKeys, key.getLast? ≠ some '\\' := by
  decide +kernel

/-- Two of the four keys that have a key in common are the same. -/
theorem same_of_below {other k : Str} (member : key ∈ contextMenuKeys)
    (member' : other ∈ contextMenuKeys) (below : Below id '\\' key k)
    (below' : Below id '\\' other k) : key = other := by
  by_contra different
  exact (separate_contextMenuKeys.forall member member' different).not_below below below'

theorem commandKey_ne (key : Str) : commandKey key ≠ key := by
  intro same
  have lengths := congrArg List.length same
  rw [commandKey, List.length_append] at lengths
  have : ("\\command".toList).length = 8 := rfl
  omega

/-- What is written in one of the keys changes nothing in another one. -/
theorem writeValue_in_other {other written k : Str} (member : key ∈ contextMenuKeys)
    (member' : other ∈ contextMenuKeys) (different : key ≠ other) (below : Below id '\\' key k)
    (elsewhere : Below id '\\' other written) :
    writeValue '\\' written value [] t k = t k :=
  writeValue_of_apart (separate_contextMenuKeys.forall member member' different) below elsewhere

/-- Outside the four keys, writing only makes keys above them. -/
theorem OursOnly.others_of_write (ours : OursOnly syswow64 appDir before t) {written : Str}
    (member : key ∈ contextMenuKeys) (inside : Below id '\\' key written)
    (above : ∀ k, Above '\\' k written → Above '\\' k (commandKey key)) :
    ∀ k, (∀ key ∈ contextMenuKeys, ¬ Below id '\\' key k) →
      writeValue '\\' written value [] t k = before k ∨
        before k = none ∧ writeValue '\\' written value [] t k = some [] ∧
          ∃ key ∈ contextMenuKeys, Above '\\' k (commandKey key) := by
  intro k outside
  have different : k ≠ written := by
    rintro rfl
    exact outside key member inside
  by_cases higher : Above '\\' k written
  · rcases ours.others k outside with same | ⟨absent, created, above'⟩
    · cases stored : before k with
      | none =>
          refine Or.inr ⟨rfl, ?_, key, member, above k higher⟩
          rw [writeValue, if_neg different, if_pos higher, same, stored]
          rfl
      | some v =>
          exact Or.inl (writeValue_of_some different (same.trans stored))
    · exact Or.inr ⟨absent, writeValue_of_some different created, above'⟩
  · rw [writeValue_of_not_above different higher]
    exact ours.others k outside

/-- The title of one of the four keys is written. -/
theorem OursOnly.title (ours : OursOnly syswow64 appDir before t) (member : key ∈ contextMenuKeys)
    (value : Str) : OursOnly syswow64 appDir before (writeValue '\\' key value [] t) := by
  have kept : ∀ other ∈ contextMenuKeys, ∀ k, Below id '\\' other k → k ≠ key →
      writeValue '\\' key value [] t k = t k := by
    intro other member' k below different
    by_cases same : other = key
    · subst same
      exact writeValue_of_not_above different
        (not_above_self below (no_root_of_contextMenuKeys other member))
    · exact writeValue_in_other member' member same below (below_refl '\\' key)
  have command (other : Str) (member' : other ∈ contextMenuKeys) :
      writeValue '\\' key value [] t (commandKey other) = t (commandKey other) := by
    refine kept other member' _ (below_commandKey other) ?_
    rintro rfl
    have same := same_of_below member member' (below_refl _ _) (below_commandKey other)
    exact commandKey_ne other same
  refine ⟨fun other member' => ?_, fun other member' none k below different => ?_,
    ours.others_of_write member (below_refl '\\' key) fun k higher =>
      higher.trans (List.prefix_append _ _)⟩
  · rw [command other member']
    exact ours.commands other member'
  · rw [command other member'] at none
    rw [kept other member' k below ?_]
    · exact ours.bare other member' none k below different
    · rintro rfl
      exact different (same_of_below member member' (below_refl _ _) below)

/-- The command of one of the four keys is written. -/
theorem OursOnly.command (ours : OursOnly syswow64 appDir before t) (member : key ∈ contextMenuKeys)
    (installs : Installs syswow64 appDir value) :
    OursOnly syswow64 appDir before (writeValue '\\' (commandKey key) value [] t) := by
  have elsewhere {other k : Str} (member' : other ∈ contextMenuKeys) (different : other ≠ key)
      (below : Below id '\\' other k) :
      writeValue '\\' (commandKey key) value [] t k = t k :=
    writeValue_in_other member' member different below (below_commandKey key)
  refine ⟨fun other member' command stored => ?_, fun other member' none k below different => ?_,
    ours.others_of_write member (below_commandKey key) fun k higher => higher⟩
  · by_cases same : other = key
    · subst same
      rw [writeValue_self] at stored
      exact Option.some.inj stored ▸ installs
    · rw [elsewhere member' same (below_commandKey other)] at stored
      exact ours.commands other member' command stored
  · by_cases same : other = key
    · subst same
      rw [writeValue_self] at none
      cases none
    · rw [elsewhere member' same (below_commandKey other)] at none
      rw [elsewhere member' same below]
      exact ours.bare other member' none k below different

end Writing

section Installations

variable {syswow64 appDir : Str} {step : MenuInstall} {r₀ r : MenuRegistry} {rootKey : Bool}

/-- What is known of the registry after installations into the directory. -/
def HasOursOnly (syswow64 appDir : Str) (rootKey : Bool) (r₀ r : MenuRegistry) : Prop :=
  OursOnly syswow64 appDir (r₀.keys rootKey) (r.keys rootKey) ∧
    r.keys (!rootKey) = r₀.keys (!rootKey)

theorem MenuRegistry.regWriteStringValue_keys (r : MenuRegistry) (ok rootKey : Bool)
    (key value : Str) : (r.regWriteStringValue ok rootKey key value).2.keys =
      if ok then Function.update r.keys rootKey (writeValue '\\' key value [] (r.keys rootKey))
      else r.keys := by
  cases ok <;> rfl

theorem HasOursOnly.write (has : HasOursOnly syswow64 appDir rootKey r₀ r) (ok : Bool)
    {key value : Str} (written : OursOnly syswow64 appDir (r₀.keys rootKey)
      (writeValue '\\' key value [] (r.keys rootKey))) :
    HasOursOnly syswow64 appDir rootKey r₀ (r.regWriteStringValue ok rootKey key value).2 := by
  rw [HasOursOnly, MenuRegistry.regWriteStringValue_keys]
  cases ok with
  | false => exact has
  | true =>
      rw [if_pos rfl, Function.update_self, Function.update_of_ne (by cases rootKey <;> decide)]
      exact ⟨written, has.2⟩

/-- However far the writing of an entry comes. -/
theorem HasOursOnly.createEntry
    (has : HasOursOnly syswow64 appDir step.isAdminLoggedOn r₀ r) {entry : MenuEntry}
    (member : entry.key ∈ contextMenuKeys) (member' : entry.background ∈ contextMenuKeys)
    (installs : Installs syswow64 appDir entry.command)
    (installs' : occurrences directoryPlaceholder entry.command = 1 → Installs syswow64 appDir
      (replaceAll directoryPlaceholder backgroundPlaceholder entry.command)) :
    HasOursOnly syswow64 appDir step.isAdminLoggedOn r₀ (step.createEntry entry r) := by
  have titled := has.write (step.writes entry.key) (has.1.title member entry.title)
  have named := titled.write (step.writes (commandKey entry.key)) (titled.1.command member installs)
  rw [MenuInstall.createEntry]
  dsimp only
  split
  · exact titled
  split
  · exact named
  split
  · exact named
  rename_i one
  have titled' := named.write (step.writes entry.background)
    (named.1.title member' entry.title)
  have named' := titled'.write (step.writes (commandKey entry.background))
    (titled'.1.command member' (installs' (not_not.mp one)))
  split
  · exact titled'
  split
  · exact named'
  · exact named'

/-- The first placeholder is the last thing in the command. -/
theorem replaceAll_command {front : Str}
    (one : occurrences directoryPlaceholder (front ++ (directoryPlaceholder ++ ['"'])) = 1) :
    replaceAll directoryPlaceholder backgroundPlaceholder
        (front ++ (directoryPlaceholder ++ ['"'])) = front ++ (backgroundPlaceholder ++ ['"']) := by
  rw [replaceAll_append_of_occurrences (one.trans (by decide))]
  exact congrArg (front ++ ·) (by decide)

theorem shellHereCommand_eq (syswow64 appDir : Str) : ∃ front, ∀ placeholder,
    shellHereCommand syswow64 appDir placeholder = front ++ (placeholder ++ ['"']) :=
  ⟨'"' :: (syswow64 ++ "\\wscript\" \"".toList ++ appDir ++ "\\Git Bash.vbs\" \"".toList),
    fun placeholder => by simp [shellHereCommand]⟩

theorem guiHereCommand_eq (appDir : Str) : ∃ front, ∀ placeholder,
    guiHereCommand appDir placeholder = front ++ (placeholder ++ ['"']) :=
  ⟨'"' :: (appDir ++ "\\bin\\wish.exe\" \"".toList ++ appDir ++
    "\\libexec\\git-core\\git-gui\" \"--working-dir\" \"".toList),
    fun placeholder => by simp [guiHereCommand]⟩

/-- Deleting takes away whole entries. -/
theorem HasOursOnly.delete {removal : MenuRemoval}
    (has : HasOursOnly syswow64 appDir removal.isAdminLoggedOn r₀ r) :
    HasOursOnly syswow64 appDir removal.isAdminLoggedOn r₀
      (removal.deleteContextMenuEntries r) := by
  refine ⟨⟨fun key member command stored => ?_, fun key member none k below different => ?_,
    fun k outside => ?_⟩, ?_⟩
  · rw [MenuRemoval.keys_below member (below_commandKey key)] at stored
    split at stored
    · cases stored
    · exact has.1.commands key member command stored
  · rw [MenuRemoval.keys_below member (below_commandKey key)] at none
    rw [MenuRemoval.keys_below member below]
    split
    · rfl
    · rename_i kept
      rw [if_neg kept] at none
      exact has.1.bare key member none k below different
  · rw [MenuRemoval.keys_outside outside]
    exact has.1.others k outside
  · rw [MenuRemoval.deleteContextMenuEntries_other (by cases removal.isAdminLoggedOn <;> decide)]
    exact has.2

theorem gitShell_member :
    "SOFTWARE\\Classes\\Directory\\shell\\git_shell".toList ∈ contextMenuKeys ∧
      "SOFTWARE\\Classes\\Directory\\Background\\shell\\git_shell".toList ∈ contextMenuKeys := by
  decide +kernel

theorem gitGui_member :
    "SOFTWARE\\Classes\\Directory\\shell\\git_gui".toList ∈ contextMenuKeys ∧
      "SOFTWARE\\Classes\\Directory\\Background\\shell\\git_gui".toList ∈ contextMenuKeys := by
  decide +kernel

theorem shellEntry_member (step : MenuInstall) :
    step.shellEntry.key ∈ contextMenuKeys ∧ step.shellEntry.background ∈ contextMenuKeys := by
  dsimp only [MenuInstall.shellEntry]
  exact gitShell_member

theorem guiEntry_member (step : MenuInstall) :
    step.guiEntry.key ∈ contextMenuKeys ∧ step.guiEntry.background ∈ contextMenuKeys := by
  dsimp only [MenuInstall.guiEntry]
  exact gitGui_member

/-- One installation. -/
theorem HasOursOnly.createEntries
    (has : HasOursOnly step.syswow64 step.appDir step.isAdminLoggedOn r₀ r) :
    HasOursOnly step.syswow64 step.appDir step.isAdminLoggedOn r₀ (step.createEntries r) := by
  have shell (r : MenuRegistry)
      (has : HasOursOnly step.syswow64 step.appDir step.isAdminLoggedOn r₀ r) :
      HasOursOnly step.syswow64 step.appDir step.isAdminLoggedOn r₀
        (step.createEntry step.shellEntry r) := by
    refine has.createEntry (shellEntry_member step).1 (shellEntry_member step).2
      ⟨directoryPlaceholder, Or.inl rfl⟩ fun one => ⟨backgroundPlaceholder, Or.inl ?_⟩
    obtain ⟨front, split⟩ := shellHereCommand_eq step.syswow64 step.appDir
    dsimp only [MenuInstall.shellEntry] at one ⊢
    rw [split] at one ⊢
    rw [replaceAll_command one, split]
  have gui (r : MenuRegistry)
      (has : HasOursOnly step.syswow64 step.appDir step.isAdminLoggedOn r₀ r) :
      HasOursOnly step.syswow64 step.appDir step.isAdminLoggedOn r₀
        (step.createEntry step.guiEntry r) := by
    refine has.createEntry (guiEntry_member step).1 (guiEntry_member step).2
      ⟨directoryPlaceholder, Or.inr rfl⟩ fun one => ⟨backgroundPlaceholder, Or.inr ?_⟩
    obtain ⟨front, split⟩ := guiHereCommand_eq step.appDir
    dsimp only [MenuInstall.guiEntry] at one ⊢
    rw [split] at one ⊢
    rw [replaceAll_command one, split]
  rw [MenuInstall.createEntries]
  have shelled : HasOursOnly step.syswow64 step.appDir step.isAdminLoggedOn r₀
      (if step.shellHere then step.createEntry step.shellEntry r else r) := by
    split
    · exact shell r has
    · exact has
  have guied : HasOursOnly step.syswow64 step.appDir step.isAdminLoggedOn r₀
      (if step.guiHere then step.createEntry step.guiEntry
          (if step.shellHere then step.createEntry step.shellEntry r else r)
        else if step.shellHere then step.createEntry step.shellEntry r else r) := by
    split
    · exact gui _ shelled
    · exact shelled
  split
  · exact @HasOursOnly.delete _ _ _ _ step.removal guied
  · exact guied

/-- Installations into one directory, by one kind of user. -/
theorem hasOursOnly_of_installs (installs : List MenuInstall)
    (one : ∀ step ∈ installs, step.syswow64 = syswow64 ∧ step.appDir = appDir ∧
      step.isAdminLoggedOn = rootKey) (has : HasOursOnly syswow64 appDir rootKey r₀ r) :
    HasOursOnly syswow64 appDir rootKey r₀
      (installs.foldl (fun r step => step.createEntries r) r) := by
  induction installs generalizing r with
  | nil => exact has
  | cons step installs ih =>
      obtain ⟨here, later⟩ := List.forall_mem_cons.mp one
      obtain ⟨rfl, rfl, rfl⟩ := here
      exact ih later has.createEntries

/-- What the uninstaller leaves. -/
structure Uninstalled (rootKey : Bool) (before installed after : MenuRegistry) : Prop where
  /-- Nothing is left below the four keys. -/
  below : ∀ key ∈ contextMenuKeys, ∀ k, Below id '\\' key k → k ≠ key →
    after.keys rootKey k = none
  /-- A key whose command was written is gone; another one is as it was. -/
  keys : ∀ key ∈ contextMenuKeys, after.keys rootKey key =
    if (installed.keys rootKey (commandKey key)).isSome then none else installed.keys rootKey key
  /-- Outside, there may be empty keys that are above the four. -/
  others : ∀ k, (∀ key ∈ contextMenuKeys, ¬ Below id '\\' key k) →
    after.keys rootKey k = before.keys rootKey k ∨
      before.keys rootKey k = none ∧ after.keys rootKey k = some [] ∧
        ∃ key ∈ contextMenuKeys, Above '\\' k (commandKey key)
  other_root : after.keys (!rootKey) = before.keys (!rootKey)

/-- **Installed and uninstalled.**  After any number of installations into one directory, with any
components and any failures, the uninstaller, if it can delete, leaves nothing in the four keys but
the titles of keys without a command, and changes no other key. -/
theorem uninstalled_of_installs (nonempty : appDir ≠ [])
    (clean : ∀ key ∈ contextMenuKeys, ∀ k, Below id '\\' key k → r₀.keys rootKey k = none)
    (installs : List MenuInstall)
    (one : ∀ step ∈ installs, step.syswow64 = syswow64 ∧ step.appDir = appDir ∧
      step.isAdminLoggedOn = rootKey) :
    let installed := installs.foldl (fun r step => step.createEntries r) r₀
    Uninstalled rootKey r₀ installed
      ((⟨appDir, rootKey, fun _ => true⟩ : MenuRemoval).deleteContextMenuEntries installed) := by
  intro installed
  let removal : MenuRemoval := ⟨appDir, rootKey, fun _ => true⟩
  have start : HasOursOnly syswow64 appDir rootKey r₀ r₀ := by
    refine ⟨⟨fun key member command stored => ?_, fun key member _ k below _ => ?_,
      fun _ _ => Or.inl rfl⟩, rfl⟩
    · rw [clean key member _ (below_commandKey key)] at stored
      cases stored
    · exact clean key member k below
  have ours : HasOursOnly syswow64 appDir rootKey r₀ installed :=
    hasOursOnly_of_installs installs one start
  have after :
      HasOursOnly syswow64 appDir rootKey r₀ (removal.deleteContextMenuEntries installed) :=
    @HasOursOnly.delete _ _ _ _ removal ours
  have erased (key : Str) (member : key ∈ contextMenuKeys) :
      removal.erases key (installed.keys rootKey) = true ↔
        (installed.keys rootKey (commandKey key)).isSome = true := by
    rw [MenuRemoval.erases, Bool.and_true, decide_eq_true_eq]
    cases stored : installed.keys rootKey (commandKey key) with
    | none => exact iff_of_false (not_pos_nil appDir) Bool.false_ne_true
    | some command =>
        have written := ours.1.commands key member command stored
        exact iff_of_true (pos_pos_iff.mpr ⟨nonempty, infix_of_installs written⟩) rfl
  refine ⟨fun key member k below different => ?_, fun key member => ?_, after.1.others, after.2⟩
  · have here : (removal.deleteContextMenuEntries installed).keys rootKey k = _ :=
      MenuRemoval.keys_below member below
    refine here.trans ?_
    split
    · rfl
    · rename_i kept
      refine ours.1.bare key member ?_ k below different
      rwa [show removal.isAdminLoggedOn = rootKey from rfl, erased key member, Bool.not_eq_true,
        Option.isSome_eq_false_iff, Option.isNone_iff_eq_none] at kept
  · have here : (removal.deleteContextMenuEntries installed).keys rootKey key = _ :=
      MenuRemoval.keys_below member (below_refl '\\' key)
    refine here.trans ?_
    simp only [show removal.isAdminLoggedOn = rootKey from rfl, erased key member]

/-- An installation into `C:\Git` by an administrator, with both entries. -/
def MenuInstall.intoGit : MenuInstall where
  appDir := "C:\\Git".toList
  syswow64 := "C:\\Windows\\SysWOW64".toList
  isAdminLoggedOn := true
  shellHere := true
  guiHere := true
  cheetah := false
  writes := fun _ => true
  deletes := fun _ => true

/-- Explorer has no keys. -/
def MenuRegistry.empty : MenuRegistry where
  keys := fun _ _ => none
  log := []

theorem uninstalled_intoGit :
    let installed := MenuInstall.intoGit.createEntries .empty
    (∀ key ∈ contextMenuKeys, (installed.keys true (commandKey key)).isSome = true) ∧
      Uninstalled true .empty installed
        ((⟨MenuInstall.intoGit.appDir, true, fun _ => true⟩ : MenuRemoval).deleteContextMenuEntries
          installed) := by
  constructor
  · decide +kernel
  · apply uninstalled_of_installs (by decide) (fun _ _ _ _ => rfl) [MenuInstall.intoGit]
    intro step member
    rw [List.mem_singleton.mp member]
    exact ⟨rfl, rfl, rfl⟩

end Installations

end MsysGit.WinGit
