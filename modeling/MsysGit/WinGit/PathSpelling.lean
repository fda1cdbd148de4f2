import MsysGit.Library.Below
import MsysGit.WinGit.SearchPath
import MsysGit.WinGit.VariableView

/-!
# Spellings of the installation directory in `PATH`

The uninstaller takes every entry out of `PATH` that begins with the installation
directory as it is spelled there.  Windows takes other entries for the same directory,
too: those in other letters, and those in quotes.  They stay.

`fold` is what Windows compares file names by.
-/

namespace MsysGit.WinGit

open MsysGit.Library

section Spelling

variable (fold : Char → Char)

/-- The entry names the directory or one below it, as it stands or without its quotes. -/
def NamesAppDir (appDir dir : Str) : Prop :=
  Below fold '\\' appDir dir ∨ Below fold '\\' appDir (removeQuotes dir)

instance (appDir dir : Str) : Decidable (NamesAppDir fold appDir dir) :=
  inferInstanceAs (Decidable (_ ∨ _))

/-- The entries of the stored `PATH`. -/
def pathEntries (m : Machine) (allUsers : Bool) : List Str :=
  entries ';' ((storedPath m allUsers).getD [])

variable (step : Uninstall) (m : Machine)

/-- The text that the uninstaller takes for the `PATH`. -/
def Uninstall.readPath : Str := (Setup.start m step.environment).envText .path step.isAdminLoggedOn

/-- The uninstaller leaves no entry that names the installation directory, and every
other entry in its place. -/
def Uninstall.RemovesAppDir : Prop :=
  let after := pathEntries (curUninstallStepChanged step m).toMachine step.isAdminLoggedOn
  (∀ dir ∈ after, ¬ NamesAppDir fold step.appDir dir) ∧
    ((pathEntries m step.isAdminLoggedOn).filter
      fun dir => ¬ NamesAppDir fold step.appDir dir).Sublist after

instance : Decidable (step.RemovesAppDir fold m) := inferInstanceAs (Decidable (_ ∧ _))

/-- The entries that name the installation directory begin with it letter by letter; if
the `PATH` cannot be written, there are none. -/
def Uninstall.SpelledAlike : Prop :=
  if step.succeeds .set .path = true then
    ∀ dir ∈ entries ';' (step.readPath m),
      NamesAppDir fold step.appDir dir → insideAppDir step.appDir dir = true
  else ∀ dir ∈ pathEntries m step.isAdminLoggedOn, ¬ NamesAppDir fold step.appDir dir

end Spelling

section Uninstallation

variable {fold : Char → Char} {step : Uninstall} {m : Machine} {appDir dir : Str}

theorem namesAppDir_of_inside (inside : insideAppDir appDir dir = true) :
    NamesAppDir fold appDir dir :=
  Or.inl (below_of_begins (insideAppDir_iff.mp inside))

/-- A text that is stored is the one that is read. -/
theorem Uninstall.readPath_of_stored (stored : pathEntries m step.isAdminLoggedOn ≠ []) :
    step.readPath m = (storedPath m step.isAdminLoggedOn).getD [] := by
  have some_text : ((storedPath m step.isAdminLoggedOn).getD []).length ≠ 0 := by
    intro none
    apply stored
    rw [pathEntries, List.length_eq_zero_iff.mp none]
    rfl
  unfold readPath Setup.envText
  exact if_neg some_text

/-- The variables that are reverted before it do not change what is read of `PATH`. -/
theorem Uninstall.getEnvStrings_readPath :
    (step.revertVariable .svnSsh (step.revertVariable .gitSsh
      (Setup.start m step.environment))).getEnvStrings .path step.isAdminLoggedOn =
        splitStrings (step.readPath m) := by
  rw [Setup.getEnvStrings_view, view_revertVariable_other .path .svnSsh nofun,
    view_revertVariable_other .path .gitSsh nofun]
  rfl

theorem entries_outside (appDir text : Str) :
    entries ';' (join ';' (outside appDir text)) = outside appDir text := by
  apply entries_join
  · exact fun dir old => ne_nil_of_mem_entries (List.mem_of_mem_filter old)
  · exact fun dir old => notMem_of_mem_entries (List.mem_of_mem_filter old)

/-- What the uninstaller leaves in the `PATH` that it can write. -/
theorem Uninstall.pathEntries_of_written (written : step.succeeds .set .path = true) :
    pathEntries (curUninstallStepChanged step m).toMachine step.isAdminLoggedOn =
      outside step.appDir (step.readPath m) := by
  let before := step.revertVariable .svnSsh
    (step.revertVariable .gitSsh (Setup.start m step.environment))
  have merged := merge_removed step.appDir (step.readPath m)
  have none_left : merge ';' (removeAppDir step.appDir (splitStrings (step.readPath m))) = [] →
      outside step.appDir (step.readPath m) = [] := by
    intro empty
    by_contra some_left
    rw [merged] at empty
    exact join_outside_ne_nil some_left empty
  rw [pathEntries, storedPath, curUninstallStepChanged, deleteSetupIni_registry,
    revertVariable_path .home (by decide), Setup.orLog_toMachine, getEnvStrings_readPath, written]
  rcases Setup.setEnvStrings_cases before true .path step.isAdminLoggedOn
    (removeAppDir step.appDir (splitStrings (step.readPath m))) with
    ⟨kept, _, ⟨empty, none⟩ | failed⟩ | ⟨wrote, _⟩ | ⟨gone, _, empty, _⟩
  · rw [kept, none, none_left empty]
    rfl
  · cases failed
  · rw [wrote, merged]
    dsimp only [Setup.regWriteStringValue]
    rw [if_pos ⟨rfl, rfl⟩]
    exact entries_outside step.appDir (step.readPath m)
  · rw [gone, none_left empty]
    dsimp only [Setup.regDeleteValue]
    rw [if_pos ⟨rfl, rfl⟩]
    rfl

/-- What cannot be written stays. -/
theorem Uninstall.pathEntries_of_failed (failed : step.succeeds .set .path = false) :
    pathEntries (curUninstallStepChanged step m).toMachine step.isAdminLoggedOn =
      pathEntries m step.isAdminLoggedOn := by
  let before := step.revertVariable .svnSsh
    (step.revertVariable .gitSsh (Setup.start m step.environment))
  have unchanged := step.reverted_path m step.isAdminLoggedOn
  rw [pathEntries, storedPath, curUninstallStepChanged, deleteSetupIni_registry,
    revertVariable_path .home (by decide), Setup.orLog_toMachine, failed]
  rcases Setup.setEnvStrings_cases before false .path step.isAdminLoggedOn
    (removeAppDir step.appDir (before.getEnvStrings .path step.isAdminLoggedOn)) with
    ⟨kept, _⟩ | ⟨_, _, _, ok⟩ | ⟨_, _, _, _, ok⟩
  · rw [kept, unchanged]
    rfl
  · cases ok
  · cases ok

/-- The uninstaller removes the installation directory from `PATH` exactly when it is
spelled there as it was installed. -/
theorem Uninstall.removesAppDir_iff (fold : Char → Char) (step : Uninstall) (m : Machine) :
    step.RemovesAppDir fold m ↔ step.SpelledAlike fold m := by
  unfold RemovesAppDir SpelledAlike
  by_cases written : step.succeeds .set .path = true
  · rw [if_pos written, pathEntries_of_written written]
    constructor
    · rintro ⟨none_left, _⟩ dir entry names
      by_contra apart
      have left : dir ∈ outside step.appDir (step.readPath m) := by
        refine List.mem_filter.mpr ⟨entry, decide_eq_true fun begins => apart ?_⟩
        exact insideAppDir_iff.mpr begins
      exact none_left dir left names
    · intro alike
      have apart : ∀ dir ∈ outside step.appDir (step.readPath m),
          ¬ NamesAppDir fold step.appDir dir := by
        intro dir left names
        obtain ⟨entry, outs⟩ := List.mem_filter.mp left
        exact of_decide_eq_true outs (insideAppDir_iff.mp (alike dir entry names))
      refine ⟨apart, ?_⟩
      by_cases stored : pathEntries m step.isAdminLoggedOn = []
      · rw [stored]
        exact List.nil_sublist _
      · -- What does not name the directory does not begin with it either.
        unfold outside
        rw [readPath_of_stored stored]
        apply List.monotone_filter_right
        intro dir other
        have not_named := of_decide_eq_true other
        apply decide_eq_true
        exact fun begins => not_named (namesAppDir_of_inside (insideAppDir_iff.mpr begins))
  · rw [if_neg written, pathEntries_of_failed (eq_false_of_ne_true written)]
    exact ⟨fun both => both.1, fun none => ⟨none, List.filter_sublist⟩⟩

/-- Lower case letters and quotes hide the directory from the uninstaller. -/
theorem Uninstall.leaves_other_spellings :
    ¬ Uninstall.ofGit.RemovesAppDir Char.toUpper (.withPath "C:\\W;c:\\git\\bin".toList) ∧
      ¬ Uninstall.ofGit.RemovesAppDir Char.toUpper
        (.withPath "\"C:\\Git\\bin\";C:\\W".toList) := by
  decide

end Uninstallation

end MsysGit.WinGit
