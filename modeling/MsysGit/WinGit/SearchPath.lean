import MsysGit.WinGit.Install
import Mathlib.Data.List.Induction

/-!
# `PATH` over any number of installations

A `PATH` is seen as its entries outside the installation directory followed by those
the installer adds.  Installing again, with whatever choice, replaces the second part
and keeps the first (`path_after_installs`), and uninstalling leaves the first.
-/

namespace MsysGit.WinGit

open MsysGit.Library

/-- The non-empty entries that are not in the installation directory. -/
def outside (appDir path : Str) : List Str :=
  (entries ';' path).filter fun dir => ¬ (appDir ++ ['\\']) <+: (dir ++ ['\\'])

/-- The entries that each choice asks for. -/
def PathChoice.dirs (appDir : Str) : PathChoice → List Str
  | bashOnly => []
  | cmd => [appDir ++ "\\cmd".toList]
  | cmdTools => [appDir ++ "\\cmd".toList, appDir ++ "\\bin".toList]

/-- The stored value of `PATH`. -/
def storedPath (m : Machine) (allUsers : Bool) : Option Str :=
  (m.registry allUsers .path).map Entry.value

/-- Post-install steps, one after the other. -/
def installs (readBack : Str → Str) (steps : List PostInstall) (m : Machine) : Machine :=
  steps.foldl (fun m step => (curStepChanged readBack step m).toMachine) m

/-! ### The entries -/

theorem added_eq (step : PostInstall) : step.added = step.rdbPath.dirs step.appDir := by
  rw [PostInstall.added]
  cases step.rdbPath <;> rfl

theorem insideAppDir_iff {appDir dir : Str} :
    insideAppDir appDir dir = true ↔ (appDir ++ ['\\']) <+: (dir ++ ['\\']) :=
  List.isPrefixOf_iff_prefix

/-- What the choices add is inside the installation directory. -/
theorem insideAppDir_append (appDir rest : Str) :
    (appDir ++ ['\\']) <+: ((appDir ++ '\\' :: rest) ++ ['\\']) :=
  ⟨rest ++ ['\\'], by simp⟩

theorem dirs_inside {appDir dir : Str} {choice : PathChoice} (added : dir ∈ choice.dirs appDir) :
    (appDir ++ ['\\']) <+: (dir ++ ['\\']) := by
  cases choice with
  | bashOnly => cases added
  | cmd =>
      obtain rfl := List.mem_singleton.mp added
      exact insideAppDir_append appDir _
  | cmdTools =>
      rcases List.mem_cons.mp added with rfl | added
      · exact insideAppDir_append appDir _
      · obtain rfl := List.mem_singleton.mp added
        exact insideAppDir_append appDir _

theorem dirs_ne_nil {appDir dir : Str} {choice : PathChoice} (added : dir ∈ choice.dirs appDir) :
    dir ≠ [] := by
  rintro rfl
  have short := (dirs_inside added).length_le
  cases choice with
  | bashOnly => cases added
  | cmd => simp [PathChoice.dirs] at added
  | cmdTools => simp [PathChoice.dirs] at added

theorem dirs_clean {appDir dir : Str} {choice : PathChoice} (clean : ';' ∉ appDir)
    (added : dir ∈ choice.dirs appDir) : ';' ∉ dir := by
  cases choice with
  | bashOnly => cases added
  | cmd =>
      obtain rfl := List.mem_singleton.mp added
      simp [clean]
  | cmdTools =>
      rcases List.mem_cons.mp added with rfl | added
      · simp [clean]
      · obtain rfl := List.mem_singleton.mp added
        simp [clean]

/-- Blanking what is inside and dropping what is blank keeps what is outside. -/
theorem filter_removeAppDir (appDir : Str) (dirs : List Str) :
    (removeAppDir appDir dirs).filter (· ≠ []) =
      (dirs.filter (· ≠ [])).filter fun dir => ¬ (appDir ++ ['\\']) <+: (dir ++ ['\\']) := by
  induction dirs with
  | nil => rfl
  | cons dir dirs ih =>
      simp only [removeAppDir, ne_eq, decide_not, List.map_cons, List.filter_cons] at ih ⊢
      by_cases inside : insideAppDir appDir dir = true
      · have under := insideAppDir_iff.mp inside
        by_cases empty : dir = []
        · simp [empty, ih]
        · simp [inside, under, empty, ih]
      · have apart := mt insideAppDir_iff.mpr inside
        by_cases empty : dir = []
        · simp [empty, ih]
        · simp [inside, apart, empty, ih]

/-- The text that is written: what was outside, then what is added. -/
theorem merge_removeAppDir (appDir path : Str) (choice : PathChoice) :
    merge ';' (removeAppDir appDir (splitStrings path) ++ choice.dirs appDir) =
      join ';' (outside appDir path ++ choice.dirs appDir) := by
  have all : (choice.dirs appDir).filter (· ≠ []) = choice.dirs appDir :=
    List.filter_eq_self.mpr fun _ added => decide_eq_true (dirs_ne_nil added)
  rw [merge_eq_join, List.filter_append, filter_removeAppDir, filter_splitStrings, all, outside]

/-- The same, when nothing is added. -/
theorem merge_removed (appDir path : Str) :
    merge ';' (removeAppDir appDir (splitStrings path)) = join ';' (outside appDir path) := by
  rw [merge_eq_join, filter_removeAppDir, filter_splitStrings, outside]

theorem join_outside_ne_nil {appDir path : Str} (some_outside : outside appDir path ≠ []) :
    join ';' (outside appDir path) ≠ [] :=
  join_ne_nil (fun _ old => ne_nil_of_mem_entries (List.mem_of_mem_filter old)) some_outside

/-- **Reading it back**: the same entries are outside. -/
theorem outside_join {appDir path : Str} {choice : PathChoice} (clean : ';' ∉ appDir) :
    outside appDir (join ';' (outside appDir path ++ choice.dirs appDir)) =
      outside appDir path := by
  have nonempty : ∀ dir ∈ outside appDir path ++ choice.dirs appDir, dir ≠ [] := by
    intro dir either
    rcases List.mem_append.mp either with old | added
    · exact ne_nil_of_mem_entries (List.mem_of_mem_filter old)
    · exact dirs_ne_nil added
  have free : ∀ dir ∈ outside appDir path ++ choice.dirs appDir, ';' ∉ dir := by
    intro dir either
    rcases List.mem_append.mp either with old | added
    · exact notMem_of_mem_entries (List.mem_of_mem_filter old)
    · exact dirs_clean clean added
  have none_added : (choice.dirs appDir).filter
      (fun dir => ¬ (appDir ++ ['\\']) <+: (dir ++ ['\\'])) = [] := by
    rw [List.filter_eq_nil_iff]
    intro dir added
    simpa using dirs_inside added
  rw [outside, entries_join nonempty free, List.filter_append, none_added, List.append_nil, outside,
    List.filter_filter]
  simp

/-! ### One step -/

namespace Setup

variable {s : Setup} {a allUsers : Bool} {v w : Variable}

theorem deleteIfRecorded_registry {ok : Bool} {message : String} {fileName : Str}
    (other : ¬ (a = allUsers ∧ w = v)) :
    (s.deleteIfRecorded ok message v allUsers fileName).registry a w = s.registry a w := by
  rw [deleteIfRecorded]
  split
  · rw [orLog_toMachine]
    exact setEnvStrings_registry other
  · rfl

theorem setIniString_registry {readBack : Str → Str} {ok : Bool} {value fileName : Str} :
    (s.setIniString readBack ok v value fileName).2.registry = s.registry := by
  cases ok <;> rfl

theorem setAndRecord_registry {readBack : Str → Str} {succeeds : Call → Variable → Bool}
    {value fileName : Str} (other : ¬ (a = allUsers ∧ w = v)) :
    (s.setAndRecord readBack succeeds v value allUsers fileName).registry a w =
      s.registry a w := by
  rw [setAndRecord, orLog_toMachine, setIniString_registry, orLog_toMachine]
  exact setEnvStrings_registry other

end Setup

section Step

variable {readBack : Str → Str} {step : PostInstall} {m : Machine} {s : Setup} {allUsers : Bool}

theorem PostInstall.resetVariable_path (v : Variable) (other : v ≠ .path) :
    (step.resetVariable v s).registry allUsers .path = s.registry allUsers .path :=
  Setup.deleteIfRecorded_registry fun both => other both.2.symm

theorem PostInstall.setVariable_path (v : Variable) {value : Str} (other : v ≠ .path) :
    (step.setVariable readBack v value s).registry allUsers .path = s.registry allUsers .path :=
  Setup.setAndRecord_registry fun both => other both.2.symm

theorem PostInstall.setPlink_path :
    (step.setPlink readBack s).registry allUsers .path = s.registry allUsers .path := by
  rw [setPlink]
  split
  · rw [setVariable_path .svnSsh nofun, setVariable_path .gitSsh nofun]
  · rfl

theorem PostInstall.setHome_path :
    (step.setHome readBack s).registry allUsers .path = s.registry allUsers .path := by
  rw [setHome]
  split
  · exact setVariable_path .home nofun
  · rfl

/-- A stored value is what is read. -/
theorem Setup.getEnvStrings_of_stored {v : Variable} {entry : Entry}
    (stored : s.registry allUsers v = some entry) (some_text : entry.value ≠ []) :
    s.getEnvStrings v allUsers = splitStrings entry.value := by
  have text : s.regQueryStringValue allUsers v = entry.value := by
    rw [regQueryStringValue, stored]
    rfl
  rw [getEnvStrings, envText, text]
  exact congrArg splitStrings (if_neg (mt List.length_eq_zero_iff.mp some_text))

/-- Nothing happens to the `PATH` of the other scope. -/
theorem curStepChanged_path_other (other : step.isAdminLoggedOn ≠ allUsers) :
    storedPath (curStepChanged readBack step m).toMachine allUsers = storedPath m allUsers := by
  have apart : ¬ (allUsers = step.isAdminLoggedOn ∧ Variable.path = Variable.path) := fun both =>
    other both.1.symm
  rw [storedPath, curStepChanged, Setup.orLog_toMachine]
  rw [Setup.setEnvStrings_registry apart, PostInstall.setHome_path,
    PostInstall.resetVariable_path .home nofun, PostInstall.setPlink_path,
    PostInstall.resetVariable_path .svnSsh nofun, PostInstall.resetVariable_path .gitSsh nofun]
  rfl

theorem outside_ne_nil {appDir text : Str} (some_outside : outside appDir text ≠ []) :
    text ≠ [] := by
  rintro rfl
  exact some_outside rfl

/-- **One step**: what was outside the directory, then what the choice adds. -/
theorem curStepChanged_path {text : Str} (stored : storedPath m allUsers = some text)
    (some_outside : outside step.appDir text ≠ []) (scope : step.isAdminLoggedOn = allUsers)
    (written : step.succeeds .set .path = true) :
    storedPath (curStepChanged readBack step m).toMachine allUsers =
      some (join ';' (outside step.appDir text ++ step.rdbPath.dirs step.appDir)) := by
  obtain ⟨entry, here, rfl⟩ := Option.map_eq_some_iff.mp stored
  subst scope
  have merged : merge ';' (removeAppDir step.appDir (splitStrings entry.value) ++ step.added) =
      join ';' (outside step.appDir entry.value ++ step.rdbPath.dirs step.appDir) := by
    rw [added_eq, merge_removeAppDir]
  have some_text : join ';' (outside step.appDir entry.value ++
      step.rdbPath.dirs step.appDir) ≠ [] := by
    refine join_ne_nil (fun dir either => ?_) fun none => ?_
    · rcases List.mem_append.mp either with old | added
      · exact ne_nil_of_mem_entries (List.mem_of_mem_filter old)
      · exact dirs_ne_nil added
    · exact some_outside (List.append_eq_nil_iff.mp none).1
  let before := step.setPlink readBack (step.resetVariable .svnSsh
    (step.resetVariable .gitSsh (Setup.start m step.environment)))
  have unchanged : before.registry step.isAdminLoggedOn .path = some entry := by
    rw [PostInstall.setPlink_path, PostInstall.resetVariable_path .svnSsh nofun,
      PostInstall.resetVariable_path .gitSsh nofun]
    exact here
  have read := Setup.getEnvStrings_of_stored unchanged (outside_ne_nil some_outside)
  rw [storedPath, curStepChanged, Setup.orLog_toMachine]
  rw [read, written, Setup.setEnvStrings_write (by rw [merged]; exact some_text), merged]
  rfl

theorem Uninstall.revertVariable_path {step : Uninstall} (v : Variable) (other : v ≠ .path) :
    (step.revertVariable v s).registry allUsers .path = s.registry allUsers .path :=
  Setup.deleteIfRecorded_registry fun both => other both.2.symm

/-- `PATH` is as it was when the uninstaller comes to it. -/
theorem Uninstall.reverted_path (step : Uninstall) (m : Machine) (allUsers : Bool) :
    (step.revertVariable .svnSsh (step.revertVariable .gitSsh
      (Setup.start m step.environment))).registry allUsers .path = m.registry allUsers .path := by
  rw [revertVariable_path .svnSsh nofun, revertVariable_path .gitSsh nofun]
  rfl

theorem Uninstall.deleteSetupIni_registry {step : Uninstall} :
    (step.deleteSetupIni s).registry = s.registry := by
  rw [deleteSetupIni]
  split
  · rw [Setup.orLog_toMachine, Setup.deleteFile]
    cases step.deletesFile <;> rfl
  · rfl

/-- **The uninstaller** leaves what is outside the directory. -/
theorem curUninstallStepChanged_path {step : Uninstall} {text : Str}
    (stored : storedPath m allUsers = some text) (some_outside : outside step.appDir text ≠ [])
    (scope : step.isAdminLoggedOn = allUsers) (written : step.succeeds .set .path = true) :
    storedPath (curUninstallStepChanged step m).toMachine allUsers =
      some (join ';' (outside step.appDir text)) := by
  obtain ⟨entry, here, rfl⟩ := Option.map_eq_some_iff.mp stored
  subst scope
  have merged := merge_removed step.appDir entry.value
  have read := Setup.getEnvStrings_of_stored ((step.reverted_path m _).trans here)
    (outside_ne_nil some_outside)
  rw [storedPath, curUninstallStepChanged, Uninstall.deleteSetupIni_registry,
    Uninstall.revertVariable_path .home nofun, Setup.orLog_toMachine, read, written,
    Setup.setEnvStrings_write (by rw [merged]; exact join_outside_ne_nil some_outside), merged]
  rfl

end Step

/-! ### Any number of steps -/

section Installs

variable (readBack : Str → Str) {steps : List PostInstall} {m : Machine} {allUsers : Bool}
  {appDir text : Str}

/-- What is outside the directory stays the same. -/
theorem outside_installs (stored : storedPath m allUsers = some text)
    (some_outside : outside appDir text ≠ []) (clean : ';' ∉ appDir)
    (same : ∀ step ∈ steps, step.appDir = appDir)
    (written : ∀ step ∈ steps, step.succeeds .set .path = true) :
    ∃ now, storedPath (installs readBack steps m) allUsers = some now ∧
      outside appDir now = outside appDir text := by
  induction steps using List.reverseRecOn with
  | nil => exact ⟨text, stored, rfl⟩
  | append_singleton steps step ih =>
      obtain ⟨now, before, outs⟩ := ih
        (fun step earlier => same step (List.mem_append_left _ earlier))
        (fun step earlier => written step (List.mem_append_left _ earlier))
      have last : step ∈ steps ++ [step] := List.mem_append_right _ (List.mem_singleton_self step)
      obtain rfl := same step last
      rw [installs, List.foldl_append]
      by_cases scope : step.isAdminLoggedOn = allUsers
      · refine ⟨_, curStepChanged_path before (by rw [outs]; exact some_outside) scope
          (written step last), ?_⟩
        rw [outside_join clean, outs]
      · exact ⟨now, (curStepChanged_path_other scope).trans before, outs⟩

/-- **`PATH` after any number of installations.**  The entries outside the directory in
their order, then those of the last choice; an uninstallation leaves the former. -/
theorem path_after_installs (stored : storedPath m allUsers = some text)
    (some_outside : outside appDir text ≠ []) (clean : ';' ∉ appDir)
    (same : ∀ step ∈ steps, step.appDir = appDir)
    (written : ∀ step ∈ steps, step.succeeds .set .path = true) :
    (∀ last, (steps.filter (·.isAdminLoggedOn = allUsers)).getLast? = some last →
      storedPath (installs readBack steps m) allUsers =
        some (join ';' (outside appDir text ++ last.rdbPath.dirs appDir))) ∧
    (∀ step : Uninstall, step.appDir = appDir → step.isAdminLoggedOn = allUsers →
      step.succeeds .set .path = true →
      storedPath (curUninstallStepChanged step (installs readBack steps m)).toMachine allUsers =
        some (join ';' (outside appDir text))) := by
  constructor
  · intro last is_last
    induction steps using List.reverseRecOn with
    | nil => cases is_last
    | append_singleton steps step ih =>
        have earlier_same : ∀ step ∈ steps, step.appDir = appDir := fun step earlier =>
          same step (List.mem_append_left _ earlier)
        have earlier_written : ∀ step ∈ steps, step.succeeds .set .path = true :=
          fun step earlier => written step (List.mem_append_left _ earlier)
        have here : step ∈ steps ++ [step] :=
          List.mem_append_right _ (List.mem_singleton_self step)
        obtain rfl := same step here
        rw [installs, List.foldl_append]
        rw [List.filter_append] at is_last
        by_cases scope : step.isAdminLoggedOn = allUsers
        · have alone : [step].filter (·.isAdminLoggedOn = allUsers) = [step] :=
            List.filter_cons_of_pos (decide_eq_true scope)
          rw [alone, List.getLast?_append, List.getLast?_singleton] at is_last
          obtain rfl := Option.some.inj is_last
          obtain ⟨now, before, outs⟩ := outside_installs readBack stored some_outside clean
            earlier_same earlier_written
          rw [← outs] at some_outside ⊢
          exact curStepChanged_path before some_outside scope (written step here)
        · have none : [step].filter (·.isAdminLoggedOn = allUsers) = [] :=
            List.filter_cons_of_neg (by simpa using scope)
          rw [none, List.append_nil] at is_last
          exact (curStepChanged_path_other scope).trans (ih earlier_same earlier_written is_last)
  · rintro step rfl scope reverted
    obtain ⟨now, before, outs⟩ := outside_installs readBack stored some_outside clean same written
    rw [← outs] at some_outside ⊢
    exact curUninstallStepChanged_path before some_outside scope reverted

end Installs

/-! ### An instance -/

/-- A machine on which only the `PATH` of all users is set. -/
def Machine.withPath (path : Str) : Machine where
  registry := fun allUsers v => if allUsers = true ∧ v = .path then some ⟨path, .user⟩ else none
  setupIni := fun _ => none

/-- `PATH` with an empty entry, a sibling of `C:\Git`, and an entry inside it. -/
def Machine.beforeGit : Machine := .withPath "C:\\W;;C:\\Gitte;C:\\Git\\bin".toList

/-- Two installations: the sibling and the order stay. -/
theorem path_after_two_installs :
    let m := installs id [.intoGit .cmdTools none, .intoGit .cmd none] .beforeGit
    storedPath m true = some "C:\\W;C:\\Gitte;C:\\Git\\cmd".toList ∧
      storedPath (curUninstallStepChanged .ofGit m).toMachine true =
        some "C:\\W;C:\\Gitte".toList := by
  have both := @path_after_installs id [.intoGit .cmdTools none, .intoGit .cmd none] .beforeGit true
    "C:\\Git".toList _ rfl (by decide) (by decide) (by decide) (by decide)
  exact ⟨(both.1 _ rfl).trans (by decide), (both.2 .ofGit rfl rfl rfl).trans (by decide)⟩

end MsysGit.WinGit
