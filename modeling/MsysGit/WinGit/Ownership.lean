import MsysGit.Library.Transition
import MsysGit.WinGit.VariableView

/-!
# Whose values are deleted

Installations, uninstallations and edits by the user follow each other in any order.
The ownership test compares a value with what `setup.ini` records.  A record stays
when its value goes, and does not know about values set since, so the test can take
a value of the user for one of the installer.  `Clear` says when that cannot happen:
the user sets no value that looks like a record, and no record is made that looks
like a value of the user that stays.
-/

namespace MsysGit.WinGit

open MsysGit.Library

inductive Action
  | install (step : PostInstall)
  | uninstall (step : Uninstall)
  /-- The user sets a variable, or deletes it. -/
  | edit (allUsers : Bool) (v : Variable) (value : Option Str)

/-- A machine with no installation and nothing set. -/
def Machine.fresh : Machine where
  registry := fun _ _ => none
  setupIni := fun _ => none

def Machine.edit (m : Machine) (allUsers : Bool) (v : Variable) (value : Option Str) : Machine :=
  { m with registry := fun a w =>
      if a = allUsers ∧ w = v then value.map fun text => ⟨text, .user⟩ else m.registry a w }

section Run

variable (readBack : Str → Str)

/-- What an action leaves behind. -/
def act (m : Machine) : Action → Machine
  | .install step => (curStepChanged readBack step m).toMachine
  | .uninstall step => (curUninstallStepChanged step m).toMachine
  | .edit allUsers v value => m.edit allUsers v value

/-- What the installer or the uninstaller deletes. -/
def deletions (m : Machine) : Action → List Deletion
  | .install step => (curStepChanged readBack step m).deleted
  | .uninstall step => (curUninstallStepChanged step m).deleted
  | .edit _ _ _ => []

/-- Every value deleted was there before, and an installer wrote it. -/
def OwnDeletions (m : Machine) (action : Action) : Prop :=
  ∀ d ∈ deletions readBack m action, d.name.tracked = true →
    d.entry.writer = .installer ∧ m.registry d.allUsers d.name = some d.entry

/-- The ownership test takes this text for this record. -/
def looksLike (text record : Str) : Bool := isRecord (splitStrings text) record

/-- The text looks like nothing that is recorded for the variable, nor like an empty
value, which is what a missing record reads as. -/
def Machine.Unrecorded (m : Machine) (v : Variable) (text : Str) : Prop :=
  looksLike text [] = false ∧ ∀ fileName, looksLike text (m.getIniString v fileName) = false

/-- Every value that the user set looks like none of the records. -/
def Machine.Distinct (m : Machine) : Prop :=
  ∀ v, v.tracked = true → ∀ a text, m.registry a v = some ⟨text, .user⟩ → m.Unrecorded v text

/-- The value that a step sets and records, seen from the machine before it. -/
def PostInstall.given (step : PostInstall) (m : Machine) (v : Variable) : Option Str :=
  step.value v (step.resetView v ((Setup.start m step.environment).view v))

/-- **When an action is safe.**  The user sets no value that looks like a record, and a
step records no value that looks like one of the user, unless it overwrites that. -/
def Clear (m : Machine) : Action → Prop
  | .install step => ∀ v, v.tracked = true → ∀ x, step.given m v = some x →
      step.succeeds .record v = true → ∀ a text, m.registry a v = some ⟨text, .user⟩ →
      looksLike text (readBack x) = true →
        a = step.isAdminLoggedOn ∧ step.succeeds .set v = true
  | .uninstall _ => True
  | .edit _ v value => v.tracked = true → ∀ text, value = some text → m.Unrecorded v text

end Run

/-! ### One variable -/

namespace View

variable {t : View} {a b ok : Bool} {text : Str}

/-- The user's values look like none of the records. -/
def Distinct (t : View) : Prop :=
  ∀ a text, t.registry a = some ⟨text, .user⟩ →
    looksLike text [] = false ∧ ∀ fileName, looksLike text (t.record fileName) = false

/-- A value of the user is read as it is. -/
theorem getEnvStrings_of_user (distinct : t.Distinct) (user : t.registry a = some ⟨text, .user⟩) :
    t.getEnvStrings a = splitStrings text := by
  have some_text : text.length ≠ 0 := by
    intro empty
    obtain rfl := List.length_eq_zero_iff.mp empty
    exact absurd (distinct a [] user).1 (by decide)
  rw [getEnvStrings, envText, user]
  exact congrArg splitStrings (if_neg some_text)

/-- A value of the user that is there after a registry operation was there before and
was not the one operated on. -/
theorem store_user {path : Str} (user : (t.store ok b path).registry a = some ⟨text, .user⟩) :
    t.registry a = some ⟨text, .user⟩ ∧ ¬ (a = b ∧ ok = true) := by
  rw [store] at user
  cases ok with
  | false => exact ⟨user, fun both => Bool.false_ne_true both.2⟩
  | true =>
      rw [if_neg (by decide)] at user
      by_cases same : a = b
      · subst same
        split at user
        · cases stored : t.registry a with
          | none =>
              rw [stored] at user
              cases stored.symm.trans user
          | some entry =>
              rw [stored] at user
              simp [delete] at user
        · simp [write] at user
      · refine ⟨?_, fun both => same both.1⟩
        split at user
        · cases stored : t.registry b with
          | none => rwa [stored] at user
          | some entry =>
              rw [stored] at user
              simpa [delete, same] using user
        · simpa [write, same] using user

/-- What a registry operation deletes. -/
theorem store_deleted {path : Str} {d : Bool × Entry} (gone : d ∈ (t.store ok b path).deleted) :
    d ∈ t.deleted ∨ path = [] ∧ d.1 = b ∧ t.registry b = some d.2 := by
  rw [store] at gone
  split at gone
  · exact Or.inl gone
  · split at gone
    · rename_i empty
      cases stored : t.registry b with
      | none =>
          rw [stored] at gone
          exact Or.inl gone
      | some entry =>
          rw [stored] at gone
          rcases List.mem_append.mp gone with earlier | now
          · exact Or.inl earlier
          · obtain rfl := List.mem_singleton.mp now
            exact Or.inr ⟨List.length_eq_zero_iff.mp empty, rfl, rfl⟩
    · exact Or.inl gone

/-- Nothing is added to the registry by deleting. -/
theorem store_nil_registry {entry : Entry} (left : (t.store ok b []).registry a = some entry) :
    t.registry a = some entry := by
  rw [store] at left
  split at left
  · exact left
  · rw [if_pos List.length_nil] at left
    cases stored : t.registry b with
    | none => rwa [stored] at left
    | some old =>
        rw [stored] at left
        by_cases same : a = b
        · subst same
          simp [delete] at left
        · simpa [delete, same] using left

theorem store_record {path : Str} : (t.store ok b path).record = t.record := by
  rw [store]
  split
  · rfl
  · split
    · cases t.registry b <;> rfl
    · rfl

end View

/-! ### Resetting -/

section Reset

variable {t : View} {ok b : Bool} {fileName : Str}

theorem View.deleteIfRecorded_registry {a : Bool} {entry : Entry}
    (left : (t.deleteIfRecorded ok b fileName).registry a = some entry) :
    t.registry a = some entry := by
  rw [deleteIfRecorded] at left
  split at left
  · exact store_nil_registry left
  · exact left

theorem View.deleteIfRecorded_record : (t.deleteIfRecorded ok b fileName).record = t.record := by
  rw [deleteIfRecorded]
  split
  · exact store_record
  · rfl

theorem View.deleteIfRecorded_distinct (distinct : t.Distinct) :
    (t.deleteIfRecorded ok b fileName).Distinct := by
  intro a text user
  rw [deleteIfRecorded_record]
  exact distinct a text (deleteIfRecorded_registry user)

/-- **The ownership test**: a value that is deleted was written by an installer, when
the values of the user look like none of the records. -/
theorem View.deleteIfRecorded_own (distinct : t.Distinct) {d : Bool × Entry}
    (gone : d ∈ (t.deleteIfRecorded ok b fileName).deleted) :
    d ∈ t.deleted ∨ d.2.writer = .installer ∧ t.registry d.1 = some d.2 := by
  rw [deleteIfRecorded] at gone
  split at gone
  · rename_i recorded
    rcases store_deleted gone with earlier | ⟨_, scope, stored⟩
    · exact Or.inl earlier
    · rw [← scope] at stored recorded
      refine Or.inr ⟨?_, stored⟩
      -- A value of the user would not have passed the test.
      rcases writer : d.2 with ⟨text, _ | _⟩
      · rfl
      · rw [writer] at stored
        rw [getEnvStrings_of_user distinct stored] at recorded
        have unlike := (distinct d.1 text stored).2 fileName
        rw [looksLike, recorded] at unlike
        cases unlike
  · exact Or.inl gone

end Reset

/-! ### Whole steps -/

section Steps

variable {readBack : Str → Str} {step : PostInstall} {v : Variable} {t : View}

/-- A missing `HOME` looks like an empty one. -/
theorem isRecord_of_homeMissing {path : Str} (missing : homeMissing (splitStrings path) = true) :
    isRecord (splitStrings path) [] = true := by
  have some_string := splitStrings_ne_nil path
  rw [homeMissing, Bool.or_eq_true, Bool.and_eq_true, decide_eq_true_eq, decide_eq_true_eq,
    decide_eq_true_eq] at missing
  rcases missing with none | ⟨one, empty⟩
  · exact absurd (List.length_eq_zero_iff.mp none) some_string
  · rw [isRecord, List.length_eq_zero_iff.mp empty, one]
    rfl

/-- An empty value is only set where the user has none. -/
theorem PostInstall.own_of_value_nil (distinct : t.Distinct) {x : Str}
    (given : step.value v t = some x) (empty : merge ';' [x] = []) {entry : Entry}
    (stored : t.registry step.isAdminLoggedOn = some entry) : entry.writer = .installer := by
  have nil : x = [] := by
    by_contra some_text
    simp [merge, mergeOne, some_text] at empty
  subst nil
  have plink : step.edtPlink.map Subtype.val ≠ some [] := by
    intro chosen
    obtain ⟨path, _, none⟩ := Option.map_eq_some_iff.mp chosen
    exact path.2 none
  cases v with
  | gitSsh => exact absurd given plink
  | svnSsh => exact absurd given plink
  | home =>
      rw [value] at given
      split at given
      · rename_i chosen
        rcases entry with ⟨text, _ | _⟩
        · rfl
        · have missing := chosen.2
          rw [View.getEnvStrings_of_user distinct stored] at missing
          have unlike := (distinct _ text stored).1
          rw [looksLike, isRecord_of_homeMissing missing] at unlike
          cases unlike
      · cases given
  | path => cases given
  | homeDrive => cases given
  | homePath => cases given

theorem PostInstall.onView_own (distinct : t.Distinct) (start : t.deleted = []) {d : Bool × Entry}
    (gone : d ∈ (step.onView readBack v t).deleted) :
    d.2.writer = .installer ∧ t.registry d.1 = some d.2 := by
  have reset : ∀ d ∈ (step.resetView v t).deleted,
      d.2.writer = .installer ∧ t.registry d.1 = some d.2 := by
    intro d gone
    rcases View.deleteIfRecorded_own distinct gone with earlier | own
    · rw [start] at earlier
      cases earlier
    · exact own
  rw [onView] at gone
  cases given : step.value v (step.resetView v t) with
  | none =>
      rw [given] at gone
      exact reset d gone
  | some x =>
      rw [given] at gone
      have gone : d ∈ ((step.resetView v t).store (step.succeeds .set v) step.isAdminLoggedOn
          (merge ';' [x])).deleted := by
        simp only [Option.elim_some, giveView, View.setRecord] at gone
        split at gone <;> exact gone
      rcases View.store_deleted gone with earlier | ⟨empty, scope, stored⟩
      · exact reset d earlier
      · rw [← scope] at stored
        refine ⟨?_, View.deleteIfRecorded_registry stored⟩
        rw [scope] at stored
        exact own_of_value_nil (View.deleteIfRecorded_distinct distinct) given empty stored

theorem View.setRecord_distinct {ok : Bool} {fileName record : Str} (distinct : t.Distinct)
    (unlike : ok = true → ∀ a text, t.registry a = some ⟨text, .user⟩ →
      looksLike text record = false) : (t.setRecord ok fileName record).Distinct := by
  rw [setRecord]
  split
  · rename_i recorded
    intro a text user
    refine ⟨(distinct a text user).1, fun f => ?_⟩
    -- The record written, and those of the other files.
    by_cases same : f = fileName
    · subst same
      simpa using unlike recorded a text user
    · simpa [same] using (distinct a text user).2 f
  · exact distinct

/-- **A step that is safe for a variable** leaves no record that looks like a value of
the user. -/
theorem PostInstall.onView_distinct (distinct : t.Distinct)
    (clear : ∀ x, step.value v (step.resetView v t) = some x → step.succeeds .record v = true →
      ∀ a text, t.registry a = some ⟨text, .user⟩ → looksLike text (readBack x) = true →
        a = step.isAdminLoggedOn ∧ step.succeeds .set v = true) :
    (step.onView readBack v t).Distinct := by
  have reset : (step.resetView v t).Distinct := View.deleteIfRecorded_distinct distinct
  rw [onView]
  cases given : step.value v (step.resetView v t) with
  | none => exact reset
  | some x =>
      have set : ((step.resetView v t).setEnvStrings (step.succeeds .set v) step.isAdminLoggedOn
          [x]).Distinct := by
        intro a text user
        obtain ⟨before, _⟩ := View.store_user user
        have unlike := reset a text before
        rwa [← View.store_record] at unlike
      refine View.setRecord_distinct set fun recorded a text user => ?_
      -- A value of the user that is still there was not overwritten.
      obtain ⟨before, kept⟩ := View.store_user user
      by_contra alike
      exact kept (clear x given recorded a text (View.deleteIfRecorded_registry before)
        (by simpa using alike))

end Steps

/-! ### Runs -/

section Runs

variable {readBack : Str → Str} {m : Machine}

theorem Machine.Distinct.view (distinct : m.Distinct) (environment : Variable → Str)
    {v : Variable} (tracked : v.tracked = true) :
    ((Setup.start m environment).view v).Distinct := fun a text user =>
  distinct v tracked a text user

/-- What holds of the view of every tracked variable. -/
theorem Setup.distinct_of_view {s : Setup}
    (views : ∀ v, v.tracked = true → (s.view v).Distinct) : s.toMachine.Distinct :=
  fun v tracked a text user => views v tracked a text user

theorem Setup.mem_deleted_view {s : Setup} {d : Deletion} (gone : d ∈ s.deleted) :
    (d.allUsers, d.entry) ∈ (s.view d.name).deleted :=
  List.mem_map.mpr ⟨d, List.mem_filter.mpr ⟨gone, decide_eq_true rfl⟩, rfl⟩

theorem Machine.edit_distinct (distinct : m.Distinct) {allUsers : Bool} {w : Variable}
    {value : Option Str} (clear : Clear readBack m (.edit allUsers w value)) :
    (m.edit allUsers w value).Distinct := by
  intro v tracked a text user
  by_cases here : a = allUsers ∧ v = w
  · obtain ⟨rfl, rfl⟩ := here
    have set : value.map (fun text => (⟨text, .user⟩ : Entry)) = some ⟨text, .user⟩ :=
      (if_pos ⟨rfl, rfl⟩).symm.trans user
    obtain ⟨text', rfl, same⟩ := Option.map_eq_some_iff.mp set
    cases same
    exact clear tracked _ rfl
  · have before : m.registry a v = some ⟨text, .user⟩ := (if_neg here).symm.trans user
    exact distinct v tracked a text before

/-- What an action keeps. -/
theorem act_distinct (distinct : m.Distinct) {action : Action} (clear : Clear readBack m action) :
    (act readBack m action).Distinct := by
  cases action with
  | install step =>
      refine Setup.distinct_of_view fun v tracked => ?_
      rw [curStepChanged_view tracked]
      exact PostInstall.onView_distinct (distinct.view _ tracked) (clear v tracked)
  | uninstall step =>
      refine Setup.distinct_of_view fun v tracked => ?_
      have reset : (((Setup.start m step.environment).view v).deleteIfRecorded
          (step.succeeds .reset v) step.isAdminLoggedOn (setupIniName step.appDir)).Distinct :=
        View.deleteIfRecorded_distinct (distinct.view _ tracked)
      rw [curUninstallStepChanged_view tracked]
      exact View.setRecord_distinct reset fun _ a text user => (reset a text user).1
  | edit allUsers v value => exact Machine.edit_distinct distinct clear

/-- What an action deletes. -/
theorem act_own (distinct : m.Distinct) (action : Action) : OwnDeletions readBack m action := by
  intro d gone tracked
  cases action with
  | install step =>
      have seen := Setup.mem_deleted_view gone
      rw [curStepChanged_view tracked] at seen
      exact PostInstall.onView_own (distinct.view _ tracked) rfl seen
  | uninstall step =>
      have seen := Setup.mem_deleted_view gone
      rw [curUninstallStepChanged_view tracked] at seen
      have reset : (d.allUsers, d.entry) ∈ (((Setup.start m step.environment).view
          d.name).deleteIfRecorded (step.succeeds .reset d.name) step.isAdminLoggedOn
            (setupIniName step.appDir)).deleted := by
        rw [Uninstall.onView, View.setRecord] at seen
        split at seen <;> exact seen
      rcases View.deleteIfRecorded_own (distinct.view _ tracked) reset with none | own
      · cases none
      · exact own
  | edit allUsers v value => cases gone

/-- **Only the installer's values are deleted**, in every run whose actions are safe:
whatever action comes next, the values it deletes were there and an installer wrote
them. -/
theorem ownDeletions_of_clear
    (run : RunOf (fun m action m' => act readBack m action = m') (Clear readBack) Machine.fresh m)
    (action : Action) : OwnDeletions readBack m action := by
  refine act_own (run.invariant Machine.Distinct ?_ ?_) action
  · intro v _ a text user
    cases user
  · rintro m action _ distinct clear rfl
    exact act_distinct distinct clear

end Runs

/-! ### Unsafe edits -/

section Unsafe

variable {readBack : Str → Str} {m : Machine} {v : Variable} {text appDir : Str}

/-- The uninstaller of a directory, in an empty environment. -/
def Uninstall.of (appDir : Str) (allUsers : Bool) : Uninstall where
  appDir := appDir
  isAdminLoggedOn := allUsers
  environment := fun _ => []
  succeeds := fun _ _ => true
  deletesFile := true

theorem Setup.exists_of_mem_deleted_view {s : Setup} {allUsers : Bool} {entry : Entry}
    (seen : (allUsers, entry) ∈ (s.view v).deleted) :
    ∃ d ∈ s.deleted, d.name = v ∧ d.entry = entry := by
  obtain ⟨d, gone, same⟩ := List.mem_map.mp seen
  obtain ⟨gone, name⟩ := List.mem_filter.mp gone
  exact ⟨d, gone, of_decide_eq_true name, (Prod.mk.inj same).2⟩

/-- **The condition on edits is needed**: when the user sets a value that looks like
what a `setup.ini` records, its uninstaller deletes that value. -/
theorem not_ownDeletions_of_edit (tracked : v.tracked = true) {allUsers : Bool}
    (alike : looksLike text (m.getIniString v (setupIniName appDir)) = true) :
    ¬ OwnDeletions readBack (m.edit allUsers v (some text)) (.uninstall (.of appDir allUsers)) := by
  let s := Setup.start (m.edit allUsers v (some text)) fun _ => []
  have stored : (s.view v).registry allUsers = some ⟨text, .user⟩ := if_pos ⟨rfl, rfl⟩
  have read : (s.view v).getEnvStrings allUsers = splitStrings text := by
    rw [View.getEnvStrings, View.envText, stored]
    by_cases empty : text = []
    · subst empty
      rfl
    · exact congrArg splitStrings (if_neg (mt List.length_eq_zero_iff.mp empty))
  have reset : (s.view v).deleteIfRecorded true allUsers (setupIniName appDir) =
      ((s.view v).delete allUsers ⟨text, .user⟩).setEnvironment [] := by
    have alike : isRecord (splitStrings text) ((s.view v).record (setupIniName appDir)) = true :=
      alike
    rw [View.deleteIfRecorded, read, if_pos alike, View.setEnvStrings, View.store, stored]
    rfl
  have seen : (allUsers, ⟨text, .user⟩) ∈
      ((curUninstallStepChanged (.of appDir allUsers) (m.edit allUsers v (some text))).view
        v).deleted := by
    rw [curUninstallStepChanged_view tracked]
    show _ ∈ (((s.view v).deleteIfRecorded true allUsers (setupIniName appDir)).setRecord true
      (setupIniName appDir) []).deleted
    rw [reset]
    exact List.mem_singleton_self _
  obtain ⟨d, gone, rfl, entry⟩ := Setup.exists_of_mem_deleted_view seen
  intro own
  have writer := (own d gone tracked).1
  rw [entry] at writer
  cases writer

end Unsafe

/-! ### Two runs -/

/-- A path to Plink. -/
def plink : {path : Str // path ≠ []} := ⟨"C:\\plink.exe".toList, by decide⟩

/-- The user sets `HOME`, then Plink is installed. -/
def Machine.withPlink : Machine :=
  act id (act id .fresh (.edit true .home (some "C:\\me".toList)))
    (.install (.intoGit .cmdTools (some plink)))

/-- The uninstaller then deletes what it should. -/
theorem ownDeletions_withPlink : OwnDeletions id .withPlink (.uninstall .ofGit) := by
  refine ownDeletions_of_clear ((RunOf.refl.tail ?_ rfl).tail ?_ rfl) _
  · intro _ text set
    obtain rfl := Option.some.inj set
    have unlike : looksLike "C:\\me".toList [] = false := by decide
    exact ⟨unlike, fun _ => unlike⟩
  · intro v tracked x given _ a text user
    have not_home : v ≠ .home := by
      rintro rfl
      have none_given : (PostInstall.intoGit .cmdTools (some plink)).given
          (act id .fresh (.edit true .home (some "C:\\me".toList))) .home = none := by decide
      exact absurd (none_given.symm.trans given) nofun
    exact absurd ((if_neg fun both => not_home both.2).symm.trans user) nofun

/-- Plink is installed, then OpenSSH: the variable goes, the record stays. -/
def Machine.withRecord : Machine :=
  act id (act id .fresh (.install (.intoGit .cmd (some plink)))) (.install (.intoGit .cmd none))

/-- When the user now sets `GIT_SSH` to that path, the uninstaller deletes it. -/
theorem not_ownDeletions_withRecord :
    ¬ ∀ m, RunOf (fun m action m' => act id m action = m') (fun _ _ => True) Machine.fresh m →
      ∀ action, OwnDeletions id m action := by
  intro all
  have run : RunOf (fun m action m' => act id m action = m') (fun _ _ => True) Machine.fresh
      (Machine.withRecord.edit true .gitSsh (some plink)) :=
    ((RunOf.refl.tail trivial rfl).tail trivial rfl).tail
      (e := .edit true .gitSsh (some plink)) trivial rfl
  have alike : looksLike plink (Machine.withRecord.getIniString .gitSsh
      (setupIniName "C:\\Git".toList)) = true := by decide
  exact not_ownDeletions_of_edit rfl alike (all _ run _)

end MsysGit.WinGit
