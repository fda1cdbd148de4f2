import MsysGit.Library.SuffixRemoval
import MsysGit.Library.WordSplitting

/-!
# The monitor of run-tests.sh

`run-tests.sh` reads the output of `make` while the tests run side by side.  A line
`*** t0000-basic.sh ***` starts a test; at each line of a test that has passed, the files
in `test-results` are looked through for the tests that are still running.

So no test is lost and none is reported twice, and what becomes of a test is decided at the
first such line at which it has a result (`monitor_tells`).  A test that fails writes no
such line, and if none is written after its result, it is listed as unfinished
(`late_failure`).

Names of tests are taken to be free of the characters that the shell would expand.
-/

namespace MsysGit.RunTests

open MsysGit.Library

abbrev Str := List Char

/-! ### The script -/

/-- `$IFS` -/
def isIfs (c : Char) : Bool := c = ' ' || c = '\t' || c = '\n'

/-- `[0-9]` -/
def isDigit (c : Char) : Bool := '0' ≤ c && c ≤ '9'

/-- ` t[0-9]` -/
def beginsName : Str → Bool
  | ' ' :: 't' :: c :: _ => isDigit c
  | _ => false

/-- `get_test_name`: the last name that begins so, up to the last `.sh ` behind that. -/
def getTestName (line : Str) : Str :=
  let places := (List.range line.length).reverse
  let found := places.findSome? fun i =>
    if beginsName (line.drop i) then
      (places.find? fun j => i + 3 ≤ j && ".sh ".toList.isPrefixOf (line.drop j)).map
        fun j => (i, j)
    else none
  match found with
  | none => line
  | some (i, j) => (line.take j).drop (i + 1)

/-- What is in `t/test-results`: names, and lines. -/
abbrev Results := List (Str × List Str)

/-- `${t%.sh}-[1-9]*` -/
def isResult (t name : Str) : Bool :=
  let base := removeSuffix (· = ".sh".toList) t ++ ['-']
  base.isPrefixOf name && ((name.drop base.length).head?.any fun c => '1' ≤ c && c ≤ '9')

/-- `$f`: the lines that `grep` prints, with the name of the file when there are several. -/
def grepFailed (results : Results) (t : Str) : List Str :=
  let files := results.filter fun file => isResult t file.1
  files.flatMap fun file =>
    (file.2.filter fun line => line.tails.any "failed".toList.isPrefixOf).map fun line =>
      if files.length = 1 then line else "t/test-results/".toList ++ file.1 ++ ':' :: line

/-- Whether a test is found finished, and then whether it is found to be all right. -/
def verdict (results : Results) (t : Str) : Option Bool :=
  let f := grepFailed results t
  if f = [] then none else some (f = ["failed 0".toList])

/-- The variables of the loop, and what has been printed. -/
structure Monitor where
  currentTests : List Str
  failedTests : List Str
  printed : List (Str × Bool)
  deriving DecidableEq

/-- The loop of `get_finished_tests`; `currentTests` are the remaining ones. -/
def finishedLoop (results : Results) : List Str → Monitor → Monitor
  | [], m => m
  | t :: tests, m =>
      match verdict results t with
      | some true => finishedLoop results tests { m with printed := m.printed ++ [(t, true)] }
      | some false => finishedLoop results tests { m with
          failedTests := m.failedTests ++ [t]
          printed := m.printed ++ [(t, false)] }
      | none => finishedLoop results tests { m with currentTests := m.currentTests ++ [t] }

/-- `get_finished_tests` -/
def getFinishedTests (results : Results) (m : Monitor) : Monitor :=
  finishedLoop results m.currentTests { m with currentTests := [] }

/-- A line of the output, and the results at the time when it is read. -/
structure Line where
  line : Str
  results : Results

/-- `"*** t"*` -/
def Line.starts (e : Line) : Bool := "*** t".toList.isPrefixOf e.line

/-- `'* passed'*|'# passed'*` -/
def Line.passed (e : Line) : Bool :=
  "* passed".toList.isPrefixOf e.line || "# passed".toList.isPrefixOf e.line

/-- The words that are appended to `CURRENT_TESTS`. -/
def Line.names (e : Line) : List Str := words isIfs (getTestName e.line)

/-- One round of the loop. -/
def step (m : Monitor) (e : Line) : Monitor :=
  if e.starts then { m with currentTests := m.currentTests ++ e.names }
  else if e.passed then getFinishedTests e.results m
  else m

/-- The monitor at the end of the output. -/
def monitor (log : List Line) : Monitor := log.foldl step ⟨[], [], []⟩

/-! ### What becomes of a test -/

/-- The tests that are started, each with the lines that follow. -/
def started : List Line → List (Str × List Line)
  | [] => []
  | e :: log => (if e.starts then e.names.map fun t => (t, log) else []) ++ started log

/-- What is found at the first line of a test that has passed at which anything is found. -/
def fate (t : Str) (log : List Line) : Option Bool :=
  log.findSome? fun e => if !e.starts && e.passed then verdict e.results t else none

/-- What the monitor tells of a run. -/
structure Tells (log : List Line) (m : Monitor) : Prop where
  /-- The unfinished tests are those of which nothing was found, in order. -/
  unfinished : m.currentTests = ((started log).filter fun s => fate s.1 s.2 = none).map Prod.fst
  /-- The others are printed, once for each time they were started. -/
  printed : m.printed.Perm ((started log).filterMap fun s => (fate s.1 s.2).map fun ok => (s.1, ok))
  failed : m.failedTests = (m.printed.filter fun p => !p.2).map Prod.fst

section Proofs

variable {results : Results} {m : Monitor} {e : Line} {log : List Line} {t : Str}

theorem finishedLoop_eq (tests : List Str) : finishedLoop results tests m =
    { currentTests := m.currentTests ++ tests.filter fun t => verdict results t = none
      failedTests := m.failedTests ++ tests.filter fun t => verdict results t = some false
      printed := m.printed ++
        tests.filterMap fun t => (verdict results t).map fun ok => (t, ok) } := by
  induction tests generalizing m with
  | nil => simp [finishedLoop]
  | cons t tests ih =>
      rw [finishedLoop]
      rcases found : verdict results t with _ | _ | _ <;> simp [ih, found]

theorem getFinishedTests_eq : getFinishedTests results m =
    { currentTests := m.currentTests.filter fun t => verdict results t = none
      failedTests := m.failedTests ++ m.currentTests.filter fun t => verdict results t = some false
      printed := m.printed ++
        m.currentTests.filterMap fun t => (verdict results t).map fun ok => (t, ok) } :=
  finishedLoop_eq m.currentTests

theorem fate_cons_of_not_passed (other : (!e.starts && e.passed) = false) :
    fate t (e :: log) = fate t log := by
  rw [fate, List.findSome?_cons, other]
  rfl

theorem fate_cons_of_passed (passed : (!e.starts && e.passed) = true) :
    fate t (e :: log) = (verdict e.results t).or (fate t log) := by
  rw [fate, List.findSome?_cons, passed]
  cases verdict e.results t <;> rfl

/-- What is found first, and then what is found of the rest. -/
theorem filterMap_or_perm {α β : Type*} (f g : α → Option β) (l : List α) :
    (l.filterMap f ++ (l.filter fun a => f a = none).filterMap g).Perm
      (l.filterMap fun a => (f a).or (g a)) := by
  induction l with
  | nil => exact List.Perm.refl _
  | cons a l ih =>
      cases found : f a with
      | some b =>
          rw [List.filterMap_cons_some found, List.filter_cons_of_neg (by simp [found]),
            List.filterMap_cons_some (b := b) (by rw [found]; rfl)]
          exact ih.cons b
      | none =>
          rw [List.filterMap_cons_none found, List.filter_cons_of_pos (by simp [found])]
          cases later : g a with
          | none =>
              rw [List.filterMap_cons_none later,
                List.filterMap_cons_none (by rw [found, later]; rfl)]
              exact ih
          | some b =>
              rw [List.filterMap_cons_some later,
                List.filterMap_cons_some (b := b) (by rw [found, later]; rfl)]
              exact List.perm_middle.trans (ih.cons b)

/-- What is failed is what is printed as failed. -/
def Consistent (m : Monitor) : Prop :=
  m.failedTests = (m.printed.filter fun p => !p.2).map Prod.fst

theorem Consistent.step (consistent : Consistent m) (e : Line) : Consistent (step m e) := by
  rw [RunTests.step]
  split
  · exact consistent
  · split
    · rw [getFinishedTests_eq, Consistent]
      dsimp only
      rw [List.filter_append, List.map_append, ← consistent, List.filter_filterMap,
        List.map_filterMap, ← List.filterMap_eq_filter]
      refine congrArg _ (List.filterMap_congr fun t _ => ?_)
      rcases found : verdict e.results t with _ | _ | _ <;>
        simp [Option.guard, Option.filter_some, found]
    · exact consistent

/-- The run from any state: what was current shares the fate of what is started. -/
theorem foldl_step (log : List Line) (m : Monitor) :
    (log.foldl step m).currentTests =
        (m.currentTests.filter fun t => fate t log = none) ++
          ((started log).filter fun s => fate s.1 s.2 = none).map Prod.fst ∧
      (log.foldl step m).printed.Perm (m.printed ++
        ((m.currentTests.filterMap fun t => (fate t log).map fun ok => (t, ok)) ++
          (started log).filterMap fun s => (fate s.1 s.2).map fun ok => (s.1, ok))) := by
  induction log generalizing m with
  | nil => simp [started, fate]
  | cons e log ih =>
      obtain ⟨current, printed⟩ := ih (step m e)
      rw [List.foldl_cons, current, started]
      by_cases starts : e.starts = true
      · have other (t : Str) : fate t (e :: log) = fate t log :=
          fate_cons_of_not_passed (by rw [starts]; rfl)
        have stepped : step m e = { m with currentTests := m.currentTests ++ e.names } :=
          if_pos starts
        rw [stepped] at printed ⊢
        simp only [if_pos starts, other, List.filter_append, List.map_append, List.filterMap_append,
          List.append_assoc, List.filter_map, List.map_map, List.filterMap_map] at printed ⊢
        refine ⟨?_, printed⟩
        refine congrArg (_ ++ ·) (congrArg (· ++ _) ?_)
        exact (List.map_id _).symm
      · rw [if_neg starts, List.nil_append]
        by_cases passed : e.passed = true
        · have both (t : Str) : fate t (e :: log) = (verdict e.results t).or (fate t log) :=
            fate_cons_of_passed (by rw [passed, Bool.eq_false_iff.mpr starts]; rfl)
          have stepped : step m e = getFinishedTests e.results m := by
            rw [step, if_neg starts, if_pos passed]
          rw [stepped, getFinishedTests_eq] at printed ⊢
          dsimp only at printed ⊢
          rw [List.append_assoc] at printed
          simp only [both]
          refine ⟨?_, printed.trans (List.Perm.append_left _ ?_)⟩
          · rw [List.filter_filter]
            refine congrArg (· ++ _) (List.filter_congr fun t _ => ?_)
            rw [← Bool.decide_and]
            exact decide_eq_decide.mpr (and_comm.trans Option.or_eq_none_iff.symm)
          · rw [← List.append_assoc]
            refine List.Perm.append_right _ ?_
            have first := filterMap_or_perm
              (fun t => (verdict e.results t).map fun ok => (t, ok))
              (fun t => (fate t log).map fun ok => (t, ok)) m.currentTests
            simp only [Option.map_eq_none_iff] at first
            refine first.trans (List.Perm.of_eq (List.filterMap_congr fun t _ => ?_))
            cases verdict e.results t <;> rfl
        · have other (t : Str) : fate t (e :: log) = fate t log :=
            fate_cons_of_not_passed (by rw [Bool.eq_false_iff.mpr passed, Bool.and_false])
          have stepped : step m e = m := by rw [step, if_neg starts, if_neg passed]
          rw [stepped] at printed ⊢
          exact ⟨by simp only [other], by simpa only [other] using printed⟩

end Proofs

/-! ### A failure that is not told -/

/-- Two tests; the second one fails after the first has passed. -/
def lateFailure : List Line :=
  [⟨"*** t1-a.sh ***".toList, []⟩, ⟨"*** t2-b.sh ***".toList, []⟩,
    ⟨"# passed all 3 test(s)".toList, [("t1-a-77".toList, ["failed 0".toList])]⟩,
    ⟨"# failed 1 among 3 test(s)".toList,
      [("t1-a-77".toList, ["failed 0".toList]), ("t2-b-78".toList, ["failed 1".toList])]⟩]

/-- The test has failed, and is listed as unfinished. -/
theorem late_failure : monitor lateFailure =
    ⟨["t2-b".toList], [], [("t1-a".toList, true)]⟩ := by
  decide

end MsysGit.RunTests
