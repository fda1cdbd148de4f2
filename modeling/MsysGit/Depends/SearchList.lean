import MsysGit.Library.CString
import MsysGit.Library.LinkedList
import MsysGit.Library.Program

/-!
# The list of search results

`directory.c` keeps the files that a search has found in a doubly linked list.  The memory
is modelled with the nodes that have been allocated, each with whatever `malloc` found
there, and with the outcome of every later call of `malloc`.

A new node is linked in before its path is stored.  So a failure between the two leaves a
node without a path in the list (`addKeeps_iff`, `mergeKeeps_iff`).
-/

namespace MsysGit.Depends

open MsysGit.Library MsysGit.Library.CString

/-! ### The memory -/

/-- What a `FilePath` points to. -/
inductive FilePath
  /-- Nothing has been stored here. -/
  | unset
  | null
  | string (path : Bytes)
  deriving DecidableEq

/-- `SEARCH_RESULTS` -/
abbrev Node := Cell FilePath

/-- What a `DIRECTORY_INFO` knows of its list. -/
structure DirectoryInfo where
  basePathName : Bytes
  searchResults : Option ℕ

/-- `directory` is the one whose list is changed. -/
structure Memory where
  nodes : List Node
  /-- How the next calls of `malloc` fare: the content of the new memory, `none` for a null
  pointer.  Calls beyond the list fail. -/
  mallocs : List (Option Node)
  directory : DirectoryInfo

/-- Why a function stopped without returning. -/
inductive Fault
  /-- A pointer to no node was followed. -/
  | pointer
  | assertion
  /-- The fuel of a loop ran out: the loop is still running. -/
  | running
  deriving DecidableEq

/-- A computation over the memory. -/
abbrev Search := Program Memory Fault

/-- Read a node. -/
def load (p : ℕ) : Search Node := fun m =>
  match m.nodes[p]? with
  | some node => .returned node m
  | none => .halted .pointer m

/-- Change a node. -/
def change (p : ℕ) (f : Node → Node) : Search Unit := fun m =>
  if p < m.nodes.length then .returned () { m with nodes := m.nodes.modify p f }
  else .halted .pointer m

def setPrevious (p : ℕ) (q : Option ℕ) : Search Unit := change p fun node =>
  { node with previous := q }

def setNext (p : ℕ) (q : Option ℕ) : Search Unit := change p fun node => { node with next := q }

def setFilePath (p : ℕ) (path : FilePath) : Search Unit := change p fun node =>
  { node with value := path }

/-- `malloc (sizeof(SEARCH_RESULTS))` -/
def malloc : Search (Option ℕ) := fun m =>
  match m.mallocs with
  | some garbage :: rest =>
      .returned (some m.nodes.length) { m with nodes := m.nodes ++ [garbage], mallocs := rest }
  | _ => .returned none { m with mallocs := m.mallocs.tail }

/-- `malloc (PathLength)`, as a flag. -/
def mallocPath : Search Bool := fun m =>
  .returned (m.mallocs.head?.join.isSome) { m with mallocs := m.mallocs.tail }

/-! ### The code -/

/-- `MAX_PATH` -/
abbrev maxPath : ℕ := 260

/-- `GetLastSearchResult`, of a list that is not empty. -/
def getLastSearchResult : ℕ → ℕ → Search ℕ
  | 0, _ => Program.halt .running
  | fuel + 1, p => do
      match (← load p).next with
      | none => pure p
      | some next => getLastSearchResult fuel next

/-- `last->Next = malloc (..)`, `last->Next->Previous = last` and `last->Next->Next = NULL`,
which the code has in three places; `none` where there is no memory. -/
def linkNode (last : ℕ) : Search (Option ℕ) := do
  let p ← malloc
  setNext last p
  match p with
  | none => pure none
  | some p => do
      setPrevious p (some last)
      setNext p none
      pure (some p)

/-- A new node at the end of the directory's list. -/
def newNode (fuel : ℕ) : Search (Option ℕ) := do
  let directory ← Program.read Memory.directory
  match directory.searchResults with
  | none => do
      let p ← malloc
      Program.update fun m => { m with directory := { m.directory with searchResults := p } }
      match p with
      | none => pure none
      | some p => do
          setPrevious p none
          setNext p none
          pure (some p)
  | some first => do
      let last ← getLastSearchResult fuel first
      linkNode last

/-- `AddFileToSearchResult`; `BasePathName` is the directory's own in every call. -/
def addFileToSearchResult (fuel : ℕ) (filename : Bytes) : Search Bool := do
  match ← newNode fuel with
  | none => pure false
  | some p => do
      let directory ← Program.read Memory.directory
      let pathLength := directory.basePathName.length + filename.length + 2
      if maxPath < pathLength then pure false
      else if ← mallocPath then do
        setFilePath p (.string (directory.basePathName ++ text "\\" ++ filename))
        pure true
      else do
        setFilePath p .null
        pure false

/-- The loop of `MergeSearchResults`. -/
def mergeLoop : ℕ → ℕ → ℕ → Search Bool
  | 0, _, _ => Program.halt .running
  | fuel + 1, source, destination => do
      match (← load source).value with
      | .string path =>
          if ← mallocPath then do
            setFilePath destination (.string path)
            match (← load source).next with
            | none => pure true
            | some source => do
                match ← linkNode destination with
                | none => pure false
                | some destination => mergeLoop fuel source destination
          else do
            setFilePath destination .null
            pure false
      | _ => Program.halt .assertion

/-- `assert (p->Previous == NULL)`, unless the list is empty. -/
def assertFirst (p : Option ℕ) : Search Unit := do
  match p with
  | none => pure ()
  | some p => if (← load p).previous = none then pure () else Program.halt .assertion

/-- `MergeSearchResults` -/
def mergeSearchResults (fuel : ℕ) (subDir : DirectoryInfo) : Search Bool := do
  match subDir.searchResults with
  | none => pure true
  | some source => do
      assertFirst (some source)
      let directory ← Program.read Memory.directory
      assertFirst directory.searchResults
      match ← newNode fuel with
      | none => pure false
      | some destination => mergeLoop fuel source destination

/-! ### What the steps do -/

section Steps

variable {m : Memory} {E : Fault → Memory → Prop}

theorem wp_load {p : ℕ} {node : Node} {Q : Node → Memory → Prop} (here : m.nodes[p]? = some node)
    (ok : Q node m) : (load p).wp m Q E :=
  Program.wp_of_returned (by rw [load, here]) ok

theorem wp_change {p : ℕ} {f : Node → Node} {Q : Unit → Memory → Prop}
    (inside : p < m.nodes.length) (ok : Q () { m with nodes := m.nodes.modify p f }) :
    (change p f).wp m Q E :=
  Program.wp_of_returned (by rw [change, if_pos inside]) ok

/-- The next `malloc` fails. -/
def Memory.Refuses (m : Memory) : Prop := m.mallocs.head?.join = none

theorem wp_malloc {Q : Option ℕ → Memory → Prop}
    (failed : m.Refuses → Q none { m with mallocs := m.mallocs.tail })
    (got : ∀ garbage rest, m.mallocs = some garbage :: rest →
      Q (some m.nodes.length) { m with nodes := m.nodes ++ [garbage], mallocs := rest }) :
    malloc.wp m Q E := by
  match outcome : m.mallocs with
  | some garbage :: rest =>
      exact Program.wp_of_returned (by rw [malloc, outcome]) (got garbage rest outcome)
  | none :: rest =>
      exact Program.wp_of_returned (by rw [malloc, outcome])
        (failed (by rw [Memory.Refuses, outcome]; rfl))
  | [] =>
      exact Program.wp_of_returned (by rw [malloc, outcome])
        (failed (by rw [Memory.Refuses, outcome]; rfl))

theorem wp_mallocPath {Q : Bool → Memory → Prop}
    (failed : m.Refuses → Q false { m with mallocs := m.mallocs.tail })
    (got : ∀ garbage rest, m.mallocs = some garbage :: rest →
      Q true { m with mallocs := rest }) :
    mallocPath.wp m Q E := by
  match outcome : m.mallocs with
  | some garbage :: rest =>
      exact Program.wp_of_returned (by rw [mallocPath, outcome]; rfl) (got garbage rest outcome)
  | none :: rest =>
      exact Program.wp_of_returned (by rw [mallocPath, outcome]; rfl)
        (outcome ▸ failed (by rw [Memory.Refuses, outcome]; rfl))
  | [] =>
      exact Program.wp_of_returned (by rw [mallocPath, outcome]; rfl)
        (outcome ▸ failed (by rw [Memory.Refuses, outcome]; rfl))

/-- Storing what is there already changes nothing. -/
theorem modify_eq_self {nodes : List Node} {p : ℕ} {f : Node → Node} {node : Node}
    (here : nodes[p]? = some node) (same : f node = node) : nodes.modify p f = nodes := by
  refine List.ext_getElem? fun c => ?_
  rw [List.getElem?_modify]
  split_ifs with at_p
  · rw [← at_p, here, Option.map_eq_map, Option.map_some, same]
  · simp

/-- Linking a new node behind the last one. -/
theorem wp_linkNode {start : Option ℕ} {entries : List (ℕ × FilePath)} {last : ℕ} {v : FilePath}
    {Q : Option ℕ → Memory → Prop} (chain : Chain m.nodes none start (entries ++ [(last, v)]))
    (failed : m.Refuses → Q none { m with mallocs := m.mallocs.tail })
    (linked : ∀ garbage rest nodes, m.mallocs = some garbage :: rest →
      Chain nodes none start (entries ++ [(last, v)] ++ [(m.nodes.length, garbage.value)]) →
      (∀ c < m.nodes.length, c ≠ last → nodes[c]? = m.nodes[c]?) →
      nodes.length = m.nodes.length + 1 →
      Q (some m.nodes.length) { m with nodes := nodes, mallocs := rest }) :
    (linkNode last).wp m Q E := by
  obtain ⟨before, here⟩ := chain.getElem?_last
  have inside : last < m.nodes.length := (List.getElem?_eq_some_iff.mp here).1
  rw [linkNode, Program.wp_bind]
  refine wp_malloc (fun refuses => ?_) fun garbage rest outcome => ?_
  · rw [Program.wp_bind]
    refine wp_change inside ?_
    dsimp only
    rw [modify_eq_self here rfl]
    exact failed refuses
  · have apart : ∀ c ∈ entries.map Prod.fst, c < m.nodes.length ∧ c ≠ last := by
      have distinct := chain.nodup
      rw [List.map_append, List.nodup_append] at distinct
      exact fun c on => ⟨chain.lt_length c (by simp at on ⊢; exact Or.inl on),
        distinct.2.2 c on last (by simp)⟩
    rw [Program.wp_bind]
    refine wp_change (by simp; omega) ?_
    dsimp only
    rw [Program.wp_bind]
    refine wp_change (by simp) ?_
    rw [Program.wp_bind]
    refine wp_change (by simp) ?_
    refine linked garbage rest _ outcome (chain.append (fun c on => ?_) here ?_ ?_)
      (fun c below differs => ?_) (by simp)
    · obtain ⟨below, differs⟩ := apart c on
      simp [List.getElem?_append_left below, differs.symm, (Nat.ne_of_lt below).symm]
    · simp [List.getElem?_append_left inside, here, (Nat.ne_of_lt inside).symm]
    · simp [Nat.ne_of_lt inside]
    · simp [List.getElem?_append_left below, differs.symm, (Nat.ne_of_lt below).symm]

/-- Storing the path of the last node. -/
theorem wp_setFilePath {start : Option ℕ} {entries : List (ℕ × FilePath)} {last : ℕ}
    {v path : FilePath} {Q : Unit → Memory → Prop}
    (chain : Chain m.nodes none start (entries ++ [(last, v)]))
    (stored : ∀ nodes, Chain nodes none start (entries ++ [(last, path)]) →
      (∀ c, c ≠ last → nodes[c]? = m.nodes[c]?) → nodes.length = m.nodes.length →
      Q () { m with nodes := nodes }) :
    (setFilePath last path).wp m Q E := by
  obtain ⟨before, here⟩ := chain.getElem?_last
  have inside : last < m.nodes.length := (List.getElem?_eq_some_iff.mp here).1
  refine wp_change inside
    (stored _ (chain.set_last (fun c on => ?_) here ?_) (fun c differs => ?_) (by simp))
  · have distinct := chain.nodup
    rw [List.map_append, List.nodup_append] at distinct
    simp [(distinct.2.2 c on last (by simp)).symm]
  · simp [here]
  · simp [differs.symm]

/-- Walking to the last node. -/
theorem wp_getLastSearchResult {prev : Option ℕ} {entries : List (ℕ × FilePath)} {last : ℕ}
    {v : FilePath} {Q : ℕ → Memory → Prop} {fuel p : ℕ} (enough : entries.length < fuel)
    (chain : Chain m.nodes prev (some p) (entries ++ [(last, v)])) (ok : Q last m) :
    (getLastSearchResult fuel p).wp m Q E := by
  induction entries generalizing prev p fuel with
  | nil =>
      obtain ⟨fuel, rfl⟩ : ∃ k, fuel = k + 1 := Nat.exists_eq_succ_of_ne_zero (Nat.ne_of_gt enough)
      obtain ⟨same, next, here, rfl⟩ := chain
      obtain rfl := Option.some.inj same
      rw [getLastSearchResult, Program.wp_bind]
      exact wp_load here ok
  | cons e rest ih =>
      obtain ⟨fuel, rfl⟩ : ∃ k, fuel = k + 1 :=
        Nat.exists_eq_succ_of_ne_zero (Nat.ne_zero_of_lt enough)
      obtain ⟨same, next, here, behind⟩ := chain
      obtain rfl := Option.some.inj same
      rw [getLastSearchResult, Program.wp_bind]
      refine wp_load here ?_
      cases next with
      | none => exact absurd (Chain.start_eq_none behind) (by simp)
      | some q => exact ih (Nat.lt_of_succ_lt_succ enough) behind

/-- A new node at the end of the list, or no memory for it and nothing changed. -/
theorem wp_newNode {entries : List (ℕ × FilePath)} {Q : Option ℕ → Memory → Prop} {fuel : ℕ}
    (enough : entries.length ≤ fuel)
    (chain : Chain m.nodes none m.directory.searchResults entries)
    (failed : m.Refuses → ∀ m', m'.nodes = m.nodes → m'.directory = m.directory → Q none m')
    (linked : ∀ garbage rest nodes start, m.mallocs = some garbage :: rest →
      Chain nodes none start (entries ++ [(m.nodes.length, garbage.value)]) →
      (∀ c < m.nodes.length, c ∉ entries.map Prod.fst → nodes[c]? = m.nodes[c]?) →
      nodes.length = m.nodes.length + 1 →
      Q (some m.nodes.length)
        ⟨nodes, rest, { m.directory with searchResults := start }⟩) :
    (newNode fuel).wp m Q E := by
  rw [newNode, Program.wp_bind, Program.wp_read]
  rcases List.eq_nil_or_concat' entries with rfl | ⟨front, ⟨last, v⟩, rfl⟩
  · have empty : m.directory.searchResults = none := chain
    rw [empty]
    dsimp only
    rw [Program.wp_bind]
    refine wp_malloc (fun refuses => ?_) fun garbage rest outcome => ?_
    · rw [Program.wp_bind, Program.wp_update]
      exact failed refuses _ rfl (by rw [← empty])
    · rw [Program.wp_bind, Program.wp_update]
      dsimp only
      rw [Program.wp_bind]
      refine wp_change (by simp) ?_
      rw [Program.wp_bind]
      refine wp_change (by simp) ?_
      refine linked garbage rest _ _ outcome ⟨rfl, none, by simp, rfl⟩ (fun c below _ => ?_)
        (by simp)
      simp [List.getElem?_append_left below, (Nat.ne_of_lt below).symm]
  · cases start : m.directory.searchResults with
    | none =>
        rw [start] at chain
        exact absurd chain.start_eq_none (by simp)
    | some first =>
        dsimp only
        rw [start] at chain
        rw [Program.wp_bind]
        refine wp_getLastSearchResult (Nat.lt_of_succ_le (by simpa using enough)) chain
          (wp_linkNode chain (fun refuses => failed refuses _ rfl rfl)
            fun garbage rest nodes outcome longer same length => ?_)
        rw [← start] at longer
        exact linked garbage rest nodes _ outcome longer
          (fun c below off => same c below fun at_last => off (by simp [at_last])) length

end Steps

/-! ### The functions -/

/-- The next `n` calls of `malloc` succeed. -/
def Granted : ℕ → List (Option Node) → Prop
  | 0, _ => True
  | n + 1, some _ :: rest => Granted n rest
  | _ + 1, _ => False

theorem not_granted_of_refuses {m : Memory} (refuses : m.Refuses) (n : ℕ) :
    ¬Granted (n + 1) m.mallocs := by
  rw [Memory.Refuses] at refuses
  intro granted
  match outcome : m.mallocs with
  | some garbage :: rest =>
      rw [outcome] at refuses
      cases refuses
  | none :: rest => rwa [outcome] at granted
  | [] => rwa [outcome] at granted

/-- The path of a file in the directory. -/
def DirectoryInfo.pathOf (directory : DirectoryInfo) (filename : Bytes) : Bytes :=
  directory.basePathName ++ text "\\" ++ filename

/-- The length that is compared with `MAX_PATH`. -/
def DirectoryInfo.Fits (directory : DirectoryInfo) (filename : Bytes) : Prop :=
  directory.basePathName.length + filename.length + 2 ≤ maxPath

section Functions

variable {m : Memory} {entries : List (ℕ × FilePath)}

/-- **Adding a file.**  Nothing changes without memory for a node; otherwise there is one node
more, whether or not it gets a path. -/
theorem wp_addFile {fuel : ℕ} (filename : Bytes) (enough : entries.length ≤ fuel)
    (chain : Chain m.nodes none m.directory.searchResults entries) :
    (addFileToSearchResult fuel filename).wp m
      (fun ok m' => m.Refuses ∧ ok = false ∧
          Chain m'.nodes none m'.directory.searchResults entries ∨
        Granted 1 m.mallocs ∧
          (ok = true ↔ m.directory.Fits filename ∧ Granted 2 m.mallocs) ∧
          ∃ v, Chain m'.nodes none m'.directory.searchResults
              (entries ++ [(m.nodes.length, v)]) ∧
            (ok = true → v = .string (m.directory.pathOf filename)))
      (fun _ _ => False) := by
  rw [addFileToSearchResult, Program.wp_bind]
  refine wp_newNode enough chain (fun refuses m' nodes directory => ?_)
    fun garbage rest nodes start outcome longer _ _ => ?_
  · exact Or.inl ⟨refuses, rfl, by rwa [nodes, directory]⟩
  · dsimp only
    rw [Program.wp_bind, Program.wp_read, outcome]
    by_cases long : maxPath < m.directory.basePathName.length + filename.length + 2
    · rw [if_pos long]
      refine Or.inr ⟨trivial, ⟨nofun, fun fits => ?_⟩, _, longer, nofun⟩
      exact absurd fits.1 (Nat.not_le_of_lt long)
    rw [if_neg long, Program.wp_bind]
    refine wp_mallocPath (fun refuses => ?_) fun garbage' rest' outcome' => ?_
    · rw [if_neg Bool.false_ne_true, Program.wp_bind]
      refine wp_setFilePath longer fun nodes stored _ _ => ?_
      refine Or.inr ⟨trivial, ⟨nofun, fun fits => ?_⟩, _, stored, nofun⟩
      exact absurd fits.2 (not_granted_of_refuses refuses 0)
    · rw [if_pos rfl, Program.wp_bind]
      refine wp_setFilePath longer fun nodes stored _ _ => ?_
      obtain rfl : rest = some garbage' :: rest' := outcome'
      exact Or.inr ⟨trivial, ⟨fun _ => ⟨Nat.le_of_not_lt long, trivial⟩, fun _ => rfl⟩, _, stored,
        fun _ => rfl⟩

/-- The first node points back nowhere. -/
theorem wp_assertFirst {Q : Unit → Memory → Prop} {E : Fault → Memory → Prop}
    (chain : Chain m.nodes none m.directory.searchResults entries) (ok : Q () m) :
    (assertFirst m.directory.searchResults).wp m Q E := by
  cases entries with
  | nil =>
      have empty : m.directory.searchResults = none := chain
      rwa [empty]
  | cons e rest =>
      obtain ⟨start, next, here, -⟩ := chain
      rw [start, assertFirst, Program.wp_bind]
      refine wp_load here ?_
      rw [if_pos rfl]
      exact ok

/-- **The run of the merging loop.**  It adds the first node's path and those of `paths`, one
after the other, as long as there is memory. -/
theorem wp_mergeLoop (fuel : ℕ) : ∀ {source destination : ℕ} {prev : Option ℕ}
    {path : Bytes} {paths : List Bytes} {v : FilePath} {sub entries : List (ℕ × FilePath)}
    {m : Memory}, paths.length < fuel → sub.map Prod.snd = paths.map .string →
    Chain m.nodes none m.directory.searchResults (entries ++ [(destination, v)]) →
    Chain m.nodes prev (some source) ((source, .string path) :: sub) →
    (∀ c ∈ ((source, FilePath.string path) :: sub).map Prod.fst,
      c ∉ (entries ++ [(destination, v)]).map Prod.fst) →
    (mergeLoop fuel source destination).wp m
      (fun ok m' => (ok = true ↔ Granted (2 * paths.length + 1) m.mallocs) ∧
        ∃ more, more ≠ [] ∧
          Chain m'.nodes none m'.directory.searchResults (entries ++ more) ∧
          (ok = true → more.map Prod.snd = (path :: paths).map .string))
      (fun _ _ => False) := by
  induction fuel with
  | zero => exact fun enough => absurd enough (Nat.not_lt_zero _)
  | succ fuel ih =>
      intro source destination prev path paths v sub entries m enough copied chain subChain apart
      obtain ⟨-, next, here, behind⟩ := id subChain
      rw [mergeLoop, Program.wp_bind]
      refine wp_load here ?_
      dsimp only
      rw [Program.wp_bind]
      refine wp_mallocPath (fun refuses => ?_) fun garbage rest outcome => ?_
      · rw [if_neg Bool.false_ne_true, Program.wp_bind]
        refine wp_setFilePath chain fun nodes stored _ _ => ?_
        exact ⟨⟨nofun, fun all => absurd all (not_granted_of_refuses refuses _)⟩, _,
          List.cons_ne_nil _ _, stored, nofun⟩
      rw [if_pos rfl, Program.wp_bind]
      refine wp_setFilePath chain fun nodes stored same _ => ?_
      -- The sublist is not touched.
      have subChain : Chain nodes prev (some source) ((source, .string path) :: sub) :=
        subChain.congr fun c on => same c fun at_dest => apart c on (by simp [at_dest])
      obtain ⟨-, next, here, behind⟩ := id subChain
      rw [Program.wp_bind]
      refine wp_load here ?_
      dsimp only
      cases sub with
      | nil =>
          obtain rfl : next = none := behind
          obtain rfl : paths = [] := List.map_eq_nil_iff.mp copied.symm
          rw [outcome]
          exact ⟨⟨fun _ => trivial, fun _ => rfl⟩, _, List.cons_ne_nil _ _, stored, fun _ => rfl⟩
      | cons e sub =>
          obtain ⟨source', v'⟩ := e
          cases paths with
          | nil => cases copied
          | cons path' paths =>
          obtain ⟨rfl, others⟩ := List.cons.inj copied
          obtain ⟨rfl, -⟩ := id behind
          dsimp only
          rw [Program.wp_bind, outcome]
          refine wp_linkNode stored (fun refuses => ?_)
            fun garbage' rest' nodes' outcome' longer same' _ => ?_
          · exact ⟨⟨nofun, fun all => absurd all (not_granted_of_refuses refuses _)⟩, _,
              List.cons_ne_nil _ _, stored, nofun⟩
          · obtain rfl : rest = some garbage' :: rest' := outcome'
            have inside := subChain.lt_length
            have clear : ∀ c ∈ ((source', FilePath.string path') :: sub).map Prod.fst,
                c < nodes.length ∧ c ≠ destination := fun c on =>
              ⟨inside c (List.mem_cons_of_mem _ on), fun at_dest =>
                apart c (List.mem_cons_of_mem _ on) (by simp [at_dest])⟩
            refine Program.wp_mono (ih (Nat.lt_of_succ_lt_succ enough) others longer
              (behind.congr fun c on => same' c (clear c on).1 (clear c on).2) fun c on there => ?_)
              (fun ok m' run => ?_) fun _ _ stuck => stuck
            · have off := apart c (List.mem_cons_of_mem _ on)
              rw [List.map_append, List.mem_append] at there
              rcases there with old | new
              · exact off (by simpa using old)
              · have at_new : c = nodes.length := by simpa using new
                exact absurd (clear c on).1 (by omega)
            · obtain ⟨all, more, -, whole, values⟩ := run
              refine ⟨all, (destination, .string path) :: more, List.cons_ne_nil _ _, ?_,
                fun ok => ?_⟩
              · rwa [List.append_assoc] at whole
              · rw [List.map_cons, values ok]
                rfl

/-- **Merging.**  Nothing changes without memory for the first node; otherwise there are nodes
more, and all of the other list's paths if there is memory for everything. -/
theorem wp_mergeSearchResults {fuel : ℕ} {subDir : DirectoryInfo} {path : Bytes}
    {paths : List Bytes} {sub : List (ℕ × FilePath)} (enough : entries.length ≤ fuel)
    (enough' : paths.length < fuel)
    (chain : Chain m.nodes none m.directory.searchResults entries)
    (subChain : Chain m.nodes none subDir.searchResults sub)
    (values : sub.map Prod.snd = (path :: paths).map .string)
    (apart : ∀ c ∈ sub.map Prod.fst, c ∉ entries.map Prod.fst) :
    (mergeSearchResults fuel subDir).wp m
      (fun ok m' => m.Refuses ∧ ok = false ∧
          Chain m'.nodes none m'.directory.searchResults entries ∨
        Granted 1 m.mallocs ∧ (ok = true ↔ Granted (2 * (path :: paths).length) m.mallocs) ∧
          ∃ more, more ≠ [] ∧
            Chain m'.nodes none m'.directory.searchResults (entries ++ more) ∧
            (ok = true → more.map Prod.snd = (path :: paths).map .string))
      (fun _ _ => False) := by
  cases sub with
  | nil => cases values
  | cons e sub =>
      obtain ⟨source, v⟩ := e
      obtain ⟨rfl, others⟩ := List.cons.inj values
      obtain ⟨start, next, here, behind⟩ := id subChain
      rw [mergeSearchResults, start]
      dsimp only
      rw [assertFirst, Program.wp_bind, Program.wp_bind]
      refine wp_load here ?_
      rw [if_pos rfl, Program.wp_pure, Program.wp_bind, Program.wp_read, Program.wp_bind]
      refine wp_assertFirst chain ?_
      rw [Program.wp_bind]
      refine wp_newNode enough chain (fun refuses m' nodes directory => ?_)
        fun garbage rest nodes start' outcome longer same _ => ?_
      · exact Or.inl ⟨refuses, rfl, by rwa [nodes, directory]⟩
      · have below := subChain.lt_length
        rw [start] at subChain
        have subChain := subChain.congr fun c on => same c (below c on) (apart c on)
        refine Program.wp_mono
          (wp_mergeLoop fuel enough' others longer subChain fun c on there => ?_)
          (fun ok m' run => ?_) fun _ _ stuck => stuck
        · rw [List.map_append, List.mem_append] at there
          rcases there with old | new
          · exact apart c on old
          · have at_new : c = m.nodes.length := by simpa using new
            exact absurd (below c on) (by omega)
        · rw [outcome]
          exact Or.inr ⟨trivial, run⟩

end Functions

/-! ### When the list is kept well formed -/

/-- The directory's list is well formed and holds these paths. -/
def Holds (m : Memory) (paths : List Bytes) : Prop :=
  ∃ entries, Chain m.nodes none m.directory.searchResults entries ∧
    entries.map Prod.snd = paths.map .string

/-- Adding a file to a list of `paths` leaves a well-formed list: longer by the file, or, on
failure, the same. -/
def AddKeeps (m : Memory) (filename : Bytes) (paths : List Bytes) : Prop :=
  ∀ fuel, paths.length ≤ fuel → (addFileToSearchResult fuel filename).wp m
    (fun ok m' => Holds m' (if ok then paths ++ [m.directory.pathOf filename] else paths))
    (fun _ _ => False)

/-- Merging a list of `subPaths` into a list of `paths` leaves a well-formed list: longer by
all of them, or, on failure, the same. -/
def MergeKeeps (m : Memory) (subDir : DirectoryInfo) (paths subPaths : List Bytes) : Prop :=
  ∀ fuel, paths.length ≤ fuel → subPaths.length ≤ fuel → (mergeSearchResults fuel subDir).wp m
    (fun ok m' => Holds m' (if ok then paths ++ subPaths else paths)) (fun _ _ => False)

section Kept

variable {m : Memory} {entries : List (ℕ × FilePath)} {paths : List Bytes}

/-- A list holds what is read off it, and nothing else. -/
theorem holds_iff (chain : Chain m.nodes none m.directory.searchResults entries) :
    Holds m paths ↔ entries.map Prod.snd = paths.map .string := by
  refine ⟨?_, fun values => ⟨entries, chain, values⟩⟩
  rintro ⟨entries', chain', values⟩
  rwa [chain.unique chain']

/-- A list with a node more does not hold the old paths. -/
theorem not_holds_longer {more : List (ℕ × FilePath)} (some_more : more ≠ [])
    (chain : Chain m.nodes none m.directory.searchResults (entries ++ more))
    (values : entries.map Prod.snd = paths.map .string) : ¬Holds m paths := by
  rw [holds_iff chain, List.map_append, values]
  intro same
  exact some_more (List.map_eq_nil_iff.mp (List.append_right_eq_self.mp same))

theorem addKeeps_iff (chain : Chain m.nodes none m.directory.searchResults entries)
    (values : entries.map Prod.snd = paths.map .string) (filename : Bytes) :
    AddKeeps m filename paths ↔
      m.Refuses ∨ m.directory.Fits filename ∧ Granted 2 m.mallocs := by
  have length : entries.length = paths.length := by simpa using congrArg List.length values
  constructor
  · intro keeps
    refine Program.wp_elim (keeps _ (Nat.le_refl _))
      (wp_addFile filename (Nat.le_of_eq length) chain) (fun ok m' kept run => ?_)
      fun _ _ stuck => stuck.elim
    rcases run with ⟨refuses, -⟩ | ⟨-, all, v, longer, -⟩
    · exact Or.inl refuses
    · cases ok with
      | true => exact Or.inr (all.mp rfl)
      | false => exact absurd kept (not_holds_longer (List.cons_ne_nil _ _) longer values)
  · intro condition fuel enough
    refine Program.wp_mono (wp_addFile filename (length ▸ enough) chain) (fun ok m' run => ?_)
      fun _ _ stuck => stuck
    rcases run with ⟨-, rfl, same⟩ | ⟨granted, all, v, longer, stored⟩
    · exact (holds_iff same).mpr values
    · obtain rfl := all.mpr
        (condition.resolve_left fun refuses => not_granted_of_refuses refuses 0 granted)
      rw [holds_iff longer, if_pos rfl, List.map_append, values, List.map_append, stored rfl]
      rfl

theorem mergeKeeps_iff {subDir : DirectoryInfo} {sub : List (ℕ × FilePath)}
    {subPaths : List Bytes} (chain : Chain m.nodes none m.directory.searchResults entries)
    (values : entries.map Prod.snd = paths.map .string)
    (subChain : Chain m.nodes none subDir.searchResults sub)
    (subValues : sub.map Prod.snd = subPaths.map .string)
    (apart : ∀ c ∈ sub.map Prod.fst, c ∉ entries.map Prod.fst) :
    MergeKeeps m subDir paths subPaths ↔
      subPaths = [] ∨ m.Refuses ∨ Granted (2 * subPaths.length) m.mallocs := by
  have length : entries.length = paths.length := by simpa using congrArg List.length values
  cases subPaths with
  | nil =>
      refine ⟨fun _ => Or.inl rfl, fun _ fuel _ _ => ?_⟩
      obtain rfl := List.map_eq_nil_iff.mp subValues
      have empty : subDir.searchResults = none := subChain
      rw [mergeSearchResults, empty]
      show Holds m (paths ++ [])
      rw [List.append_nil, holds_iff chain, values]
  | cons path subPaths =>
  rw [or_iff_right (List.cons_ne_nil _ _)]
  constructor
  · intro keeps
    have enough : entries.length ≤ paths.length + (path :: subPaths).length := by omega
    have enough' : subPaths.length < paths.length + (path :: subPaths).length := by simp; omega
    have run := wp_mergeSearchResults enough enough' chain subChain subValues apart
    refine Program.wp_elim (keeps _ (Nat.le_add_right _ _) (Nat.le_add_left _ _)) run
      (fun ok m' kept run => ?_) fun _ _ stuck => stuck.elim
    rcases run with ⟨refuses, -⟩ | ⟨-, all, more, some_more, longer, -⟩
    · exact Or.inl refuses
    · cases ok with
      | true => exact Or.inr (all.mp rfl)
      | false => exact absurd kept (not_holds_longer some_more longer values)
  · intro condition fuel enough enough'
    refine Program.wp_mono (wp_mergeSearchResults (length ▸ enough) enough' chain subChain subValues
      apart) (fun ok m' run => ?_) fun _ _ stuck => stuck
    rcases run with ⟨-, rfl, same⟩ | ⟨granted, all, more, -, longer, stored⟩
    · exact (holds_iff same).mpr values
    · obtain rfl := all.mpr
        (condition.resolve_left fun refuses => not_granted_of_refuses refuses 0 granted)
      rw [holds_iff longer, if_pos rfl, List.map_append, values, List.map_append, stored rfl]

end Kept

/-- **Both functions keep their list** if nothing is linked in, or everything that is linked in
gets its path: the path is not too long, and there is memory for all of it. -/
theorem lists_kept_iff {m : Memory} {subDir : DirectoryInfo} {entries sub : List (ℕ × FilePath)}
    {paths subPaths : List Bytes} (chain : Chain m.nodes none m.directory.searchResults entries)
    (values : entries.map Prod.snd = paths.map .string)
    (subChain : Chain m.nodes none subDir.searchResults sub)
    (subValues : sub.map Prod.snd = subPaths.map .string)
    (apart : ∀ c ∈ sub.map Prod.fst, c ∉ entries.map Prod.fst) :
    (∀ filename, AddKeeps m filename paths ↔
      m.Refuses ∨ m.directory.Fits filename ∧ Granted 2 m.mallocs) ∧
    (MergeKeeps m subDir paths subPaths ↔
      subPaths = [] ∨ m.Refuses ∨ Granted (2 * subPaths.length) m.mallocs) :=
  ⟨addKeeps_iff chain values, mergeKeeps_iff chain values subChain subValues apart⟩

/-- Two lists of one file each, and memory for three more nodes or paths. -/
theorem lists_kept_small :
    let garbage : Node := ⟨some 7, some 7, .unset⟩
    let m : Memory := {
      nodes := [⟨none, none, .string (text "d\\a")⟩, ⟨none, none, .string (text "d\\s\\b")⟩]
      mallocs := [some garbage, some garbage, some garbage]
      directory := ⟨text "d", some 0⟩ }
    AddKeeps m (text "c") [text "d\\a"] ∧
      MergeKeeps m ⟨text "d\\s", some 1⟩ [text "d\\a"] [text "d\\s\\b"] := by
  intro garbage m
  have chain : Chain m.nodes none m.directory.searchResults [(0, .string (text "d\\a"))] :=
    ⟨rfl, none, rfl, rfl⟩
  have subChain : Chain m.nodes none (some 1) [(1, .string (text "d\\s\\b"))] :=
    ⟨rfl, none, rfl, rfl⟩
  have iffs := @lists_kept_iff m ⟨text "d\\s", some 1⟩ _ _ [text "d\\a"] [text "d\\s\\b"] chain rfl
    subChain rfl (by decide)
  exact ⟨(iffs.1 _).mpr (Or.inr ⟨by unfold DirectoryInfo.Fits; decide, trivial⟩),
    iffs.2.mpr (Or.inr (Or.inr trivial))⟩

/-- A path that is too long: its node is in the list already. -/
theorem not_addKeeps_long :
    ¬AddKeeps ⟨[], [some ⟨none, none, .unset⟩, some ⟨none, none, .unset⟩], ⟨text "C:\\dir", none⟩⟩
      (List.replicate 255 97) [] := by
  have chain : Chain ([] : List Node) none none [] := rfl
  refine mt (addKeeps_iff chain rfl _).mp ?_
  rintro (refuses | ⟨fits, -⟩)
  · cases refuses
  · rw [DirectoryInfo.Fits, List.length_replicate] at fits
    exact absurd fits (by decide)

end MsysGit.Depends
