import MsysGit.Depends.Closing
import MsysGit.Depends.Directory

/-!
# The search in memory

`DirectorySearch` keeps what it finds in the list of each directory, opens a `DIRECTORY_INFO`
for each subdirectory, copies the subdirectory's list behind its own, and closes the
subdirectory.  Whoever opened the first directory reads its list and closes it.

What `Depends/Directory` says of the paths is true of the lists in memory, and of everything
that is allocated on the way nothing is left and nothing is released twice
(`searchInMemory_refines`), if there is memory for everything.  The copies of the wildcards,
which are never released, are not looked at.
-/

namespace MsysGit.Depends

open MsysGit.Library MsysGit.Library.CString

/-! ### The code -/

/-- `malloc (sizeof(DIRECTORY_INFO))`, as a flag. -/
def mallocDirectory : Search Bool := mallocPath

/-- `DirectoryOpen`.  Where the directory cannot be listed, its `DIRECTORY_INFO` is not
released. -/
def openInMemory (path : Bytes) (readable : Bool) : Closing (Option ℕ) := do
  if ← inMemory mallocDirectory then do
    let d ← Program.read Heap.opened
    Program.update fun h => { h with opened := h.opened + 1 }
    match directoryOpen path readable with
    | .error _ => pure none
    | .ok () => do
        Program.update fun h => { h with memory.directory := ⟨path, none⟩ }
        pure (some d)
  else pure none

mutual

/-- The loop of `DirectorySearch` over the entries of the current directory. -/
def entriesInMemory (fuel : ℕ) (fileWildcard : Option Bytes) (wildcards : Option (List Bytes)) :
    List Tree → Closing Bool
  | [] => pure true
  | entry :: entries => do
      if ← entryInMemory fuel fileWildcard wildcards entry then
        entriesInMemory fuel fileWildcard wildcards entries
      else pure false

/-- The body of the loop. -/
def entryInMemory (fuel : ℕ) (fileWildcard : Option Bytes) (wildcards : Option (List Bytes)) :
    Tree → Closing Bool
  | .file name =>
      if matchesFile wildcards name then inMemory (addFileToSearchResult fuel name) else pure true
  | .directory name readable entries failure => do
      if Dotted name then pure true
      else do
        let base ← Program.read fun h => h.memory.directory
        match ← openInMemory (pathIn base.basePathName name) readable with
        | none => pure false
        | some d =>
            match splitWildcards fileWildcard with
            | .error _ => pure false
            | .ok wildcards => do
                let ok ← entriesInMemory fuel fileWildcard wildcards entries
                let subDir ← Program.read fun h => h.memory.directory
                Program.update fun h => { h with memory.directory := base }
                if ok = false ∨ failure ≠ none then pure false
                else if ← inMemory (mergeSearchResults fuel subDir) then do
                  directoryClose fuel d subDir
                  pure true
                else pure false

end

/-- The loop over the results in `SearchImport` and `SearchExport`, which reads a path in each
round. -/
def readResults : ℕ → Option ℕ → Search (List Bytes)
  | _, none => pure []
  | 0, some _ => Program.halt .running
  | fuel + 1, some p => do
      let node ← load p
      match node.value with
      | .string path => do
          let paths ← readResults fuel node.next
          pure (path :: paths)
      | _ => Program.halt .pointer

/-- `SearchImport` and `SearchExport`, apart from what is done with each path; `none` where they
return -1. -/
def searchInMemory (fuel : ℕ) (fileWildcard : Option Bytes) (path : Bytes) (readable : Bool)
    (entries : List Tree) (failure : Option UInt32) : Closing (Option (List Bytes)) := do
  match ← openInMemory path readable with
  | none => pure none
  | some d =>
      match splitWildcards fileWildcard with
      | .error _ => pure none
      | .ok wildcards => do
          let ok ← entriesInMemory fuel fileWildcard wildcards entries
          if ok = false ∨ failure ≠ none then pure none
          else do
            let directory ← Program.read fun h => h.memory.directory
            let paths ← inMemory (readResults fuel directory.searchResults)
            directoryClose fuel d directory
            pure (some paths)

/-! ### Adding and merging, with memory for everything -/

/-- The cells that are made for these paths, from the address `n` on. -/
def newCells (n : ℕ) (paths : List Bytes) : List (ℕ × FilePath) :=
  (List.range' n paths.length).zip (paths.map .string)

/-- What adding to a list changes: the nodes of other lists are not touched. -/
structure Grown (m m' : Memory) (cells : List (ℕ × FilePath)) (paths : List Bytes) : Prop where
  chain : Chain m'.nodes none m'.directory.searchResults (cells ++ newCells m.nodes.length paths)
  frame : ∀ c < m.nodes.length, c ∉ cells.map Prod.fst → m'.nodes[c]? = m.nodes[c]?
  length : m'.nodes.length = m.nodes.length + paths.length
  base : m'.directory.basePathName = m.directory.basePathName

section Granted

variable {m : Memory} {cells : List (ℕ × FilePath)} {E : Fault → Memory → Prop}
  {Q : Bool → Memory → Prop} {fuel k : ℕ}

theorem newCells_cons (n : ℕ) (path : Bytes) (paths : List Bytes) :
    newCells n (path :: paths) = (n, .string path) :: newCells (n + 1) paths := rfl

/-- A file is added exactly when its path is not too long. -/
theorem wp_addFile_grown (filename : Bytes) (enough : cells.length ≤ fuel)
    (chain : Chain m.nodes none m.directory.searchResults cells)
    (memory : Granted (k + 2) m.mallocs)
    (long : ¬m.directory.Fits filename → ∀ m', Q false m')
    (added : m.directory.Fits filename → ∀ m', Grown m m' cells [m.directory.pathOf filename] →
      Granted k m'.mallocs → Q true m') :
    (addFileToSearchResult fuel filename).wp m Q E := by
  rw [addFileToSearchResult, Program.wp_bind]
  refine wp_newNode enough chain
    (fun refuses => absurd memory (not_granted_of_refuses refuses (k + 1)))
    fun garbage rest nodes start outcome longer frame length => ?_
  dsimp only
  rw [Program.wp_bind, Program.wp_read]
  rw [outcome] at memory
  have memory : Granted (k + 1) rest := memory
  by_cases tooLong : maxPath < m.directory.basePathName.length + filename.length + 2
  · rw [if_pos tooLong]
    exact long (Nat.not_le_of_lt tooLong) _
  rw [if_neg tooLong, Program.wp_bind]
  refine wp_mallocPath
    (fun refuses => absurd memory (not_granted_of_refuses refuses k)) fun garbage' rest' more => ?_
  rw [if_pos rfl, Program.wp_bind]
  refine wp_setFilePath longer fun nodes' stored same length' => ?_
  obtain rfl : rest = some garbage' :: rest' := more
  refine added (Nat.le_of_not_lt tooLong) _ ⟨stored, fun c below off => ?_, ?_, rfl⟩ memory
  · exact (same c (Nat.ne_of_lt below)).trans (frame c below off)
  · exact length'.trans length

/-- **The merging loop.**  It adds the first node's path and those of `paths`. -/
theorem wp_mergeLoop_grown (fuel : ℕ) : ∀ {source destination : ℕ} {prev : Option ℕ} {path : Bytes}
    {paths : List Bytes} {v : FilePath} {sub cells : List (ℕ × FilePath)} {m : Memory},
    paths.length < fuel → sub.map Prod.snd = paths.map .string →
    Chain m.nodes none m.directory.searchResults (cells ++ [(destination, v)]) →
    Chain m.nodes prev (some source) ((source, .string path) :: sub) →
    (∀ c ∈ ((source, FilePath.string path) :: sub).map Prod.fst,
      c ∉ (cells ++ [(destination, v)]).map Prod.fst) →
    Granted (k + (2 * paths.length + 1)) m.mallocs →
    (∀ m', Chain m'.nodes none m'.directory.searchResults
        (cells ++ (destination, .string path) :: newCells m.nodes.length paths) →
      (∀ c < m.nodes.length, c ∉ (cells ++ [(destination, v)]).map Prod.fst →
        m'.nodes[c]? = m.nodes[c]?) →
      m'.nodes.length = m.nodes.length + paths.length → m'.directory = m.directory →
      Granted k m'.mallocs → Q true m') →
    (mergeLoop fuel source destination).wp m Q E := by
  induction fuel with
  | zero => exact fun enough => absurd enough (Nat.not_lt_zero _)
  | succ fuel ih =>
      intro source destination prev path paths v sub cells m enough copied chain subChain apart
        memory ok
      obtain ⟨-, next, here, -⟩ := id subChain
      rw [mergeLoop, Program.wp_bind]
      refine wp_load here ?_
      dsimp only
      rw [Program.wp_bind]
      refine wp_mallocPath
        (fun refuses => absurd memory (not_granted_of_refuses refuses _))
        fun garbage rest outcome => ?_
      rw [if_pos rfl, Program.wp_bind]
      refine wp_setFilePath chain fun nodes stored same length => ?_
      rw [outcome] at memory
      have memory : Granted (k + 2 * paths.length) rest := memory
      -- The sublist is not touched.
      have subChain : Chain nodes prev (some source) ((source, .string path) :: sub) :=
        subChain.congr fun c on => same c fun at_dest => apart c on (by simp [at_dest])
      obtain ⟨-, next, here, behind⟩ := id subChain
      rw [Program.wp_bind]
      refine wp_load here ?_
      dsimp only
      cases sub with
      | nil =>
          obtain rfl : next = none := behind
          obtain rfl : paths = [] := List.map_eq_nil_iff.mp copied.symm
          refine ok _ stored (fun c _ off => same c fun at_dest => off ?_) length rfl memory
          simp [at_dest]
      | cons e sub =>
          obtain ⟨source', v'⟩ := e
          cases paths with
          | nil => cases copied
          | cons path' paths =>
          obtain ⟨rfl, others⟩ := List.cons.inj copied
          obtain ⟨rfl, -⟩ := id behind
          have split : k + 2 * (path' :: paths).length = k + (2 * paths.length + 1) + 1 := by
            rw [List.length_cons]
            omega
          rw [split] at memory
          dsimp only
          rw [Program.wp_bind]
          refine wp_linkNode stored
            (fun refuses => absurd memory (not_granted_of_refuses refuses _))
            fun garbage' rest' nodes' outcome' longer same' length' => ?_
          obtain rfl : rest = some garbage' :: rest' := outcome'
          dsimp only at same same' length length'
          have inside := subChain.lt_length
          have clear : ∀ c ∈ ((source', FilePath.string path') :: sub).map Prod.fst,
              c < nodes.length ∧
                c ∉ (cells ++ [(destination, FilePath.string path)]).map Prod.fst :=
            fun c on => ⟨inside c (List.mem_cons_of_mem _ on), by
              simpa using apart c (List.mem_cons_of_mem _ on)⟩
          refine ih (Nat.lt_of_succ_lt_succ enough) others longer
            (behind.congr fun c on => same' c (clear c on).1 fun at_dest =>
              (clear c on).2 (by simp [at_dest]))
            (fun c on there => ?_) memory fun m' whole frame length'' directory granted => ?_
          · rw [List.map_append, List.mem_append] at there
            refine there.elim (clear c on).2 fun new => ?_
            have at_new : c = nodes.length := by simpa using new
            exact absurd (clear c on).1 (by omega)
          · dsimp only at frame length''
            refine ok m' ?_ (fun c below off => ?_) ?_ directory granted
            · rw [newCells_cons, ← length, ← length']
              rwa [List.append_assoc] at whole
            · have differs : c ≠ destination := fun at_dest => off (by simp [at_dest])
              rw [frame c (by omega) ?_, same' c (length ▸ below) differs, same c differs]
              rw [List.map_append, List.mem_append, not_or]
              refine ⟨by simpa using off, fun new => ?_⟩
              have at_new : c = nodes.length := by simpa using new
              omega
            · rw [length'', length', length, List.length_cons]
              omega

/-- **Merging.**  All paths of the other list are added. -/
theorem wp_merge_grown {subDir : DirectoryInfo} {sub : List (ℕ × FilePath)}
    {subPaths : List Bytes} (enough : cells.length ≤ fuel) (enough' : subPaths.length ≤ fuel)
    (chain : Chain m.nodes none m.directory.searchResults cells)
    (subChain : Chain m.nodes none subDir.searchResults sub)
    (values : sub.map Prod.snd = subPaths.map .string)
    (apart : ∀ c ∈ sub.map Prod.fst, c ∉ cells.map Prod.fst)
    (memory : Granted (k + 2 * subPaths.length) m.mallocs)
    (ok : ∀ m', Grown m m' cells subPaths → Granted k m'.mallocs → Q true m') :
    (mergeSearchResults fuel subDir).wp m Q E := by
  rw [mergeSearchResults]
  cases subPaths with
  | nil =>
      obtain rfl := List.map_eq_nil_iff.mp values
      have empty : subDir.searchResults = none := subChain
      rw [empty]
      exact ok m ⟨by rwa [newCells, List.length_nil, List.range'_zero, List.zip_nil_left,
        List.append_nil], fun _ _ _ => rfl, rfl, rfl⟩ memory
  | cons path paths =>
  cases sub with
  | nil => cases values
  | cons e sub =>
      obtain ⟨source, v⟩ := e
      obtain ⟨rfl, others⟩ := List.cons.inj values
      have start : subDir.searchResults = some source := subChain.1
      rw [start] at subChain ⊢
      dsimp only
      rw [Program.wp_bind]
      refine wp_assertFirst_some subChain ?_
      rw [Program.wp_bind, Program.wp_read, Program.wp_bind]
      refine wp_assertFirst chain ?_
      rw [Program.wp_bind]
      have split : k + 2 * (path :: paths).length = k + (2 * paths.length + 1) + 1 := by
        rw [List.length_cons]
        omega
      rw [split] at memory
      refine wp_newNode enough chain
        (fun refuses => absurd memory (not_granted_of_refuses refuses _))
        fun garbage rest nodes start' outcome longer frame length => ?_
      rw [outcome] at memory
      have below := subChain.lt_length
      refine wp_mergeLoop_grown fuel enough' others longer
        (subChain.congr fun c on => frame c (below c on) (apart c on)) (fun c on there => ?_) memory
        fun m' whole frame' length' directory granted => ok m' ⟨?_, fun c below off => ?_, ?_, ?_⟩
          granted
      · rw [List.map_append, List.mem_append] at there
        refine there.elim (apart c on) fun new => ?_
        have at_new : c = m.nodes.length := by simpa using new
        exact absurd (below c on) (by omega)
      · rwa [newCells_cons, ← length]
      · rw [frame' c (by dsimp only; omega) ?_, frame c below off]
        rw [List.map_append, List.mem_append, not_or]
        refine ⟨off, fun new => ?_⟩
        have at_new : c = m.nodes.length := by simpa using new
        omega
      · rw [length', List.length_cons]
        dsimp only
        omega
      · rw [directory]

end Granted

/-! ### The ledger -/

/-- The block has been allocated between the two. -/
def Block.Since (h h' : Heap) : Block → Prop
  | .path p | .node p => h.memory.nodes.length ≤ p ∧ p < h'.memory.nodes.length
  | .directory d => h.opened ≤ d ∧ d < h'.opened

instance (h h' : Heap) : (block : Block) → Decidable (block.Since h h')
  | .path _ | .node _ | .directory _ => inferInstanceAs (Decidable (_ ∧ _))

/-- The list of the current directory. -/
structure Lists (h : Heap) (cells : List (ℕ × FilePath)) (paths : List Bytes) : Prop where
  chain : Chain h.memory.nodes none h.memory.directory.searchResults cells
  values : cells.map Prod.snd = paths.map .string
  unreleased : Unreleased h cells
  /-- What has been released has been allocated. -/
  tidy : ∀ block ∈ h.released, block.Allocated h

/-- What a part of the search does: it puts `found` into the list, and releases everything else
that it allocates. -/
structure Adds (h h' : Heap) (cells new : List (ℕ × FilePath)) (found : List Bytes) : Prop where
  chain : Chain h'.memory.nodes none h'.memory.directory.searchResults (cells ++ new)
  values : new.map Prod.snd = found.map .string
  base : h'.memory.directory.basePathName = h.memory.directory.basePathName
  frame : ∀ c < h.memory.nodes.length, c ∉ cells.map Prod.fst →
    h'.memory.nodes[c]? = h.memory.nodes[c]?
  grows : h.memory.nodes.length ≤ h'.memory.nodes.length
  opened : h.opened ≤ h'.opened
  /-- Each block is in the list or has been released, once. -/
  ledger : ∃ freed, h'.released = h.released ++ freed ∧ ∀ block,
    freed.count block + (blocksOf new).count block = if block.Since h h' then 1 else 0

section Ledger

variable {h h' h'' : Heap} {cells new new' : List (ℕ × FilePath)}
  {paths found found' : List Bytes}

theorem Lists.length (lists : Lists h cells paths) : cells.length = paths.length := by
  simpa using congrArg List.length lists.values

theorem Block.Since.allocated {block : Block} (since : block.Since h h') : block.Allocated h' := by
  cases block <;> exact since.2

theorem Block.Since.not_allocated {block : Block} (since : block.Since h h') :
    ¬ block.Allocated h := by
  cases block <;> exact Nat.not_lt.mpr since.1

theorem Block.Allocated.mono {block : Block} (allocated : block.Allocated h)
    (grows : h.memory.nodes.length ≤ h'.memory.nodes.length) (opened : h.opened ≤ h'.opened) :
    block.Allocated h' := by
  cases block with
  | path p => exact Nat.lt_of_lt_of_le allocated grows
  | node p => exact Nat.lt_of_lt_of_le allocated grows
  | directory d => exact Nat.lt_of_lt_of_le allocated opened

theorem Block.since_iff {block : Block} :
    block.Since h h' ↔ ¬ block.Allocated h ∧ block.Allocated h' := by
  cases block <;> exact and_congr_left' Nat.not_lt.symm

/-- Each node of the list has its path. -/
theorem Lists.strings (lists : Lists h cells paths) : Strings cells := fun c on => by
  have value : c.2 ∈ paths.map FilePath.string := lists.values ▸ List.mem_map_of_mem on
  obtain ⟨path, -, same⟩ := List.mem_map.mp value
  exact ⟨path, same.symm⟩

/-- Memory only becomes more. -/
theorem Block.since_trans (block : Block) (grows : h.memory.nodes.length ≤ h'.memory.nodes.length)
    (opened : h.opened ≤ h'.opened) (grows' : h'.memory.nodes.length ≤ h''.memory.nodes.length)
    (opened' : h'.opened ≤ h''.opened) :
    (if block.Since h h' then 1 else 0) + (if block.Since h' h'' then 1 else 0) =
      if block.Since h h'' then 1 else 0 := by
  have first : block.Allocated h → block.Allocated h' := fun allocated =>
    allocated.mono grows opened
  have second : block.Allocated h' → block.Allocated h'' := fun allocated =>
    allocated.mono grows' opened'
  simp only [Block.since_iff]
  by_cases early : block.Allocated h
  · simp [early, first early]
  · by_cases middle : block.Allocated h'
    · simp [early, middle, second middle]
    · simp [early, middle]

/-- What is added is new. -/
theorem Adds.since (adds : Adds h h' cells new found) :
    ∀ block ∈ blocksOf new, block.Since h h' := by
  intro block own
  obtain ⟨freed, -, ledger⟩ := adds.ledger
  have once := ledger block
  have some_count := List.count_pos_iff.mpr own
  by_contra early
  rw [if_neg early] at once
  omega

theorem Adds.fresh (adds : Adds h h' cells new found) :
    ∀ p ∈ new.map Prod.fst, h.memory.nodes.length ≤ p ∧ p < h'.memory.nodes.length :=
  fun p on => adds.since (.node p) (mem_blocksOf.mpr ⟨p, on, Or.inr rfl⟩)

/-- What is released was allocated before, or on the way. -/
theorem Adds.released (adds : Adds h h' cells new found) {block : Block}
    (released : block ∈ h'.released) :
    block ∈ h.released ∨ block.Since h h' ∧ block ∉ blocksOf new := by
  obtain ⟨freed, split, ledger⟩ := adds.ledger
  rw [split, List.mem_append] at released
  refine released.imp_right fun now => ?_
  have once := ledger block
  have some_count := List.count_pos_iff.mpr now
  by_cases since : block.Since h h'
  · refine ⟨since, fun own => ?_⟩
    have more := List.count_pos_iff.mpr own
    rw [if_pos since] at once
    omega
  · rw [if_neg since] at once
    omega

/-- The blocks of a list in the memory have been allocated. -/
theorem allocated_of_chain {start : Option ℕ} (chain : Chain h.memory.nodes none start cells) :
    ∀ block ∈ blocksOf cells, block.Allocated h := by
  intro block own
  obtain ⟨p, on, rfl | rfl⟩ := mem_blocksOf.mp own
  · exact chain.lt_length p on
  · exact chain.lt_length p on

/-- The list stays a list. -/
theorem Adds.lists (adds : Adds h h' cells new found) (lists : Lists h cells paths) :
    Lists h' (cells ++ new) (paths ++ found) where
  chain := adds.chain
  values := by rw [List.map_append, List.map_append, lists.values, adds.values]
  unreleased := by
    rw [unreleased_append]
    constructor
    · intro block own released
      rcases adds.released released with before | ⟨since, -⟩
      · exact lists.unreleased block own before
      · exact since.not_allocated (allocated_of_chain lists.chain block own)
    · intro block own released
      rcases adds.released released with before | ⟨-, off⟩
      · exact (adds.since block own).not_allocated (lists.tidy block before)
      · exact off own
  tidy := by
    intro block released
    rcases adds.released released with before | ⟨since, -⟩
    · exact (lists.tidy block before).mono adds.grows adds.opened
    · exact since.allocated

theorem Adds.refl (lists : Lists h cells paths) : Adds h h cells [] [] where
  chain := by rw [List.append_nil]; exact lists.chain
  values := rfl
  base := rfl
  frame _ _ _ := rfl
  grows := Nat.le_refl _
  opened := Nat.le_refl _
  ledger := ⟨[], (List.append_nil _).symm, fun block => by
    rw [if_neg]
    · rfl
    · cases block <;> exact fun both => absurd both.2 (Nat.not_lt.mpr both.1)⟩

/-- One after the other. -/
theorem Adds.trans (adds : Adds h h' cells new found)
    (adds' : Adds h' h'' (cells ++ new) new' found') :
    Adds h h'' cells (new ++ new') (found ++ found') where
  chain := by rw [← List.append_assoc]; exact adds'.chain
  values := by rw [List.map_append, List.map_append, adds.values, adds'.values]
  base := adds'.base.trans adds.base
  frame c below off := by
    rw [adds'.frame c (Nat.lt_of_lt_of_le below adds.grows) ?_, adds.frame c below off]
    rw [List.map_append, List.mem_append, not_or]
    exact ⟨off, fun on => absurd below (Nat.not_lt.mpr (adds.fresh c on).1)⟩
  grows := Nat.le_trans adds.grows adds'.grows
  opened := Nat.le_trans adds.opened adds'.opened
  ledger := by
    obtain ⟨freed, split, ledger⟩ := adds.ledger
    obtain ⟨freed', split', ledger'⟩ := adds'.ledger
    refine ⟨freed ++ freed', by rw [split', split, List.append_assoc], fun block => ?_⟩
    rw [List.count_append, blocksOf_append, List.count_append,
      ← block.since_trans adds.grows adds.opened adds'.grows adds'.opened, ← ledger block,
      ← ledger' block]
    omega

end Ledger

/-! ### The search -/

mutual

/-- How often `malloc` is called for the entries. -/
def callsIn (wildcards : Option (List Bytes)) (base : Bytes) : List Tree → ℕ
  | [] => 0
  | entry :: entries => callsOf wildcards base entry + callsIn wildcards base entries

def callsOf (wildcards : Option (List Bytes)) (base : Bytes) : Tree → ℕ
  | .file name => if matchesFile wildcards name then 2 else 0
  | .directory name _ entries _ =>
      if Dotted name then 0
      else callsIn wildcards (pathIn base name) entries +
        2 * (picked wildcards (filesIn (pathIn base name) false entries)).length + 1

end

/-- What the search of a part of the entries comes to: it succeeds where nothing is in the way,
and then has added what it has found. -/
def Gathers (h : Heap) (cells : List (ℕ × FilePath)) (k : ℕ) (clean : Prop) (found : List Bytes)
    (ok : Bool) (h' : Heap) : Prop :=
  (ok = true ↔ clean) ∧
    (ok = true → ∃ new, Adds h h' cells new found ∧ Granted k h'.memory.mallocs)

section Search

variable {h : Heap} {cells : List (ℕ × FilePath)} {paths found : List Bytes} {fuel k : ℕ}
  {E : Fault → Heap → Prop} {fileWildcard : Option Bytes} {wildcards : Option (List Bytes)}
  {base name : Bytes}

/-- `DirectoryOpen`, with memory. -/
theorem wp_openInMemory {path : Bytes} {readable : Bool} {Q : Option ℕ → Heap → Prop}
    (memory : Granted (k + 1) h.memory.mallocs)
    (fails : ¬Opens path readable → ∀ h', Q none h')
    (opens : Opens path readable → ∀ rest, Granted k rest → Q (some h.opened) { h with
      opened := h.opened + 1
      memory := ⟨h.memory.nodes, rest, ⟨path, none⟩⟩ }) :
    (openInMemory path readable).wp h Q E := by
  rw [openInMemory, Program.wp_bind, wp_inMemory]
  refine wp_mallocPath (fun refuses => absurd memory (not_granted_of_refuses refuses _))
    fun garbage rest outcome => ?_
  rw [outcome] at memory
  rw [if_pos rfl, Program.wp_bind, Program.wp_read, Program.wp_bind, Program.wp_update]
  cases opened : directoryOpen path readable with
  | error failure =>
      refine fails (fun opens => ?_) _
      rw [@directoryOpen_eq_ok _ _ () |>.mpr opens] at opened
      cases opened
  | ok u => exact opens (directoryOpen_eq_ok.mp opened) rest memory

theorem map_fst_newCells (n : ℕ) (paths : List Bytes) :
    (newCells n paths).map Prod.fst = List.range' n paths.length :=
  List.map_fst_zip (by simp)

theorem map_snd_newCells (n : ℕ) (paths : List Bytes) :
    (newCells n paths).map Prod.snd = paths.map .string :=
  List.map_snd_zip (by simp)

/-- Each block of a list is there as often as its node. -/
theorem count_blocksOf (cells : List (ℕ × FilePath)) (block : Block) :
    (blocksOf cells).count block = match block with
      | .path p | .node p => (cells.map Prod.fst).count p
      | .directory _ => 0 := by
  induction cells with
  | nil => cases block <;> rfl
  | cons c cells ih =>
      rw [blocksOf, List.flatMap_cons, List.count_append, ← blocksOf, ih]
      cases block <;> simp [List.count_cons, Nat.add_comm]

theorem count_newCells (n : ℕ) (paths : List Bytes) (block : Block) :
    (blocksOf (newCells n paths)).count block = match block with
      | .path p | .node p => if n ≤ p ∧ p < n + paths.length then 1 else 0
      | .directory _ => 0 := by
  rw [count_blocksOf]
  cases block with
  | directory d => rfl
  | path p =>
      dsimp only
      rw [map_fst_newCells, List.Nodup.count List.nodup_range']
      simp only [List.mem_range'_1]
  | node p =>
      dsimp only
      rw [map_fst_newCells, List.Nodup.count List.nodup_range']
      simp only [List.mem_range'_1]

/-- What a list has been made longer by. -/
theorem Grown.adds {m' : Memory} (grown : Grown h.memory m' cells found) :
    Adds h { h with memory := m' } cells (newCells h.memory.nodes.length found) found where
  chain := grown.chain
  values := map_snd_newCells _ _
  base := grown.base
  frame := grown.frame
  grows := by
    show h.memory.nodes.length ≤ m'.nodes.length
    rw [grown.length]
    exact Nat.le_add_right _ _
  opened := Nat.le_refl _
  ledger := ⟨[], (List.append_nil _).symm, fun block => by
    rw [List.count_nil, Nat.zero_add, count_newCells]
    cases block with
    | path p => simp only [Block.Since, grown.length]
    | node p => simp only [Block.Since, grown.length]
    | directory d => exact (if_neg fun both => absurd both.2 (Nat.not_lt.mpr both.1)).symm⟩

/-- A file. -/
theorem wp_fileInMemory {failure : Fault → Heap → Prop} (lists : Lists h cells paths)
    (enough : paths.length ≤ fuel)
    (memory : Granted (k + callsOf wildcards base (.file name)) h.memory.mallocs)
    (here : h.memory.directory.basePathName = base) :
    (entryInMemory fuel fileWildcard wildcards (.file name)).wp h
      (Gathers h cells k (ReadableOf base (.file name) ∧
        PickedShort wildcards (filesOf base false (.file name)))
        (picked wildcards (filesOf base false (.file name)))) failure := by
  rw [entryInMemory]
  rw [callsOf] at memory
  split_ifs with matching
  · rw [if_pos matching] at memory
    have picks_file : picks wildcards ⟨base, name, false⟩ = true := matching
    have found : picked wildcards (filesOf base false (.file name)) = [pathIn base name] := by
      rw [filesOf, picked, List.filter_singleton, picks_file]
      rfl
    have short : PickedShort wildcards (filesOf base false (.file name)) ↔
        h.memory.directory.Fits name := by
      rw [filesOf, PickedShort, List.forall_mem_singleton, forall_prop_of_true picks_file, ← here]
      exact Iff.rfl
    rw [wp_inMemory, found, ReadableOf, true_and, short, ← here]
    refine wp_addFile_grown name (lists.length ▸ enough) lists.chain memory (fun long m' => ?_)
      fun fits m' grown granted => ?_
    · exact ⟨iff_of_false Bool.false_ne_true long, fun ok => absurd ok Bool.false_ne_true⟩
    · exact ⟨iff_of_true rfl fits, fun _ => ⟨_, grown.adds, granted⟩⟩
  · rw [if_neg matching] at memory
    have no_pick : picks wildcards ⟨base, name, false⟩ ≠ true := matching
    have found : picked wildcards (filesOf base false (.file name)) = [] := by
      rw [filesOf, picked, List.filter_singleton, Bool.eq_false_iff.mpr no_pick]
      rfl
    rw [Program.wp_pure, found, filesOf, PickedShort, List.forall_mem_singleton]
    exact ⟨iff_of_true rfl ⟨trivial, fun picked => absurd picked no_pick⟩,
      fun _ => ⟨[], Adds.refl lists, memory⟩⟩

theorem ite_since {h h' : Heap} (block : Block) : (if block.Since h h' then 1 else 0) =
    match block with
    | .path p | .node p =>
        if h.memory.nodes.length ≤ p ∧ p < h'.memory.nodes.length then 1 else 0
    | .directory d => if h.opened ≤ d ∧ d < h'.opened then 1 else 0 := by
  cases block <;> exact if_congr Iff.rfl rfl rfl

/-- Closing a subdirectory whose list has been merged. -/
theorem Adds.close {new : List (ℕ × FilePath)} {h₁ h₂ : Heap} {m₃ : Memory}
    {h₄ : Heap} {path : Bytes} {rest : List (Option Node)} (lists : Lists h cells paths)
    (entered : h₁ = { h with
      opened := h.opened + 1
      memory := ⟨h.memory.nodes, rest, ⟨path, none⟩⟩ })
    (adds : Adds h₁ h₂ [] new found)
    (grown : Grown { h₂.memory with directory := h.memory.directory } m₃ cells found)
    (closed : Closed { h₂ with memory := m₃ } h₄ new new) :
    Adds h (h₄.release (.directory h.opened)) cells (newCells h₂.memory.nodes.length found)
      found := by
  subst entered
  obtain ⟨freed, split, ledger⟩ := adds.ledger
  have below (c : ℕ) (on : c ∈ new.map Prod.fst) : h.memory.nodes.length ≤ c ∧
      c < h₂.memory.nodes.length := adds.fresh c on
  have grows : h.memory.nodes.length ≤ h₂.memory.nodes.length := adds.grows
  have opened : h.opened + 1 ≤ h₂.opened := adds.opened
  have length : h₄.memory.nodes.length = h₂.memory.nodes.length + found.length :=
    closed.length.trans grown.length
  have inside := lists.chain.lt_length
  exact {
    chain := by
      show Chain h₄.memory.nodes none h₄.memory.directory.searchResults _
      rw [closed.directory]
      refine grown.chain.congr fun c on => closed.frame c fun on' => ?_
      rw [List.map_append, List.mem_append, map_fst_newCells, List.mem_range'_1] at on
      rcases on with old | made
      · exact absurd (inside c old) (Nat.not_lt.mpr (below c on').1)
      · exact absurd (below c on').2 (Nat.not_lt.mpr made.1)
    values := map_snd_newCells _ _
    base := (congrArg DirectoryInfo.basePathName closed.directory).trans grown.base
    frame := fun c early off => by
      show h₄.memory.nodes[c]? = _
      rw [closed.frame c fun on => absurd early (Nat.not_lt.mpr (below c on).1)]
      exact (grown.frame c (Nat.lt_of_lt_of_le early grows) off).trans
        (adds.frame c early List.not_mem_nil)
    grows := by
      show h.memory.nodes.length ≤ h₄.memory.nodes.length
      omega
    opened := by
      show h.opened ≤ h₄.opened
      rw [closed.opened]
      exact Nat.le_of_succ_le opened
    ledger := by
      refine ⟨freed ++ blocksOf new.reverse ++ [.directory h.opened], ?_, fun block => ?_⟩
      · show h₄.released ++ [_] = _
        rw [closed.released]
        show h₂.released ++ _ ++ _ = _
        rw [split]
        simp only [List.append_assoc]
      · have once := ledger block
        rw [count_blocksOf, ite_since] at once
        rw [List.count_append, List.count_append, count_blocksOf, count_newCells, ite_since]
        cases block with
        | path p =>
            simp only [List.map_reverse, List.count_reverse, List.count_singleton, Heap.release,
              length, beq_iff_eq, reduceCtorEq, if_false] at once ⊢
            split_ifs at once ⊢ <;> omega
        | node p =>
            simp only [List.map_reverse, List.count_reverse, List.count_singleton, Heap.release,
              length, beq_iff_eq, reduceCtorEq, if_false] at once ⊢
            split_ifs at once ⊢ <;> omega
        | directory d =>
            simp only [List.count_singleton, Heap.release, closed.opened, beq_iff_eq,
              Block.directory.injEq] at once ⊢
            split_ifs at once ⊢ <;> omega }

/-- A subdirectory that has been opened has an empty list. -/
theorem Lists.entered {path : Bytes} {rest : List (Option Node)}
    (tidy : ∀ block ∈ h.released, block.Allocated h) :
    Lists { h with opened := h.opened + 1, memory := ⟨h.memory.nodes, rest, ⟨path, none⟩⟩ } [] []
      where
  chain := rfl
  values := rfl
  unreleased _ own := absurd own List.not_mem_nil
  tidy block released := (tidy block released).mono (Nat.le_refl _) (Nat.le_succ _)

/-- The directory that is searched has not been closed. -/
theorem Adds.unclosed {h₁ h₂ : Heap} {new : List (ℕ × FilePath)} {path : Bytes}
    {rest : List (Option Node)} (adds : Adds h₁ h₂ [] new found)
    (entered : h₁ = { h with
      opened := h.opened + 1
      memory := ⟨h.memory.nodes, rest, ⟨path, none⟩⟩ })
    (tidy : ∀ block ∈ h.released, block.Allocated h) : .directory h.opened ∉ h₂.released := by
  subst entered
  intro released
  rcases adds.released released with before | ⟨since, -⟩
  · exact absurd (tidy _ before) (Nat.lt_irrefl _)
  · exact absurd since.1 (Nat.not_succ_le_self _)

/-- Behind the search of a subdirectory: its list is merged, and it is closed. -/
theorem wp_mergeAndClose {h₁ h₂ : Heap} {new : List (ℕ × FilePath)} {path : Bytes}
    {rest : List (Option Node)} {Q : Bool → Heap → Prop} (lists : Lists h cells paths)
    (entered : h₁ = { h with
      opened := h.opened + 1
      memory := ⟨h.memory.nodes, rest, ⟨path, none⟩⟩ })
    (adds : Adds h₁ h₂ [] new found) (memory : Granted (k + 2 * found.length) h₂.memory.mallocs)
    (enough : paths.length ≤ fuel) (enough' : found.length ≤ fuel)
    (ok : ∀ h', Adds h h' cells (newCells h₂.memory.nodes.length found) found →
      Granted k h'.memory.mallocs → Q true h') :
    (do
      if ← inMemory (mergeSearchResults fuel h₂.memory.directory) then do
        directoryClose fuel h.opened h₂.memory.directory
        pure true
      else pure false : Closing Bool).wp
        { h₂ with memory.directory := h.memory.directory } Q E := by
  have start : Lists h₁ [] [] := entered ▸ Lists.entered lists.tidy
  have own : Lists h₂ new found := adds.lists start
  have length : new.length = found.length := own.length
  have nodes : h₁.memory.nodes = h.memory.nodes := by rw [entered]
  have chain : Chain h₂.memory.nodes none h.memory.directory.searchResults cells := by
    refine lists.chain.congr fun c on => ?_
    rw [← nodes]
    exact adds.frame c (by rw [nodes]; exact lists.chain.lt_length c on) List.not_mem_nil
  have apart : ∀ c ∈ new.map Prod.fst, c ∉ cells.map Prod.fst := fun c on on' => by
    have late := (adds.fresh c on).1
    rw [nodes] at late
    exact absurd (lists.chain.lt_length c on') (Nat.not_lt.mpr late)
  rw [Program.wp_bind, wp_inMemory]
  refine wp_merge_grown (lists.length ▸ enough) enough' chain own.chain own.values apart memory
    fun m₃ grown granted => ?_
  rw [if_pos rfl, Program.wp_bind]
  refine wp_directoryClose (length ▸ enough')
    (own.chain.congr fun c on => grown.frame c (own.chain.lt_length c on) (apart c on)) own.strings
    own.unreleased ?_ (adds.unclosed entered lists.tidy) fun h₄ closed => ?_
  · have opened := adds.opened
    rw [entered] at opened
    exact opened
  · rw [Program.wp_pure]
    refine ok _ (Adds.close lists entered adds grown closed) ?_
    show Granted k h₄.memory.mallocs
    rw [closed.mallocs]
    exact granted

mutual

/-- **The search of the entries**, in memory. -/
theorem wp_entriesInMemory (parsed : splitWildcards fileWildcard = .ok wildcards)
    (entries : List Tree) {h : Heap} {cells : List (ℕ × FilePath)} {paths : List Bytes} {k : ℕ}
    {base : Bytes} (lists : Lists h cells paths)
    (enough : paths.length + (picked wildcards (filesIn base false entries)).length ≤ fuel)
    (memory : Granted (k + callsIn wildcards base entries) h.memory.mallocs)
    (here : h.memory.directory.basePathName = base) :
    (entriesInMemory fuel fileWildcard wildcards entries).wp h
      (Gathers h cells k
        (ReadableIn base entries ∧ PickedShort wildcards (filesIn base false entries))
        (picked wildcards (filesIn base false entries))) E := by
  match entries with
  | [] =>
      rw [entriesInMemory, Program.wp_pure]
      exact ⟨iff_of_true rfl ⟨trivial, fun f inside => absurd inside List.not_mem_nil⟩,
        fun _ => ⟨[], Adds.refl lists, memory⟩⟩
  | entry :: entries =>
      rw [filesIn, picked_append, List.length_append] at enough
      rw [callsIn, Nat.add_comm (callsOf _ _ _), ← Nat.add_assoc] at memory
      rw [entriesInMemory, Program.wp_bind, ReadableIn, filesIn, picked_append,
        pickedShort_append]
      refine Program.wp_mono (wp_entryInMemory parsed entry lists (by omega) memory here)
        (fun ok h' first => ?_) fun _ _ stuck => stuck
      cases ok with
      | false =>
          refine ⟨iff_of_false Bool.false_ne_true fun clean => ?_,
            fun ok => absurd ok Bool.false_ne_true⟩
          exact absurd (first.1.mpr ⟨clean.1.1, clean.2.1⟩) Bool.false_ne_true
      | true =>
          obtain ⟨new, adds, granted⟩ := first.2 rfl
          obtain ⟨readable, short⟩ := first.1.mp rfl
          refine Program.wp_mono (wp_entriesInMemory parsed entries (adds.lists lists)
            (by rw [List.length_append]; omega) granted (adds.base.trans here))
            (fun ok h'' second => ?_) fun _ _ stuck => stuck
          refine ⟨second.1.trans ⟨fun clean => ⟨⟨readable, clean.1⟩, short, clean.2⟩,
            fun clean => ⟨clean.1.2, clean.2.2⟩⟩, fun ok => ?_⟩
          obtain ⟨new', adds', granted'⟩ := second.2 ok
          exact ⟨new ++ new', adds.trans adds', granted'⟩

theorem wp_entryInMemory (parsed : splitWildcards fileWildcard = .ok wildcards) (entry : Tree)
    {h : Heap} {cells : List (ℕ × FilePath)} {paths : List Bytes} {k : ℕ} {base : Bytes}
    (lists : Lists h cells paths)
    (enough : paths.length + (picked wildcards (filesOf base false entry)).length ≤ fuel)
    (memory : Granted (k + callsOf wildcards base entry) h.memory.mallocs)
    (here : h.memory.directory.basePathName = base) :
    (entryInMemory fuel fileWildcard wildcards entry).wp h
      (Gathers h cells k
        (ReadableOf base entry ∧ PickedShort wildcards (filesOf base false entry))
        (picked wildcards (filesOf base false entry))) E := by
  match entry with
  | .file name => exact wp_fileInMemory lists (by omega) memory here
  | .directory name readable entries failure =>
      rw [entryInMemory]
      by_cases dotted : Dotted name
      · have none : (filesOf base false (.directory name readable entries failure)).filter
            (picks wildcards) = [] :=
          filter_picks_of_hidden fun f inside => hidden_of_mem_dotted dotted inside
        rw [if_pos dotted, Program.wp_pure, picked, none]
        rw [callsOf, if_pos dotted] at memory
        refine ⟨iff_of_true rfl ⟨fun other => absurd dotted other, fun f inside picks => ?_⟩,
          fun _ => ⟨[], Adds.refl lists, memory⟩⟩
        exact absurd picks (List.filter_eq_nil_iff.mp none f inside)
      have visible : (false || decide (Dotted name)) = false := decide_eq_false dotted
      rw [callsOf, if_neg dotted, ← Nat.add_assoc] at memory
      rw [filesOf, visible] at enough
      rw [if_neg dotted, Program.wp_bind, Program.wp_read, Program.wp_bind, ReadableOf, filesOf,
        visible, forall_prop_of_true dotted, here]
      refine wp_openInMemory memory (fun closed h' => ?_) fun opens rest granted => ?_
      · exact ⟨iff_of_false Bool.false_ne_true fun clean => closed clean.1.1,
          fun ok => absurd ok Bool.false_ne_true⟩
      rw [if_pos opens] at enough ⊢
      dsimp only
      rw [parsed]
      dsimp only
      rw [Nat.add_comm (callsIn _ _ _), ← Nat.add_assoc] at granted
      rw [Program.wp_bind]
      refine Program.wp_mono (wp_entriesInMemory parsed entries (Lists.entered lists.tidy)
        (by rw [List.length_nil]; omega) granted rfl) (fun ok h₂ sub => ?_) fun _ _ stuck => stuck
      rw [Program.wp_bind, Program.wp_read, Program.wp_bind, Program.wp_update]
      by_cases failing : ok = false ∨ failure ≠ none
      · rw [if_pos failing]
        refine ⟨iff_of_false Bool.false_ne_true fun clean => ?_,
          fun ok => absurd ok Bool.false_ne_true⟩
        rcases failing with failed | unlisted
        · have searched := sub.1.mpr ⟨clean.1.2.2, clean.2⟩
          rw [failed] at searched
          cases searched
        · exact unlisted clean.1.2.1
      · rw [if_neg failing]
        obtain ⟨searched, listed⟩ := not_or.mp failing
        have searched : ok = true := Bool.not_eq_false _ ▸ searched
        obtain ⟨new, adds, granted⟩ := sub.2 searched
        obtain ⟨readable, short⟩ := sub.1.mp searched
        exact wp_mergeAndClose lists rfl adds granted (by omega) (by omega)
          fun h' adds' granted' => ⟨iff_of_true rfl ⟨⟨opens, not_not.mp listed, readable⟩, short⟩,
            fun _ => ⟨_, adds', granted'⟩⟩

end

end Search

/-! ### The refinement -/

/-- The loop over the results reads the paths of the list. -/
theorem wp_readResults {m : Memory} {cells : List (ℕ × FilePath)} {paths : List Bytes} {fuel : ℕ}
    {prev start : Option ℕ} {Q : List Bytes → Memory → Prop} {E : Fault → Memory → Prop}
    (enough : cells.length ≤ fuel) (chain : Chain m.nodes prev start cells)
    (values : cells.map Prod.snd = paths.map .string) (ok : Q paths m) :
    (readResults fuel start).wp m Q E := by
  induction cells generalizing prev start paths fuel Q with
  | nil =>
      obtain rfl := List.map_eq_nil_iff.mp values.symm
      obtain rfl : start = none := chain
      rw [readResults]
      exact ok
  | cons c cells ih =>
      obtain ⟨p, v⟩ := c
      cases paths with
      | nil => cases values
      | cons path paths =>
          obtain ⟨rfl, others⟩ := List.cons.inj values
          obtain ⟨rfl, next, here, behind⟩ := chain
          cases fuel with
          | zero => exact absurd enough (Nat.not_succ_le_zero _)
          | succ fuel =>
              rw [readResults, Program.wp_bind]
              refine wp_load here ?_
              dsimp only
              rw [Program.wp_bind]
              exact ih (Nat.le_of_succ_le_succ enough) behind others ok

/-- How often `malloc` is called by a search. -/
def callsFor (fileWildcard : Option Bytes) (path : Bytes) (entries : List Tree) : ℕ :=
  match splitWildcards fileWildcard with
  | .error _ => 1
  | .ok wildcards => callsIn wildcards path entries + 1

/-- The search of the paths, as in `searchExport`. -/
def searchPaths (fileWildcard : Option Bytes) (path : Bytes) (readable : Bool)
    (entries : List Tree) (failure : Option UInt32) : Except Failure (List Bytes) := do
  directoryOpen path readable
  directorySearch fileWildcard path entries failure

/-- The search in memory finds what the search of the paths does; then everything that it has
allocated has been released, and nothing twice. -/
def Refines (searched : Except Failure (List Bytes)) (h : Heap) (results : Option (List Bytes))
    (h' : Heap) : Prop :=
  match searched with
  | .error _ => results = none
  | .ok found => results = some found ∧ ∀ block, h'.released.count block =
      h.released.count block + if block.Since h h' then 1 else 0

theorem refines_none {searched : Except Failure (List Bytes)} {h h' : Heap}
    (fails : ∀ found, searched ≠ .ok found) : Refines searched h none h' := by
  cases searched with
  | error failure => rfl
  | ok found => exact absurd rfl (fails found)

theorem searchPaths_eq_ok {fileWildcard : Option Bytes} {wildcards : Option (List Bytes)}
    {path : Bytes} {readable : Bool} {entries : List Tree} {failure : Option UInt32}
    {found : List Bytes} (parsed : splitWildcards fileWildcard = .ok wildcards) :
    searchPaths fileWildcard path readable entries failure = .ok found ↔
      Opens path readable ∧ (failure = none ∧ ReadableIn path entries ∧
        PickedShort wildcards (filesIn path false entries)) ∧
        found = picked wildcards (filesIn path false entries) := by
  rw [searchPaths, bind_eq_ok_iff]
  simp only [directoryOpen_eq_ok, directorySearch_eq_ok parsed]
  exact ⟨fun ⟨_, both⟩ => both, fun both => ⟨(), both⟩⟩

/-- The number of picked files is at most that of all. -/
theorem length_picked_le (wildcards : Option (List Bytes)) (files : List FileAt) :
    (picked wildcards files).length ≤ files.length := by
  rw [picked, List.length_map]
  exact List.length_filter_le _ _

/-- The release of the first directory closes the ledger. -/
theorem released_once {h h₁ h₂ h₃ : Heap} {new : List (ℕ × FilePath)} {found : List Bytes}
    {path : Bytes} {rest : List (Option Node)}
    (entered : h₁ = { h with
      opened := h.opened + 1
      memory := ⟨h.memory.nodes, rest, ⟨path, none⟩⟩ })
    (adds : Adds h₁ h₂ [] new found) (closed : Closed h₂ h₃ new new) (block : Block) :
    (h₃.release (.directory h.opened)).released.count block = h.released.count block +
      if block.Since h (h₃.release (.directory h.opened)) then 1 else 0 := by
  subst entered
  obtain ⟨freed, split, ledger⟩ := adds.ledger
  have opened : h.opened + 1 ≤ h₂.opened := adds.opened
  have once := ledger block
  have all : (h₃.release (.directory h.opened)).released =
      h.released ++ freed ++ blocksOf new.reverse ++ [.directory h.opened] := by
    show h₃.released ++ [_] = _
    rw [closed.released, split]
  rw [count_blocksOf, ite_since] at once
  rw [all, List.count_append, List.count_append, List.count_append, count_blocksOf, ite_since]
  cases block with
  | path p =>
      simp only [List.map_reverse, List.count_reverse, List.count_singleton, Heap.release,
        closed.length, beq_iff_eq, reduceCtorEq, if_false] at once ⊢
      omega
  | node p =>
      simp only [List.map_reverse, List.count_reverse, List.count_singleton, Heap.release,
        closed.length, beq_iff_eq, reduceCtorEq, if_false] at once ⊢
      omega
  | directory d =>
      simp only [List.count_singleton, Heap.release, closed.opened, beq_iff_eq,
        Block.directory.injEq] at once ⊢
      split_ifs at once ⊢ <;> omega

/-- **The search in memory refines the search of the paths**, if there is memory for everything
and the loops run long enough; and it leaves nothing allocated. -/
theorem searchInMemory_refines {h : Heap} {fileWildcard : Option Bytes} {path : Bytes}
    {readable : Bool} {entries : List Tree} {failure : Option UInt32} {fuel : ℕ}
    (tidy : ∀ block ∈ h.released, block.Allocated h)
    (memory : Granted (callsFor fileWildcard path entries) h.memory.mallocs)
    (enough : (filesIn path false entries).length ≤ fuel) :
    (searchInMemory fuel fileWildcard path readable entries failure).wp h
      (Refines (searchPaths fileWildcard path readable entries failure) h)
      fun _ _ => False := by
  rw [searchInMemory, Program.wp_bind]
  cases parsed : splitWildcards fileWildcard with
  | error why =>
      have fails : ∀ found, searchPaths fileWildcard path readable entries failure ≠ .ok found := by
        intro found searched
        obtain ⟨_, -, run⟩ := bind_ok searched
        obtain ⟨wildcards, read, -⟩ := bind_ok run
        rw [parsed] at read
        cases read
      rw [callsFor, parsed] at memory
      exact wp_openInMemory memory (fun _ _ => refines_none fails) fun _ _ _ => refines_none fails
  | ok wildcards =>
      have found_iff (found : List Bytes) :=
        @searchPaths_eq_ok _ _ path readable entries failure found parsed
      rw [callsFor, parsed] at memory
      dsimp only at memory
      rw [← Nat.zero_add (callsIn _ _ _)] at memory
      refine wp_openInMemory memory (fun closed h' => refines_none fun found searched =>
        closed ((found_iff found).mp searched).1) fun opens rest granted => ?_
      dsimp only
      rw [Program.wp_bind]
      have few := length_picked_le wildcards (filesIn path false entries)
      refine Program.wp_mono (wp_entriesInMemory parsed entries (Lists.entered tidy)
        (by rw [List.length_nil]; omega) granted rfl) (fun ok h₂ sub => ?_) fun _ _ stuck => stuck
      by_cases failing : ok = false ∨ failure ≠ none
      · rw [if_pos failing]
        refine refines_none fun found searched => ?_
        obtain ⟨-, ⟨listed, clean⟩, -⟩ := (found_iff found).mp searched
        rcases failing with failed | unlisted
        · rw [failed] at sub
          exact absurd (sub.1.mpr clean) Bool.false_ne_true
        · exact unlisted listed
      rw [if_neg failing]
      obtain ⟨searched, listed⟩ := not_or.mp failing
      have searched : ok = true := Bool.not_eq_false _ ▸ searched
      obtain ⟨new, adds, -⟩ := sub.2 searched
      have own : Lists h₂ new (picked wildcards (filesIn path false entries)) :=
        adds.lists (Lists.entered tidy)
      have length := own.length
      rw [(found_iff _).mpr ⟨opens, ⟨not_not.mp listed, sub.1.mp searched⟩, rfl⟩]
      rw [Program.wp_bind, Program.wp_read, Program.wp_bind, wp_inMemory]
      refine wp_readResults (by omega) own.chain own.values ?_
      rw [Program.wp_bind]
      refine wp_directoryClose (by omega) own.chain own.strings own.unreleased adds.opened
        (adds.unclosed rfl tidy) fun h₃ closed => ?_
      exact ⟨rfl, released_once rfl adds closed⟩

/-- Nothing has been allocated, and memory is there for eight blocks. -/
def Heap.ofEight : Heap where
  memory := ⟨[], List.replicate 8 (some ⟨some 7, none, .unset⟩), ⟨[], none⟩⟩
  opened := 0
  released := []
  remains := fun p => ⟨some p, some p, .unset⟩

theorem searchInMemory_refines_subdirectory :
    (searchInMemory 2 (some (text "*.dll")) (text "d") true
        [.file (text "a.dll"), .directory (text "s") true [.file (text "b.dll")] none] none).wp
      .ofEight
      (fun results h' => results = some [text "d\\a.dll", text "d\\s\\b.dll"] ∧
        ∀ block, h'.released.count block = if block.Since .ofEight h' then 1 else 0)
      fun _ _ => False := by
  have calls : callsFor (some (text "*.dll")) (text "d")
      [.file (text "a.dll"), .directory (text "s") true [.file (text "b.dll")] none] = 8 := by
    decide
  have searched : searchPaths (some (text "*.dll")) (text "d") true
      [.file (text "a.dll"), .directory (text "s") true [.file (text "b.dll")] none] none =
        .ok [text "d\\a.dll", text "d\\s\\b.dll"] := by
    decide
  have memory : Granted 8 Heap.ofEight.memory.mallocs := trivial
  have unreleased : Heap.ofEight.released = [] := rfl
  -- What is known of the heap is enough, and keeps the search from being run.
  generalize Heap.ofEight = h at memory unreleased ⊢
  refine Program.wp_mono (searchInMemory_refines
    (fun block released => absurd (unreleased ▸ released) List.not_mem_nil) (calls.symm ▸ memory)
    (by decide)) (fun results h' refines => ?_) fun _ _ stuck => stuck
  rw [searched] at refines
  refine ⟨refines.1, fun block => (refines.2 block).trans ?_⟩
  rw [unreleased, List.count_nil, Nat.zero_add]

end MsysGit.Depends
