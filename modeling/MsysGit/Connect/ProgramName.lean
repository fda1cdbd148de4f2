import MsysGit.Connect.Arguments

/-!
# Ports from the name of the program

A program that is called `connect-25` connects to port 25.  Where its name begins is found by
two searches, for the last `/` and, if there is none, for the first `\`; with another mix of
separators a part of the directory is left in front of the name (`leftOver`), and the port is
not taken from it, but for coincidences (`takesName_iff`).
-/

namespace MsysGit.Connect

open MsysGit.Library MsysGit.Library.CString

/-! ### When two services have the same port -/

/-- Only digits, which may be none. -/
def AllDigits (service : Bytes) : Prop := ∀ c ∈ service, isdigit c = true

/-- Whatever the services are, these have the same port. -/
def SamePort (s t : Bytes) : Prop :=
  s = t ∨ AllDigits s ∧ AllDigits t ∧ digits s % 65536 = digits t % 65536

/-- Whatever the services are, this has the port zero. -/
def ZeroPort (s : Bytes) : Prop := AllDigits s ∧ digits s % 65536 = 0

section Services

variable {sys : System} {s t : Bytes}

theorem resolvePort_digits (sys : System) (all : AllDigits s) :
    resolvePort sys s = UInt16.ofNat (digits s) := by
  by_cases empty : s = []
  · subst empty
    rfl
  · have numeral : Numeral s := ⟨empty, all⟩
    have value := numeral.atoi stops_nil
    rw [List.append_nil] at value
    rw [resolvePort_numeral sys numeral, value, ofInt_bmod_uint16]

theorem resolvePort_name (sys : System) (name : ¬AllDigits s) :
    resolvePort sys s = (sys.getservbyname s).getD 0 := by
  rw [resolvePort, if_neg]
  rw [drop_strspn, List.dropWhile_eq_nil_iff]
  intro all
  exact name fun c inside => (mem_digits_iff c).mp (of_decide_eq_true (all c inside))

/-- A process that knows one service only. -/
def knowing (s : Bytes) (port : UInt16) : System :=
  { windows with getservbyname := fun service => if service = s then some port else none }

theorem resolvePort_knowing (port : UInt16) (name : ¬AllDigits s) :
    resolvePort (knowing s port) s = port := by
  rw [resolvePort_name _ name, knowing]
  show (if s = s then some port else none).getD 0 = port
  rw [if_pos rfl]
  rfl

/-- The port of another service does not depend on the port that is known. -/
theorem resolvePort_knowing_other (other : t ≠ s) (port port' : UInt16) :
    resolvePort (knowing s port) t = resolvePort (knowing s port') t := by
  rw [resolvePort, resolvePort, knowing, knowing]
  show (if _ then _ else (if t = s then some port else none).getD 0) =
    if _ then _ else (if t = s then some port' else none).getD 0
  rw [if_neg other, if_neg other]

theorem same_of_name (name : ¬AllDigits s) (other : t ≠ s) :
    ¬∀ sys, resolvePort sys s = resolvePort sys t := by
  intro same
  have zero := same (knowing s 0)
  have one := same (knowing s 1)
  rw [resolvePort_knowing _ name, resolvePort_knowing_other other 0 1] at zero
  rw [resolvePort_knowing _ name] at one
  exact absurd (zero.trans one.symm) (by decide)

theorem samePort_iff : (∀ sys, resolvePort sys s = resolvePort sys t) ↔ SamePort s t := by
  constructor
  · intro same
    by_cases equal : s = t
    · exact .inl equal
    · have digits_s : AllDigits s := by
        by_contra name
        exact same_of_name name (Ne.symm equal) same
      have digits_t : AllDigits t := by
        by_contra name
        exact same_of_name name equal fun sys => (same sys).symm
      have value := same windows
      rw [resolvePort_digits _ digits_s, resolvePort_digits _ digits_t, ← UInt16.toNat_inj,
        UInt16.toNat_ofNat', UInt16.toNat_ofNat'] at value
      exact .inr ⟨digits_s, digits_t, value⟩
  · rintro (rfl | ⟨digits_s, digits_t, value⟩) sys
    · rfl
    · rw [resolvePort_digits _ digits_s, resolvePort_digits _ digits_t, ← UInt16.toNat_inj,
        UInt16.toNat_ofNat', UInt16.toNat_ofNat']
      exact value

theorem zeroPort_iff : (∀ sys, resolvePort sys t = 0) ↔ ZeroPort t := by
  constructor
  · intro zero
    have all : AllDigits t := by
      by_contra name
      have one := zero (knowing t 1)
      rw [resolvePort_knowing _ name] at one
      exact absurd one (by decide)
    have value := zero windows
    rw [resolvePort_digits _ all, ← UInt16.toNat_inj, UInt16.toNat_ofNat'] at value
    exact ⟨all, value⟩
  · rintro ⟨all, value⟩ sys
    rw [resolvePort_digits _ all, ← UInt16.toNat_inj, UInt16.toNat_ofNat']
    exact value

end Services

/-! ### The name of the program -/

/-- A path whose last component is `connect-NAME` or `connect-NAME.ext`. -/
structure ProgramPath where
  /-- With the separator at its end. -/
  dir : Bytes
  name : Bytes
  ext : Bytes
  dir_ends : dir = [] ∨ dir.getLast? = some 47 ∨ dir.getLast? = some 92
  name_clean : 46 ∉ name ∧ 47 ∉ name ∧ 92 ∉ name
  ext_clean : 47 ∉ ext ∧ 92 ∉ ext
  ext_dot : ∀ c ∈ ext.head?, c = 46

namespace ProgramPath

variable (p : ProgramPath)

def component : Bytes := text "connect-" ++ (p.name ++ p.ext)

def path : Bytes := p.dir ++ p.component

theorem notMem_component {c : UInt8} (connect : c ∉ text "connect-") (name : c ∉ p.name)
    (ext : c ∉ p.ext) : c ∉ p.component := by
  rw [component, List.mem_append, List.mem_append]
  rintro (inside | inside | inside)
  · exact connect inside
  · exact name inside
  · exact ext inside

theorem slash_notMem : 47 ∉ p.component :=
  p.notMem_component (by decide) p.name_clean.2.1 p.ext_clean.1

theorem backslash_notMem : 92 ∉ p.component :=
  p.notMem_component (by decide) p.name_clean.2.2 p.ext_clean.2

end ProgramPath

/-- What the searches leave of a directory in front of the name. -/
def leftOver (dir : Bytes) : Bytes :=
  if 47 ∈ dir then dir.rtakeWhile (· ≠ 47)
  else if 92 ∈ dir then (dir.dropWhile (· ≠ 92)).tail
  else dir

/-- The searches find where the name begins: behind the last `/` there is nothing, or there is
none and at most one `\`. -/
def LastFound (dir : Bytes) : Prop :=
  (47 ∈ dir → dir.getLast? = some 47) ∧ (47 ∉ dir → dir.count 92 ≤ 1)

section Searches

variable {dir name : Bytes}

theorem leftOver_slash {before rest : Bytes} (last : 47 ∉ rest) :
    leftOver (before ++ 47 :: rest) = rest := by
  have found : strrchr (before ++ 47 :: rest) 47 = some (47 :: rest) := strrchr_append last
  rw [strrchr, if_pos (by simp)] at found
  rw [leftOver, if_pos (by simp)]
  exact (List.cons.inj (Option.some.inj found)).2

theorem leftOver_backslash {before rest : Bytes} (first : 92 ∉ before)
    (none : 47 ∉ before ++ 92 :: rest) : leftOver (before ++ 92 :: rest) = rest := by
  rw [leftOver, if_neg none, if_pos (by simp), dropWhile_ne_append_cons first, List.tail_cons]

/-- What `getarg` looks at is the component, with what is left over in front of it. -/
theorem baseName_append (slash : 47 ∉ name) (backslash : 92 ∉ name) :
    baseName (dir ++ name) = leftOver dir ++ name := by
  by_cases has : 47 ∈ dir
  · obtain ⟨before, rest, rfl, last⟩ := exists_last has
    have last' : 47 ∉ rest ++ name := by
      rw [List.mem_append, not_or]
      exact ⟨last, slash⟩
    rw [leftOver_slash last, baseName, List.append_assoc, List.cons_append, strrchr_append last']
    rfl
  · have none : 47 ∉ dir ++ name := by
      rw [List.mem_append, not_or]
      exact ⟨has, slash⟩
    rw [baseName, strrchr_of_notMem none]
    by_cases has' : 92 ∈ dir
    · obtain ⟨before, rest, rfl, first⟩ := List.eq_append_cons_of_mem has'
      rw [leftOver_backslash first has, List.append_assoc, List.cons_append, strchr_append first]
      rfl
    · have none' : 92 ∉ dir ++ name := by
        rw [List.mem_append, not_or]
        exact ⟨has', backslash⟩
      rw [strchr_of_notMem none', leftOver, if_neg has, if_neg has']

theorem getLast?_append_cons {before rest : Bytes} (c : UInt8) (more : rest ≠ []) :
    (before ++ c :: rest).getLast? = rest.getLast? := by
  rw [List.append_cons, List.getLast?_append_of_ne_nil _ more]

/-- What is left over ends with a backslash. -/
theorem getLast?_leftOver (ends : dir = [] ∨ dir.getLast? = some 47 ∨ dir.getLast? = some 92)
    (left : leftOver dir ≠ []) : (leftOver dir).getLast? = some 92 := by
  by_cases has : 47 ∈ dir
  · obtain ⟨before, rest, rfl, last⟩ := exists_last has
    rw [leftOver_slash last] at left ⊢
    rw [getLast?_append_cons 47 left] at ends
    rcases ends with empty | slash | backslash
    · simp at empty
    · exact absurd (List.mem_of_mem_getLast? slash) last
    · exact backslash
  · by_cases has' : 92 ∈ dir
    · obtain ⟨before, rest, rfl, first⟩ := List.eq_append_cons_of_mem has'
      rw [leftOver_backslash first has] at left ⊢
      have shorter : (before ++ 92 :: rest).getLast? = rest.getLast? :=
        getLast?_append_cons 92 left
      rw [← shorter]
      rcases ends with empty | slash | backslash
      · simp at empty
      · exact absurd (List.mem_of_mem_getLast? slash) has
      · exact backslash
    · rw [leftOver, if_neg has, if_neg has'] at left ⊢
      rcases ends with empty | slash | backslash
      · exact absurd empty left
      · exact absurd (List.mem_of_mem_getLast? slash) has
      · exact backslash

theorem leftOver_eq_nil_iff
    (ends : dir = [] ∨ dir.getLast? = some 47 ∨ dir.getLast? = some 92) :
    leftOver dir = [] ↔ LastFound dir := by
  have last := getLast?_leftOver ends
  by_cases has : 47 ∈ dir
  · obtain ⟨before, rest, rfl, behind⟩ := exists_last has
    rw [leftOver_slash behind, LastFound]
    constructor
    · rintro rfl
      exact ⟨fun _ => List.getLast?_concat, fun none => absurd has none⟩
    · rintro ⟨slash, -⟩
      by_contra more
      rw [getLast?_append_cons 47 more] at slash
      exact behind (List.mem_of_mem_getLast? (slash has))
  · by_cases has' : 92 ∈ dir
    · obtain ⟨before, rest, rfl, first⟩ := List.eq_append_cons_of_mem has'
      rw [leftOver_backslash first has] at last ⊢
      have count : (before ++ 92 :: rest).count 92 = rest.count 92 + 1 := by
        rw [List.count_append, List.count_cons_self, List.count_eq_zero.mpr first, Nat.zero_add]
      rw [LastFound, count]
      constructor
      · rintro rfl
        exact ⟨fun slash => absurd slash has, fun _ => le_rfl⟩
      · rintro ⟨-, few⟩
        by_contra more
        have none : 92 ∉ rest := List.count_eq_zero.mp (by have := few has; omega)
        exact none (List.mem_of_mem_getLast? (last more))
    · rw [leftOver, if_neg has, if_neg has', LastFound, List.count_eq_zero.mpr has']
      constructor
      · intro _
        exact ⟨fun slash => absurd slash has, fun _ => Nat.zero_le _⟩
      · intro _
        rcases ends with empty | slash | backslash
        · exact empty
        · exact absurd (List.mem_of_mem_getLast? slash) has
        · exact absurd (List.mem_of_mem_getLast? backslash) has'

end Searches

/-! ### The service -/

/-- The service up to a dot, if the name begins with `connect-`. -/
theorem serviceOfName_eq {progname base : Bytes} (found : baseName progname = base) :
    serviceOfName progname =
      if text "connect-" <+: base then some ((base.drop 8).takeWhile (· ≠ 46)) else none := by
  have front (s : Bytes) : s.take (strcspn s (text ".")) = s.takeWhile (· ≠ 46) := by
    rw [take_strcspn]
    simp [show text "." = [46] by decide]
  have begins := strncmpEq_isPrefixOf base (text "connect-")
  rw [show (text "connect-").length = 8 by decide] at begins
  simp only [serviceOfName, found, begins, List.isPrefixOf_iff_prefix, front]

theorem serviceOfName_connect {progname rest : Bytes}
    (found : baseName progname = text "connect-" ++ rest) :
    serviceOfName progname = some (rest.takeWhile (· ≠ 46)) := by
  rw [serviceOfName_eq found, if_pos (List.prefix_append _ _),
    show (8 : ℕ) = (text "connect-").length by decide, List.drop_left]

namespace ProgramPath

variable (p : ProgramPath) {left s rest : Bytes}

theorem baseName_path (leaves : leftOver p.dir = left) :
    baseName p.path = left ++ p.component :=
  leaves ▸ baseName_append p.slash_notMem p.backslash_notMem

/-- The name that is meant. -/
theorem serviceOfName_found (leaves : leftOver p.dir = []) :
    serviceOfName p.path = some p.name := by
  have stops : p.ext.takeWhile (· ≠ 46) = [] := by
    cases ext : p.ext with
    | nil => rfl
    | cons c rest =>
        obtain rfl : c = 46 := p.ext_dot c (by rw [ext]; rfl)
        exact List.takeWhile_cons_of_neg (by simp)
  have base := p.baseName_path leaves
  rw [List.nil_append, component] at base
  rw [serviceOfName_connect base, takeWhile_ne_append p.name_clean.1, stops, List.append_nil]

/-- What is left leaves does not become the beginning of a name by what follows. -/
theorem serviceOfName_other (leaves : leftOver p.dir = left) (other : ¬text "connect-" <+: left)
    (last : left.getLast? = some 92) : serviceOfName p.path = none := by
  rw [serviceOfName_eq (p.baseName_path leaves), if_neg]
  intro begins
  rcases List.prefix_or_prefix_of_prefix begins (List.prefix_append _ _) with inside | short
  · exact other inside
  · exact absurd (short.subset (List.mem_of_mem_getLast? last)) (by decide)

/-- A dot in what is left leaves ends the service. -/
theorem serviceOfName_front (leaves : leftOver p.dir = text "connect-" ++ (s ++ 46 :: rest))
    (clean : 46 ∉ s) : serviceOfName p.path = some s := by
  have base := p.baseName_path leaves
  rw [List.append_assoc, List.append_assoc, List.cons_append] at base
  rw [serviceOfName_connect base, takeWhile_ne_append_cons clean]

/-- Without one, the service begins with what is left leaves. -/
theorem serviceOfName_through (leaves : leftOver p.dir = text "connect-" ++ left)
    (clean : 46 ∉ left) : ∃ s, serviceOfName p.path = some (left ++ s) := by
  have base := p.baseName_path leaves
  rw [List.append_assoc] at base
  rw [serviceOfName_connect base, takeWhile_ne_append clean]
  exact ⟨_, rfl⟩

end ProgramPath

/-! ### The result -/

/-- A part of a directory in front of the name makes no difference: it has a service in it whose
port is the same, or there is no service in it and the port is zero. -/
inductive Coincides (left name : Bytes) : Prop
  | service {s rest : Bytes} : left = text "connect-" ++ (s ++ 46 :: rest) → 46 ∉ s →
      SamePort s name → Coincides left name
  | zero : ¬text "connect-" <+: left → ZeroPort name → Coincides left name

/-- Without a port argument, `getarg` goes on with the port of this service, whatever the
services, the environment and the options are. -/
def TakesName (path name : Bytes) : Prop :=
  ∀ sys argv host a, optionLoop sys argv (.start sys) = .ok ([host], a) → a.errors = [] →
    getarg sys path argv = setRelay sys a.method a.server a >>= fun set =>
      checkPorts (set.2.destined host (resolvePort sys name))

/-- The check tells destination ports apart. -/
theorem checkPorts_inj {a : Arguments} (direct : a.globals.relayMethod = .direct) {host : Bytes}
    {port port' : UInt16}
    (same : checkPorts (a.destined host port) = checkPorts (a.destined host port')) :
    port = port' := by
  have passed {port : UInt16} (nonzero : port ≠ 0) :
      checkPorts (a.destined host port) = .ok (a.destined host port) :=
    checkPorts_direct direct nonzero
  have refused : ∀ b, checkPorts (a.destined host 0) ≠ .ok b := checkPorts_zero rfl
  by_cases zero : port = 0
  · by_contra other
    have nonzero : port' ≠ 0 := fun zero' => other (zero.trans zero'.symm)
    rw [zero, passed nonzero] at same
    exact refused _ same
  · by_cases zero' : port' = 0
    · rw [zero', passed zero] at same
      exact absurd same.symm (refused _)
    · rw [passed zero, passed zero'] at same
      exact congrArg (fun b => b.globals.destPort) (Except.ok.inj same)

/-- In terms of the service that is found. -/
theorem takesName_iff_service {path name : Bytes} :
    TakesName path name ↔
      ∀ sys, (serviceOfName path).elim 0 (resolvePort sys) = resolvePort sys name := by
  constructor
  · intro takes sys
    -- A run without options, with the same services.
    let sys' : System := { windows with getservbyname := sys.getservbyname }
    have loop : optionLoop sys' [text "host"] (.start sys') = .ok ([text "host"], .start sys') := by
      rw [optionLoop, if_neg (by decide)]
      rfl
    have run := takes sys' _ _ _ loop rfl
    have read : readParameterFile sys'.files = some ⟨parameterTable, []⟩ := rfl
    have relay : setRelay sys' (Arguments.start sys').method (Arguments.start sys').server
        (.start sys') = .ok (-1, (Arguments.start sys').ready .direct ⟨parameterTable, []⟩) :=
      (setRelay_of_read _ read).trans (if_pos rfl)
    rw [getarg_direct read _ (by decide), relay] at run
    exact checkPorts_inj rfl run
  · intro same sys argv host a loop clean
    rw [getarg, loop]
    show (if a.errors ≠ [] then _ else takeOperands sys path [host] a) = _
    rw [if_neg (not_not_intro clean), takeOperands_host (optionLoop_unset loop)]
    show (_ >>= fun set : ℤ × Arguments => checkPorts (set.2.destined host
      ((serviceOfName path).elim 0 (resolvePort sys)))) = _
    rw [same sys]

/-- **The name of the program** gives the port if the searches find where it begins; and
otherwise only by coincidence. -/
theorem takesName_iff (p : ProgramPath) :
    TakesName p.path p.name ↔ LastFound p.dir ∨ Coincides (leftOver p.dir) p.name := by
  rw [takesName_iff_service, ← leftOver_eq_nil_iff p.dir_ends]
  by_cases found : leftOver p.dir = []
  · rw [p.serviceOfName_found found]
    exact iff_of_true (fun _ => rfl) (.inl found)
  · rw [or_iff_right found]
    have last := getLast?_leftOver p.dir_ends found
    by_cases connect : text "connect-" <+: leftOver p.dir
    · obtain ⟨left, leaves⟩ := connect
      by_cases dot : 46 ∈ left
      · obtain ⟨s, rest, rfl, clean⟩ := List.eq_append_cons_of_mem dot
        rw [p.serviceOfName_front leaves.symm clean]
        refine samePort_iff.trans ⟨.service leaves.symm clean, ?_⟩
        rintro (⟨leaves', clean', same⟩ | ⟨other, -⟩)
        · have whole := List.append_cancel_left (leaves.trans leaves')
          have front := congrArg (List.takeWhile (· ≠ 46)) whole
          rw [takeWhile_ne_append_cons clean, takeWhile_ne_append_cons clean'] at front
          rwa [front]
        · exact absurd ⟨_, leaves⟩ other
      · obtain ⟨s, service⟩ := p.serviceOfName_through leaves.symm dot
        -- There is a backslash in the service, and so it is neither the name nor a number.
        have backslash : 92 ∈ left := by
          have inside := List.mem_of_mem_getLast? last
          rw [← leaves, List.mem_append] at inside
          exact inside.resolve_left (by decide)
        rw [service]
        refine iff_of_false (fun same => ?_) ?_
        · rcases samePort_iff.mp same with name | ⟨all, -⟩
          · exact p.name_clean.2.2 (name ▸ List.mem_append_left _ backslash)
          · exact absurd (all 92 (List.mem_append_left _ backslash)) (by decide)
        · rintro (⟨leaves', -, -⟩ | ⟨other, -⟩)
          · have whole := List.append_cancel_left (leaves.trans leaves')
            exact dot (by rw [whole]; simp)
          · exact other ⟨_, leaves⟩
    · rw [p.serviceOfName_other rfl connect last]
      constructor
      · exact fun zero => .zero connect (zeroPort_iff.mp fun sys => (zero sys).symm)
      · rintro (⟨leaves, -, -⟩ | ⟨-, zero⟩)
        · exact absurd ⟨_, leaves.symm⟩ connect
        · exact fun sys => (zeroPort_iff.mpr zero sys).symm

/-- `C:\bin\connect-25.exe` -/
def smtpPath : ProgramPath where
  dir := text "C:\\bin\\"
  name := text "25"
  ext := text ".exe"
  dir_ends := by decide
  name_clean := by decide
  ext_clean := by decide
  ext_dot _ first := (Option.some.inj first).symm

/-- With two backslashes the name is not found. -/
theorem not_takesName_smtp : ¬TakesName smtpPath.path smtpPath.name := by
  rw [takesName_iff_service]
  intro same
  exact absurd (same windows) (by decide +kernel)

end MsysGit.Connect
