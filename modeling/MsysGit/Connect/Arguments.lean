import MsysGit.Connect.RelaySpec

/-!
# The command line of `connect`

`getarg` reads the letters of each word that begins with a dash; a letter that needs an
argument takes the next word, also if other letters follow it in its own.  Then come the
relay, the destination and its port, and the check of the ports.

What the loop reads is a list of letters with their arguments, and the words that are left
(`scan`); all it does is to apply them one after the other (`optionLoop_eq`).
-/

namespace MsysGit.Connect

open MsysGit.Library MsysGit.Library.CString

/-! ### The code -/

/-- `resolve_port` -/
def resolvePort (sys : System) (service : Bytes) : UInt16 :=
  if service.drop (strspn service (text "0123456789")) = [] then UInt16.ofInt (atoi service)
  else (sys.getservbyname service).getD 0

/-- The options that take the next word. -/
def takesArgument (sys : System) (letter : UInt8) : Bool :=
  letter ∈ text "SHTcPpaR" || (letter = 119 && !sys.win32)

/-- An option with an argument, which may be missing. -/
def withArgument (next : Option Bytes) (missing : Bytes) (a : Arguments)
    (set : Bytes → Except Exit Arguments) : Except Exit Arguments :=
  match next with
  | some arg => set arg
  | none => pure { a with errors := a.errors ++ [missing] }

/-- The `switch` on the letter of an option; `next` is the word that an argument is taken from. -/
def option (sys : System) (letter : UInt8) (next : Option Bytes) (a : Arguments) :
    Except Exit Arguments :=
  let missing := text "option '-" ++ [letter] ++ text "' needs argument.\n"
  let unknown := text "unknown option '-" ++ [letter] ++ text "'\n"
  match Char.ofNat letter.toNat with
  | 's' => pure { a with method := .socks }
  | 'n' => pure { a with method := .direct }
  | 'h' => pure { a with method := .http }
  | 't' => pure { a with method := .telnet }
  | 'S' => withArgument next missing a fun server =>
      pure { a with method := .socks, server := some server }
  | 'H' => withArgument next missing a fun server =>
      pure { a with method := .http, server := some server }
  | 'T' => withArgument next missing a fun server =>
      pure { a with method := .telnet, server := some server }
  | 'c' => withArgument next (text "option '" ++ [letter] ++ text "' needs argument.\n") a
      fun command => pure { a with telnetCommand := command }
  | 'P' => withArgument next missing { a with holdSession := true } fun port =>
      pure { a with holdSession := true, localSocket := true, localPort := resolvePort sys port }
  | 'p' => withArgument next missing a fun port =>
      pure { a with localSocket := true, localPort := resolvePort sys port }
  | 'w' =>
      if sys.win32 then pure { a with errors := a.errors ++ [unknown] }
      else withArgument next missing a fun timeout =>
        pure { a with connectTimeout := atoi timeout }
  | '4' => pure { a with globals := { a.globals with socksVersion := 4 } }
  | '5' => pure { a with globals := { a.globals with socksVersion := 5 } }
  | 'a' => withArgument next missing a fun auth =>
      pure { a with globals := { a.globals with socks5Auth := some auth } }
  | 'R' => withArgument next missing a fun resolve => lookupResolve sys resolve a
  | 'V' => .error .success
  | 'd' => pure { a with debug := a.debug + 1 }
  | _ => pure { a with errors := a.errors ++ [unknown] }

/-- The words behind an option. -/
def behind (sys : System) (letter : UInt8) (rest : List Bytes) : List Bytes :=
  if takesArgument sys letter then rest.tail else rest

theorem length_behind_le (sys : System) (letter : UInt8) (rest : List Bytes) :
    (behind sys letter rest).length ≤ rest.length := by
  rw [behind]
  split_ifs
  · exact List.length_tail ▸ Nat.sub_le _ _
  · exact le_rfl

/-- The loop over the letters of a word, with the words behind it. -/
def letterLoop (sys : System) : Bytes → List Bytes → Arguments →
    Except Exit (List Bytes × Arguments)
  | [], rest, a => pure (rest, a)
  | letter :: ptr, rest, a => do
      letterLoop sys ptr (behind sys letter rest) (← option sys letter rest.head? a)

theorem length_letterLoop_le {sys : System} {ptr : Bytes} {rest rest' : List Bytes}
    {a a' : Arguments} (read : letterLoop sys ptr rest a = .ok (rest', a')) :
    rest'.length ≤ rest.length := by
  induction ptr generalizing rest a with
  | nil =>
      cases read
      exact le_rfl
  | cons letter ptr ih =>
      rw [letterLoop] at read
      obtain ⟨b, -, more⟩ := bind_ok read
      exact (ih more).trans (length_behind_le sys letter rest)

/-- The loop over the words. -/
def optionLoop (sys : System) (argv : List Bytes) (a : Arguments) :
    Except Exit (List Bytes × Arguments) :=
  match argv with
  | [] => pure ([], a)
  | word :: rest =>
      if word.head? = some 45 then
        match _read : letterLoop sys word.tail rest a with
        | .error e => .error e
        | .ok (rest, a) => optionLoop sys rest a
      else pure (word :: rest, a)
termination_by argv.length
decreasing_by
  have shorter := length_letterLoop_le _read
  rw [List.length_cons]
  omega

/-- Where the name of the program begins. -/
def baseName (progname : Bytes) : Bytes :=
  match strrchr progname 47 with
  | some ptr => ptr.tail
  | none =>
      match strchr progname 92 with
      | some ptr => ptr.tail
      | none => progname

/-- The service that a program is named for. -/
def serviceOfName (progname : Bytes) : Option Bytes :=
  let ptr := baseName progname
  if strncmpEq ptr (text "connect-") 8 then
    let str := ptr.drop 8
    some (str.take (strcspn str (text ".")))
  else none

/-- The service that is asked for, by an argument or by the name of the program. -/
def givenService (progname : Bytes) (args : List Bytes) : Option Bytes :=
  match args with
  | port :: _ => some port
  | [] => serviceOfName progname

/-- The check of the ports. -/
def checkPorts (a : Arguments) : Except Exit Arguments :=
  let g := a.globals
  if g.destPort ≤ 0 then
    .error (.usage (a.errors ++ [text "You must specify the destination port correctly.\n"]))
  else if g.relayMethod ≠ .direct ∧ g.relayPort ≤ 0 then
    .error (.usage (a.errors ++
      [text "Invalid relay port: " ++ text (toString g.destPort.toNat) ++ text "\n"]))
  else pure a

/-- The part of `getarg` behind the options; `progname` is the name of the program. -/
def takeOperands (sys : System) (progname : Bytes) (argv : List Bytes) (a : Arguments) :
    Except Exit Arguments := do
  let (_, a) ← setRelay sys a.method a.server a
  match argv with
  | [] => .error .success
  | host :: args =>
      let g := { a.globals with destHost := host }
      let g :=
        if g.destPort = 0 then
          { g with destPort := (givenService progname args).elim 0 (resolvePort sys) }
        else g
      checkPorts { a with globals := g }

/-- `getarg` -/
def getarg (sys : System) (progname : Bytes) (argv : List Bytes) : Except Exit Arguments := do
  let (argv, a) ← optionLoop sys argv (.start sys)
  if a.errors ≠ [] then .error (.usage a.errors) else takeOperands sys progname argv a

/-- A numeral is no name of a service. -/
theorem resolvePort_numeral (sys : System) {d : Bytes} (numeral : Numeral d) :
    resolvePort sys d = UInt16.ofInt (atoi d) := by
  rw [resolvePort, if_pos]
  rw [drop_strspn, List.dropWhile_eq_nil_iff]
  exact fun c inside => decide_eq_true ((mem_digits_iff c).mpr (numeral.digits c inside))

/-! ### What the command line says -/

/-- A letter of an option, and the word behind it that an argument is taken from. -/
abbrev Use := UInt8 × Option Bytes

/-- The letters of a word, and the words that are left. -/
def scanLetters (sys : System) : Bytes → List Bytes → List Use × List Bytes
  | [], rest => ([], rest)
  | letter :: ptr, rest =>
      let (uses, left) := scanLetters sys ptr (behind sys letter rest)
      ((letter, rest.head?) :: uses, left)

theorem length_scanLetters_le (sys : System) (ptr : Bytes) (rest : List Bytes) :
    (scanLetters sys ptr rest).2.length ≤ rest.length := by
  induction ptr generalizing rest with
  | nil => exact le_rfl
  | cons letter ptr ih => exact (ih _).trans (length_behind_le sys letter rest)

/-- The letters of all options, and the operands. -/
def scan (sys : System) (argv : List Bytes) : List Use × List Bytes :=
  match argv with
  | [] => ([], [])
  | word :: rest =>
      if word.head? = some 45 then
        let uses := (scanLetters sys word.tail rest).1
        let left := (scanLetters sys word.tail rest).2
        (uses ++ (scan sys left).1, (scan sys left).2)
      else ([], word :: rest)
termination_by argv.length
decreasing_by all_goals
  have shorter := length_scanLetters_le sys word.tail rest
  rw [List.length_cons]
  omega

/-- The options one after the other. -/
def applyUses (sys : System) : List Use → Arguments → Except Exit Arguments
  | [], a => pure a
  | use :: uses, a => do applyUses sys uses (← option sys use.1 use.2 a)

theorem applyUses_append (sys : System) (front uses : List Use) (a : Arguments) :
    applyUses sys (front ++ uses) a = applyUses sys front a >>= applyUses sys uses := by
  induction front generalizing a with
  | nil => rfl
  | cons use front ih =>
      rw [List.cons_append, applyUses, applyUses]
      cases option sys use.1 use.2 a with
      | error e => rfl
      | ok b => exact ih b

theorem letterLoop_eq (sys : System) (ptr : Bytes) (rest : List Bytes) (a : Arguments) :
    letterLoop sys ptr rest a = applyUses sys (scanLetters sys ptr rest).1 a >>= fun a =>
      pure ((scanLetters sys ptr rest).2, a) := by
  induction ptr generalizing rest a with
  | nil => rfl
  | cons letter ptr ih =>
      rw [letterLoop, scanLetters, applyUses]
      cases option sys letter rest.head? a with
      | error e => rfl
      | ok b => exact ih _ b

/-- **The loop over the options** applies them in order, and leaves the operands. -/
theorem optionLoop_eq (sys : System) (argv : List Bytes) (a : Arguments) :
    optionLoop sys argv a =
      applyUses sys (scan sys argv).1 a >>= fun a => pure ((scan sys argv).2, a) := by
  fun_induction scan sys argv generalizing a with
  | case1 =>
      rw [optionLoop]
      rfl
  | case2 word rest dash uses left ih =>
      have letters := letterLoop_eq sys word.tail rest a
      rw [optionLoop, if_pos dash, applyUses_append]
      cases applied : applyUses sys uses a with
      | error e =>
          rw [applied] at letters
          split
          · rename_i e' ended
            rw [ended] at letters
            cases letters
            rfl
          · rename_i rest' b read
            rw [read] at letters
            cases letters
      | ok b =>
          rw [applied] at letters
          split
          · rename_i e ended
            rw [ended] at letters
            cases letters
          · rename_i rest' b' read
            rw [read] at letters
            cases letters
            exact ih b
  | case3 word rest plain =>
      rw [optionLoop, if_neg plain]
      rfl

/-! ### What the options leave alone -/

/-- `lookup_resolve` sets the resolve method and the name server. -/
theorem lookupResolve_frame {sys : System} {resolve : Bytes} {a b : Arguments}
    (found : lookupResolve sys resolve a = .ok b) :
    b = { a with socksResolve := b.socksResolve, socksNs := b.socksNs } := by
  rw [lookupResolve] at found
  split_ifs at found
  all_goals
    cases found
    rfl

/-- An option for the port to forward. -/
def Use.Forwards (use : Use) : Prop :=
  Char.ofNat use.1.toNat = 'p' ∨ Char.ofNat use.1.toNat = 'P'

instance (use : Use) : Decidable use.Forwards := inferInstanceAs (Decidable (_ ∨ _))

/-- What an option leaves in the destination port and the local port. -/
def PortsAfter (a b : Arguments) (localPort : UInt16) : Prop :=
  b.globals.destPort = a.globals.destPort ∧ b.localPort = localPort

theorem pure_ports {a a' b : Arguments} (set : (pure a' : Except Exit Arguments) = .ok b)
    (same : PortsAfter a a' a.localPort) : PortsAfter a b a.localPort := by
  cases set
  exact same

theorem withArgument_other {next : Option Bytes} {missing : Bytes} {a b : Arguments}
    {set : Bytes → Except Exit Arguments} (applied : withArgument next missing a set = .ok b)
    (other : ∀ arg, set arg = .ok b → PortsAfter a b a.localPort) : PortsAfter a b a.localPort := by
  cases next with
  | none =>
      cases applied
      exact ⟨rfl, rfl⟩
  | some arg => exact other arg applied

theorem withArgument_forwards {sys : System} {next : Option Bytes} {missing : Bytes}
    {a a' b : Arguments} (same : PortsAfter a a' a.localPort)
    (applied : withArgument next missing a' (fun port =>
      pure { a' with localSocket := true, localPort := resolvePort sys port }) = .ok b) :
    PortsAfter a b (next.elim a.localPort (resolvePort sys)) := by
  cases next with
  | none =>
      cases applied
      exact same
  | some port =>
      cases applied
      exact ⟨same.1, rfl⟩

/-- An option sets the local port if it is one for it, and never the destination. -/
theorem option_ports {sys : System} {letter : UInt8} {next : Option Bytes} {a b : Arguments}
    (applied : option sys letter next a = .ok b) :
    PortsAfter a b (if Use.Forwards (letter, next) then next.elim a.localPort (resolvePort sys)
      else a.localPort) := by
  by_cases forwards : Use.Forwards (letter, next)
  · rw [if_pos forwards]
    rcases forwards with known | known
    · simp only [option, known] at applied
      exact withArgument_forwards ⟨rfl, rfl⟩ applied
    · simp only [option, known] at applied
      have same : PortsAfter a { a with holdSession := true } a.localPort := ⟨rfl, rfl⟩
      exact withArgument_forwards same applied
  · rw [if_neg forwards]
    simp only [Use.Forwards, not_or] at forwards
    rw [option] at applied
    split at applied
    case h_9 known => exact absurd known forwards.2
    case h_10 known => exact absurd known forwards.1
    case h_11 =>
      split_ifs at applied
      · exact pure_ports applied ⟨rfl, rfl⟩
      · exact withArgument_other applied fun arg set => pure_ports set ⟨rfl, rfl⟩
    case h_15 =>
      refine withArgument_other applied fun arg found => ?_
      rw [lookupResolve_frame found]
      exact ⟨rfl, rfl⟩
    case h_16 => cases applied
    all_goals first
      | exact pure_ports applied ⟨rfl, rfl⟩
      | exact withArgument_other applied fun arg set => pure_ports set ⟨rfl, rfl⟩

/-- The last argument of the options for the port to forward. -/
def forwarded : List Use → Option Bytes
  | [] => none
  | use :: uses => (forwarded uses).or (if use.Forwards then use.2 else none)

/-- All options together: the last one that forwards decides. -/
theorem applyUses_ports {sys : System} {uses : List Use} {a b : Arguments}
    (applied : applyUses sys uses a = .ok b) :
    PortsAfter a b ((forwarded uses).elim a.localPort (resolvePort sys)) := by
  induction uses generalizing a with
  | nil =>
      cases applied
      exact ⟨rfl, rfl⟩
  | cons use uses ih =>
      rw [applyUses] at applied
      obtain ⟨a', first, others⟩ := bind_ok applied
      obtain ⟨destPort, localPort⟩ := ih others
      obtain ⟨destPort', localPort'⟩ := option_ports first
      refine ⟨destPort.trans destPort', ?_⟩
      rw [localPort, localPort', forwarded]
      cases forwarded uses with
      | some port => rfl
      | none =>
          show (if _ then _ else _) = _
          rw [Option.none_or]
          split_ifs
          · rfl
          · rfl

/-! ### What `set_relay` leaves alone -/

/-- Determining the resolve method sets it and the name server. -/
theorem determineResolve_frame {sys : System} {a b : Arguments}
    (found : determineResolve sys a = .ok b) :
    b = { a with socksResolve := b.socksResolve, socksNs := b.socksNs } := by
  rw [determineResolve] at found
  split at found
  · split at found
    · obtain ⟨a', known, checked⟩ := bind_ok found
      split_ifs at checked
      cases checked
      exact lookupResolve_frame known
    · cases found
      rfl
  · cases found
    rfl

/-- Taking the server apart sets the relay. -/
theorem parseServer_ok {sys : System} {spec : Bytes} {g g' : Globals}
    (parsed : parseServer sys spec g = .ok g') :
    g' = { g with
      relayUser := g'.relayUser
      relayHost := g'.relayHost
      relayHostGone := false
      relayPort := (portText spec).elim g.relayPort fun port => UInt16.ofInt (atoi port) } := by
  rw [parseServer] at parsed
  obtain ⟨user, -, rest⟩ := bind_ok parsed
  cases rest
  rfl

/-- With a server, `set_relay` takes the port from it. -/
theorem setServer_ports {sys : System} {method : Method} {spec : Bytes} {a b : Arguments} {r : ℤ}
    (set : setServer sys method spec a = .ok (r, b)) :
    PortsAfter a b a.localPort ∧ b.globals.relayMethod = a.globals.relayMethod ∧
      ∀ port ∈ portText spec, b.globals.relayPort = UInt16.ofInt (atoi port) := by
  rw [setServer] at set
  obtain ⟨a', resolved, rest⟩ := bind_ok set
  obtain ⟨g, parsed, rest⟩ := bind_ok rest
  cases rest
  have kept : a'.globals =
      { a.globals with relayPort := method.defaultPort.getD a.globals.relayPort } ∧
      a'.localPort = a.localPort := by
    rw [resolveFor] at resolved
    split_ifs at resolved
    · rw [determineResolve_frame resolved]
      exact ⟨rfl, rfl⟩
    · cases resolved
      exact ⟨rfl, rfl⟩
  have relay := parseServer_ok parsed
  rw [kept.1] at relay
  refine ⟨⟨?_, kept.2⟩, ?_, fun port written => ?_⟩
  · show g.destPort = _
    rw [relay]
  · show g.relayMethod = _
    rw [relay]
  · show g.relayPort = _
    rw [relay, Option.mem_def.mp written]
    rfl

/-- What `set_relay` leaves in the ports. -/
theorem setRelay_ports {sys : System} {method : Method} {spec : Option Bytes} {a b : Arguments}
    {r : ℤ} (set : setRelay sys method spec a = .ok (r, b)) :
    PortsAfter a b a.localPort ∧ b.globals.relayMethod = method ∧
      ∀ files, readParameterFile sys.files = some files → method ≠ .direct →
        ∀ server ∈ (a.globals.ready method files).relaySpec method spec,
          ∀ port ∈ portText server, b.globals.relayPort = UInt16.ofInt (atoi port) := by
  cases read : readParameterFile sys.files with
  | none =>
      rw [setRelay, read] at set
      cases set
  | some files =>
      rw [setRelay_of_read _ read] at set
      split_ifs at set with direct
      · cases set
        exact ⟨⟨rfl, rfl⟩, rfl, fun _ _ relaying => absurd direct relaying⟩
      · cases given : (a.globals.ready method files).relaySpec method spec with
        | none =>
            rw [given] at set
            cases set
        | some server =>
            rw [given] at set
            obtain ⟨kept, relayMethod, relayPort⟩ := setServer_ports set
            refine ⟨kept, relayMethod, fun files' read' _ server' same => ?_⟩
            obtain rfl := Option.some.inj read'
            rw [given] at same
            obtain rfl := Option.some.inj same
            exact relayPort

/-! ### The destination -/

/-- With this destination. -/
def Arguments.destined (a : Arguments) (host : Bytes) (port : UInt16) : Arguments :=
  { a with globals := { a.globals with destHost := host, destPort := port } }

/-- The options do not set the destination port, so an argument or the name of the program
does. -/
theorem takeOperands_host {sys : System} {progname host : Bytes} {args : List Bytes}
    {a : Arguments} (unset : a.globals.destPort = 0) :
    takeOperands sys progname (host :: args) a =
      setRelay sys a.method a.server a >>= fun set =>
        checkPorts (set.2.destined host
          ((givenService progname args).elim 0 (resolvePort sys))) := by
  rw [takeOperands]
  cases relay : setRelay sys a.method a.server a with
  | error e => rfl
  | ok set =>
      have unset' : set.2.globals.destPort = 0 := (setRelay_ports relay).1.1.trans unset
      show checkPorts { set.2 with globals := if set.2.globals.destPort = 0 then _ else _ } = _
      rw [if_pos unset']
      rfl

theorem optionLoop_unset {sys : System} {argv operands : List Bytes} {a : Arguments}
    (loop : optionLoop sys argv (.start sys) = .ok (operands, a)) :
    a.globals.destPort = 0 := by
  rw [optionLoop_eq] at loop
  obtain ⟨a', applied, rest⟩ := bind_ok loop
  cases rest
  exact (applyUses_ports applied).1

/-- Ports that pass the check. -/
theorem checkPorts_ok {a b : Arguments} (passed : checkPorts a = .ok b) : b = a := by
  rw [checkPorts] at passed
  split_ifs at passed
  cases passed
  rfl

theorem port_le_zero_iff {port : UInt16} : port ≤ 0 ↔ port = 0 := by
  rw [UInt16.le_iff_toNat_le, ← UInt16.toNat_inj]
  exact Nat.le_zero

/-- Without a relay, any destination port but zero will do. -/
theorem checkPorts_direct {a : Arguments} (direct : a.globals.relayMethod = .direct)
    (nonzero : a.globals.destPort ≠ 0) : checkPorts a = .ok a := by
  rw [checkPorts, if_neg (mt port_le_zero_iff.mp nonzero), if_neg fun relay => relay.1 direct]
  rfl

theorem checkPorts_zero {a : Arguments} (zero : a.globals.destPort = 0) (b : Arguments) :
    checkPorts a ≠ .ok b := by
  rw [checkPorts, if_pos (port_le_zero_iff.mpr zero)]
  exact nofun

/-- **What a run of `getarg` that returns has done.** -/
theorem getarg_ok {sys : System} {progname : Bytes} {argv : List Bytes} {b : Arguments}
    (returned : getarg sys progname argv = .ok b) :
    ∃ a r a' host args, optionLoop sys argv (.start sys) = .ok (host :: args, a) ∧
      setRelay sys a.method a.server a = .ok (r, a') ∧
      b = a'.destined host ((givenService progname args).elim 0 (resolvePort sys)) := by
  rw [getarg] at returned
  obtain ⟨⟨operands, a⟩, loop, rest⟩ := bind_ok returned
  change (if a.errors ≠ [] then _ else takeOperands sys progname operands a) = _ at rest
  split_ifs at rest
  cases operands with
  | nil =>
      rw [takeOperands] at rest
      obtain ⟨set, -, ended⟩ := bind_ok rest
      cases ended
  | cons host args =>
      rw [takeOperands_host (optionLoop_unset loop)] at rest
      obtain ⟨⟨r, a'⟩, set, passed⟩ := bind_ok rest
      exact ⟨a, r, a', host, args, loop, set, checkPorts_ok passed⟩

/-- A run without options. -/
theorem getarg_direct {sys : System} {files : ParameterState}
    (read : readParameterFile sys.files = some files) (progname : Bytes) {host : Bytes}
    (operand : host.head? ≠ some 45) (args : List Bytes) :
    getarg sys progname (host :: args) =
      checkPorts (((Arguments.start sys).ready .direct files).destined host
        ((givenService progname args).elim 0 (resolvePort sys))) := by
  have loop : optionLoop sys (host :: args) (.start sys) = .ok (host :: args, .start sys) := by
    rw [optionLoop, if_neg operand]
    rfl
  rw [getarg, loop]
  show takeOperands sys progname (host :: args) (.start sys) = _
  rw [takeOperands_host rfl]
  show (setRelay sys .direct none (.start sys) >>= _) = _
  rw [setRelay_of_read _ read, if_pos rfl]
  rfl

end MsysGit.Connect
