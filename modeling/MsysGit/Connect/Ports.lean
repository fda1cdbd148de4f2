import MsysGit.Connect.Arguments

/-!
# Which port numbers are used

The number of the destination, of the relay and of the port to forward goes through `atoi` and
is narrowed to 16 bits; `getarg` only then looks whether it is zero, and not at all at the port
to forward.  So the number used is the one written as long as that fits (`ports_iff`); of the
others, the multiples of 65536 are refused for the destination and the relay.
-/

namespace MsysGit.Connect

open MsysGit.Library MsysGit.Library.CString

/-- The texts that are given for the ports. -/
structure PortTexts where
  destination : Option Bytes
  relay : Option Bytes
  forwarded : Option Bytes

/-- The server that the options and parameters give for the relay. -/
def givenServer (sys : System) (argv : List Bytes) : Option Bytes :=
  match optionLoop sys argv (.start sys), readParameterFile sys.files with
  | .ok (_, a), some files =>
      if a.method = .direct then none
      else (a.globals.ready a.method files).relaySpec a.method a.server
  | _, _ => none

/-- What a command line and the environment give. -/
def portTexts (sys : System) (progname : Bytes) (argv : List Bytes) : PortTexts where
  destination :=
    match (scan sys argv).2 with
    | [] => none
    | _ :: args => givenService progname args
  relay := (givenServer sys argv).bind portText
  forwarded := forwarded (scan sys argv).1

namespace PortTexts

/-- The port that is used is the number that is written, where it is one. -/
def Used (written : Option Bytes) (port : UInt16) : Prop :=
  ∀ d ∈ written, Numeral d → port.toNat = digits d

/-- The number that is written, where it is one, fits in 16 bits. -/
def Fits (written : Option Bytes) : Prop := ∀ d ∈ written, Numeral d → digits d < 65536

variable (texts : PortTexts)

/-- All ports are those written. -/
def AsWritten (b : Arguments) : Prop :=
  Used texts.destination b.globals.destPort ∧ Used texts.relay b.globals.relayPort ∧
    Used texts.forwarded b.localPort

/-- All numbers fit. -/
def AllFit : Prop := Fits texts.destination ∧ Fits texts.relay ∧ Fits texts.forwarded

end PortTexts

open PortTexts

/-- Narrowed to 16 bits, a number stays what it is if it fits. -/
theorem used_iff {written : Option Bytes} {port : UInt16}
    (narrowed : ∀ d ∈ written, Numeral d → port = UInt16.ofInt (atoi d)) :
    Used written port ↔ Fits written := by
  refine forall_congr' fun d => forall_congr' fun given => forall_congr' fun numeral => ?_
  have value := numeral.atoi stops_nil
  rw [List.append_nil] at value
  rw [narrowed d given numeral, value, ofInt_bmod_uint16, UInt16.toNat_ofNat']
  constructor
  · intro same
    rw [← same]
    exact Nat.mod_lt _ (by decide)
  · exact Nat.mod_eq_of_lt

/-- The number in the text that `resolve_port` is given. -/
theorem resolved_iff {sys : System} {written : Option Bytes} {unset : UInt16} :
    Used written (written.elim unset (resolvePort sys)) ↔ Fits written := by
  refine used_iff fun d given numeral => ?_
  rw [Option.mem_def.mp given]
  exact resolvePort_numeral sys numeral

/-- **The ports** of a run that returns are the numbers written if and only if these fit. -/
theorem ports_iff {sys : System} {progname : Bytes} {argv : List Bytes} {b : Arguments}
    (returned : getarg sys progname argv = .ok b) :
    (portTexts sys progname argv).AsWritten b ↔ (portTexts sys progname argv).AllFit := by
  obtain ⟨a, r, a', host, args, loop, set, rfl⟩ := getarg_ok returned
  obtain ⟨⟨-, localPort⟩, -, relayPort⟩ := setRelay_ports set
  have scanned := loop
  rw [optionLoop_eq] at scanned
  obtain ⟨a₀, applied, rest⟩ := bind_ok scanned
  obtain ⟨operands, rfl⟩ := Prod.mk.inj (Except.ok.inj rest)
  have forwards := (applyUses_ports applied).2
  have destination : (portTexts sys progname argv).destination = givenService progname args := by
    show (match (scan sys argv).2 with | [] => none | _ :: args => givenService progname args) = _
    rw [operands]
  refine and_congr ?_ (and_congr ?_ ?_)
  · rw [destination]
    exact resolved_iff
  · refine used_iff fun d given _ => ?_
    obtain ⟨server, given, written⟩ := Option.bind_eq_some_iff.mp given
    rw [givenServer, loop] at given
    cases read : readParameterFile sys.files with
    | none =>
        rw [read] at given
        cases given
    | some files =>
        rw [read] at given
        change (if _ then _ else _) = _ at given
        split_ifs at given with direct
        exact relayPort files read direct server given d written
  · show Used (forwarded (scan sys argv).1) a'.localPort ↔ Fits (forwarded (scan sys argv).1)
    rw [localPort, forwards]
    exact resolved_iff

/-! ### Runs without options -/

theorem portTexts_direct (sys : System) (progname : Bytes) {host : Bytes}
    (operand : host.head? ≠ some 45) (args : List Bytes) :
    portTexts sys progname (host :: args) = ⟨givenService progname args, none, none⟩ := by
  have scanned : scan sys (host :: args) = ([], host :: args) := by
    rw [scan, if_neg operand]
  have server : givenServer sys (host :: args) = none := by
    rw [givenServer, optionLoop, if_neg operand]
    cases readParameterFile sys.files with
    | none => rfl
    | some files => rfl
  rw [portTexts, scanned, server]
  rfl

/-- A run with a destination port. -/
theorem getarg_port (port : Bytes) (nonzero : resolvePort windows port ≠ 0) :
    getarg windows (text "connect") [text "host", port] =
      .ok (((Arguments.start windows).ready .direct ⟨parameterTable, []⟩).destined (text "host")
        (resolvePort windows port)) := by
  have read : readParameterFile windows.files = some ⟨parameterTable, []⟩ := rfl
  rw [getarg_direct read _ (by decide)]
  exact checkPorts_direct rfl nonzero

theorem ports_iff_smtp : ∃ b, getarg windows (text "connect") [text "host", text "25"] = .ok b ∧
    (portTexts windows (text "connect") [text "host", text "25"]).AsWritten b := by
  have run := getarg_port (text "25") (by decide +kernel)
  refine ⟨_, run, (ports_iff run).mpr ?_⟩
  rw [portTexts_direct _ _ (by decide)]
  refine ⟨fun d given _ => ?_, nofun, nofun⟩
  obtain rfl := Option.some.inj given
  decide +kernel

/-- Port 65558 is port 22. -/
theorem not_ports_ssh : ¬∀ (sys : System) (progname : Bytes) (argv : List Bytes) (b : Arguments),
    getarg sys progname argv = .ok b → (portTexts sys progname argv).AsWritten b := by
  intro all
  have run := getarg_port (text "65558") (by decide +kernel)
  have written := (all _ _ _ _ run).1
  rw [portTexts_direct _ _ (by decide)] at written
  exact absurd (written (text "65558") rfl (by decide +kernel)) (by decide +kernel)

end MsysGit.Connect
