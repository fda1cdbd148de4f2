import MsysGit.Library.CString

/-!
# Global variables and parameters of `connect`

`connect.c` keeps its configuration in global variables, set once by `getarg`
and `set_relay`, and looks further parameters up by name: first in the process
environment, then in a table filled from the parameter files (`getparam`).

Passwords are erased with `memset` after their first use, in the storage the
lookup returned.  `Globals.erase` is that effect on a variable of the
environment or an item of the table: the string becomes empty, the entry stays.
-/

namespace MsysGit.Connect

open MsysGit.Library

/-- `METHOD_UNDECIDED` and the other values of `relay_method`. -/
inductive Method
  | undecided | direct | socks | http | telnet
  deriving DecidableEq

/-- `PROXY_AUTH_NONE` and the other values of `proxy_auth_type`. -/
inductive ProxyAuth
  | none | basic | digest
  deriving DecidableEq

/-- A `struct in_addr`: the four bytes of `s_addr`, in network order. -/
structure InAddr where
  a : UInt8
  b : UInt8
  c : UInt8
  d : UInt8
  deriving DecidableEq

/-- The bytes of an address as they are copied into a packet. -/
def InAddr.bytes (addr : InAddr) : Bytes := [addr.a, addr.b, addr.c, addr.d]

/-- `INADDR_ANY`: `s_addr == 0`. -/
def InAddr.any : InAddr := ⟨0, 0, 0, 0⟩

/-- The global variables, and the storage that `getenv` and the parameter table
point into.  `readpass` is what asking the user for a password would return. -/
structure Globals where
  relayMethod : Method
  relayHost : Option Bytes
  /-- `relay_host` points into the buffer of a call of `begin_http_relay` that has returned.
  `relayHost` is what stood there then. -/
  relayHostGone : Bool
  relayPort : UInt16
  relayUser : Option Bytes
  destHost : Bytes
  destAddr : InAddr
  destPort : UInt16
  socksVersion : ℕ
  socks5Auth : Option Bytes
  proxyAuthType : ProxyAuth
  getenv : String → Option Bytes
  parameterTable : List (String × Option Bytes)
  readpass : Option Bytes

namespace Globals

/-- The values the variables are initialised with, an empty environment and no
parameters. -/
def initial : Globals where
  relayMethod := .undecided
  relayHost := none
  relayHostGone := false
  relayPort := 0
  relayUser := none
  destHost := []
  destAddr := .any
  destPort := 0
  socksVersion := 5
  socks5Auth := none
  proxyAuthType := .none
  getenv := fun _ => none
  parameterTable := []
  readpass := none

/-- The value of the first table item of this name. -/
def findParameterItem (g : Globals) (name : String) : Option (Option Bytes) :=
  (g.parameterTable.find? fun item => item.1 = name).map Prod.snd

/-- The environment first, the parameter table second. -/
def getparam (g : Globals) (name : String) : Option Bytes :=
  match g.getenv name with
  | some value => some value
  | none => (g.findParameterItem name).join

/-- The name of the variable the password is taken from. -/
def determineRelayPassword (g : Globals) : Option String :=
  let has (name : String) : Option String := if (g.getparam name).isSome then some name else none
  let pass : Option String := none
  let pass := if pass = none ∧ g.relayMethod = .http then has "HTTP_PROXY_PASSWORD" else pass
  let pass := if pass = none ∧ g.relayMethod = .socks then has "SOCKS5_PASSWD" else pass
  let pass := if pass = none ∧ g.relayMethod = .socks then has "SOCKS5_PASSWORD" else pass
  if pass = none then has "CONNECT_PASSWORD" else pass

/-- The password to send: from a variable, or asked for. -/
def password (g : Globals) : Option Bytes :=
  match g.determineRelayPassword with
  | some name => g.getparam name
  | none => g.readpass

/-- `memset (pass, 0, strlen(pass))` on the string `getparam name` returned. -/
def erase (g : Globals) (name : String) : Globals :=
  match g.getenv name with
  | some _ => { g with getenv := fun n => if n = name then some [] else g.getenv n }
  | none =>
      { g with parameterTable := g.parameterTable.map fun item =>
          if item.1 = name then (name, item.2.map fun _ => []) else item }

/-- The effect of erasing the password on the storage it came from. -/
def erasePassword (g : Globals) : Globals :=
  match g.determineRelayPassword with
  | some name => g.erase name
  | none => g

/-- Erasing the password changes nothing but the storage it came from. -/
theorem erasePassword_eq (g : Globals) :
    ∃ getenv parameterTable,
      g.erasePassword = { g with getenv := getenv, parameterTable := parameterTable } := by
  unfold erasePassword erase
  split
  · split
    · exact ⟨_, _, rfl⟩
    · exact ⟨_, _, rfl⟩
  · exact ⟨_, _, rfl⟩

/-! ### What is left of an erased password -/

/-- The first item of a name, after all items of some name were made empty. -/
theorem find?_erased (table : List (String × Option Bytes)) (name n : String) :
    (table.map fun item => if item.1 = name then (name, item.2.map fun _ => []) else item).find?
      (fun item => item.1 = n) =
    (table.find? fun item => item.1 = n).map fun item =>
      if n = name then (name, item.2.map fun _ => []) else item := by
  induction table with
  | nil => rfl
  | cons item table ih =>
      rw [List.map_cons, List.find?_cons, List.find?_cons]
      by_cases here : item.1 = n
      · subst here
        by_cases erased : item.1 = name
        · simp [erased]
        · simp [erased]
      · have other : (if item.1 = name then (name, item.2.map fun _ => []) else item).1 ≠ n := by
          split_ifs with erased
          · exact fun same => here (erased.trans same)
          · exact here
        simp only [here, other, decide_false]
        exact ih

/-- Erasing makes one string empty; every other is found as before. -/
theorem getparam_erase (g : Globals) (name n : String) :
    (g.erase name).getparam n =
      if n = name then (g.getparam name).map fun _ => [] else g.getparam n := by
  cases inherited : g.getenv name with
  | some value =>
      by_cases same : n = name
      · simp [erase, getparam, inherited, same]
      · simp [erase, getparam, inherited, same, findParameterItem]
  | none =>
      simp only [erase, getparam, inherited, findParameterItem, find?_erased]
      by_cases same : n = name
      · subst same
        rw [inherited, if_pos rfl]
        cases g.parameterTable.find? fun item => item.1 = n with
        | none => rfl
        | some item => simp
      · simp [same]

/-- Erasing a string leaves it in its place. -/
theorem isSome_getparam_erase (g : Globals) (name n : String) :
    ((g.erase name).getparam n).isSome = (g.getparam n).isSome := by
  rw [getparam_erase]
  split_ifs with same
  · rw [same, Option.isSome_map]
  · rfl

theorem relayMethod_erase (g : Globals) (name : String) :
    (g.erase name).relayMethod = g.relayMethod := by
  unfold erase
  split <;> rfl

/-- The password is looked for under the same name as before. -/
theorem determineRelayPassword_erase (g : Globals) (name : String) :
    (g.erase name).determineRelayPassword = g.determineRelayPassword := by
  unfold determineRelayPassword
  simp only [isSome_getparam_erase, relayMethod_erase]

/-- The variable that was chosen is there. -/
theorem isSome_getparam_of_determine {g : Globals} {name : String}
    (chosen : g.determineRelayPassword = some name) : (g.getparam name).isSome := by
  -- Each step keeps the name there is, or takes another that is there.
  have step : ∀ {c : Prop} [Decidable c] {old : Option String} (new : String),
      (∀ x, old = some x → (g.getparam x).isSome) →
      ∀ x, (if c then if (g.getparam new).isSome then some new else none else old) = some x →
        (g.getparam x).isSome := by
    intro c _ old new known x found
    split_ifs at found with taken there
    · obtain rfl := Option.some.inj found
      exact there
    · exact known x found
  have nothing : ∀ x, (none : Option String) = some x → (g.getparam x).isSome := by
    intro x found
    cases found
  exact step _ (step _ (step _ (step _ nothing))) name chosen

/-- **An erased password** is an empty one; one that was asked for is asked for again. -/
theorem password_erasePassword (g : Globals) :
    g.erasePassword.password =
      match g.determineRelayPassword with
      | some _ => some []
      | none => g.readpass := by
  rw [erasePassword, password]
  cases chosen : g.determineRelayPassword with
  | none => simp only [chosen]
  | some name =>
      obtain ⟨value, found⟩ := Option.isSome_iff_exists.mp (isSome_getparam_of_determine chosen)
      simp only [determineRelayPassword_erase, chosen, getparam_erase, if_pos, found,
        Option.map_some]

end Globals

end MsysGit.Connect
