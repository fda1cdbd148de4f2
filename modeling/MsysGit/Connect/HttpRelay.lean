import MsysGit.Library.Lines
import MsysGit.Connect.Socket
import MsysGit.Connect.Strings

/-!
# HTTP relaying

`begin_http_relay` sends a `CONNECT` request, reads the status line, and then one
header line after the other into the same buffer.  Three loops read header lines:
after 200 (`skipHeaders`), after 302 (`redirect`), and after 401 or 407
(`findAuthentication`).  Nothing bounds their number of rounds, so each takes
fuel, and a loop that has used it up ends in `Halt.running`.

`line_input` reads at most 1023 bytes, through the first line feed; at the end of
the stream it returns what it has, possibly nothing, just as it returns a line.

In the 302 loop `relay_host` is set to point into the buffer, which later lines
overwrite.  The loop carries the offset.  `relayHost` gets the string that is
there when the function returns; from then on the buffer is gone (`relayHostGone`).
-/

namespace MsysGit.Connect

open MsysGit.Library MsysGit.Library.CString

/-- `START_ERROR` and the other return values. -/
abbrev startError : ℤ := -1
abbrev startOk : ℤ := 0
abbrev startRetry : ℤ := 1

abbrev newline : UInt8 := 10

/-- `"\r\n"` -/
abbrev crlf : Bytes := [13, 10]

/-- `char buf[1024]` -/
abbrev LineBuffer := Buffer UInt8 1024

/-! ### The request -/

/-- `sendf` of a formatted text, which is cut to the size of its buffer. -/
def sendf (formatted : Bytes) : Io ℤ := do
  match ← send (formatted.take 10239) with
  | none => pure (-1)
  | some _ => pure 0

/-- `basic_auth` -/
def basicAuth : Io ℤ := do
  let g ← globals
  match g.relayUser, g.password with
  | some user, some pass => do
      modifyGlobals Globals.erasePassword
      let cred := makeBase64String (user ++ text ":" ++ pass)
      sendf (text "Proxy-Authorization: Basic " ++ cred ++ crlf)
  | _, _ => fatal

/-- The request up to the empty line. -/
def sendRequest : Io ℤ := do
  let g ← globals
  let sent ← sendf (text "CONNECT " ++ g.destHost ++ text ":" ++
    text (toString g.destPort.toNat) ++ text " HTTP/1.0" ++ crlf)
  if sent < 0 then pure startError
  else do
    let authorized ← if g.proxyAuthType = .basic then basicAuth else pure 0
    if authorized < 0 then pure startError
    else do
      let ended ← sendf crlf
      if ended < 0 then pure startError else pure 0

/-! ### Reading lines -/

/-- The loop of `line_input`: room for `size` more bytes, the next one at `dst`. -/
def lineInputLoop : ℕ → ℕ → LineBuffer → Io (Bool × LineBuffer)
  | 0, dst, buf => pure (true, buf.store dst [0])
  | size + 1, dst, buf => do
      match ← recv 1 with
      | none => pure (false, buf)
      -- The end of the stream ends the line like a newline, and is not reported.
      | some [] => pure (true, buf.store dst [0])
      | some (c :: _) =>
          if c = newline then pure (true, buf.store dst [c, 0])
          else lineInputLoop size (dst + 1) (buf.store dst [c])

/-- `line_input (s, buf, sizeof(buf))`; the flag is whether it returned 0. -/
def lineInput (buf : LineBuffer) : Io (Bool × LineBuffer) := lineInputLoop 1023 0 buf

/-! ### The answer -/

/-- Skip to the end of the header. -/
def skipHeaders : ℕ → LineBuffer → Io ℤ
  | 0, _ => Program.halt .running
  | fuel + 1, buf => do
      let (ok, buf) ← lineInput buf
      if ok = false then pure startError
      -- `while ( strcmp(buf,"\r\n") != 0 )`
      else if cstr buf.cells 0 = crlf then pure startOk
      else skipHeaders fuel buf

/-- A `Location:` line: the new `relay_host`, as an offset, and `relay_port`. -/
def location (buf : LineBuffer) : Io (LineBuffer × Option ℕ) := do
  let (buf, host) := cutToken buf 0 (text "//")
  let (buf, _) := cutToken buf 0 (text "/")
  let (buf, port) := cutToken buf 0 (text ":")
  match port with
  | none => Program.halt .nullPointer
  | some port => do
      modifyGlobals fun g => { g with relayPort := UInt16.ofInt (atoi (cstr buf.cells port)) }
      pure (buf, host)

/-- Leave the 302 loop; `host` is `none` where no `Location:` was seen. -/
def finishRedirect (buf : LineBuffer) (host : Option (Option ℕ)) : Io ℤ := do
  match host with
  | none => pure startRetry
  | some pointer => do
      modifyGlobals fun g => { g with
        relayHost := pointer.map (cstr buf.cells)
        relayHostGone := pointer.isSome }
      pure startRetry

/-- The loop after 302. -/
def redirect : ℕ → LineBuffer → Option (Option ℕ) → Io ℤ
  | 0, _, _ => Program.halt .running
  | fuel + 1, buf, host => do
      let (ok, buf) ← lineInput buf
      if ok = false then finishRedirect buf host
      else do
        let buf := downcase buf
        let (buf, host) ←
          if expect (cstr buf.cells 0) (text "Location: ") then do
            let (buf, pointer) ← location buf
            pure (buf, some pointer)
          else pure (buf, host)
        if cstr buf.cells 0 = crlf then finishRedirect buf host
        else redirect fuel buf host

/-- An authenticate header; `none` is `return START_ERROR`. -/
def challenge (buf : LineBuffer) : Io (Option LineBuffer) := do
  let (buf, scheme) := cutToken buf 0 (text " ")
  match scheme with
  | none => Program.halt .nullPointer
  | some scheme => do
      let (buf, realm) := cutToken buf scheme (text " ")
      if realm = none then pure none
      else do
        if expect (cstr buf.cells scheme) (text "basic") then
          modifyGlobals fun g => { g with proxyAuthType := .basic }
        pure (some buf)

/-- Leave the 401/407 loop. -/
def finishAuthentication : Io ℤ := do
  let g ← globals
  if g.proxyAuthType = .none then pure startError else pure startRetry

/-- The loop after 401 or 407. -/
def findAuthentication (authWhat : Bytes) : ℕ → LineBuffer → Io ℤ
  | 0, _ => Program.halt .running
  | fuel + 1, buf => do
      let (ok, buf) ← lineInput buf
      if ok = false then finishAuthentication
      else do
        let buf := downcase buf
        let parsed ← if expect (cstr buf.cells 0) authWhat then challenge buf else pure (some buf)
        match parsed with
        | none => pure startError
        | some buf =>
            if cstr buf.cells 0 = crlf then finishAuthentication
            else findAuthentication authWhat fuel buf

/-- The number after the first space of the status line, if it has a space. -/
def statusCode (line : Bytes) : Option ℤ := (strchr line 32).map atoi

/-- `auth_what` -/
def authWhat (result : ℤ) : Bytes :=
  if result = 401 then text "WWW-Authenticate:" else text "Proxy-Authenticate:"

/-- Everything after the request. -/
def readAnswer (fuel : ℕ) (buf : LineBuffer) : Io ℤ := do
  let (ok, buf) ← lineInput buf
  if ok = false then pure startError
  else
    match statusCode (cstr buf.cells 0) with
    | none => pure startError
    | some result =>
        if result = 200 then skipHeaders fuel buf
        else if result = 302 then redirect fuel buf none
        else if result = 401 ∨ result = 407 then do
          let g ← globals
          if g.proxyAuthType ≠ .none then pure startError
          else findAuthentication (authWhat result) fuel buf
        else pure startError

/-- `begin_http_relay`, with a buffer that is not initialised. -/
def beginHttpRelay (fuel : ℕ) (buf : LineBuffer) : Io ℤ := do
  let sent ← sendRequest
  if sent < 0 then pure startError else readAnswer fuel buf

-- These two are known by their `wp` lemmas alone; left open, they are evaluated
-- on buffers of unknown content whenever one of the lemmas is applied.
attribute [irreducible] location challenge

end MsysGit.Connect
