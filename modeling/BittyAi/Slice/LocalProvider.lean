/-
BittyAi.Slice.LocalProvider — one HTTP round trip of `bitty-ai-slice/src/local_provider.rs`.

The network is a script: whether connecting and arming each timeout succeeds, how the socket
answers each call of `write` and `read`, and what the clock says where it is read. `sent`
and `received` collect what crossed the socket; no function reads them.

What happens to a response once the end of its head is found (status line, headers, body) is
a parameter, `respond`, and so is the parser of address literals.
-/
import BittyAi.Lib.EarlyExit
import BittyAi.Runtime.Provider

namespace BittyAi.Slice

open Lib Exiting
open BittyAi.Runtime (ProviderError maxFragmentBytes satAdd)

/-! ## Bounds -/

def maxLocalResponseBytes : Nat := maxFragmentBytes
def maxLocalHeadersBytes : Nat := 8 * 1024
def localReadChunk : Nat := 4 * 1024

/-- The most bytes `read_bounded` keeps. -/
def receiveCap : Nat := maxLocalHeadersBytes + maxLocalResponseBytes + 512

/-! ## The network -/

/-- Rust `std::io::ErrorKind`, as far as the provider tells the kinds apart. -/
inductive IoKind where
  | connectionRefused
  | timedOut
  | wouldBlock
  | notFound
  | permissionDenied
  | connectionReset
  | connectionAborted
  | unexpectedEof
  | brokenPipe
  | writeZero
  | interrupted
  | other
  deriving DecidableEq

/-- How the socket answers a call of `write`. -/
inductive WriteAnswer where
  | takes (count : Nat)
  | fails (kind : IoKind)

/-- How the socket answers a call of `read`; no bytes mean that the server has closed. -/
inductive ReadAnswer where
  | delivers (bytes : List UInt8)
  | fails (kind : IoKind)

structure Network where
  connect : Option IoKind
  armWrite : Option IoKind
  writes : List WriteAnswer
  armRead : Option IoKind
  reads : List ReadAnswer
  connectNow : Nat
  writeNow : Nat
  readNow : Nat

structure Wire where
  writes : List WriteAnswer
  reads : List ReadAnswer
  sent : List UInt8
  received : List UInt8

structure WriteRun where
  taken : List UInt8
  error : Option IoKind
  answers : List WriteAnswer

/-- Rust `std::io::Write::write_all`: an interrupted call is repeated, and a call that takes nothing
fails. Where the script has ended the socket takes what is left. -/
def writeLoop : List WriteAnswer → List UInt8 → WriteRun
  | answers, [] => ⟨[], none, answers⟩
  | [], bytes => ⟨bytes, none, []⟩
  | .fails .interrupted :: answers, bytes => writeLoop answers bytes
  | .fails kind :: answers, _ => ⟨[], some kind, answers⟩
  | .takes 0 :: answers, _ => ⟨[], some .writeZero, answers⟩
  | .takes (count + 1) :: answers, bytes =>
    let run := writeLoop answers (bytes.drop (count + 1))
    { run with taken := bytes.take (count + 1) ++ run.taken }

def writeAll (bytes : List UInt8) : Exiting Wire IoKind Unit := fun wire =>
  let run := writeLoop wire.writes bytes
  let wire := { wire with writes := run.answers, sent := wire.sent ++ run.taken }
  match run.error with
  | none => (.ok (), wire)
  | some kind => (.error kind, wire)

/-! ## Errors -/

def shortIoKind : IoKind → String
  | .connectionRefused => "connection refused"
  | .timedOut => "timed out"
  | .wouldBlock => "would block"
  | .notFound => "not found"
  | .permissionDenied => "permission denied"
  | .connectionReset => "connection reset"
  | .connectionAborted => "connection aborted"
  | .unexpectedEof => "unexpected EOF"
  | .brokenPipe | .writeZero | .interrupted | .other => "I/O error"

def isTimeoutKind (kind : IoKind) : Bool := kind == .timedOut || kind == .wouldBlock

def isUncertainKind (kind : IoKind) : Bool :=
  kind == .connectionReset || kind == .connectionAborted || kind == .brokenPipe ||
    kind == .unexpectedEof

def remainingTimeout (allowanceMs : Nat) : ProviderError :=
  .timeout allowanceMs (satAdd allowanceMs 1)

inductive TimeoutArm where
  | read
  | write
  deriving DecidableEq

def mapArmError (provider : String) (arm : TimeoutArm) (requestSent : Bool) (kind : IoKind) :
    ProviderError :=
  let label := match arm with
    | .read => "read"
    | .write => "write"
  let reason := s!"{label} timeout arm failed: " ++ shortIoKind kind
  if requestSent then .unknown provider reason else .transport provider reason

def mapWriteError (provider : String) (kind : IoKind) (writeMs bodyLen : Nat) (bodyStarted : Bool) :
    ProviderError :=
  if isTimeoutKind kind then remainingTimeout writeMs
  else if bodyStarted ∧ bodyLen > 0 ∧ isUncertainKind kind then
    .unknown provider ("request write failed after send: " ++ shortIoKind kind)
  else .transport provider ("request write failed: " ++ shortIoKind kind)

/-! ## The endpoint -/

/-- Rust `LocalEndpoint`, without the fields no function below reads. -/
structure LocalEndpoint where
  host : String
  port : Nat
  path : String
  providerId : String
  connectTimeoutMs : Nat
  readTimeoutMs : Nat
  apiKey : Option String

def LocalEndpoint.hostLiteral (endpoint : LocalEndpoint) : String :=
  match endpoint.host.toList with
  | '[' :: rest =>
    if rest.getLast? = some ']' then String.ofList rest.dropLast else endpoint.host
  | _ => endpoint.host

/-- `parseIp` says of an address literal whether it is one and whether it is loopback. -/
def LocalEndpoint.socketAddr (parseIp : String → Option Bool) (endpoint : LocalEndpoint) :
    Except ProviderError Unit :=
  if endpoint.host.toLower = "localhost" then .ok ()
  else
    match parseIp endpoint.hostLiteral with
    | some true => .ok ()
    | _ => .error (.transport endpoint.providerId "non-loopback host refused (localhost-only)")

def hostHeaderValue (host : String) : String :=
  if host.toList.head? = some '[' ∧ host.toList.getLast? = some ']' then host
  else if ':' ∈ host.toList then "[" ++ host ++ "]"
  else host

/-- The request head of `http_round_trip`. -/
def requestHead (endpoint : LocalEndpoint) (bodyLen : Nat) : String :=
  "POST " ++ endpoint.path ++ " HTTP/1.1\r\nHost: " ++ hostHeaderValue endpoint.host ++ ":" ++
    toString endpoint.port ++ "\r\nContent-Type: application/json\r\nContent-Length: " ++
    toString bodyLen ++ "\r\nConnection: close\r\n" ++
    (match endpoint.apiKey with
      | some key => "Authorization: Bearer " ++ key ++ "\r\n"
      | none => "") ++ "\r\n"

/-! ## Deadlines -/

def effectiveAllowanceMs (endpointMs remainingMs : Nat) : Nat := max (min endpointMs remainingMs) 1

/-- Rust `operation_allowance_ms`, with `RequestDeadline::remaining_ms`. -/
def operationAllowanceMs (endpointMs deadlineEndMs nowMs : Nat) : Except ProviderError Nat :=
  let remaining := deadlineEndMs - nowMs
  if remaining = 0 then .error (remainingTimeout 0)
  else .ok (effectiveAllowanceMs endpointMs remaining)

/-! ## The response -/

inductive ReadStop where
  | closed
  | overflow
  | failed (kind : IoKind)

/-- What the reads of a response leave behind: the bytes kept, the bytes delivered and the stop. -/
structure ReadRun where
  raw : List UInt8
  delivered : List UInt8
  stop : ReadStop

/-- The loop of `read_bounded`; `raw` are the bytes kept so far. A call delivers at most the buffer,
and where the script has ended the server has closed. -/
def readLoop : List ReadAnswer → List UInt8 → ReadRun
  | [], raw => ⟨raw, raw, .closed⟩
  | .fails kind :: _, raw => ⟨raw, raw, .failed kind⟩
  | .delivers bytes :: answers, raw =>
    let chunk := bytes.take localReadChunk
    if chunk = [] then ⟨raw, raw, .closed⟩
    else if raw.length + chunk.length > receiveCap then ⟨raw, raw ++ chunk, .overflow⟩
    else readLoop answers (raw ++ chunk)

/-- How `read_bounded` reports the end of its loop. -/
def readOutcome (provider : String) (readMs : Nat) (run : ReadRun) :
    Except ProviderError (List UInt8) :=
  match run.stop with
  | .overflow => .error (.transport provider s!"response over-large (max {maxLocalResponseBytes})")
  | .failed kind =>
    if isTimeoutKind kind then .error (remainingTimeout readMs)
    else if run.raw = [] then
      .error (.transport provider ("response read failed: " ++ shortIoKind kind))
    else .error (.unknown provider ("response truncated: " ++ shortIoKind kind))
  | .closed =>
    if run.raw = [] then .error (.transport provider "empty response") else .ok run.raw

def readBounded (provider : String) (readMs : Nat) : Exiting Wire ProviderError (List UInt8) :=
  fun wire =>
    let run := readLoop wire.reads []
    (readOutcome provider readMs run, { wire with reads := [], received := run.delivered })

def headTerminator : List UInt8 := [13, 10, 13, 10]

/-- `text.find("\r\n\r\n")`; the pattern is ASCII, so the offset is the same in bytes. -/
def findTerminator : List UInt8 → Option Nat
  | [] => none
  | b :: rest =>
    if headTerminator.isPrefixOf (b :: rest) then some 0 else (findTerminator rest).map (· + 1)

/-- Rust `split_response`, up to the end of the head. -/
def splitResponse (provider : String) (raw : List UInt8) : Except ProviderError Nat :=
  match fromUtf8? raw with
  | none => .error (.transport provider "response is not UTF-8")
  | some _ =>
    match findTerminator raw with
    | some split => .ok split
    | none =>
      if raw.length ≥ maxLocalHeadersBytes then
        .error (.transport provider "response headers over-large")
      else .error (.unknown provider "response truncated before headers")

/-! ## The round trip -/

def scripted (answer : Option IoKind) (mapError : IoKind → ProviderError) :
    Exiting Wire ProviderError Unit :=
  match answer with
  | none => pure ()
  | some kind => exit (mapError kind)

/-- Rust `http_round_trip`, up to the last byte of the request. -/
def sendRequest (parseIp : String → Option Bool) (endpoint : LocalEndpoint) (body : List UInt8)
    (deadlineEndMs : Nat) (net : Network) : Exiting Wire ProviderError Unit := do
  let provider := endpoint.providerId
  attempt fun _ => endpoint.socketAddr parseIp
  let connectBudget ← attempt fun _ =>
    operationAllowanceMs endpoint.connectTimeoutMs deadlineEndMs net.connectNow
  scripted net.connect fun kind =>
    if kind = .timedOut then remainingTimeout connectBudget
    else .transport provider ("connect failed: " ++ shortIoKind kind)
  let writeBudget ← attempt fun _ =>
    operationAllowanceMs endpoint.connectTimeoutMs deadlineEndMs net.writeNow
  scripted net.armWrite fun kind => mapArmError provider .write false kind
  mapExit (fun kind => mapWriteError provider kind writeBudget body.length false)
    (writeAll (utf8Bytes (requestHead endpoint body.length)))
  mapExit (fun kind => mapWriteError provider kind writeBudget body.length true)
    (writeAll body)

/-- Rust `http_round_trip`, behind the request. -/
def receiveResponse (respond : List UInt8 → Nat → Except ProviderError String)
    (endpoint : LocalEndpoint) (deadlineEndMs : Nat) (net : Network) :
    Exiting Wire ProviderError String := do
  let provider := endpoint.providerId
  let readBudget ← attempt fun _ =>
    operationAllowanceMs endpoint.readTimeoutMs deadlineEndMs net.readNow
  scripted net.armRead fun kind => mapArmError provider .read true kind
  let raw ← readBounded provider readBudget
  let split ← attempt fun _ => splitResponse provider raw
  attempt fun _ => respond raw split

def httpRoundTrip (parseIp : String → Option Bool)
    (respond : List UInt8 → Nat → Except ProviderError String) (endpoint : LocalEndpoint)
    (body : List UInt8) (deadlineEndMs : Nat) (net : Network) :
    Exiting Wire ProviderError String := do
  sendRequest parseIp endpoint body deadlineEndMs net
  receiveResponse respond endpoint deadlineEndMs net

def Network.wire (net : Network) : Wire := ⟨net.writes, net.reads, [], []⟩

end BittyAi.Slice
