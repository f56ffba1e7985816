/-
BittyAi.Mcp.Error — the bounded names-only errors of `bitty-ai-mcp/src/error.rs`.
-/
import BittyAi.Runtime.Tool

namespace BittyAi.Mcp

open BittyAi.Runtime

def maxErrorTextBytes : Nat := 512
def maxErrorNameBytes : Nat := 128

def boundErrorText (value : String) (maxBytes : Nat) : String :=
  String.ofList ((value.toList.take maxBytes).map scrubChar)

def boundErrorName (value : String) : String := boundErrorText value maxErrorNameBytes

inductive McpStage where
  | config
  | spawn
  | credential
  | handshake
  | listTools
  | callTool
  | frame
  | supervise
  | bridge
  deriving DecidableEq

def McpStage.label : McpStage → String
  | .config => "config"
  | .spawn => "spawn"
  | .credential => "credential"
  | .handshake => "handshake"
  | .listTools => "list-tools"
  | .callTool => "call-tool"
  | .frame => "frame"
  | .supervise => "supervise"
  | .bridge => "bridge"

inductive McpFailure where
  | invalidConfig (reason : String)
  | spawnFailed (program : String)
  | childExited (detail : String)
  | transportClosed
  | credentialMissing (name : String)
  | credentialFailed (name : String)
  | handshakeRejected (detail : String)
  | versionMismatch (expected got : String)
  | noToolCapability
  | capabilityDrift (detail : String)
  | identityMismatch (server : String)
  | frameTooLarge (limit actual : Nat)
  | tooManyPages (limit : Nat)
  | duplicateCursor (cursor : String)
  | duplicateTool (name : String)
  | unknownTool (name : String)
  | allowlistDeny (name : String)
  | authorizerDeny (reason : String)
  | consentDeny (reason : String)
  | tierDeny (reason : String)
  | argumentsTooLarge (limit actual : Nat)
  | resultTooLarge (limit actual : Nat)
  | toolFailed (tool reason : String)
  | effectUnknown (tool reason : String)
  | timeout (timeoutMs : Nat)
  | supervision (detail : String)
  | io (context : String)

def McpFailure.display : McpFailure → String
  | .invalidConfig reason => s!"invalid config: {reason}"
  | .spawnFailed program => s!"failed to spawn '{program}'"
  | .childExited detail => s!"child exited: {detail}"
  | .transportClosed => "transport closed (explicit reconnect required)"
  | .credentialMissing name => s!"credential '{name}' is missing or empty"
  | .credentialFailed name => s!"credential '{name}' helper failed"
  | .handshakeRejected detail => s!"handshake rejected: {detail}"
  | .versionMismatch expected got =>
    s!"protocol version mismatch: expected '{expected}', got '{got}'"
  | .noToolCapability => "server offers no tool capability"
  | .capabilityDrift detail => s!"capability drift: {detail}"
  | .identityMismatch server =>
    s!"server identity mismatch: '{server}' binary digest does not match pin"
  | .frameTooLarge limit actual => s!"frame of {actual} bytes exceeds {limit} byte limit"
  | .tooManyPages limit => s!"tool listing exceeds {limit} pages"
  | .duplicateCursor cursor => s!"tool listing repeated cursor '{cursor}'"
  | .duplicateTool name => s!"duplicate tool: {name}"
  | .unknownTool name => s!"unknown tool: {name}"
  | .allowlistDeny name => s!"tool '{name}' is not allowlisted"
  | .authorizerDeny reason => s!"authorizer denied: {reason}"
  | .consentDeny reason => s!"consent denied: {reason}"
  | .tierDeny reason => s!"tier denied: {reason}"
  | .argumentsTooLarge limit actual =>
    s!"tool arguments of {actual} bytes exceed {limit} byte limit"
  | .resultTooLarge limit actual => s!"tool result of {actual} bytes exceeds {limit} byte limit"
  | .toolFailed tool reason => s!"tool '{tool}' reported failure: {reason}"
  | .effectUnknown tool reason => s!"tool '{tool}' effect unknown: {reason}"
  | .timeout timeoutMs => s!"timed out after {timeoutMs}ms"
  | .supervision detail => s!"supervision: {detail}"
  | .io context => s!"i/o failure: {context}"

structure McpError where
  stage : McpStage
  failure : McpFailure

def McpError.display (error : McpError) : String :=
  let stage := error.stage.label
  let failure := error.failure.display
  s!"mcp {stage}: {failure}"

end BittyAi.Mcp
