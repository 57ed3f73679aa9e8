import Signatory.Gateway.Embedded
import Signatory.Gateway.Remote
import Signatory.Network
import Signatory.Settings
import Signatory.Text.Digit

/-! Opening the gateway of a network. Each of the two kinds takes options of its own; what an option leaves open is
taken from the environment. -/

namespace Signatory
set_option autoImplicit false

inductive GatewayOption where
  | apiKey
  | timeout
  | pollInterval
  | maxGasLimit
  | clock
  | runtime
  deriving DecidableEq, Repr

structure GatewayOptions where
  /-- The options that are given, be it without a value. -/
  given : List GatewayOption
  apiKey : Option Text
  timeout : Option Number
  pollInterval : Option Number
  maxGasLimit : Option Int
  clock : Option (Nat → Except Error Moment)

/-- Opening something: it may fail, and it may have something to log. -/
abbrev Opening (α : Type) := ExceptT Error (StateM (List LogLine)) α

namespace Opening

/-- A setting with the lines that reading it logged. -/
def setting {α : Type} (r : α × List LogLine) : Opening α := do
  modify (· ++ r.2)
  return r.1

end Opening

namespace GatewayOptions

def check (o : GatewayOptions) (taken : List GatewayOption) : Except Error Unit :=
  if o.given.all taken.contains then .ok () else .error .optionUnknown

/-- The given interval, or else that of the environment. -/
def pollIntervalOr (o : GatewayOptions) (env : Environment) : Opening Number :=
  match o.pollInterval with
  | some interval => return interval
  | none => do return .float (← Opening.setting (Settings.pollInterval env))

/-- The given time limit unless it is zero, or else that of the environment. -/
def timeoutOr (o : GatewayOptions) (env : Environment) : Opening Number :=
  match o.timeout.filter (!·.isZero) with
  | some timeout => return timeout
  | none => do return .float (← Opening.setting (Settings.timeout env))

/-- The given key unless it is empty, or else that of the environment. -/
def apiKeyOr (o : GatewayOptions) (env : Environment) : Option Text :=
  (o.apiKey.filter (!·.isEmpty)) <|> Settings.apiKey env

end GatewayOptions

namespace Embedded

def optionsTaken : List GatewayOption := [.runtime, .maxGasLimit, .clock, .pollInterval]

/-- The key of a service account that nobody controls. -/
def nobodysKey : Engine.RawKey := ⟨List.replicate pairSize 0, .ecdsaP256, .sha3_256⟩

def stillClock : Nat → Except Error Moment := fun _ => .ok ⟨0, some 0⟩

/-- A new engine behind a gateway. The default key of the service account controls the account that the ledger
starts with. -/
def openNew {μ : Type} (suite : CryptoSuite) (runtime : Runtime μ) (memory : μ) (service : Option Account)
    (o : GatewayOptions) (env : Environment) : Opening (Embedded μ × State μ) := do
  o.check optionsTaken
  let key ← (service.elim (.ok nobodysKey) fun a => a.defaultKey.map rawKey : Except Error Engine.RawKey)
  let engine : Engine μ :=
    { suite, runtime
      maxGasLimit := o.maxGasLimit.getD Engine.defaultMaxGasLimit
      clock := o.clock.getD stillClock }
  let state ← (engine.start key memory : Except Error (Engine.State μ))
  return (⟨engine, ← o.pollIntervalOr env⟩, ⟨state, .empty⟩)

end Embedded

/-- The address of a node: a host, a colon and a port of digits. -/
def isNodeAddress (host : Text) : Bool :=
  let port := (host.reverse.takeWhile (!·.is ':')).reverse
  !port.isEmpty && port.all CodePoint.isAnyDigit && port.length + 1 < host.length

structure Channel where
  secure : Bool
  target : Text
  /-- The certificates that a secure channel trusts, in place of those of the system. -/
  roots : Option Bytes

namespace Channel

/-- Largest message, 16 MiB. -/
def maxMessageLength : Nat := 16 * 1024 * 1024

def options : List (Text × Nat) := [
  ("grpc.keepalive_time_ms", 30000), ("grpc.keepalive_timeout_ms", 10000),
  ("grpc.max_send_message_length", maxMessageLength), ("grpc.max_receive_message_length", maxMessageLength)]

/-- The certificates of a secure channel. A file of certificates that cannot be read is an error only where
strictness is demanded. -/
def certificates (env : Environment) (reading : Text → Except Text Bytes) : Opening (Option Bytes) := do
  match Settings.certificatePath env with
  | none => return none
  | some path =>
    match reading path with
    | .ok data => return some data
    | .error reason =>
      modify (· ++ [⟨.warning, (Error.certificate path reason).message⟩])
      if Settings.strictCertificate env then throw (.certificate path reason)
      return none

def create (target : Text) (secure : Bool) (env : Environment) (reading : Text → Except Text Bytes) :
    Opening Channel := do
  let roots ← if secure then certificates env reading else pure none
  return ⟨secure, target, roots⟩

def noSuchFile (path : Text) : Text :=
  .concat ["[Errno 2] No such file or directory: ", Text.Quoted.encode path]

end Channel

namespace Remote

def optionsTaken : List GatewayOption := [.apiKey, .timeout, .pollInterval]

def openNew {ν : Type} (node : Node ν) (network : Network) (o : GatewayOptions) (env : Environment)
    (reading : Text → Except Text Bytes) : Opening (Remote ν × Channel) := do
  o.check optionsTaken
  if !isNodeAddress network.host then throw (.hostAddress network.host)
  let apiKey := o.apiKeyOr env
  let timeout ← o.timeoutOr env
  let pollInterval ← o.pollIntervalOr env
  let channel ← Channel.create network.host network.secure env reading
  return ({ node, host := network.host, secure := network.secure, apiKey, timeout, pollInterval }, channel)

end Remote

end Signatory
