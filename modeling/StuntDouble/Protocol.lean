import StuntDouble.Script

/-!
The messages of the worker protocol. Splitting a line into its tag and fields is
the work of the JSON decoder and a parameter of the exchange; what the program
itself decides about a `final_result` is modelled here.
-/
namespace StuntDouble.Script

inductive BridgeName
  | httpGet
  | httpPipe
  | file
  | upload
  | state
  | validateHeaders
  | crypto
deriving DecidableEq, Repr

def BridgeName.asStr : BridgeName → String
  | .httpGet => "__sd_http_get"
  | .httpPipe => "__sd_http_pipe"
  | .file => "__sd_file"
  | .upload => "__sd_upload"
  | .state => "__sd_state"
  | .validateHeaders => "__sd_validate_headers"
  | .crypto => "__sd_crypto"

/-- What the parent writes to the worker. -/
inductive ParentMessage
  | job (script : String) (request : Json) (matchKind : String) (allowedMethods : List String)
  | hostResult (result : Json)

inductive FinalErrorKind
  | memoryLimit
  | timeout
  | dns
  | transport
deriving DecidableEq, Repr

namespace FinalErrorKind

/-- The name of a kind on the wire. -/
def wireName : FinalErrorKind → String
  | .memoryLimit => "memory_limit"
  | .timeout => "timeout"
  | .dns => "dns"
  | .transport => "transport"

def upstreamStr : FinalErrorKind → Option String
  | .memoryLimit => none
  | .timeout => some "timeout"
  | .dns => some "dns"
  | .transport => some "transport"

def fromUpstream (kind : String) : Option FinalErrorKind :=
  [timeout, dns, transport].find? (fun candidate => candidate.upstreamStr == some kind)

def intoError (kind : FinalErrorKind) (message : String) : Error :=
  match kind.upstreamStr with
  | none => .memoryLimitExceeded
  | some name => .upstreamUnreachable message name

def fromName (name : String) : Option FinalErrorKind :=
  [memoryLimit, timeout, dns, transport].find? (fun kind => kind.wireName == name)

/-- A unit variant is its name, or an object from its name to null. -/
def fromValue : Json → Option FinalErrorKind
  | .string name => fromName name
  | .object [(name, .null)] => fromName name
  | _ => none

end FinalErrorKind

structure FinalError where
  kind : Option FinalErrorKind
  message : String
deriving DecidableEq, Repr

namespace FinalError

def intoError (error : FinalError) : Error :=
  match error.kind with
  | some kind => kind.intoError error.message
  | none => .failed error.message

/-- A kind that is present and not null has to be a known one. -/
def kindFromValue : Option Json → Option (Option FinalErrorKind)
  | none | some .null => some none
  | some value => (FinalErrorKind.fromValue value).map some

def fromValue : Json → Option FinalError
  | .object fields =>
    match kindFromValue (fields.lookup "kind"), (fields.lookup "message").bind Json.asStr with
    | some kind, some message => some ⟨kind, message⟩
    | _, _ => none
  | .array [kind, message] =>
    match kindFromValue (some kind), message.asStr with
    | some kind, some message => some ⟨kind, message⟩
    | _, _ => none
  | _ => none

end FinalError

inductive FinalResult
  | success (result : Json)
  | error (error : FinalError)

/-- Exactly one of `result` and `error`, the one that `ok` announces. -/
def FinalResult.deserialize (ok : Bool) (fields : List (String × Json)) : Option FinalResult :=
  match ok, fields.lookup "result", fields.lookup "error" with
  | true, some result, none => some (.success result)
  | false, none, some failure => (FinalError.fromValue failure).map .error
  | _, _, _ => none

/-- A line of the worker, split by the decoder into its tag and its fields. -/
inductive Wire
  | hostCall (name : BridgeName) (payload : Json)
  | finalResult (ok : Bool) (fields : List (String × Json))

inductive WorkerMessage
  | hostCall (name : BridgeName) (payload : Json)
  | finalResult (result : FinalResult)

def WorkerMessage.ofWire : Wire → Option WorkerMessage
  | .hostCall name payload => some (.hostCall name payload)
  | .finalResult ok fields => (FinalResult.deserialize ok fields).map .finalResult

end StuntDouble.Script
