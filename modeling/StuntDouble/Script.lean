import StuntDouble.Json

/-!
What one script run hands back: a response or an error, and the script's log
lines. The two kinds of streamed bodies are type parameters, since nothing here
looks inside them; both tables of opened streams are lists whose claimed slots
are empty.
-/
namespace StuntDouble.Script

inductive Error
  | failed (message : String)
  | timedOut
  | memoryLimitExceeded
  | capacityExceeded
  | workerTerminated
  | noResponse
  | upstreamUnreachable (message kind : String)
deriving DecidableEq, Repr

namespace Error

/-- The stable class used in responses and logs. -/
def className : Error → String
  | .noResponse => "script_no_response"
  | .failed _ | .timedOut | .memoryLimitExceeded | .capacityExceeded | .workerTerminated =>
    "script_error"
  | .upstreamUnreachable _ _ => "upstream_unreachable"

def status : Error → ℕ
  | .upstreamUnreachable _ _ => 502
  | _ => 500

def detail : Error → String
  | .failed _ => "script execution failed"
  | .timedOut => "script exceeded the configured timeout"
  | .memoryLimitExceeded => "script exceeded the configured memory limit"
  | .capacityExceeded => "script worker capacity exhausted"
  | .workerTerminated => "script worker terminated unexpectedly"
  | .noResponse => "script finished without calling ctx.respond"
  | .upstreamUnreachable _ kind =>
    if kind = "timeout" then "upstream transport failure: timeout"
    else if kind = "dns" then "upstream transport failure: dns"
    else "upstream transport failure: transport"

theorem status_eq (e : Error) : e.status = 500 ∨ e.status = 502 := by
  cases e <;> simp [status]

end Error

structure LogRecord where
  level : String
  message : String
deriving DecidableEq, Repr

inductive ResponseBody (Pipe File : Type)
  | text (text : String)
  | bytes (bytes : List ℕ)
  | stream (pipe : Pipe)
  | file (file : File)

structure ScriptResponse (Pipe File : Type) where
  status : ℕ
  headers : List (String × String)
  body : ResponseBody Pipe File

/-- The result of a run, before the call chains are attached to it. -/
structure Outcome (Pipe File : Type) where
  response : Option (ScriptResponse Pipe File)
  logs : List LogRecord
  error : Option Error

def Outcome.failed {Pipe File : Type} (error : Error) : Outcome Pipe File :=
  ⟨none, [], some error⟩

def scriptOutcome {Pipe File : Type} (response : Option (ScriptResponse Pipe File))
    (logs : List LogRecord) (error : Option Error) : Outcome Pipe File :=
  ⟨response, logs, error⟩

/-- The opened streams of one capability; a handle is an index. -/
abbrev Streams (File : Type) := List (Option File)

/-- Claim one opened stream, at most once. -/
def takeStream {File : Type} (streams : Streams File) (handle : ℕ) :
    Option File × Streams File :=
  match streams[handle]? with
  | some (some file) => (some file, streams.set handle none)
  | _ => (none, streams)

end StuntDouble.Script
