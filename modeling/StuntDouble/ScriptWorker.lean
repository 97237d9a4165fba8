import StuntDouble.Calls
import StuntDouble.Channels
import StuntDouble.ScriptLogs

/-!
The worker process and the run that drives it, as two parties that share two pipes. The script
engine is given: it goes on by itself, calls a bridge, or ends. Bytes are written and read one
at a time in any order of the parties, so that every split into chunks is covered; a pipe
stands together with the buffer of its reader. The worker may die at any moment, and the
deadline may pass at any moment.
-/
namespace StuntDouble.ScriptWorker

open Calls Channels LineReader Script

/-- A native error of the engine, which a script can catch. -/
structure NativeError where
  isType : Bool
  message : String
deriving DecidableEq, Repr

/-- The texts of errors that others make: of the pipes and of the reader of JSON. -/
structure Wording where
  brokenPipe : String
  notUtf8 : String
  parseError : String → String

/-- A script engine: a job starts it, and a bridge that was called hands it a text or throws. -/
structure Engine (E : Type) where
  start : String → Json → String → List String → E
  turn : E → Turn E (BridgeName × Option String) (Except Error Json)
  resume : E → Except NativeError String → E

section Bridges

variable (floatText : UInt64 → String) (parse : List Char → Option Json) (wording : Wording)

/-- The payload of a bridge call, whose argument has to be a text of JSON. -/
def bridgePayload (name : BridgeName) : Option String → Except NativeError Json
  | none => .error ⟨true, name.asStr ++ ": expected a JSON string"⟩
  | some text =>
    match parse text.toList with
    | none => .error ⟨true, name.asStr ++ ": invalid payload: " ++ wording.parseError text⟩
    | some tree => .ok tree.toValue

def hostFault (name : BridgeName) (what : String) : NativeError :=
  ⟨false, name.asStr ++ ": " ++ what⟩

/-- What the worker makes of the line that answers a call. -/
def hostResponse (name : BridgeName) (line : Bytes) : Except NativeError Json :=
  match decodeLine line with
  | .line text =>
    match (parse text.toList).bind ParentMessage.fromTree with
    | none => .error (hostFault name ("invalid host response: " ++ wording.parseError text))
    | some (.hostResult result) => .ok result
    | some (.job _ _ _ _) => .error (hostFault name "expected host_result")
  | .eof => .error (hostFault name "host closed the pipe")
  | .failure | .silent => .error (hostFault name ("host read failed: " ++ wording.notUtf8))

variable {E : Type} (engine : Engine E)

/-- The script as a program that calls the host. A call with a bad argument throws in the
script and never leaves the worker. -/
def scriptProgram : Program E HostCall Json (Except Error Json) where
  turn e :=
    match engine.turn e with
    | .goOn next => .goOn next
    | .ended result => .ended result
    | .call (name, argument) =>
      match bridgePayload parse wording name argument with
      | .error thrown => .goOn (engine.resume e (.error thrown))
      | .ok payload => .call ⟨name, payload⟩
  resume e result := engine.resume e (.ok (result.compact floatText))

/-- The state in which the job of a line starts the engine. -/
def startJob (line : Bytes) : Option E :=
  match decodeLine line with
  | .line text =>
    match (parse text.toList).bind ParentMessage.fromTree with
    | some (.job script request matchKind allowedMethods) =>
      some (engine.start script request matchKind allowedMethods)
    | _ => none
  | _ => none

end Bridges

/-- Where the worker process is. -/
inductive Worker (E : Type)
  | starting (line : Bytes)
  | evaluating (e : E)
  | calling (e : E) (call : HostCall) (left : Bytes)
  | waiting (e : E) (call : HostCall) (line : Bytes)
  | finishing (left : Bytes)
  | returning
  | exited (success : Bool)

/-- Why the parent gives a worker up. -/
inductive Reason
  | timedOut
  | unexpected
  | waitFailed
deriving DecidableEq, Repr

/-- Where the parent is: in the exchange, waiting for the worker to exit, or behind both. -/
inductive Parent
  | sendingJob (left : Bytes)
  | reading (line : Bytes)
  | dispatching (call : HostCall)
  | replying (left : Bytes)
  | reaping (result : FinalResult)
  | terminating (reason : Reason)
  | returned (outcome : Except Error FinalResult)

/-- What was done so far: the calls that the script made and the results that it was given,
and the calls that the parent dispatched and the results that it got for them. -/
structure Books where
  made : List HostCall
  received : List Json
  dispatched : List HostCall
  answered : List Json

/-- Both parties with their pipes, and a call that still runs after the deadline. -/
structure State (E H : Type) (capacity : ℕ) where
  worker : Worker E
  parent : Parent
  toWorker : Channel UInt8 capacity
  toParent : Channel UInt8 capacity
  host : H
  finalResult : Option FinalResult
  orphan : Option HostCall
  allocatorAbort : Bool
  books : Books

inductive Action
  | compute
  | workerWrite
  | workerRead
  | workerExit
  | crash (allocatorAbort : Bool)
  | parentWrite
  | parentRead
  | serve
  | reap
  | deadline
  | waitError
deriving DecidableEq, Repr

section System

variable (floatText : UInt64 → String) (parse : List Char → Option Json) (wording : Wording)
  {E H : Type} (engine : Engine E) (dispatch : H → HostCall → H × Option Json)
  (memoryBounded : Bool) {capacity : ℕ}

def State.start (job : ParentMessage) (host : H) : State E H capacity where
  worker := .starting []
  parent := .sendingJob (writeLine floatText job.toJson)
  toWorker := Channel.new
  toParent := Channel.new
  host := host
  finalResult := none
  orphan := none
  allocatorAbort := false
  books := ⟨[], [], [], []⟩

/-- The process is gone, and with it its ends of the pipes. -/
def State.exit (s : State E H capacity) (success : Bool) : State E H capacity :=
  { s with
    worker := .exited success
    toParent := s.toParent.finish
    toWorker := s.toWorker.close }

/-- The exchange is over, and with it the parent's ends of the pipes. -/
def State.leave (s : State E H capacity) (parent : Parent) : State E H capacity :=
  { s with
    parent := parent
    toWorker := s.toWorker.finish
    toParent := s.toParent.close }

/-- The engine goes on until the next call of a bridge or its end, which is written out. -/
def State.compute (s : State E H capacity) : Option (State E H capacity) :=
  match s.worker with
  | .evaluating e =>
    match (scriptProgram floatText parse wording engine).turn e with
    | .goOn next => some { s with worker := .evaluating next }
    | .call call =>
      some { s with
        worker := .calling e call
          (writeLine floatText (WorkerMessage.hostCall call.name call.payload).toJson)
        books := { s.books with made := s.books.made ++ [call] } }
    | .ended result =>
      match Prelude.runJob result with
      | none => some (s.exit false)
      | some result =>
        some { s with
          worker := .finishing (writeLine floatText (WorkerMessage.finalResult result).toJson) }
  | _ => none

/-- A call that cannot be written throws in the script; a result that cannot be written is
a failure of the worker. -/
def State.workerWrite (s : State E H capacity) : Option (State E H capacity) :=
  match s.worker with
  | .calling e call (b :: left) =>
    match s.toParent.send b with
    | .accepted next =>
      some { s with
        toParent := next
        worker := if left = [] then .waiting e call [] else .calling e call left }
    | .refused =>
      some { s with
        worker := .evaluating (engine.resume e
          (.error (hostFault call.name ("cannot reach host: " ++ wording.brokenPipe)))) }
    | .full => none
  | .finishing (b :: left) =>
    match s.toParent.send b with
    | .accepted next =>
      some { s with
        toParent := next
        worker := if left = [] then .returning else .finishing left }
    | .refused => some (s.exit false)
    | .full => none
  | _ => none

/-- The job is complete, or there is none. -/
def State.takeJob (s : State E H capacity) (line : Bytes) : State E H capacity :=
  match startJob parse engine line with
  | some e => { s with worker := .evaluating e }
  | none => s.exit false

/-- The answer to a call is complete, or there is none. -/
def State.takeResponse (s : State E H capacity) (e : E) (call : HostCall) (line : Bytes) :
    State E H capacity :=
  match hostResponse parse wording call.name line with
  | .ok result =>
    { s with
      worker := .evaluating ((scriptProgram floatText parse wording engine).resume e result)
      books := { s.books with received := s.books.received ++ [result] } }
  | .error thrown => { s with worker := .evaluating (engine.resume e (.error thrown)) }

def limitFault : String := "protocol line exceeded the size limit"

def State.workerRead (s : State E H capacity) : Option (State E H capacity) :=
  match s.worker with
  | .starting line =>
    match s.toWorker.receive with
    | .empty => none
    | .ended => some (s.takeJob parse engine line)
    | .item b next =>
      match appendProtocolChunk maxProtocolLineBytes line [b] with
      | none => some (State.exit { s with toWorker := next } false)
      | some line =>
        if b = newline then some (State.takeJob parse engine { s with toWorker := next } line)
        else some { s with toWorker := next, worker := .starting line }
  | .waiting e call line =>
    match s.toWorker.receive with
    | .empty => none
    | .ended => some (s.takeResponse floatText parse wording engine e call line)
    | .item b next =>
      match appendProtocolChunk maxProtocolLineBytes line [b] with
      | none =>
        some { s with
          toWorker := next
          worker := .evaluating (engine.resume e
            (.error (hostFault call.name ("host read failed: " ++ limitFault)))) }
      | some line =>
        if b = newline then
          some (State.takeResponse floatText parse wording engine { s with toWorker := next }
            e call line)
        else some { s with toWorker := next, worker := .waiting e call line }
  | _ => none

def State.workerExit (s : State E H capacity) : Option (State E H capacity) :=
  match s.worker with
  | .returning => some (s.exit true)
  | _ => none

/-- The process dies, with or without a line about a failed allocation. -/
def State.crash (s : State E H capacity) (allocatorAbort : Bool) : Option (State E H capacity) :=
  match s.worker with
  | .exited _ => none
  | _ => some { s.exit false with allocatorAbort := s.allocatorAbort || allocatorAbort }

/-- A message that cannot be written ends the exchange. -/
def State.parentWrite (s : State E H capacity) : Option (State E H capacity) :=
  match s.parent with
  | .sendingJob (b :: left) =>
    match s.toWorker.send b with
    | .accepted next =>
      some { s with
        toWorker := next
        parent := if left = [] then .reading [] else .sendingJob left }
    | .refused => some (s.leave (.terminating .unexpected))
    | .full => none
  | .replying (b :: left) =>
    match s.toWorker.send b with
    | .accepted next =>
      some { s with
        toWorker := next
        parent := if left = [] then .reading [] else .replying left }
    | .refused => some (s.leave (.terminating .unexpected))
    | .full => none
  | _ => none

/-- A line of the worker is complete. -/
def State.takeMessage (s : State E H capacity) (line : Bytes) : State E H capacity :=
  match s.finalResult with
  | some _ => s.leave (.terminating .unexpected)
  | none =>
    match WorkerMessage.decode parse line with
    | none => s.leave (.terminating .unexpected)
    | some (.hostCall name payload) =>
      { s with
        parent := .dispatching ⟨name, payload⟩
        books := { s.books with dispatched := s.books.dispatched ++ [⟨name, payload⟩] } }
    | some (.finalResult result) => { s with parent := .reading [], finalResult := some result }

def State.parentRead (s : State E H capacity) : Option (State E H capacity) :=
  match s.parent with
  | .reading line =>
    match s.toParent.receive with
    | .empty => none
    | .ended =>
      match line, s.finalResult with
      | [], none => some (s.leave (.terminating .unexpected))
      | [], some result => some (s.leave (.reaping result))
      | _ :: _, _ => some (s.takeMessage parse line)
    | .item b next =>
      match appendProtocolChunk maxProtocolLineBytes line [b] with
      | none => some (State.leave { s with toParent := next } (.terminating .unexpected))
      | some line =>
        if b = newline then some (State.takeMessage parse { s with toParent := next } line)
        else some { s with toParent := next, parent := .reading line }
  | _ => none

/-- The host serves the call that is dispatched, also when the deadline has passed since. -/
def State.serve (s : State E H capacity) : Option (State E H capacity) :=
  match s.orphan with
  | some call => some { s with host := (dispatch s.host call).1, orphan := none }
  | none =>
    match s.parent with
    | .dispatching call =>
      match dispatch s.host call with
      | (host, none) => some (State.leave { s with host := host } (.terminating .unexpected))
      | (host, some result) =>
        some { s with
          host := host
          parent := .replying (writeLine floatText (ParentMessage.hostResult result).toJson)
          books := { s.books with answered := s.books.answered ++ [result] } }
    | _ => none

def State.deadline (s : State E H capacity) : Option (State E H capacity) :=
  match s.parent with
  | .sendingJob _ | .reading _ | .replying _ => some (s.leave (.terminating .timedOut))
  | .dispatching call =>
    some { s.leave (.terminating .timedOut) with orphan := some call }
  | .reaping _ => some { s with parent := .terminating .timedOut }
  | .terminating _ | .returned _ => none

def State.waitError (s : State E H capacity) : Option (State E H capacity) :=
  match s.parent with
  | .reaping _ => some { s with parent := .terminating .waitFailed }
  | _ => none

/-- Without a result that counts, the memory limit is to blame where it is enforced and the
worker said so. -/
def unexpectedError (allocatorAbort : Bool) : Error :=
  if memoryBounded && allocatorAbort then .memoryLimitExceeded else .workerTerminated

def givenUp (reason : Reason) (allocatorAbort : Bool) : Error :=
  match reason with
  | .timedOut => .timedOut
  | .unexpected => unexpectedError memoryBounded allocatorAbort
  | .waitFailed => .workerTerminated

/-- The parent takes the exit of the worker; one that it gives up it kills. -/
def State.reap (s : State E H capacity) : Option (State E H capacity) :=
  match s.parent with
  | .reaping result =>
    match s.worker with
    | .exited true => some { s with parent := .returned (.ok result) }
    | .exited false =>
      some { s with parent := .returned (.error (unexpectedError memoryBounded s.allocatorAbort)) }
    | _ => none
  | .terminating reason =>
    let dead := match s.worker with
      | .exited _ => s
      | _ => s.exit false
    some { dead with
      parent := .returned (.error (givenUp memoryBounded reason s.allocatorAbort)) }
  | _ => none

def step (s : State E H capacity) : Action → Option (State E H capacity)
  | .compute => s.compute floatText parse wording engine
  | .workerWrite => s.workerWrite wording engine
  | .workerRead => s.workerRead floatText parse wording engine
  | .workerExit => s.workerExit
  | .crash allocatorAbort => s.crash allocatorAbort
  | .parentWrite => s.parentWrite
  | .parentRead => s.parentRead parse
  | .serve => s.serve floatText dispatch
  | .reap => s.reap memoryBounded
  | .deadline => s.deadline
  | .waitError => s.waitError

end System

end StuntDouble.ScriptWorker
