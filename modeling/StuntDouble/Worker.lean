import StuntDouble.Exchange
import StuntDouble.HostRecord

/-!
One worker process from its start to its outcome. The environment says how far
the process gets, what it writes and how it exits; every exit but a complete
result followed by a successful exit of the process is an error.
-/
namespace StuntDouble.Script

open LineReader Machine

/-- The streams of a run that a response may claim: a pipe, and the opened files and uploads. -/
abbrev Held (Pipe File : Type) := Option Pipe × Option (Streams File) × Option (Streams File)

/-- What the parent keeps for one run: its bridges and its streams. Streams that were taken
and that no response claims are released. -/
structure HostOps (H Pipe File : Type) where
  dispatch : H → HostCall → H × Option Json
  takeStreams : H → Held Pipe File × H
  release : H → Held Pipe File → Option (ScriptResponse Pipe File) → H

inductive Spawn
  | started
  | failed
  | timedOut
deriving DecidableEq, Repr

/-- How waiting for the process to exit ends. -/
inductive Exit
  | success
  | failure
  | waitError
  | timedOut
deriving DecidableEq, Repr

/-- A worker as the parent meets it. `jobAssigned` is about the job object of
Windows; no line is read from a standard error that the drain task lost. -/
structure Process where
  executable : Bool
  spawn : Spawn
  jobAssigned : Bool
  stdin : Bool
  stdout : Option Reader
  stderr : Bool
  fates : Fates
  exit : Exit
  stderrLines : Option (List String)

def isAllocatorAbortLine (line : String) : Bool :=
  "memory allocation of ".toList.isPrefixOf line.toList &&
    " failed".toList.isSuffixOf line.toList

def memoryAllocationFailed (stderrLines : Option (List String)) : Bool :=
  (stderrLines.getD []).any isAllocatorAbortLine

/-- `memoryBounded` holds on the platforms that enforce the memory limit. -/
def unexpectedWorkerError (memoryBounded : Bool) (stderrLines : Option (List String)) : Error :=
  if memoryBounded && memoryAllocationFailed stderrLines then .memoryLimitExceeded
  else .workerTerminated

/-- The end of a run: its outcome, the pump, and whether the streams were moved out. -/
structure Ran (H Pipe File : Type) where
  outcome : Outcome Pipe File
  pump : Pump H
  taken : Bool

variable {H Pipe File : Type}

def Ran.failed (error : Error) (pump : Pump H) : Ran H Pipe File :=
  ⟨Outcome.failed error, pump, false⟩

def finishOutcome (ops : HostOps H Pipe File) (result : FinalResult) (pump : Pump H) :
    Ran H Pipe File :=
  match ops.takeStreams pump.host with
  | ((pipe, fileHost, uploadHost), host) =>
    let outcome := match result with
      | .success record => parseHostRecord record pipe fileHost uploadHost
      | .error failure => Outcome.failed failure.intoError
    ⟨outcome, { pump with host := ops.release host (pipe, fileHost, uploadHost) outcome.response },
      true⟩

/-- The exchange, unless the deadline passes before the job is written. -/
def raceDeadline (decode : String → Option Wire) (ops : HostOps H Pipe File) (fates : Fates)
    (job : ParentMessage) (host : H) (reader : Reader) : WorkerReply × Pump H :=
  if fates.elapses 0 then (.timedOut, startPump host)
  else exchange decode ops.dispatch fates job host reader

def runWorker (decode : String → Option Wire) (ops : HostOps H Pipe File) (memoryBounded : Bool)
    (job : ParentMessage) (host : H) (process : Process) : Ran H Pipe File :=
  if process.executable = false then .failed .workerTerminated (startPump host)
  else
    match process.spawn with
    | .timedOut => .failed .timedOut (startPump host)
    | .failed => .failed .workerTerminated (startPump host)
    | .started =>
      if process.jobAssigned = false then .failed .workerTerminated (startPump host)
      else
        match process.stdin, process.stdout, process.stderr with
        | true, some reader, true =>
          match raceDeadline decode ops process.fates job host reader with
          | (.timedOut, pump) => .failed .timedOut pump
          | (.unexpected, pump) =>
            .failed (unexpectedWorkerError memoryBounded process.stderrLines) pump
          | (.final result, pump) =>
            match process.exit with
            | .success => finishOutcome ops result pump
            | .failure => .failed (unexpectedWorkerError memoryBounded process.stderrLines) pump
            | .waitError => .failed .workerTerminated pump
            | .timedOut => .failed .timedOut pump
        | _, _, _ => .failed .workerTerminated (startPump host)

/-- An outcome has a response or an error, and not both. -/
def Outcome.Decided (outcome : Outcome Pipe File) : Prop :=
  (outcome.response.isSome ∧ outcome.error = none) ∨
    (outcome.response = none ∧ outcome.error.isSome)

theorem Outcome.failed_decided (error : Error) :
    (Outcome.failed error : Outcome Pipe File).Decided := Or.inr ⟨rfl, rfl⟩

theorem parseHostRecord_decided (host : Json) (pipeStream : Option Pipe)
    (fileHost uploadHost : Option (Streams File)) :
    (parseHostRecord host pipeStream fileHost uploadHost).Decided := by
  unfold parseHostRecord
  split
  · exact Or.inr ⟨rfl, rfl⟩
  · split
    · exact Or.inr ⟨rfl, rfl⟩
    · simp only
      split
      · exact Or.inr ⟨rfl, rfl⟩
      · exact Or.inl ⟨rfl, rfl⟩

/-- Whatever its reply, an exchange leaves the host where its served calls lead, and only
the deadline leaves a call running. -/
theorem raceDeadline_host (decode : String → Option Wire) (ops : HostOps H Pipe File)
    (fates : Fates) (job : ParentMessage) (host : H) (reader : Reader) :
    (raceDeadline decode ops fates job host reader).2.Led ops.dispatch host ∧
      ((raceDeadline decode ops fates job host reader).1 ≠ .timedOut →
        (raceDeadline decode ops fates job host reader).2.orphan = none) := by
  unfold raceDeadline exchange
  split
  · exact ⟨rfl, fun _ => rfl⟩
  · split
    · exact ⟨rfl, fun _ => rfl⟩
    · exact exchangeLoop_host decode ops.dispatch fates host
        { startPump host with awaits := 1, sent := [job] } reader rfl rfl rfl

/-- A run either fails without touching the streams, or finishes a final result
of a process that exited with success. -/
theorem runWorker_cases (decode : String → Option Wire) (ops : HostOps H Pipe File)
    (memoryBounded : Bool) (job : ParentMessage) (host : H) (process : Process) :
    (∃ error pump, runWorker decode ops memoryBounded job host process = .failed error pump ∧
      pump.Led ops.dispatch host) ∨
      ∃ reader result pump, process.stdout = some reader ∧
        raceDeadline decode ops process.fates job host reader = (.final result, pump) ∧
          process.exit = .success ∧
            runWorker decode ops memoryBounded job host process =
              finishOutcome ops result pump := by
  have hstart : (startPump host).Led ops.dispatch host := rfl
  unfold runWorker
  split
  · exact Or.inl ⟨_, _, rfl, hstart⟩
  · split
    · exact Or.inl ⟨_, _, rfl, hstart⟩
    · exact Or.inl ⟨_, _, rfl, hstart⟩
    · split
      · exact Or.inl ⟨_, _, rfl, hstart⟩
      · split
        · rename_i reader _ hstdout _
          obtain ⟨hreached, -⟩ :=
            raceDeadline_host decode ops process.fates job host reader
          cases hrace : raceDeadline decode ops process.fates job host reader with
          | mk reply pump =>
            rw [hrace] at hreached
            cases reply with
            | timedOut => exact Or.inl ⟨_, _, rfl, hreached⟩
            | unexpected => exact Or.inl ⟨_, _, rfl, hreached⟩
            | final result =>
              cases hexit : process.exit with
              | success => exact Or.inr ⟨reader, result, pump, hstdout, hrace, rfl, rfl⟩
              | failure => exact Or.inl ⟨_, _, rfl, hreached⟩
              | waitError => exact Or.inl ⟨_, _, rfl, hreached⟩
              | timedOut => exact Or.inl ⟨_, _, rfl, hreached⟩
        · exact Or.inl ⟨_, _, rfl, hstart⟩

theorem finishOutcome_decided (ops : HostOps H Pipe File) (result : FinalResult) (pump : Pump H) :
    (finishOutcome ops result pump).outcome.Decided := by
  unfold finishOutcome
  cases result with
  | success record => exact parseHostRecord_decided record _ _ _
  | error failure => exact Outcome.failed_decided failure.intoError

/-- What one exchange owes to the worker's stream: a final result only for a
complete session, whose calls it served in order; and, whatever its reply, no
call but those the stream begins with, none of them behind a final result. -/
structure Faithful (decode : String → Option Wire) (dispatch : H → HostCall → H × Option Json)
    (job : ParentMessage) (host : H) (reader : Reader) (run : WorkerReply × Pump H) : Prop where
  final : ∀ result, run.1 = .final result → ∃ results : List Json, reader.tail = .eof ∧
    Session decode reader.bytes run.2.dispatched result ∧
      outputs dispatch host run.2.dispatched = results.map some ∧
        run.2.sent = job :: results.map .hostResult
  refused : (¬ ∃ calls result, reader.tail = .eof ∧ Session decode reader.bytes calls result) →
    run.1 = .unexpected ∨ run.1 = .timedOut
  beginsWith : BeginsWith decode reader.bytes run.2.dispatched
  nothing_after : ∀ front rest calls result, reader.bytes = front ++ rest →
    Session decode front calls result → newline ∈ front.getLast? → run.2.dispatched <+: calls

theorem startPump_faithful (decode : String → Option Wire)
    (dispatch : H → HostCall → H × Option Json) (job : ParentMessage) (host : H)
    (reader : Reader) (reply : WorkerReply) (hreply : ∀ result, reply ≠ .final result) :
    Faithful decode dispatch job host reader (reply, startPump host) := by
  refine ⟨?_, ?_, .nil _, ?_⟩
  · intro result h
    exact absurd h (hreply result)
  · intro _
    cases reply with
    | final result => exact absurd rfl (hreply result)
    | timedOut => exact Or.inr rfl
    | unexpected => exact Or.inl rfl
  · intro front rest calls result _ _ _
    exact List.nil_prefix

theorem exchange_faithful (decode : String → Option Wire)
    (dispatch : H → HostCall → H × Option Json) (fates : Fates) (job : ParentMessage) (host : H)
    (reader : Reader) :
    Faithful decode dispatch job host reader
      (exchange decode dispatch fates job host reader) := by
  unfold exchange
  by_cases hbreaks : fates.breaks 0 = true
  · rw [if_pos hbreaks]
    exact startPump_faithful decode dispatch job host reader .unexpected (by simp)
  · rw [if_neg hbreaks]
    obtain ⟨dispatched, hbegins, hdispatched⟩ := exchangeLoop_dispatched decode dispatch fates
      { startPump host with awaits := 1, sent := [job] } reader rfl
    have hfinal : ∀ result, (exchangeLoop decode dispatch fates
        { startPump host with awaits := 1, sent := [job] } reader).1 = .final result →
        ∃ (calls : List HostCall) (results : List Json), reader.tail = .eof ∧
          Session decode reader.bytes calls result ∧
          outputs dispatch host calls = results.map some ∧
          (exchangeLoop decode dispatch fates
            { startPump host with awaits := 1, sent := [job] } reader).2.dispatched = calls ∧
          (exchangeLoop decode dispatch fates
            { startPump host with awaits := 1, sent := [job] } reader).2.sent =
            job :: results.map .hostResult :=
      fun result h => exchangeLoop_final decode dispatch fates _ reader result rfl h
    refine ⟨?_, ?_, ?_, ?_⟩
    · intro result h
      obtain ⟨calls, results, htail, hsession, hresults, hcalls, hsent⟩ := hfinal result h
      exact ⟨results, htail, hcalls ▸ hsession, hcalls ▸ hresults, hsent⟩
    · intro hno
      generalize hrun : exchangeLoop decode dispatch fates
        { startPump host with awaits := 1, sent := [job] } reader = run at hfinal ⊢
      obtain ⟨reply, pump⟩ := run
      cases reply with
      | final result =>
        obtain ⟨calls, -, htail, hsession, -⟩ := hfinal result rfl
        exact absurd ⟨calls, result, htail, hsession⟩ hno
      | timedOut => exact Or.inr rfl
      | unexpected => exact Or.inl rfl
    · rw [hdispatched]
      exact hbegins
    · intro front rest calls result hbytes hsession hcomplete
      rw [hdispatched]
      rw [hbytes] at hbegins
      exact hbegins.prefix_of_session decode hsession hcomplete

/-- Every exchange serves exactly the calls of the session it accepts, and a run
hands the parent's streams to a response only after a success record of a
process that exited with success, deciding between response and error. -/
theorem worker_runs_faithful (decode : String → Option Wire) (ops : HostOps H Pipe File)
    (memoryBounded : Bool) (job : ParentMessage) (host : H) :
    (∀ fates reader, Faithful decode ops.dispatch job host reader
      (exchange decode ops.dispatch fates job host reader)) ∧
    (∀ process, (runWorker decode ops memoryBounded job host process).outcome.Decided ∧
      (∀ response, (runWorker decode ops memoryBounded job host process).outcome.response =
          some response →
        ∃ reader record pump, process.stdout = some reader ∧
          raceDeadline decode ops process.fates job host reader =
            (.final (.success record), pump) ∧
          process.exit = .success ∧
          (runWorker decode ops memoryBounded job host process).outcome =
            parseHostRecord record (ops.takeStreams pump.host).1.1
              (ops.takeStreams pump.host).1.2.1 (ops.takeStreams pump.host).1.2.2) ∧
      ((runWorker decode ops memoryBounded job host process).taken = true →
        process.exit = .success ∧ ∃ reader result, process.stdout = some reader ∧
          (raceDeadline decode ops process.fates job host reader).1 = .final result)) := by
  refine ⟨?_, ?_⟩
  · intro fates reader
    exact exchange_faithful decode ops.dispatch fates job host reader
  · intro process
    rcases runWorker_cases decode ops memoryBounded job host process with
      ⟨error, pump, hrun, -⟩ | ⟨reader, result, pump, hstdout, hrace, hexit, hrun⟩
    · rw [hrun]
      refine ⟨Outcome.failed_decided error, ?_, ?_⟩
      · intro response h
        contradiction
      · intro h
        contradiction
    · rw [hrun]
      refine ⟨finishOutcome_decided ops result pump, ?_, ?_⟩
      · intro response h
        cases result with
        | success record => exact ⟨reader, record, pump, hstdout, hrace, hexit, rfl⟩
        | error failure => contradiction
      · intro _
        exact ⟨hexit, reader, result, hstdout, by rw [hrace]⟩

end StuntDouble.Script
