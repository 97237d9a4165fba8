import StuntDouble.CallFacts
import StuntDouble.Execution

/-!
The facts of the calls of one script run. They are told along with the run, call by call:
from the results of the calls, the bodies that are let go and the clock, never from the
chains. Both chains of the host are made of the facts told so far, at every point of the
run and when it is handed back.
-/
namespace StuntDouble.Script

open RequestLog Files Upstream Machine

/-- The facts of the upstream calls and of the file calls of a run. -/
structure RunFacts where
  upstream : Chain Upstream.Facts
  files : Files.CallLog

/-- The chains of a host are made of these facts. -/
structure HostState.Told (host : HostState) (facts : RunFacts) : Prop where
  calls : host.calls = facts.upstream.map Facts.record
  fileCalls : host.fileCalls = facts.files

section Serving

variable {Url : Type} (env : Server.Env) (world : HostWorld Url)

/-- What one bridge call adds to the facts; a call to another capability adds nothing. -/
def RunFacts.serve (facts : RunFacts) (host : HostState) (call : HostCall) : RunFacts :=
  match call.name with
  | .httpGet =>
    match host.upstream with
    | none => facts
    | some access =>
      { facts with upstream := facts.upstream ++ [getFacts world.lib access
          (world.upstream host.turn) env.elapsedMs call.payload] }
  | .httpPipe =>
    match host.upstream with
    | none => facts
    | some access =>
      let result := (Upstream.pipe world.lib access (world.upstream host.turn) env.elapsedMs
        call.payload host.calls).result
      let upstream := facts.upstream ++ [pipeFacts world.lib access (world.upstream host.turn)
        env.elapsedMs call.payload result]
      match result with
      | .ok _ =>
        { facts with
          upstream := upstream.dropAll env.elapsedMs (world.now host.turn) host.piped }
      | .error _ => { facts with upstream := upstream }
  | .file =>
    match host.files with
    | none => facts
    | some _ =>
      { facts with files := facts.files ++ (fileCalled world.base64 env.elapsedMs
          (world.openFile host.turn) call.payload).toList }
  | .upload =>
    match host.uploads with
    | none => facts
    | some _ =>
      { facts with files := facts.files ++ (uploadCalled world.base64 env.elapsedMs
          (world.uploaded host.turn) call.payload).toList }
  | .state | .validateHeaders | .crypto => facts

/-- The facts behind some calls. -/
def RunFacts.tell (facts : RunFacts) (host : HostState) : List HostCall → RunFacts
  | [] => facts
  | call :: rest =>
    (facts.serve env world host call).tell (host.dispatch env world call).1 rest

/-- The facts when the streams of a host are let go but those that a response keeps. -/
def RunFacts.release (facts : RunFacts) (host : HostState)
    (response : Option (ScriptResponse LivePipe FileBody)) : RunFacts :=
  ⟨facts.upstream.dropAll env.elapsedMs (world.now host.turn)
      (host.piped.filter (fun call => decide (call ∉ pipeKept response))),
    facts.files.dropAll env.elapsedMs (world.now host.turn)
      (host.opened.filter (fun call => decide (call ∉ fileKept response)))⟩

variable {told : RunFacts}

/-- Every bridge call leaves chains that are made of the facts. -/
theorem serve_told (host : HostState) (call : HostCall) (h : host.Told told) :
    (host.dispatch env world call).1.Told (told.serve env world host call) := by
  obtain ⟨hcalls, hfileCalls⟩ := h
  unfold HostState.dispatch RunFacts.serve
  cases call.name with
  | httpGet =>
    cases host.upstream with
    | none => exact ⟨hcalls, hfileCalls⟩
    | some access =>
      refine ⟨?_, hfileCalls⟩
      simp only [get_calls, hcalls, List.map_append, List.map_singleton]
  | httpPipe =>
    cases host.upstream with
    | none => exact ⟨hcalls, hfileCalls⟩
    | some access =>
      have hlogged := pipe_calls world.lib access (world.upstream host.turn) env.elapsedMs
        call.payload host.calls
      simp only
      generalize Upstream.pipe world.lib access (world.upstream host.turn) env.elapsedMs
        call.payload host.calls = called at hlogged ⊢
      obtain ⟨result, logged, requested⟩ := called
      simp only at hlogged
      rw [hcalls] at hlogged
      cases result with
      | ok response =>
        refine ⟨?_, hfileCalls⟩
        simp only [hlogged]
        rw [← renders_record.dropAll, List.map_append, List.map_singleton]
      | error error =>
        refine ⟨?_, hfileCalls⟩
        simp only [hlogged, List.map_append, List.map_singleton]
  | file =>
    cases host.files with
    | none => exact ⟨hcalls, hfileCalls⟩
    | some streams =>
      refine ⟨hcalls, ?_⟩
      simp only [fileCall_calls, hfileCalls]
  | upload =>
    cases host.uploads with
    | none => exact ⟨hcalls, hfileCalls⟩
    | some streams =>
      refine ⟨hcalls, ?_⟩
      simp only [uploadCall_calls, hfileCalls]
  | state => exact ⟨hcalls, hfileCalls⟩
  | validateHeaders => exact ⟨hcalls, hfileCalls⟩
  | crypto => exact ⟨hcalls, hfileCalls⟩

/-- Whatever calls a script makes, the chains are made of the facts. -/
theorem tell_told (host : HostState) (calls : List HostCall) (h : host.Told told) :
    (final (HostState.dispatch env world) host calls).Told (told.tell env world host calls) := by
  induction calls generalizing host told with
  | nil => exact h
  | cons call rest ih => exact ih _ (serve_told env world host call h)

theorem release_told (host : HostState) (response : Option (ScriptResponse LivePipe FileBody))
    (h : host.Told told) :
    (host.takeStreams.2.release env world host.takeStreams.1 response).Told
      (told.release env world host response) := by
  have hpiped : (host.takeStreams.1.1.map (fun pipe => pipe.body.call)).toList = host.piped := by
    simp [HostState.takeStreams, HostState.piped, Function.comp_def]
  refine ⟨?_, ?_⟩
  · simp only [HostState.release, hpiped, RunFacts.release]
    rw [← renders_record.dropAll, ← h.calls]
    rfl
  · simp only [HostState.release, RunFacts.release]
    rw [← h.fileCalls]
    rfl

/-- The facts of a run that began on a host. -/
def Ran.facts (host : HostState) (ran : Ran HostState LivePipe FileBody) : RunFacts :=
  let facts := RunFacts.tell env world ⟨[], []⟩ host ran.pump.served
  if ran.taken then
    facts.release env world (final (HostState.dispatch env world) host ran.pump.served)
      ran.outcome.response
  else facts

/-- The chains that a run ends with are made of its facts. -/
theorem runWorker_told (decode : String → Option Wire) (memoryBounded : Bool)
    (job : ParentMessage) (host : HostState) (process : Process) (h : host.Told ⟨[], []⟩) :
    (runWorker decode (hostOps env world) memoryBounded job host process).pump.host.Told
      ((runWorker decode (hostOps env world) memoryBounded job host process).facts env world
        host) := by
  rcases runWorker_cases decode (hostOps env world) memoryBounded job host process with
    ⟨error, pump, hrun, hled⟩ | ⟨reader, result, pump, -, hrace, -, hrun⟩
  · rw [hrun]
    have htold := tell_told env world host pump.served h
    exact hled ▸ htold
  · obtain ⟨hled, -⟩ := raceDeadline_host decode (hostOps env world) process.fates job host reader
    rw [hrace] at hled
    have htold := tell_told env world host pump.served h
    rw [hrun]
    have hlast : pump.host = final (HostState.dispatch env world) host pump.served := hled
    have hreleased := release_told env world pump.host
      (finishOutcome (hostOps env world) result pump).outcome.response
      (hlast ▸ htold)
    have hserved : (finishOutcome (hostOps env world) result pump).pump.served = pump.served :=
      rfl
    have htaken : (finishOutcome (hostOps env world) result pump).taken = true := rfl
    unfold Ran.facts
    simp only [hserved, htaken, if_true, ← hlast]
    exact hreleased

end Serving

section Handing

variable {Url : Type} (env : Server.Env) (execution : Execution Url)

/-- The entries that a call which is still running has begun. -/
def HostCall.begun (call : HostCall) (entry : Entry) : Entry :=
  match call.name with
  | .httpGet | .httpPipe => ⟨entry.upstream, none⟩
  | .file | .upload => ⟨none, entry.file⟩
  | .state | .validateHeaders | .crypto => ⟨none, none⟩

theorem during_begun (host : HostState) (call : HostCall) (entry : Entry) :
    (host.during call entry).calls = host.calls ++ (call.begun entry).upstream.toList ∧
      (host.during call entry).fileCalls = host.fileCalls ++ (call.begun entry).file.toList := by
  unfold HostState.during HostCall.begun
  cases call.name <;> simp

/-- The facts in the line of a request. A call that was still running when the upstream
calls were copied has only begun its entry. -/
structure LineFacts where
  upstream : Chain Upstream.Facts
  running : Option Upstream.CallRecord
  files : Files.CallLog

/-- The upstream calls of a line. -/
def LineFacts.upstreamCalls (facts : LineFacts) : List Json :=
  facts.upstream.snapshot ++ facts.running.toList.map LogRecord.toJson

def Execution.host (job : Server.ScriptJob) : HostState :=
  .new execution.access (execution.uploads && job.matchKind == "route")

/-- The facts that a run hands back. -/
def Execution.facts (job : Server.ScriptJob) (ran : Ran HostState LivePipe FileBody) :
    LineFacts :=
  let host := ran.pump.host
  let facts := ran.facts env execution.world (execution.host job)
  match ran.pump.orphan with
  | none =>
    ⟨facts.upstream, none,
      facts.files.dropAll env.elapsedMs execution.droppedAt host.opened⟩
  | some call =>
    let served := facts.serve env execution.world host call
    let dropped := served.files.dropAll env.elapsedMs execution.droppedAt
      (host.dispatch env execution.world call).1.opened
    match execution.left with
    | .untilCopy => ⟨served.upstream, none, dropped⟩
    | .untilLine atCopy => ⟨facts.upstream, (call.begun atCopy).upstream, dropped⟩
    | .longer atCopy atLine =>
      ⟨facts.upstream, (call.begun atCopy).upstream,
        facts.files ++ (call.begun atLine).file.toList⟩

theorem told_new (access : Access) (uploads : Bool) :
    (HostState.new access uploads).Told ⟨[], []⟩ := ⟨rfl, rfl⟩

theorem HostState.Told.snapshot {host : HostState} {facts : RunFacts} (h : host.Told facts) :
    host.calls.snapshot = facts.upstream.snapshot := by
  rw [h.calls, snapshot_record]

/-- The chains that a run hands back are made of its facts. -/
theorem withCalls_told (job : Server.ScriptJob) (ran : Ran HostState LivePipe FileBody)
    (h : ran.pump.host.Told (ran.facts env execution.world (execution.host job))) :
    (withCalls env execution ran).upstreamCalls = (execution.facts env job ran).upstreamCalls ∧
      (withCalls env execution ran).fileCalls = (execution.facts env job ran).files := by
  unfold withCalls Execution.facts LineFacts.upstreamCalls
  cases ran.pump.orphan with
  | none =>
    refine ⟨?_, ?_⟩
    · simp [h.snapshot]
    · simp only [HostState.dropFiles, h.fileCalls]
  | some call =>
    have hserved := serve_told env execution.world ran.pump.host call h
    have hrunning (entry : Entry) : (ran.pump.host.during call entry).calls.snapshot =
        (ran.facts env execution.world (execution.host job)).upstream.snapshot ++
          (call.begun entry).upstream.toList.map LogRecord.toJson := by
      rw [(during_begun _ call entry).1, Chain.snapshot, List.map_append]
      congr 1
      exact h.snapshot
    cases execution.left with
    | untilCopy =>
      refine ⟨?_, ?_⟩
      · simp [hserved.snapshot]
      · simp only [HostState.dropFiles, hserved.fileCalls]
    | untilLine atCopy =>
      refine ⟨hrunning atCopy, ?_⟩
      simp only [HostState.dropFiles, hserved.fileCalls]
    | longer atCopy atLine =>
      refine ⟨hrunning atCopy, ?_⟩
      simp only [(during_begun _ call atLine).2, h.fileCalls]

/-- What a script run hands back is made of the facts of the run. -/
theorem ran_told (source : String) (job : Server.ScriptJob) :
    (execution.ran env source job).pump.host.Told
      ((execution.ran env source job).facts env execution.world (execution.host job)) :=
  runWorker_told env execution.world execution.decode execution.memoryBounded _ _
    execution.process (told_new execution.access _)

end Handing

end StuntDouble.Script
