import StuntDouble.Host

/-!
One script run of a request, from its source to the response and the call chains it
hands back. The upstream calls are copied while the host is still alive; the file calls
are handed back as the chain itself, after the host is gone. A bridge call that the
deadline left running keeps the host alive, and how long it goes on is given.
-/
namespace StuntDouble.Script

open RequestLog Files Upstream Machine

/-- The entries that a running call has begun. -/
structure Entry where
  upstream : Option Upstream.CallRecord
  file : Option Files.CallRecord

/-- How long a call that the deadline left running goes on: until the upstream calls are
copied, until the line is written, or longer. -/
inductive Left
  | untilCopy
  | untilLine (atCopy : Entry)
  | longer (atCopy atLine : Entry)

/-- What one script run meets. -/
structure Execution (Url : Type) where
  world : HostWorld Url
  access : Access
  uploads : Bool
  decode : String → Option Wire
  memoryBounded : Bool
  request : Server.ScriptJob → Json
  readToString : String → Except String String
  slot : Bool
  process : Process
  left : Left
  droppedAt : ℕ

/-- The host while a call is running on it. -/
def HostState.during (host : HostState) (call : HostCall) (entry : Entry) : HostState :=
  match call.name with
  | .httpGet | .httpPipe => { host with calls := host.calls ++ entry.upstream.toList }
  | .file | .upload => { host with fileCalls := host.fileCalls ++ entry.file.toList }
  | .state | .validateHeaders | .crypto => host

section Execute

variable {Url : Type} (env : Server.Env) (execution : Execution Url)

/-- Drop the host with the file bodies it keeps. -/
def HostState.dropFiles (host : HostState) : Files.CallLog :=
  host.fileCalls.dropAll env.elapsedMs execution.droppedAt host.opened

def Execution.ran (source : String) (job : Server.ScriptJob) : Ran HostState LivePipe FileBody :=
  runWorker execution.decode (hostOps env execution.world) execution.memoryBounded
    (.job source (execution.request job) job.matchKind job.allowedMethods)
    (.new execution.access (execution.uploads && job.matchKind == "route")) execution.process

/-- Attach the call chains to the outcome of a run. -/
def withCalls (ran : Ran HostState LivePipe FileBody) : Server.ScriptRun LivePipe :=
  let host := ran.pump.host
  match ran.pump.orphan with
  | none => ⟨ran.outcome, host.calls.snapshot, host.dropFiles env execution⟩
  | some call =>
    let served := (host.dispatch env execution.world call).1
    match execution.left with
    | .untilCopy => ⟨ran.outcome, served.calls.snapshot, served.dropFiles env execution⟩
    | .untilLine atCopy =>
      ⟨ran.outcome, (host.during call atCopy).calls.snapshot, served.dropFiles env execution⟩
    | .longer atCopy atLine =>
      ⟨ran.outcome, (host.during call atCopy).calls.snapshot, (host.during call atLine).fileCalls⟩

def executeWithState (source : String) (job : Server.ScriptJob) : Server.ScriptRun LivePipe :=
  withCalls env execution (execution.ran env source job)

/-- Run a script by its path, in a worker slot that is free. -/
def runScript (job : Server.ScriptJob) : Server.ScriptRun LivePipe :=
  match execution.readToString job.script with
  | .error error =>
    ⟨.failed (.failed ("cannot read script " ++ job.script ++ ": " ++ error)), [], []⟩
  | .ok source =>
    if execution.slot then executeWithState env execution source job
    else ⟨.failed .capacityExceeded, [], []⟩

end Execute

section Held

variable {Url : Type} (env : Server.Env) (execution : Execution Url)
  (ran : Ran HostState LivePipe FileBody)

/-- The slot of an upstream call that is still running. -/
def Ran.runningCall : Option ℕ := ran.pump.orphan.map (fun _ => ran.pump.host.calls.length)

/-- The slot of a file call that is still running. -/
def Ran.runningFile : Option ℕ := ran.pump.orphan.map (fun _ => ran.pump.host.fileCalls.length)

/-- The host when the upstream calls are copied. -/
def hostAtCopy : HostState :=
  match ran.pump.orphan, execution.left with
  | some call, .untilCopy => (ran.pump.host.dispatch env execution.world call).1
  | _, _ => ran.pump.host

/-- The host still keeps the piped body of a call that has returned. -/
def PipeHeld : Prop :=
  ∃ call ∈ (hostAtCopy env execution ran).piped, ran.runningCall ≠ some call.index

/-- A running call keeps the host alive with its file bodies when the line is written. -/
def FilesHeld : Prop :=
  (∃ call atCopy atLine, ran.pump.orphan = some call ∧ execution.left = .longer atCopy atLine) ∧
    ran.pump.host.opened ≠ []

end Held

section Spec

variable {Url : Type} (env : Server.Env) (execution : Execution Url)
  {ran : Ran HostState LivePipe FileBody}

theorem during_calls (host : HostState) (call : HostCall) (entry : Entry) :
    (∃ record : Option Upstream.CallRecord,
      (host.during call entry).calls = host.calls ++ record.toList) ∧
    ∃ record : Option Files.CallRecord,
      (host.during call entry).fileCalls = host.fileCalls ++ record.toList := by
  unfold HostState.during
  split
  · exact ⟨⟨entry.upstream, rfl⟩, none, by simp⟩
  · exact ⟨⟨entry.upstream, rfl⟩, none, by simp⟩
  · exact ⟨⟨none, by simp⟩, entry.file, rfl⟩
  · exact ⟨⟨none, by simp⟩, entry.file, rfl⟩
  · exact ⟨⟨none, by simp⟩, none, by simp⟩
  · exact ⟨⟨none, by simp⟩, none, by simp⟩
  · exact ⟨⟨none, by simp⟩, none, by simp⟩

theorem dropFiles_owned (host : HostState) (h : host.Tracked) :
    (host.dropFiles env execution).Owned [] :=
  h.fileCalls.dropAll (by simp) _ _

/-- With a host that keeps only the body of a call that is not running, a copy that a
running call may have added to is accounted for when the host keeps no piped body. -/
theorem during_accounted (host : HostState) (h : host.Tracked) (call : HostCall) (entry : Entry) :
    (Accounted (host.during call entry).calls.snapshot (some host.calls.length) ↔
      host.piped = []) ∧
    (Accounted (host.during call entry).fileCalls.snapshot (some host.fileCalls.length) ↔
      host.opened = []) := by
  obtain ⟨⟨record, hrecord⟩, file, hfile⟩ := during_calls host call entry
  rw [hrecord, hfile]
  exact ⟨h.calls.accounted_running record, h.fileCalls.accounted_running file⟩

theorem piped_eq_nil_iff (host : HostState) (h : host.Tracked) :
    host.piped = [] ↔ ¬ ∃ call ∈ host.piped, some host.calls.length ≠ some call.index := by
  constructor
  · intro hnil
    simp [hnil]
  · intro hnone
    apply List.eq_nil_iff_forall_not_mem.mpr
    intro call hcall
    have hlt := h.calls.index_lt hcall
    apply hnone
    refine ⟨call, hcall, ?_⟩
    simp
    omega

/-- A run without a response accounts for its calls unless the host kept a body too long. -/
theorem withCalls_failed (h : ran.pump.host.Tracked) :
    (Accounted (withCalls env execution ran).upstreamCalls ran.runningCall ↔
      ¬ PipeHeld env execution ran) ∧
    (Accounted (withCalls env execution ran).fileCalls.snapshot ran.runningFile ↔
      ¬ FilesHeld execution ran) := by
  unfold withCalls PipeHeld FilesHeld hostAtCopy Ran.runningCall Ran.runningFile
  cases horphan : ran.pump.orphan with
  | none =>
    refine ⟨?_, ?_⟩
    · simp only [h.calls.accounted_iff]
      simp
    · have haccounted := (dropFiles_owned env execution _ h).accounted none
      simp [haccounted]
  | some call =>
    have hserved : ((ran.pump.host.dispatch env execution.world call).1).Tracked :=
      dispatch_tracked env execution.world ran.pump.host call h
    have hdropped := (dropFiles_owned env execution _ hserved).accounted
      (some ran.pump.host.fileCalls.length)
    cases hleft : execution.left with
    | untilCopy =>
      refine ⟨?_, ?_⟩
      · simp only [hserved.calls.accounted_iff]
        simp
      · simp [hdropped]
    | untilLine atCopy =>
      obtain ⟨hcalls, -⟩ := during_accounted ran.pump.host h call atCopy
      refine ⟨hcalls.trans (piped_eq_nil_iff _ h), ?_⟩
      simp [hdropped]
    | longer atCopy atLine =>
      obtain ⟨hcalls, -⟩ := during_accounted ran.pump.host h call atCopy
      obtain ⟨-, hfiles⟩ := during_accounted ran.pump.host h call atLine
      refine ⟨hcalls.trans (piped_eq_nil_iff _ h), hfiles.trans ?_⟩
      simp

/-- A run with a response hands back chains in which the response's own call is open. -/
theorem withCalls_responded (response : ScriptResponse LivePipe FileBody)
    (h : Keeps ran response) :
    ¬ PipeHeld env execution ran ∧ ¬ FilesHeld execution ran ∧ ran.runningCall = none ∧
      ran.runningFile = none ∧
        (withCalls env execution ran).upstreamCalls = ran.pump.host.calls.snapshot ∧
          (withCalls env execution ran).fileCalls = ran.pump.host.fileCalls := by
  have horphan := h.orphan
  refine ⟨?_, ?_, ?_, ?_, ?_, ?_⟩
  · simp [PipeHeld, hostAtCopy, horphan, h.piped]
  · simp [FilesHeld, horphan]
  · simp [Ran.runningCall, horphan]
  · simp [Ran.runningFile, horphan]
  · simp [withCalls, horphan]
  · simp [withCalls, horphan, HostState.dropFiles, h.opened, Chain.dropAll]

/-- The run of a script ends with all open entries accounted for. -/
theorem ran_ended (source : String) (job : Server.ScriptJob) :
    Ended (execution.ran env source job) :=
  runWorker_ended env execution.world execution.decode execution.memoryBounded _ execution.access _
    execution.process

end Spec

end StuntDouble.Script
