import StuntDouble.UpstreamCalls
import StuntDouble.FileAccess
import StuntDouble.StateBridge
import StuntDouble.Server
import StuntDouble.Worker

/-!
The host state of one run: its capabilities, the piped body it keeps and the file
bodies it has opened. Every open entry of the two call chains belongs to a body that
the host keeps; each bridge call and the end of the run preserve this. The servers,
the files, the shared store and the clock are given for every call by its number.
-/
namespace StuntDouble.Script

open RequestLog Files Upstream Machine

/-- What the bridge calls of one run meet; the numbers are those of the calls. -/
structure HostWorld (Url : Type) where
  lib : UrlLibrary Url
  upstream : ℕ → World Url
  openFile : ℕ → String → Opening
  uploaded : ℕ → ℕ → Option Opening
  platform : State.Platform
  store : ℕ → State.SharedState
  crypto : Json → Json
  base64 : Bytes → String
  now : ℕ → ℕ

structure HostState where
  upstream : Option Access
  files : Option (Streams FileBody)
  uploads : Option (Streams FileBody)
  pipe : Option PipeBody
  calls : Upstream.CallLog
  fileCalls : Files.CallLog
  turn : ℕ

/-- A piped body with the chain that its handle points to. -/
structure LivePipe where
  body : PipeBody
  calls : Upstream.CallLog

/-- The opened bodies of a table that no one has claimed. -/
def openBodies (streams : Option (Streams FileBody)) : List FileBody :=
  (streams.getD []).filterMap id

namespace HostState

def new (access : Access) (uploads : Bool) : HostState :=
  ⟨some access, some [], if uploads then some [] else none, none, [], [], 0⟩

/-- The handles of the piped body that the host keeps. -/
def piped (host : HostState) : List Pending := (host.pipe.map PipeBody.call).toList

/-- The file bodies that the host keeps. -/
def bodies (host : HostState) : List FileBody := openBodies host.files ++ openBodies host.uploads

def opened (host : HostState) : List Pending := host.bodies.map FileBody.call

end HostState

section Bridges

/-- Set the member of an object, which is kept in key order. -/
def setMember : List (String × Json) → String → Json → List (String × Json)
  | [], name, value => [(name, value)]
  | (key, old) :: rest, name, value =>
    if name = key then (key, value) :: rest
    else if name < key then (name, value) :: (key, old) :: rest
    else (key, old) :: setMember rest name value

def responseJson (base64 : Bytes → String) (response : Upstream.Response) : Json :=
  .object [("body_base64", .string (base64 response.body)),
    ("headers", .object (response.headers.foldl
      (fun headers header => setMember headers header.1 (.string header.2)) [])),
    ("status", .nat response.status), ("text", .string (Utf8.decodeLossy response.body))]

def pipeJson (response : PipeResponse) : Json :=
  .object [("headers", .array (response.headers.map headerRow)), ("ok", .bool true),
    ("status", .nat response.status)]

def upstreamErrorJson (error : Upstream.Error) : Json :=
  .object [("code", .string error.code), ("kind", Json.opt Json.string error.transportKind),
    ("message", .string error.message), ("ok", .bool false)]

def headerPair : Json → Option (String × String)
  | .array [.string name, .string value] => some (name, value)
  | _ => none

def headerPairs (payload : Json) : Option (List (String × String)) :=
  payload.asArray.bind (fun rows => rows.mapM headerPair)

def validateHeadersJson (env : Server.Env) (payload : Json) : Json :=
  match headerPairs payload with
  | none => failureJson "script_error" "__sd_validate_headers: invalid payload"
  | some pairs =>
    match Server.validatedHeaderPairs env pairs with
    | .ok _ => .object [("ok", .bool true)]
    | .error message => failureJson "script_error" message

end Bridges

section Dispatch

variable {Url : Type} (env : Server.Env) (world : HostWorld Url)

/-- Handle one bridge call; no answer is a missing capability. -/
def HostState.dispatch (host : HostState) (call : HostCall) : HostState × Option Json :=
  let next := { host with turn := host.turn + 1 }
  match call.name with
  | .httpGet =>
    match host.upstream with
    | none => (next, none)
    | some access =>
      let called := Upstream.get world.lib access (world.upstream host.turn) env.elapsedMs
        call.payload host.calls
      ({ next with calls := called.calls },
        some (match called.result with
          | .ok response => .object [("ok", .bool true),
            ("response", responseJson world.base64 response)]
          | .error error => upstreamErrorJson error))
  | .httpPipe =>
    match host.upstream with
    | none => (next, none)
    | some access =>
      let called := Upstream.pipe world.lib access (world.upstream host.turn) env.elapsedMs
        call.payload host.calls
      match called.result with
      | .ok response =>
        ({ next with
            calls := called.calls.dropAll env.elapsedMs (world.now host.turn) host.piped
            pipe := some response.body },
          some (pipeJson response))
      | .error error => ({ next with calls := called.calls }, some (upstreamErrorJson error))
  | .file =>
    match host.files with
    | none => (next, none)
    | some streams =>
      let called := fileCall world.base64 env.elapsedMs (world.openFile host.turn) call.payload
        streams host.fileCalls
      ({ next with files := some called.streams, fileCalls := called.calls }, some called.json)
  | .upload =>
    match host.uploads with
    | none =>
      (next, some (failureJson "script_error" "__sd_upload called outside a script request"))
    | some streams =>
      let called := uploadCall world.base64 env.elapsedMs (world.uploaded host.turn) call.payload
        streams host.fileCalls
      ({ next with uploads := some called.streams, fileCalls := called.calls }, some called.json)
  | .state =>
    (next, some (State.dispatchState world.platform (world.store host.turn) (world.now host.turn)
      call.payload).2)
  | .validateHeaders => (next, some (validateHeadersJson env call.payload))
  | .crypto => (next, some (world.crypto call.payload))

/-- Move the streams out of the host. -/
def HostState.takeStreams (host : HostState) : Held LivePipe FileBody × HostState :=
  ((host.pipe.map (fun body => ⟨body, host.calls⟩), host.files, host.uploads),
    { host with pipe := none, files := none, uploads := none })

/-- The handle that a response keeps of an upstream call. -/
def pipeKept (response : Option (ScriptResponse LivePipe FileBody)) : List Pending :=
  match response.map ScriptResponse.body with
  | some (.stream pipe) => [pipe.body.call]
  | _ => []

/-- The handle that a response keeps of a file call. -/
def fileKept (response : Option (ScriptResponse LivePipe FileBody)) : List Pending :=
  match response.map ScriptResponse.body with
  | some (.file file) => [file.call]
  | _ => []

/-- Let go of the streams that were moved out and that the response does not keep. -/
def HostState.release (host : HostState) (held : Held LivePipe FileBody)
    (response : Option (ScriptResponse LivePipe FileBody)) : HostState :=
  let now := world.now host.turn
  let piped := (held.1.map (fun pipe => pipe.body.call)).toList
  let opened := (openBodies held.2.1 ++ openBodies held.2.2).map FileBody.call
  { host with
    calls := host.calls.dropAll env.elapsedMs now
      (piped.filter (fun call => decide (call ∉ pipeKept response)))
    fileCalls := host.fileCalls.dropAll env.elapsedMs now
      (opened.filter (fun call => decide (call ∉ fileKept response))) }

def hostOps : HostOps HostState LivePipe FileBody :=
  ⟨HostState.dispatch env world, HostState.takeStreams, HostState.release env world⟩

end Dispatch

section Tracked

/-- The open entries of both chains belong to the bodies that the host keeps. -/
structure HostState.Tracked (host : HostState) : Prop where
  calls : host.calls.Owned host.piped
  fileCalls : host.fileCalls.Owned host.opened
  size_lt : ∀ body ∈ host.bodies, body.size < 2 ^ 64

theorem tracked_new (access : Access) (uploads : Bool) :
    (HostState.new access uploads).Tracked := by
  have hbodies : (HostState.new access uploads).bodies = [] := by cases uploads <;> rfl
  refine ⟨owned_nil, ?_, by simp [hbodies]⟩
  rw [HostState.opened, hbodies]
  exact owned_nil

/-- A file call keeps the table of its capability and the chain in step. -/
theorem effect_owned {streams streams' : Streams FileBody} {calls calls' : Files.CallLog}
    (heffect : Effect streams calls streams' calls') (others : List Pending)
    (h : calls.Owned ((openBodies (some streams)).map FileBody.call ++ others)) :
    calls'.Owned ((openBodies (some streams')).map FileBody.call ++ others) := by
  cases heffect with
  | nothing => exact h
  | closed record hclosed => exact h.closed hclosed
  | opened record hopen body hindex hpending hsize =>
    have hbodies : openBodies (some (streams ++ [some body])) =
        openBodies (some streams) ++ [body] := by simp [openBodies]
    refine (h.opened hopen hindex hpending).perm ?_
    rw [hbodies, List.map_append, List.append_assoc, List.append_assoc]
    exact List.Perm.append_left _ List.perm_append_comm

theorem effect_size {streams streams' : Streams FileBody} {calls calls' : Files.CallLog}
    (heffect : Effect streams calls streams' calls')
    (h : ∀ body ∈ openBodies (some streams), body.size < 2 ^ 64) :
    ∀ body ∈ openBodies (some streams'), body.size < 2 ^ 64 := by
  cases heffect with
  | nothing => exact h
  | closed record hclosed => exact h
  | opened record hopen body hindex hpending hsize =>
    intro other hother
    have hbodies : openBodies (some (streams ++ [some body])) =
        openBodies (some streams) ++ [body] := by simp [openBodies]
    rw [hbodies, List.mem_append, List.mem_singleton] at hother
    rcases hother with hother | rfl
    · exact h other hother
    · exact hsize

variable {Url : Type} (env : Server.Env) (world : HostWorld Url)

/-- Every bridge call preserves the invariant. -/
theorem dispatch_tracked (host : HostState) (call : HostCall) (h : host.Tracked) :
    (host.dispatch env world call).1.Tracked := by
  obtain ⟨upstream, files, uploads, pipe, calls, fileCalls, turn⟩ := host
  obtain ⟨hcalls, hfileCalls, hsize⟩ := h
  unfold HostState.dispatch
  cases call.name with
  | httpGet =>
    cases upstream with
    | none => exact ⟨hcalls, hfileCalls, hsize⟩
    | some access =>
      obtain ⟨record, hrecord, hclosed⟩ := get_chain world.lib access (world.upstream turn)
        env.elapsedMs call.payload calls
      refine ⟨?_, hfileCalls, hsize⟩
      simp only [hrecord]
      exact hcalls.closed hclosed
  | httpPipe =>
    cases upstream with
    | none => exact ⟨hcalls, hfileCalls, hsize⟩
    | some access =>
      obtain ⟨record, hrecord, hresult⟩ := pipe_chain world.lib access (world.upstream turn)
        env.elapsedMs call.payload calls
      simp only
      generalize Upstream.pipe world.lib access (world.upstream turn) env.elapsedMs
        call.payload calls = called at hrecord hresult ⊢
      obtain ⟨result, logged, requested⟩ := called
      obtain rfl : logged = calls ++ [record] := hrecord
      cases result with
      | error error => exact ⟨hcalls.closed hresult, hfileCalls, hsize⟩
      | ok response =>
        obtain ⟨hopen, hcall⟩ := hresult
        have hindex : response.body.call.index = calls.length := by rw [hcall]
        have hpending : response.body.call.finished = false := by rw [hcall]
        refine ⟨?_, hfileCalls, hsize⟩
        exact (hcalls.opened hopen hindex hpending).dropAll (List.Perm.refl _) _ _
  | file =>
    cases files with
    | none => exact ⟨hcalls, hfileCalls, hsize⟩
    | some streams =>
      have heffect := fileCall_effect world.base64 env.elapsedMs (world.openFile turn)
        call.payload streams fileCalls
      simp only [HostState.opened, HostState.bodies, List.map_append] at hfileCalls
      refine ⟨hcalls, ?_, ?_⟩
      · simp only [HostState.opened, HostState.bodies, List.map_append]
        exact effect_owned heffect _ hfileCalls
      · obtain ⟨hfiles, huploads⟩ := List.forall_mem_append.mp hsize
        exact List.forall_mem_append.mpr ⟨effect_size heffect hfiles, huploads⟩
  | upload =>
    cases uploads with
    | none => exact ⟨hcalls, hfileCalls, hsize⟩
    | some streams =>
      have heffect := uploadCall_effect world.base64 env.elapsedMs (world.uploaded turn)
        call.payload streams fileCalls
      simp only [HostState.opened, HostState.bodies, List.map_append] at hfileCalls
      refine ⟨hcalls, ?_, ?_⟩
      · simp only [HostState.opened, HostState.bodies, List.map_append]
        exact (effect_owned heffect _ (hfileCalls.perm List.perm_append_comm)).perm
          List.perm_append_comm
      · obtain ⟨hfiles, huploads⟩ := List.forall_mem_append.mp hsize
        exact List.forall_mem_append.mpr ⟨hfiles, effect_size heffect huploads⟩
  | state => exact ⟨hcalls, hfileCalls, hsize⟩
  | validateHeaders => exact ⟨hcalls, hfileCalls, hsize⟩
  | crypto => exact ⟨hcalls, hfileCalls, hsize⟩

/-- Whatever calls a script makes, the host keeps track of what is open. -/
theorem final_tracked (access : Access) (uploads : Bool) (calls : List HostCall) :
    (final (HostState.dispatch env world) (HostState.new access uploads) calls).Tracked :=
  final_invariant (HostState.dispatch env world) HostState.Tracked (fun _ => True)
    (fun host call _ h => dispatch_tracked env world host call h) _ (tracked_new access uploads)
    calls (fun _ _ => trivial)

/-- A response keeps what is still open, and the host keeps nothing. -/
structure Keeps (ran : Ran HostState LivePipe FileBody)
    (response : ScriptResponse LivePipe FileBody) : Prop where
  orphan : ran.pump.orphan = none
  piped : ran.pump.host.piped = []
  opened : ran.pump.host.opened = []
  calls : ran.pump.host.calls.Owned (pipeKept (some response))
  fileCalls : ran.pump.host.fileCalls.Owned (fileKept (some response))
  chain : ∀ pipe, response.body = .stream pipe → pipe.calls = ran.pump.host.calls
  size_lt : ∀ file, response.body = .file file → file.size < 2 ^ 64

section Kept

variable {ran : Ran HostState LivePipe FileBody} {response : ScriptResponse LivePipe FileBody}

theorem Keeps.calls_stream (h : Keeps ran response) (pipe : LivePipe)
    (hbody : response.body = .stream pipe) : ran.pump.host.calls.Owned [pipe.body.call] := by
  have hkept : pipeKept (some response) = [pipe.body.call] := by simp [pipeKept, hbody]
  have hcalls := h.calls
  rw [hkept] at hcalls
  exact hcalls

theorem Keeps.calls_nil (h : Keeps ran response) (hbody : ∀ pipe, response.body ≠ .stream pipe) :
    ran.pump.host.calls.Owned [] := by
  have hkept : pipeKept (some response) = [] := by
    unfold pipeKept
    split
    · rename_i pipe hpipe
      exact absurd (Option.some.inj hpipe) (hbody pipe)
    · rfl
  have hcalls := h.calls
  rw [hkept] at hcalls
  exact hcalls

theorem Keeps.fileCalls_file (h : Keeps ran response) (file : FileBody)
    (hbody : response.body = .file file) : ran.pump.host.fileCalls.Owned [file.call] := by
  have hkept : fileKept (some response) = [file.call] := by simp [fileKept, hbody]
  have hcalls := h.fileCalls
  rw [hkept] at hcalls
  exact hcalls

theorem Keeps.fileCalls_nil (h : Keeps ran response) (hbody : ∀ file, response.body ≠ .file file) :
    ran.pump.host.fileCalls.Owned [] := by
  have hkept : fileKept (some response) = [] := by
    unfold fileKept
    split
    · rename_i file hfile
      exact absurd (Option.some.inj hfile) (hbody file)
    · rfl
  have hcalls := h.fileCalls
  rw [hkept] at hcalls
  exact hcalls

end Kept

theorem pipeKept_nodup (response : Option (ScriptResponse LivePipe FileBody)) :
    (pipeKept response).Nodup := by
  unfold pipeKept
  split <;> simp

theorem fileKept_nodup (response : Option (ScriptResponse LivePipe FileBody)) :
    (fileKept response).Nodup := by
  unfold fileKept
  split <;> simp

/-- The streams that a response claims are among those that the host held. -/
theorem claims_bodies (host : HostState) (response : ScriptResponse LivePipe FileBody)
    (h : Claims host.takeStreams.1.1 host.takeStreams.1.2.1 host.takeStreams.1.2.2 response.body) :
    (∀ pipe, response.body = .stream pipe →
      host.pipe = some pipe.body ∧ pipe.calls = host.calls) ∧
    ∀ file, response.body = .file file → file ∈ host.bodies := by
  refine ⟨?_, ?_⟩
  · intro pipe hbody
    rw [hbody] at h
    obtain ⟨body, hpipe, rfl⟩ := Option.map_eq_some_iff.mp h
    exact ⟨hpipe, rfl⟩
  · intro file hbody
    rw [hbody] at h
    obtain ⟨streams, hhost, hmem⟩ := h
    have hopen : file ∈ openBodies (some streams) :=
      List.mem_filterMap.mpr ⟨some file, hmem, rfl⟩
    rcases hhost with hhost | hhost
    · rw [← hhost] at hopen
      exact List.mem_append_left _ hopen
    · rw [← hhost] at hopen
      exact List.mem_append_right _ hopen

/-- Releasing what a response does not keep leaves open what it keeps. -/
theorem release_owned (host : HostState) (h : host.Tracked)
    (response : Option (ScriptResponse LivePipe FileBody))
    (hpipe : ∀ pending ∈ pipeKept response, pending ∈ host.piped)
    (hfile : ∀ pending ∈ fileKept response, pending ∈ host.opened) :
    (host.takeStreams.2.release env world host.takeStreams.1 response).calls.Owned
        (pipeKept response) ∧
      (host.takeStreams.2.release env world host.takeStreams.1 response).fileCalls.Owned
        (fileKept response) := by
  have hpiped : (host.takeStreams.1.1.map (fun pipe => pipe.body.call)).toList = host.piped := by
    simp [HostState.takeStreams, HostState.piped, Function.comp_def]
  refine ⟨?_, ?_⟩
  · simp only [HostState.release, hpiped]
    exact h.calls.keep (pipeKept_nodup response) hpipe _ _
  · exact h.fileCalls.keep (fileKept_nodup response) hfile _ _

/-- The end of a run: no response and a host that keeps track of what is open, or a
response that keeps it. -/
def Ended (ran : Ran HostState LivePipe FileBody) : Prop :=
  (ran.outcome.response = none ∧ ran.pump.host.Tracked) ∨
    ∃ response, ran.outcome.response = some response ∧ Keeps ran response

/-- What a response keeps is open in the host that it was read from. -/
theorem kept_open (host : HostState) (response : ScriptResponse LivePipe FileBody)
    (h : Claims host.takeStreams.1.1 host.takeStreams.1.2.1 host.takeStreams.1.2.2
      response.body) :
    (∀ pending ∈ pipeKept (some response), pending ∈ host.piped) ∧
      ∀ pending ∈ fileKept (some response), pending ∈ host.opened := by
  obtain ⟨hpipe, hfile⟩ := claims_bodies host response h
  refine ⟨?_, ?_⟩
  · intro pending hpending
    unfold pipeKept at hpending
    split at hpending
    · rename_i pipe hbody
      obtain rfl := List.mem_singleton.mp hpending
      simp [HostState.piped, (hpipe pipe (Option.some.inj hbody)).1]
    · contradiction
  · intro pending hpending
    unfold fileKept at hpending
    split at hpending
    · rename_i file hbody
      obtain rfl := List.mem_singleton.mp hpending
      exact List.mem_map_of_mem (hfile file (Option.some.inj hbody))
    · contradiction

theorem finishOutcome_ended (result : FinalResult) (pump : Pump HostState)
    (h : pump.host.Tracked) (horphan : pump.orphan = none) :
    Ended (finishOutcome (hostOps env world) result pump) := by
  generalize hran : finishOutcome (hostOps env world) result pump = ran
  have hhost : ran.pump.host = pump.host.takeStreams.2.release env world pump.host.takeStreams.1
      ran.outcome.response := by
    rw [← hran]
    rfl
  have hpump : ran.pump.orphan = none := by
    rw [← hran]
    exact horphan
  have hpiped : ran.pump.host.piped = [] := by
    rw [hhost]
    rfl
  have hopened : ran.pump.host.opened = [] := by
    rw [hhost]
    rfl
  cases hresponse : ran.outcome.response with
  | none =>
    obtain ⟨hcalls, hfileCalls⟩ := release_owned env world pump.host h none
      (by simp [pipeKept]) (by simp [fileKept])
    rw [← hresponse, ← hhost] at hcalls hfileCalls
    rw [hresponse] at hcalls hfileCalls
    refine Or.inl ⟨hresponse, ?_, ?_, ?_⟩
    · rw [hpiped]
      exact hcalls
    · rw [hopened]
      exact hfileCalls
    · rw [List.map_eq_nil_iff.mp hopened]
      simp
  | some response =>
    have hclaims : Claims pump.host.takeStreams.1.1 pump.host.takeStreams.1.2.1
        pump.host.takeStreams.1.2.2 response.body := by
      rw [← hran] at hresponse
      cases result with
      | success record => exact parseHostRecord_claims record _ _ _ response hresponse
      | error failure => contradiction
    obtain ⟨hpipe, hfile⟩ := claims_bodies pump.host response hclaims
    obtain ⟨hpipeKept, hfileKept⟩ := kept_open pump.host response hclaims
    obtain ⟨hcalls, hfileCalls⟩ := release_owned env world pump.host h
      (some response) hpipeKept hfileKept
    rw [← hresponse, ← hhost] at hcalls hfileCalls
    rw [hresponse] at hcalls hfileCalls
    refine Or.inr ⟨response, hresponse, hpump, hpiped, hopened, hcalls, hfileCalls, ?_, ?_⟩
    · intro pipe hbody
      obtain ⟨hheld, hchain⟩ := hpipe pipe hbody
      rw [hhost, hresponse, hchain]
      simp [HostState.release, HostState.takeStreams, hheld, pipeKept, hbody, Chain.dropAll]
    · intro file hbody
      exact h.size_lt file (hfile file hbody)

/-- Every run of a worker ends with all open entries accounted for. -/
theorem runWorker_ended (decode : String → Option Wire) (memoryBounded : Bool)
    (job : ParentMessage) (access : Access) (uploads : Bool) (process : Process) :
    Ended (runWorker decode (hostOps env world) memoryBounded job (HostState.new access uploads)
      process) := by
  rcases runWorker_cases decode (hostOps env world) memoryBounded job
    (HostState.new access uploads) process with
    ⟨error, pump, hrun, hcalls⟩ | ⟨reader, result, pump, -, hrace, -, hrun⟩
  · rw [hrun]
    refine Or.inl ⟨rfl, ?_⟩
    have htracked := final_tracked env world access uploads pump.served
    exact hcalls ▸ htracked
  · rw [hrun]
    obtain ⟨hcalls, horphan⟩ := raceDeadline_host decode (hostOps env world) process.fates
      job (HostState.new access uploads) reader
    rw [hrace] at hcalls horphan
    apply finishOutcome_ended env world result pump
    · have htracked := final_tracked env world access uploads pump.served
      exact hcalls ▸ htracked
    · exact horphan (by simp)

end Tracked

end StuntDouble.Script
