import StuntDouble.Execution
import StuntDouble.FileRelay

/-!
One request from its route to its one log line. A ready body is logged at once; a
streamed one is relayed first, and its line is completed with the chain that the relay
has finalized. A body that is let go on the way finalizes its call in its chain, which
the copy of the upstream calls in the line no longer sees.
-/
namespace StuntDouble.Upstream

open RequestLog

inductive StreamOutcome
  | complete
  | upstreamError
  | clientDisconnected
deriving DecidableEq, Repr

namespace StreamOutcome

def fromChannelClose (bytes : ℕ) (announcedContentLength : Option ℕ) : StreamOutcome :=
  if announcedContentLength = some bytes then .complete else .clientDisconnected

def errorClass : StreamOutcome → Option String
  | .complete => none
  | .upstreamError => some "upstream_stream_error"
  | .clientDisconnected => some "client_disconnected"

end StreamOutcome

/-- Finalize a piped call with the outcome of its body stream. -/
def finishStream (elapsedMs : ℕ → Ms) (now bytes : ℕ) (outcome : StreamOutcome)
    (calls : CallLog) (call : Pending) : CallLog :=
  (call.finishWith elapsedMs now bytes
    (fun record =>
      if outcome = .upstreamError then
        { record with error := some "upstream_stream_error", kind := some "transport" }
      else record) calls).1

end StuntDouble.Upstream

namespace StuntDouble.Server

open Http Matcher RequestLog Files Script

structure AppState where
  routes : List Route
  fallback : Option Configuration.Fallback
  verbose : Bool
  host : String

structure Incoming where
  requestId : String
  method : String
  path : String
  headers : HeaderMap

/-- The readings of the clock: when the request comes in, when a body is let go, when it is
mapped, and when its relay ends. -/
structure Times where
  started : ℕ
  released : ℕ
  mapped : ℕ
  ended : ℕ

structure LogLine where
  requestId : String
  route : String
  method : String
  path : String
  status : ℕ
  error : String
  elapsed : Ms
  requestBodyBytes : Option ℕ
  responseBodyBytes : Option ℕ
  requestHeaders : List (String × String)
  responseHeaders : List (String × String)
  upstreamCalls : List Json
  fileCalls : List Json
  upload : Json
  params : Params
  clientRequestId : Option String
  host : String
  scriptLogs : List Script.LogRecord

/-- What the client gets, and the line that is logged for it. -/
structure Answered where
  status : ℕ
  headers : HeaderMap
  frames : List Bytes
  line : LogLine

section Relay

/-- How the client behaves while a pipe is relayed, by the number of the turn. -/
structure StreamFates where
  closed : ℕ → Bool
  accept : ℕ → Bool

structure Piped where
  frames : List Bytes
  bytes : ℕ
  outcome : Upstream.StreamOutcome

variable (fates : StreamFates) (announced : Option ℕ)

def pipeLoop (turn bytes : ℕ) (frames : List Bytes) : List (Option Bytes) → Piped
  | [] =>
    if fates.closed turn then ⟨frames, bytes, .fromChannelClose bytes announced⟩
    else ⟨frames, bytes, .complete⟩
  | item :: rest =>
    if fates.closed turn then ⟨frames, bytes, .fromChannelClose bytes announced⟩
    else
      match item with
      | none => ⟨frames, bytes, .upstreamError⟩
      | some chunk =>
        if fates.accept turn then
          pipeLoop (turn + 1) (saturatingAdd bytes chunk.length) (frames ++ [chunk]) rest
        else ⟨frames, bytes, .fromChannelClose bytes announced⟩

/-- Relay a piped body, finalize its call, and complete the line of the request. -/
def relayStream (env : Env) (times : Times) (pipe : LivePipe) (line : LogLine) :
    List Bytes × LogLine :=
  let piped := pipeLoop fates announced 0 0 [] pipe.body.stream
  let calls := Upstream.finishStream env.elapsedMs times.ended piped.bytes piped.outcome pipe.calls
    pipe.body.call
  (piped.frames, { line with
    responseBodyBytes := some piped.bytes
    elapsed := env.elapsedMs (times.ended - times.started)
    upstreamCalls := calls.snapshot
    error := piped.outcome.errorClass.getD line.error })

end Relay

section Handle

def requestLogHeaders : List String :=
  ["accept", "content-type", "content-length", "range", "user-agent"]

def responseLogHeaders : List String := ["content-type", "content-length", "content-range"]

/-- The allowed headers that have a text to log. -/
def loggableHeaders (headers : HeaderMap) (allowlist : List String) : List (String × String) :=
  allowlist.filterMap (fun name =>
    match (headers.getAll name).filterMap HeaderValue.toStr with
    | [] => none
    | value :: rest => some (name, Configuration.joined (value :: rest)))

/-- An unsigned 64-bit integer in decimal, perhaps with a plus sign. -/
def parseU64 (text : String) : Option ℕ :=
  match text.toList with
  | '+' :: digits => parseIndex digits
  | digits => parseIndex digits

def announcedContentLength (headers : HeaderMap) : Option ℕ :=
  ((headers.get "content-length").bind HeaderValue.toStr).bind parseU64

variable (env : Env) (state : AppState) (times : Times) (request : Incoming)

def payload (routed : Routed LivePipe) (mapped : Mapped LivePipe) (fileCalls : CallLog) : LogLine :=
  ⟨request.requestId, routed.routeLabel, asciiUpper request.method, request.path, mapped.status,
    mapped.errorClass, env.elapsedMs (times.mapped - times.started), routed.requestBodyBytes,
    mapped.bodyBytes, loggableHeaders request.headers requestLogHeaders,
    loggableHeaders mapped.headers responseLogHeaders, routed.upstreamCalls, fileCalls.snapshot,
    routed.upload, routed.params, (request.headers.get "x-request-id").bind HeaderValue.toStr,
    state.host, routed.scriptLogs⟩

/-- Send a mapped response and log its line: at once, or after the relay of its body. -/
def answer (fates : StreamFates) (fileFates : RelayFates) (routed : Routed LivePipe)
    (mapped : Mapped LivePipe) : Answered :=
  let fileCalls := (mapped.released.map (releaseBody env times.mapped routed.fileCalls)).getD
    routed.fileCalls
  let line := payload env state times request routed mapped fileCalls
  let headers := setHeader env mapped.headers "x-request-id" request.requestId
  match mapped.body with
  | .ready bytes => ⟨mapped.status, headers, [bytes], line⟩
  | .stream pipe =>
    let relayed := relayStream fates (announcedContentLength headers) env times pipe line
    ⟨mapped.status, headers, relayed.1, relayed.2⟩
  | .file file =>
    let relayed := relayFileStream env times.started times.ended file fileFates fileCalls
    ⟨mapped.status, headers, relayed.1.frames, { line with
      responseBodyBytes := some relayed.2.1.responseBodyBytes
      elapsed := relayed.2.1.elapsed
      fileCalls := relayed.2.1.fileCalls
      error := relayed.2.1.error.getD line.error }⟩

/-- Map what a route came to, and answer it; there is no answer when arithmetic on sizes
would wrap. -/
def respond (fates : StreamFates) (fileFates : RelayFates) (routed : Routed LivePipe) :
    Option Answered :=
  (mapHandled env routed.handled request.headers request.requestId state.verbose).map
    (answer env state times request fates fileFates routed)

def handle (run : ScriptJob → ScriptRun LivePipe) (prepare : Params → Preparation)
    (fates : StreamFates) (fileFates : RelayFates) : Option Answered :=
  respond env state times request fates fileFates
    (routeRequest env times.released state.routes state.fallback run prepare request.method
      request.path)

end Handle

section Jobs

/-- The script that a request runs, if it runs one. -/
def requestJob (routes : List Route) (fallback : Option Configuration.Fallback)
    (prepare : Params → Preparation) (method path : String) : Option ScriptJob :=
  match matchRoute routes (asciiUpper method) path with
  | none => fallback.map (fun fallback => ⟨fallback.script, ∅,
      matchKind (allowedMethods routes path), allowedMethods routes path⟩)
  | some found =>
    match routes[found.routeIndex]? with
    | none => none
    | some route =>
      match prepare found.params with
      | .ready _ _ => some ⟨route.script, found.params, "route", []⟩
      | _ => none

/-- How a request is routed: without a script, by the script of its route, or by that of
the fallback, whose response is checked. -/
inductive RoutedBy (env : Env) (now : ℕ) (run : ScriptJob → ScriptRun LivePipe) :
    Option ScriptJob → Routed LivePipe → Prop
  | unrun (label : String) (params : Params) (handled : Handled LivePipe)
      (requestBodyBytes : Option ℕ) (upload : Json)
      (hhandled : ∀ response, handled ≠ .responded response) :
      RoutedBy env now run none (.unrun label params handled requestBodyBytes upload)
  | route (job : ScriptJob) (hkind : job.matchKind = "route") (label : String)
      (requestBodyBytes : Option ℕ) (upload : Json) :
      RoutedBy env now run (some job) (runScriptInner run label job requestBodyBytes upload)
  | fallback (job : ScriptJob) (hkind : job.matchKind ≠ "route") (label : String)
      (requestBodyBytes : Option ℕ) (upload : Json) :
      RoutedBy env now run (some job) (checkFallback env now job.matchKind job.allowedMethods
        (runScriptInner run label job requestBodyBytes upload))

theorem routeRequest_by (env : Env) (now : ℕ) (routes : List Route)
    (fallback : Option Configuration.Fallback) (run : ScriptJob → ScriptRun LivePipe)
    (prepare : Params → Preparation) (method path : String) :
    RoutedBy env now run (requestJob routes fallback prepare method path)
      (routeRequest env now routes fallback run prepare method path) := by
  unfold requestJob routeRequest
  cases matchRoute routes (asciiUpper method) path with
  | none =>
    cases fallback with
    | none => exact .unrun "" ∅ .notFound none _ (by simp)
    | some fallback =>
      have hkind : matchKind (allowedMethods routes path) ≠ "route" := by
        unfold matchKind
        split <;> simp
      exact .fallback ⟨fallback.script, ∅, matchKind (allowedMethods routes path),
        allowedMethods routes path⟩ hkind (fallback.name.getD "fallback") none (uploadLog 0 0 none)
  | some found =>
    simp only
    cases routes[found.routeIndex]? with
    | none => exact .unrun "" ∅ .notFound none _ (by simp)
    | some route =>
      simp only
      cases prepare found.params with
      | ready requestBodyBytes upload =>
        exact .route ⟨route.script, found.params, "route", []⟩ rfl _ requestBodyBytes upload
      | upload failure requestBodyBytes =>
        exact .unrun _ found.params (.uploadFailed failure) requestBodyBytes _ (by simp)
      | bodyTooLarge requestBodyBytes =>
        exact .unrun _ found.params .bodyTooLarge requestBodyBytes _ (by simp)
      | elapsed contentLength =>
        exact .unrun _ found.params .requestTimeout contentLength _ (by simp)

end Jobs

section Mapped

variable (env : Env) (requestHeaders : HeaderMap) (requestId : String) (verbose : Bool)

/-- What is not a streamed response is mapped onto a ready body. -/
theorem mapHandled_ready (handled : Handled LivePipe)
    (h : ∀ response, handled = .responded response → isStream response.body = false) :
    ∃ mapped bytes, mapHandled env handled requestHeaders requestId verbose = some mapped ∧
      mapped.body = .ready bytes ∧ mapped.released = none := by
  cases handled with
  | notFound => exact ⟨_, _, rfl, rfl, rfl⟩
  | bodyTooLarge => exact ⟨_, _, rfl, rfl, rfl⟩
  | requestTimeout => exact ⟨_, _, rfl, rfl, rfl⟩
  | uploadFailed failure => exact ⟨_, _, rfl, rfl, rfl⟩
  | failed error => exact ⟨_, _, rfl, rfl, rfl⟩
  | responded response =>
    have hbuffered := h response rfl
    simp only [mapHandled]
    unfold mapResponse
    cases responseHeaders env response.headers with
    | error message => exact ⟨_, _, rfl, rfl, by simp [hbuffered]⟩
    | ok headers =>
      cases hbody : response.body with
      | text text =>
        simp only
        exact ⟨_, Utf8.encode text, rfl, rfl, rfl⟩
      | bytes bytes =>
        simp only
        exact ⟨_, bytes.map UInt8.ofNat, rfl, rfl, rfl⟩
      | stream pipe => simp [hbody, isStream] at hbuffered
      | file file => simp [hbody, isStream] at hbuffered

/-- A piped response is relayed when its headers are well formed, and let go otherwise. -/
theorem mapResponse_pipe (response : ScriptResponse LivePipe FileBody) (pipe : LivePipe)
    (hbody : response.body = .stream pipe) :
    ∃ mapped, mapResponse env response requestHeaders requestId verbose = some mapped ∧
      ((∃ message bytes, responseHeaders env response.headers = .error message ∧
          mapped.body = .ready bytes ∧ mapped.released = some (.stream pipe)) ∨
        (∃ headers, responseHeaders env response.headers = .ok headers ∧
          mapped.body = .stream pipe ∧ mapped.released = none)) := by
  unfold mapResponse
  cases responseHeaders env response.headers with
  | error message =>
    exact ⟨_, rfl, Or.inl ⟨message, _, rfl, rfl, by simp [hbody, isStream]⟩⟩
  | ok headers =>
    simp only [hbody]
    exact ⟨_, rfl, Or.inr ⟨headers, rfl, rfl, rfl⟩⟩

/-- A file response is relayed or let go. -/
theorem mapResponse_file (response : ScriptResponse LivePipe FileBody) (file : FileBody)
    (hbody : response.body = .file file) (hsize : file.size < 2 ^ 64) :
    ∃ mapped, mapResponse env response requestHeaders requestId verbose = some mapped ∧
      ((∃ bytes, mapped.body = .ready bytes ∧ mapped.released = some (.file file)) ∨
        ∃ sent, mapped.body = .file sent ∧ sent.call = file.call ∧ mapped.released = none) := by
  unfold mapResponse
  cases responseHeaders env response.headers with
  | error message => exact ⟨_, rfl, Or.inl ⟨_, rfl, by simp [hbody, isStream]⟩⟩
  | ok headers =>
    simp only [hbody]
    unfold mapFileResponse
    by_cases hstatus : response.status ≠ 200
    · rw [if_pos hstatus]
      exact ⟨_, rfl, Or.inl ⟨_, rfl, rfl⟩⟩
    · rw [if_neg hstatus]
      cases framingHeader headers with
      | some name => exact ⟨_, rfl, Or.inl ⟨_, rfl, rfl⟩⟩
      | none =>
        obtain ⟨decision, hdecision, hwithin⟩ := fileDecision_within file.size requestHeaders hsize
        simp only [hdecision]
        cases decision with
        | full => exact ⟨_, rfl, Or.inr ⟨file, rfl, rfl, rfl⟩⟩
        | partialContent start len =>
          obtain ⟨hpos, hinside⟩ := hwithin
          have hstop : checkedAdd start len = some (start + len) := if_pos (by omega)
          have hlast : checkedSub (start + len) 1 = some (start + len - 1) := if_pos (by omega)
          simp only [hstop, Option.bind_some, hlast, Option.map_some]
          exact ⟨_, rfl, Or.inr ⟨_, rfl, rfl, rfl⟩⟩
        | unsatisfiable => exact ⟨_, rfl, Or.inl ⟨_, rfl, rfl⟩⟩

end Mapped

section Answers

variable (env : Env) (state : AppState) (times : Times) (request : Incoming)
  (fates : StreamFates) (fileFates : RelayFates)

/-- Without a streamed response the line has the chains as they were handed over. -/
theorem respond_ready (routed : Routed LivePipe)
    (h : ∀ response, routed.handled = .responded response → isStream response.body = false) :
    ∃ answered, respond env state times request fates fileFates routed = some answered ∧
      answered.line.upstreamCalls = routed.upstreamCalls ∧
        answered.line.fileCalls = routed.fileCalls.snapshot := by
  obtain ⟨mapped, bytes, hmapped, hbody, hreleased⟩ := mapHandled_ready env request.headers
    request.requestId state.verbose routed.handled h
  refine ⟨_, by rw [respond, hmapped, Option.map_some], ?_⟩
  unfold answer
  rw [hbody, hreleased]
  exact ⟨rfl, rfl⟩

/-- The line of a piped response: with headers that are malformed it keeps the copy of the
upstream calls from before the body was let go. -/
theorem respond_pipe (routed : Routed LivePipe) (response : ScriptResponse LivePipe FileBody)
    (pipe : LivePipe) (hhandled : routed.handled = .responded response)
    (hbody : response.body = .stream pipe) :
    ∃ answered, respond env state times request fates fileFates routed = some answered ∧
      answered.line.fileCalls = routed.fileCalls.snapshot ∧
        ((∃ message, responseHeaders env response.headers = .error message ∧
            answered.line.upstreamCalls = routed.upstreamCalls) ∨
          ∃ headers bytes outcome, responseHeaders env response.headers = .ok headers ∧
            answered.line.upstreamCalls = (Upstream.finishStream env.elapsedMs times.ended bytes
              outcome pipe.calls pipe.body.call).snapshot) := by
  obtain ⟨mapped, hmapped, hcases⟩ := mapResponse_pipe env request.headers request.requestId
    state.verbose response pipe hbody
  refine ⟨_, by rw [respond, hhandled, mapHandled, hmapped, Option.map_some], ?_⟩
  unfold answer
  rcases hcases with ⟨message, bytes, hheaders, hready, hreleased⟩ |
    ⟨headers, hheaders, hstream, hreleased⟩
  · rw [hready, hreleased]
    exact ⟨rfl, Or.inl ⟨message, hheaders, rfl⟩⟩
  · rw [hstream, hreleased]
    exact ⟨rfl, Or.inr ⟨headers, _, _, hheaders, rfl⟩⟩

/-- The line of a file response has its call closed, whether it was relayed or let go. -/
theorem respond_file (routed : Routed LivePipe) (response : ScriptResponse LivePipe FileBody)
    (file : FileBody) (hhandled : routed.handled = .responded response)
    (hbody : response.body = .file file) (hsize : file.size < 2 ^ 64)
    (howned : routed.fileCalls.Owned [file.call]) :
    ∃ answered, respond env state times request fates fileFates routed = some answered ∧
      answered.line.upstreamCalls = routed.upstreamCalls ∧
        ∃ chain : CallLog, chain.Owned [] ∧ answered.line.fileCalls = chain.snapshot := by
  obtain ⟨mapped, hmapped, hcases⟩ := mapResponse_file env request.headers request.requestId
    state.verbose response file hbody hsize
  refine ⟨_, by rw [respond, hhandled, mapHandled, hmapped, Option.map_some], ?_⟩
  unfold answer
  rcases hcases with ⟨bytes, hready, hreleased⟩ | ⟨sent, hsent, hcall, hreleased⟩
  · rw [hready, hreleased]
    exact ⟨rfl, _, howned.finishWith env.elapsedMs times.mapped 0 id (fun _ h => h), rfl⟩
  · rw [hsent, hreleased]
    refine ⟨rfl, _, ?_, rfl⟩
    simp only [hcall]
    exact howned.finishWith env.elapsedMs times.ended _ _ (fun _ h => h)

end Answers

end StuntDouble.Server
