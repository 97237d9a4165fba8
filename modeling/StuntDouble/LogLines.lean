import StuntDouble.RunFacts
import StuntDouble.RequestCalls
import StuntDouble.Uploads

/-!
What the log line of a request depends on. A run of the handler is everything that its
code reads; its facts are the allowed headers, the counts, the class of a failure and the
facts of its calls. Two runs with the same facts write the same line, and the error body
that the engine makes of a failure is a function of its class.
-/
namespace StuntDouble.Upstream

open RequestLog

/-- The facts of a piped call when its body has been relayed. -/
def Facts.finishStream (elapsedMs : ℕ → Ms) (now bytes : ℕ) (outcome : StreamOutcome)
    (calls : Chain Facts) (call : Pending) : Chain Facts :=
  (call.finishWith elapsedMs now bytes
    (fun facts =>
      if outcome = .upstreamError then
        { facts with error := some "upstream_stream_error", kind := some "transport" }
      else facts) calls).1

theorem finishStream_facts (elapsedMs : ℕ → Ms) (now bytes : ℕ) (outcome : StreamOutcome)
    (calls : Chain Facts) (call : Pending) :
    finishStream elapsedMs now bytes outcome (calls.map Facts.record) call =
      (Facts.finishStream elapsedMs now bytes outcome calls call).map Facts.record := by
  apply renders_record.finishWith
  intro facts
  split
  · rfl
  · rfl

theorem finishStream_snapshot (elapsedMs : ℕ → Ms) (now bytes : ℕ) (outcome : StreamOutcome)
    (calls : Chain Facts) (call : Pending) :
    (finishStream elapsedMs now bytes outcome (calls.map Facts.record) call).snapshot =
      (Facts.finishStream elapsedMs now bytes outcome calls call).snapshot := by
  rw [finishStream_facts, snapshot_record]

end StuntDouble.Upstream

namespace StuntDouble.Server

open Http Matcher RequestLog Files Script

section Failures

/-- Why a request did not get the response of a script, or not all of it. -/
inductive Failure
  | notFound
  | bodyTooLarge
  | requestTimeout
  | upload (kind : ParseFailureKind)
  | script (error : Script.Error)
  | clientDisconnected
  | upstreamStream
  | fileStream
deriving DecidableEq

/-- An error without its text. -/
def errorVariant : Script.Error → Script.Error
  | .failed _ => .failed ""
  | .upstreamUnreachable _ kind => .upstreamUnreachable "" kind
  | error => error

namespace Failure

/-- A failure without the texts of its error. -/
def variant : Failure → Failure
  | .script error => .script (errorVariant error)
  | failure => failure

def className : Failure → String
  | notFound => "not_found"
  | bodyTooLarge => "request_body_too_large"
  | requestTimeout => "request_timeout"
  | upload kind => ParseFailure.code ⟨kind, 0, none⟩
  | script error => error.className
  | clientDisconnected => "client_disconnected"
  | upstreamStream => "upstream_stream_error"
  | fileStream => "file_stream_error"

/-- The body that the engine makes of a failure, unless the response has been begun. -/
def body (requestId : String) (verbose : Bool) : Failure → Option Bytes
  | notFound => some (errorBody requestId "not_found" none)
  | bodyTooLarge => some []
  | requestTimeout =>
    some (errorBody requestId "request_timeout"
      (if verbose then some "request body read timeout" else none))
  | upload kind =>
    some (errorBody requestId (ParseFailure.code ⟨kind, 0, none⟩)
      (if verbose then some (ParseFailure.detail ⟨kind, 0, none⟩) else none))
  | script error =>
    some (errorBody requestId error.className (if verbose then some error.detail else none))
  | clientDisconnected | upstreamStream | fileStream => none

theorem className_variant (failure : Failure) : failure.variant.className = failure.className := by
  cases failure with
  | script error => cases error <;> rfl
  | _ => rfl

theorem body_variant (requestId : String) (verbose : Bool) (failure : Failure) :
    failure.variant.body requestId verbose = failure.body requestId verbose := by
  cases failure with
  | script error => cases error <;> rfl
  | _ => rfl

end Failure

variable (env : Env)

/-- Why the engine does not send the response of a script. -/
def rejection (response : ScriptResponse LivePipe FileBody) : Option Script.Error :=
  match responseHeaders env response.headers with
  | .error message => some (.failed message)
  | .ok headers =>
    match response.body with
    | .file _ =>
      if response.status ≠ 200 then
        some (.failed "ctx.respond: a file stream body requires status 200")
      else
        (framingHeader headers).map (fun name =>
          .failed ("ctx.respond: the host owns " ++ name ++ " for file streams"))
    | _ => none

def engineFailure : Handled LivePipe → Option Failure
  | .notFound => some .notFound
  | .bodyTooLarge => some .bodyTooLarge
  | .requestTimeout => some .requestTimeout
  | .uploadFailed failure => some (.upload failure.kind)
  | .failed error => some (.script error)
  | .responded response => (rejection env response).map Failure.script

/-- How the relay of a piped body fails. -/
def pipeFailure : Upstream.StreamOutcome → Option Failure
  | .complete => none
  | .upstreamError => some .upstreamStream
  | .clientDisconnected => some .clientDisconnected

/-- How the relay of a file fails. -/
def fileFailure : StreamOutcome → Option Failure
  | .complete => none
  | .fileError => some .fileStream
  | .clientDisconnected => some .clientDisconnected

theorem pipeFailure_class (outcome : Upstream.StreamOutcome) :
    outcome.errorClass = (pipeFailure outcome).map Failure.className := by
  cases outcome <;> rfl

theorem fileFailure_class (outcome : StreamOutcome) :
    outcome.errorClass = (fileFailure outcome).map Failure.className := by
  cases outcome <;> rfl

/-- What the mapping of a handled request comes to, when it fails or not. -/
structure Maps (requestId : String) (verbose : Bool) (mapped : Mapped LivePipe)
    (failed : Option Failure) : Prop where
  errorClass : mapped.errorClass = (failed.map Failure.className).getD ""
  bodyBytes : ∀ bytes, mapped.body = .ready bytes → mapped.bodyBytes = some bytes.length
  failed : ∀ failure, failed = some failure → ∃ bytes, mapped.body = .ready bytes ∧
    failure.body requestId verbose = some bytes

/-- A body that is still to be relayed is not the one of a failure. -/
theorem Maps.unfailed {requestId : String} {verbose : Bool} {mapped : Mapped LivePipe}
    {failed : Option Failure} (h : Maps requestId verbose mapped failed)
    (hbody : ∀ bytes, mapped.body ≠ .ready bytes) : failed = none := by
  cases failed with
  | none => rfl
  | some failure =>
    obtain ⟨bytes, hready, -⟩ := h.failed failure rfl
    exact absurd hready (hbody bytes)

variable (requestHeaders : HeaderMap) (requestId : String) (verbose : Bool)

theorem maps_failed (error : Script.Error)
    (released : Option (ResponseBody LivePipe FileBody)) :
    Maps requestId verbose
      { (failedMapped error requestId verbose : Mapped LivePipe) with released := released }
      (some (.script error)) := by
  refine ⟨rfl, ?_, ?_⟩
  · intro bytes hbytes
    obtain rfl := MappedBody.ready.inj hbytes
    rfl
  · intro failure hfailure
    obtain rfl := Option.some.inj hfailure
    exact ⟨_, rfl, rfl⟩

/-- A response whose body is ready, and that is not a failure. -/
theorem maps_ready (mapped : Mapped LivePipe) (bytes : Bytes) (hclass : mapped.errorClass = "")
    (hbody : mapped.body = .ready bytes) (hbytes : mapped.bodyBytes = some bytes.length) :
    Maps requestId verbose mapped none := by
  refine ⟨hclass, ?_, nofun⟩
  intro other hother
  obtain rfl := MappedBody.ready.inj (hbody.symm.trans hother)
  exact hbytes

/-- A response whose body is still to be relayed. -/
theorem maps_streamed (mapped : Mapped LivePipe) (hclass : mapped.errorClass = "")
    (hbody : ∀ bytes, mapped.body ≠ .ready bytes) : Maps requestId verbose mapped none :=
  ⟨hclass, fun bytes hbytes => absurd hbytes (hbody bytes), nofun⟩

theorem mapFileResponse_maps (status : ℕ) (headers : HeaderMap) (file : FileBody)
    (mapped : Mapped LivePipe)
    (h : mapFileResponse env status headers file requestHeaders requestId verbose =
      some mapped) :
    Maps requestId verbose mapped
      ((if status ≠ 200 then
        some (.failed "ctx.respond: a file stream body requires status 200")
      else
        (framingHeader headers).map (fun name =>
          .failed ("ctx.respond: the host owns " ++ name ++ " for file streams"))).map
            Failure.script) ∧
      ∀ pipe, mapped.body ≠ .stream pipe := by
  unfold mapFileResponse at h
  by_cases hstatus : status ≠ 200
  · rw [if_pos hstatus] at h ⊢
    obtain rfl := Option.some.inj h
    exact ⟨maps_failed requestId verbose _ _, nofun⟩
  · rw [if_neg hstatus] at h ⊢
    cases hframing : framingHeader headers with
    | some name =>
      rw [hframing] at h
      obtain rfl := Option.some.inj h
      exact ⟨maps_failed requestId verbose _ _, nofun⟩
    | none =>
      simp only [hframing] at h
      cases hdecision : fileDecision file.size requestHeaders with
      | none =>
        rw [hdecision] at h
        contradiction
      | some decision =>
        cases decision with
        | full =>
          simp only [hdecision] at h
          obtain rfl := Option.some.inj h
          exact ⟨maps_streamed requestId verbose _ rfl nofun, nofun⟩
        | partialContent start len =>
          simp only [hdecision] at h
          obtain ⟨last, -, rfl⟩ := Option.map_eq_some_iff.mp h
          exact ⟨maps_streamed requestId verbose _ rfl nofun, nofun⟩
        | unsatisfiable =>
          simp only [hdecision] at h
          obtain rfl := Option.some.inj h
          exact ⟨maps_ready requestId verbose _ [] rfl rfl rfl, nofun⟩

theorem mapResponse_maps (response : ScriptResponse LivePipe FileBody) (mapped : Mapped LivePipe)
    (h : mapResponse env response requestHeaders requestId verbose = some mapped) :
    Maps requestId verbose mapped ((rejection env response).map Failure.script) ∧
      ∀ pipe, mapped.body = .stream pipe → response.body = .stream pipe := by
  unfold mapResponse at h
  unfold rejection
  cases hheaders : responseHeaders env response.headers with
  | error message =>
    simp only [hheaders] at h ⊢
    obtain rfl := Option.some.inj h
    exact ⟨maps_failed requestId verbose (.failed message) _, nofun⟩
  | ok headers =>
    cases hbody : response.body with
    | text text =>
      simp only [hheaders, hbody] at h ⊢
      obtain rfl := Option.some.inj h
      exact ⟨maps_ready requestId verbose _ (Utf8.encode text) rfl rfl rfl, nofun⟩
    | bytes bytes =>
      simp only [hheaders, hbody] at h ⊢
      obtain rfl := Option.some.inj h
      exact ⟨maps_ready requestId verbose _ (bytes.map UInt8.ofNat) rfl rfl rfl, nofun⟩
    | stream pipe =>
      simp only [hheaders, hbody] at h ⊢
      obtain rfl := Option.some.inj h
      refine ⟨maps_streamed requestId verbose _ rfl nofun, ?_⟩
      intro other hother
      obtain rfl := MappedBody.stream.inj hother
      rfl
    | file file =>
      simp only [hheaders, hbody] at h ⊢
      obtain ⟨hmaps, hstream⟩ := mapFileResponse_maps env requestHeaders requestId verbose _
        headers file mapped h
      exact ⟨hmaps, fun pipe hpipe => absurd hpipe (hstream pipe)⟩

theorem mapHandled_maps (handled : Handled LivePipe) (mapped : Mapped LivePipe)
    (h : mapHandled env handled requestHeaders requestId verbose = some mapped) :
    Maps requestId verbose mapped (engineFailure env handled) := by
  have hready (failure : Failure) (bytes : Bytes) (mapped : Mapped LivePipe)
      (hclass : mapped.errorClass = failure.className) (hbody : mapped.body = .ready bytes)
      (hbytes : mapped.bodyBytes = some bytes.length)
      (hfailure : failure.body requestId verbose = some bytes) :
      Maps requestId verbose mapped (some failure) := by
    refine ⟨hclass, ?_, ?_⟩
    · intro other hother
      obtain rfl := MappedBody.ready.inj (hbody.symm.trans hother)
      exact hbytes
    · intro other hother
      obtain rfl := Option.some.inj hother
      exact ⟨bytes, hbody, hfailure⟩
  unfold mapHandled at h
  cases handled with
  | notFound =>
    obtain rfl := Option.some.inj h
    exact hready .notFound _ _ rfl rfl rfl rfl
  | bodyTooLarge =>
    obtain rfl := Option.some.inj h
    exact hready .bodyTooLarge _ _ rfl rfl rfl rfl
  | requestTimeout =>
    obtain rfl := Option.some.inj h
    exact hready .requestTimeout _ _ rfl rfl rfl rfl
  | uploadFailed failure =>
    obtain rfl := Option.some.inj h
    exact hready (.upload failure.kind) _ _ rfl rfl rfl rfl
  | failed error =>
    obtain rfl := Option.some.inj h
    exact maps_failed requestId verbose error none
  | responded response => exact (mapResponse_maps env requestHeaders requestId verbose _ _ h).1

/-- A body that is relayed from an upstream is the one of a response. -/
theorem mapHandled_stream (handled : Handled LivePipe) (mapped : Mapped LivePipe)
    (pipe : LivePipe)
    (h : mapHandled env handled requestHeaders requestId verbose = some mapped)
    (hbody : mapped.body = .stream pipe) :
    ∃ response, handled = .responded response ∧ response.body = .stream pipe := by
  unfold mapHandled at h
  cases handled with
  | responded response =>
    exact ⟨response, rfl,
      (mapResponse_maps env requestHeaders requestId verbose _ _ h).2 pipe hbody⟩
  | _ =>
    obtain rfl := Option.some.inj h
    cases hbody

end Failures

section Routing

variable {Url : Type} (env : Env) (execution : Execution Url)

/-- The facts of the calls of a request, when its body is handed over to be mapped: no
fallback streams its response. -/
def routedFacts (now : ℕ) (run : Option (ScriptJob × Ran HostState LivePipe FileBody)) :
    LineFacts :=
  match run with
  | none => ⟨[], none, []⟩
  | some (job, ran) =>
    let facts := execution.facts env job ran
    match ran.outcome.response with
    | none => facts
    | some response =>
      if job.matchKind ≠ "route" ∧ isStream response.body = true then
        { facts with files := releaseBody env now facts.files response.body }
      else facts

/-- What is logged of the script of a request. -/
def scriptLogged (run : Option (ScriptJob × Ran HostState LivePipe FileBody)) :
    List Script.LogRecord :=
  match run with
  | none => []
  | some (_, ran) => ran.outcome.logs

/-- What is handed over is made of the facts; a piped body has the chain of its run, and a
file has a size that the host can count. -/
structure HandsOverFacts (facts : LineFacts) (logs : List Script.LogRecord)
    (routed : Routed LivePipe) : Prop where
  upstreamCalls : routed.upstreamCalls = facts.upstreamCalls
  fileCalls : routed.fileCalls = facts.files
  scriptLogs : routed.scriptLogs = logs
  piped : ∀ response pipe, routed.handled = .responded response → response.body = .stream pipe →
    pipe.calls = facts.upstream.map Upstream.Facts.record ∧ facts.running = none
  sized : ∀ response file, routed.handled = .responded response → response.body = .file file →
    file.size < 2 ^ 64

theorem checkFallback_keeps (now : ℕ) (matchKind : String) (allowedMethods : List String)
    (routed : Routed LivePipe) :
    (checkFallback env now matchKind allowedMethods routed).routeLabel = routed.routeLabel ∧
      (checkFallback env now matchKind allowedMethods routed).params = routed.params ∧
      (checkFallback env now matchKind allowedMethods routed).scriptLogs = routed.scriptLogs ∧
      (checkFallback env now matchKind allowedMethods routed).requestBodyBytes =
        routed.requestBodyBytes ∧
      (checkFallback env now matchKind allowedMethods routed).upload = routed.upload := by
  unfold checkFallback
  split
  · split
    · exact ⟨rfl, rfl, rfl, rfl, rfl⟩
    · split
      · exact ⟨rfl, rfl, rfl, rfl, rfl⟩
      · exact ⟨rfl, rfl, rfl, rfl, rfl⟩
  · exact ⟨rfl, rfl, rfl, rfl, rfl⟩

theorem RoutedBy.scriptLogs {now : ℕ} {run : ScriptJob → ScriptRun LivePipe} {job : ScriptJob}
    {routed : Routed LivePipe} (h : RoutedBy env now run (some job) routed) :
    routed.scriptLogs = (run job).outcome.logs := by
  cases h with
  | route job hkind label requestBodyBytes upload => rfl
  | fallback job hkind label requestBodyBytes upload =>
    exact (checkFallback_keeps env now _ _ _).2.2.1

/-- The body that a response pipes has the chain of its run. -/
theorem facts_piped {job : ScriptJob} {ran : Ran HostState LivePipe FileBody}
    {response : ScriptResponse LivePipe FileBody}
    (htold : ran.pump.host.Told (ran.facts env execution.world (execution.host job)))
    (hkeeps : Keeps ran response) (pipe : LivePipe) (hbody : response.body = .stream pipe) :
    pipe.calls = (execution.facts env job ran).upstream.map Upstream.Facts.record ∧
      (execution.facts env job ran).running = none := by
  unfold Execution.facts
  rw [hkeeps.orphan]
  exact ⟨(hkeeps.chain pipe hbody).trans htold.calls, rfl⟩

section Handover

variable {routed : Routed LivePipe} {facts : LineFacts} {logs : List Script.LogRecord}

/-- A body that is not streamed asks for nothing. -/
theorem handsOver_buffered (hcalls : routed.upstreamCalls = facts.upstreamCalls)
    (hfileCalls : routed.fileCalls = facts.files) (hlogs : routed.scriptLogs = logs)
    (hbuffered : ∀ response, routed.handled = .responded response →
      isStream response.body = false) : HandsOverFacts facts logs routed := by
  refine ⟨hcalls, hfileCalls, hlogs, ?_, ?_⟩
  · intro response pipe hhandled hbody
    have hstream := hbuffered response hhandled
    rw [hbody] at hstream
    cases hstream
  · intro response file hhandled hbody
    have hstream := hbuffered response hhandled
    rw [hbody] at hstream
    cases hstream

theorem handsOver_unanswered (hcalls : routed.upstreamCalls = facts.upstreamCalls)
    (hfileCalls : routed.fileCalls = facts.files) (hlogs : routed.scriptLogs = logs)
    (hhandled : ∀ response, routed.handled ≠ .responded response) :
    HandsOverFacts facts logs routed :=
  handsOver_buffered hcalls hfileCalls hlogs (fun response h => absurd h (hhandled response))

variable {job : ScriptJob} {ran : Ran HostState LivePipe FileBody}

theorem routedFacts_unanswered (now : ℕ) (hresponse : ran.outcome.response = none) :
    routedFacts env execution now (some (job, ran)) = execution.facts env job ran := by
  simp only [routedFacts, hresponse]

theorem routedFacts_answered (now : ℕ) {response : ScriptResponse LivePipe FileBody}
    (hresponse : ran.outcome.response = some response) :
    routedFacts env execution now (some (job, ran)) =
      if job.matchKind ≠ "route" ∧ isStream response.body = true then
        { execution.facts env job ran with
          files := releaseBody env now (execution.facts env job ran).files response.body }
      else execution.facts env job ran := by
  simp only [routedFacts, hresponse]

/-- A route hands the response of its script over as it is. -/
theorem handsOver_route {response : ScriptResponse LivePipe FileBody}
    (htold : ran.pump.host.Told (ran.facts env execution.world (execution.host job)))
    (hkeeps : Keeps ran response)
    (hcalls : routed.upstreamCalls = (execution.facts env job ran).upstreamCalls)
    (hfileCalls : routed.fileCalls = (execution.facts env job ran).files)
    (hlogs : routed.scriptLogs = logs) (hhandled : routed.handled = .responded response) :
    HandsOverFacts (execution.facts env job ran) logs routed := by
  refine ⟨hcalls, hfileCalls, hlogs, ?_, ?_⟩
  · intro other pipe hother hbody
    obtain rfl := Handled.responded.inj (hhandled.symm.trans hother)
    exact facts_piped env execution htold hkeeps pipe hbody
  · intro other file hother hbody
    obtain rfl := Handled.responded.inj (hhandled.symm.trans hother)
    exact hkeeps.size_lt file hbody

/-- A run whose script ended with a response keeps what the response needs. -/
theorem ended_keeps (hended : Ended ran) {response : ScriptResponse LivePipe FileBody}
    (hresponse : ran.outcome.response = some response) : Keeps ran response := by
  rcases hended with ⟨hnone, -⟩ | ⟨other, hother, hkeeps⟩
  · rw [hresponse] at hnone
    contradiction
  · obtain rfl := Option.some.inj (hresponse.symm.trans hother)
    exact hkeeps

/-- What is handed over of a run is made of its facts. -/
theorem RoutedBy.handsOverFacts {now : ℕ} {run : ScriptJob → ScriptRun LivePipe}
    (hrun : run job = withCalls env execution ran)
    (htold : ran.pump.host.Told (ran.facts env execution.world (execution.host job)))
    (hended : Ended ran) (hrouted : RoutedBy env now run (some job) routed) :
    HandsOverFacts (routedFacts env execution now (some (job, ran))) ran.outcome.logs routed := by
  obtain ⟨htoldCalls, htoldFiles⟩ := withCalls_told env execution job ran htold
  have hlogs := hrouted.scriptLogs
  rw [hrun, withCalls_outcome] at hlogs
  cases hresponse : ran.outcome.response with
  | none =>
    obtain ⟨hcalls, hfileCalls, hhandled⟩ := hrouted.failed
      (by rw [hrun, withCalls_outcome, hresponse])
    rw [hrun, htoldCalls] at hcalls
    rw [hrun, htoldFiles] at hfileCalls
    rw [routedFacts_unanswered env execution now hresponse]
    exact handsOver_unanswered hcalls hfileCalls hlogs hhandled
  | some response =>
    obtain ⟨hcalls, hroute, hfallback⟩ := hrouted.responded response
      (by rw [hrun, withCalls_outcome, hresponse])
    rw [hrun, htoldCalls] at hcalls
    rw [hrun, htoldFiles] at hroute hfallback
    rw [routedFacts_answered env execution now hresponse]
    by_cases hkind : job.matchKind = "route"
    · obtain ⟨hhandled, hfileCalls⟩ := hroute hkind
      rw [if_neg (fun h => h.1 hkind)]
      exact handsOver_route env execution htold (ended_keeps hended hresponse) hcalls hfileCalls
        hlogs hhandled
    · obtain ⟨hfileCalls, hbuffered⟩ := hfallback hkind
      by_cases hstream : isStream response.body = true
      · rw [if_pos ⟨hkind, hstream⟩]
        rw [if_pos hstream] at hfileCalls
        exact handsOver_buffered hcalls hfileCalls hlogs hbuffered
      · rw [if_neg (fun h => hstream h.2)]
        rw [if_neg hstream] at hfileCalls
        exact handsOver_buffered hcalls hfileCalls hlogs hbuffered

end Handover

theorem routeRequest_handsOver (now : ℕ) (routes : List Route)
    (fallback : Option Configuration.Fallback) (prepare : Params → Preparation)
    (method path : String) :
    HandsOverFacts
      (routedFacts env execution now
        (scriptRan env execution (requestJob routes fallback prepare method path)))
      (scriptLogged (scriptRan env execution (requestJob routes fallback prepare method path)))
      (routeRequest env now routes fallback (runScript env execution) prepare method path) := by
  have hrouted := routeRequest_by env now routes fallback (runScript env execution) prepare method
    path
  generalize requestJob routes fallback prepare method path = job at hrouted ⊢
  generalize routeRequest env now routes fallback (runScript env execution) prepare method path =
    routed at hrouted ⊢
  cases job with
  | none =>
    cases hrouted with
    | unrun label params handled requestBodyBytes upload hhandled =>
      exact handsOver_unanswered rfl rfl rfl hhandled
  | some job =>
    rcases runScript_cases env execution job with ⟨error, hrun, hran⟩ | ⟨source, hrun, hran⟩
    · have hlogs := hrouted.scriptLogs
      obtain ⟨hcalls, hfileCalls, hhandled⟩ := hrouted.failed (by rw [hrun]; rfl)
      rw [hrun] at hcalls hfileCalls hlogs
      rw [hran]
      exact handsOver_unanswered hcalls hfileCalls hlogs hhandled
    · rw [hran]
      exact hrouted.handsOverFacts env execution hrun (ran_told env execution source job)
        (ran_ended env execution source job)

end Routing

section Routed

variable (env : Env)

theorem runFallback_same (now now' : ℕ) (run run' : ScriptJob → ScriptRun LivePipe)
    (fallback : Configuration.Fallback) (matchKind : String) (allowedMethods : List String) :
    (runFallback env now run fallback matchKind allowedMethods).routeLabel =
        (runFallback env now' run' fallback matchKind allowedMethods).routeLabel ∧
      (runFallback env now run fallback matchKind allowedMethods).params =
        (runFallback env now' run' fallback matchKind allowedMethods).params ∧
      (runFallback env now run fallback matchKind allowedMethods).requestBodyBytes =
        (runFallback env now' run' fallback matchKind allowedMethods).requestBodyBytes ∧
      (runFallback env now run fallback matchKind allowedMethods).upload =
        (runFallback env now' run' fallback matchKind allowedMethods).upload := by
  unfold runFallback
  obtain ⟨hlabel, hparams, -, hbytes, hupload⟩ := checkFallback_keeps env now matchKind
    allowedMethods (runScriptInner run (fallback.name.getD "fallback")
      ⟨fallback.script, ∅, matchKind, allowedMethods⟩ none (uploadLog 0 0 none))
  obtain ⟨hlabel', hparams', -, hbytes', hupload'⟩ := checkFallback_keeps env now' matchKind
    allowedMethods (runScriptInner run' (fallback.name.getD "fallback")
      ⟨fallback.script, ∅, matchKind, allowedMethods⟩ none (uploadLog 0 0 none))
  exact ⟨hlabel.trans hlabel'.symm, hparams.trans hparams'.symm, hbytes.trans hbytes'.symm,
    hupload.trans hupload'.symm⟩

/-- What is logged of the route and of the body does not depend on the script. -/
theorem routeRequest_same (now now' : ℕ) (routes : List Route)
    (fallback : Option Configuration.Fallback) (run run' : ScriptJob → ScriptRun LivePipe)
    (prepare : Params → Preparation) (method path : String) :
    (routeRequest env now routes fallback run prepare method path).routeLabel =
        (routeRequest env now' routes fallback run' prepare method path).routeLabel ∧
      (routeRequest env now routes fallback run prepare method path).params =
        (routeRequest env now' routes fallback run' prepare method path).params ∧
      (routeRequest env now routes fallback run prepare method path).requestBodyBytes =
        (routeRequest env now' routes fallback run' prepare method path).requestBodyBytes ∧
      (routeRequest env now routes fallback run prepare method path).upload =
        (routeRequest env now' routes fallback run' prepare method path).upload := by
  unfold routeRequest
  cases matchRoute routes (asciiUpper method) path with
  | none =>
    cases fallback with
    | none => exact ⟨rfl, rfl, rfl, rfl⟩
    | some fallback => exact runFallback_same env now now' run run' fallback _ _
  | some found =>
    simp only
    cases routes[found.routeIndex]? with
    | none => exact ⟨rfl, rfl, rfl, rfl⟩
    | some route =>
      simp only
      cases prepare found.params with
      | ready requestBodyBytes upload => exact ⟨rfl, rfl, rfl, rfl⟩
      | upload failure requestBodyBytes => exact ⟨rfl, rfl, rfl, rfl⟩
      | bodyTooLarge requestBodyBytes => exact ⟨rfl, rfl, rfl, rfl⟩
      | elapsed contentLength => exact ⟨rfl, rfl, rfl, rfl⟩

end Routed

section Headers

/-- Only the allowed headers are logged. -/
theorem loggableHeaders_congr (headers others : HeaderMap) (allowlist : List String)
    (h : ∀ name ∈ allowlist, headers.getAll name = others.getAll name) :
    loggableHeaders headers allowlist = loggableHeaders others allowlist := by
  unfold loggableHeaders
  apply List.filterMap_congr
  intro name hname
  rw [h name hname]

end Headers

/-- One run of the handler: the clock, the request and its body, and what the script, the
client and the files do. -/
structure Handling (Url : Type) where
  times : Times
  request : Incoming
  body : RequestBody
  execution : Execution Url
  scriptMs : Ms
  fates : StreamFates
  fileFates : RelayFates

section Handlings

variable {Url : Type} (env : Env) (state : AppState) (uploadMaxBytes : ℕ)
  (handling : Handling Url)

namespace Handling

def prepare (_ : Params) : Preparation :=
  prepareRequest uploadMaxBytes handling.request.headers handling.body

def job : Option ScriptJob :=
  requestJob state.routes state.fallback (handling.prepare uploadMaxBytes)
    handling.request.method handling.request.path

def run : Option (ScriptJob × Ran HostState LivePipe FileBody) :=
  scriptRan env handling.execution (handling.job state uploadMaxBytes)

def routed : Routed LivePipe :=
  routeRequest env handling.times.released state.routes state.fallback
    (runScript env handling.execution) (handling.prepare uploadMaxBytes) handling.request.method
    handling.request.path

def mapped : Option (Mapped LivePipe) :=
  mapHandled env (handling.routed env state uploadMaxBytes).handled handling.request.headers
    handling.request.requestId state.verbose

def answered : Option Answered :=
  handle env state handling.times handling.request (runScript env handling.execution)
    (handling.prepare uploadMaxBytes) handling.fates handling.fileFates

theorem answered_eq : handling.answered env state uploadMaxBytes =
    (handling.mapped env state uploadMaxBytes).map (answer env state handling.times
      handling.request handling.fates handling.fileFates
      (handling.routed env state uploadMaxBytes)) := rfl

def piped (mapped : Mapped LivePipe) (pipe : LivePipe) : Piped :=
  pipeLoop handling.fates
    (announcedContentLength (setHeader env mapped.headers "x-request-id"
      handling.request.requestId)) 0 0 [] pipe.body.stream

def relayed (file : FileBody) : Relayed := relayBody file handling.fileFates

/-- The bytes of the response that are sent, as far as they are counted. -/
def responseLength (mapped : Mapped LivePipe) : ℕ :=
  match mapped.body with
  | .ready bytes => bytes.length
  | .stream pipe => (handling.piped env mapped pipe).bytes
  | .file file => (handling.relayed file).bytes

/-- The failure of the request, before its response or while it is sent. -/
def failure (mapped : Mapped LivePipe) : Option Failure :=
  match mapped.body with
  | .ready _ => engineFailure env (handling.routed env state uploadMaxBytes).handled
  | .stream pipe => pipeFailure (handling.piped env mapped pipe).outcome
  | .file file => fileFailure (handling.relayed file).outcome

/-- How long the request took when its line is written. -/
def elapsed (mapped : Mapped LivePipe) : Ms :=
  match mapped.body with
  | .ready _ => env.elapsedMs (handling.times.mapped - handling.times.started)
  | _ => env.elapsedMs (handling.times.ended - handling.times.started)

/-- The facts of the calls in the line of the request. -/
def facts (mapped : Mapped LivePipe) : LineFacts :=
  let facts := routedFacts env handling.execution handling.times.released
    (handling.run env state uploadMaxBytes)
  let files := (mapped.released.map (releaseBody env handling.times.mapped facts.files)).getD
    facts.files
  match mapped.body with
  | .ready _ => { facts with files := files }
  | .stream pipe =>
    let piped := handling.piped env mapped pipe
    { facts with
      upstream := Upstream.Facts.finishStream env.elapsedMs handling.times.ended piped.bytes
        piped.outcome facts.upstream pipe.body.call
      files := files }
  | .file file =>
    let relayed := handling.relayed file
    { facts with
      files := finishStream env.elapsedMs handling.times.ended relayed.bytes relayed.outcome files
        file.call }

/-- The line that the facts of the request make. -/
def line (mapped : Mapped LivePipe) : LogLine :=
  let routed := handling.routed env state uploadMaxBytes
  let facts := handling.facts env state uploadMaxBytes mapped
  ⟨handling.request.requestId, routed.routeLabel, asciiUpper handling.request.method,
    handling.request.path, mapped.status,
    ((handling.failure env state uploadMaxBytes mapped).map Failure.className).getD "",
    handling.elapsed env mapped, routed.requestBodyBytes,
    some (handling.responseLength env mapped),
    loggableHeaders handling.request.headers requestLogHeaders,
    loggableHeaders mapped.headers responseLogHeaders, facts.upstreamCalls,
    facts.files.snapshot, routed.upload, routed.params,
    (handling.request.headers.get "x-request-id").bind HeaderValue.toStr, state.host,
    scriptLogged (handling.run env state uploadMaxBytes)⟩

theorem handsOver : HandsOverFacts
    (routedFacts env handling.execution handling.times.released
      (handling.run env state uploadMaxBytes))
    (scriptLogged (handling.run env state uploadMaxBytes))
    (handling.routed env state uploadMaxBytes) :=
  routeRequest_handsOver env handling.execution handling.times.released state.routes
    state.fallback (handling.prepare uploadMaxBytes) handling.request.method handling.request.path

/-- Every request is mapped onto a response. -/
theorem exists_mapped : ∃ mapped, handling.mapped env state uploadMaxBytes = some mapped := by
  have hsized := (handling.handsOver env state uploadMaxBytes).sized
  unfold mapped
  cases hhandled : (handling.routed env state uploadMaxBytes).handled with
  | responded response =>
    cases hbody : response.body with
    | stream pipe =>
      obtain ⟨mapped, hmapped, -⟩ := mapResponse_pipe env handling.request.headers
        handling.request.requestId state.verbose response pipe hbody
      exact ⟨mapped, hmapped⟩
    | file file =>
      obtain ⟨mapped, hmapped, -⟩ := mapResponse_file env handling.request.headers
        handling.request.requestId state.verbose response file hbody
        (hsized response file hhandled hbody)
      exact ⟨mapped, hmapped⟩
    | text _ | bytes _ =>
      obtain ⟨mapped, bytes, hmapped, -⟩ := mapHandled_ready env handling.request.headers
        handling.request.requestId state.verbose (.responded response) (by simp [hbody, isStream])
      exact ⟨mapped, hmapped⟩
  | _ => exact ⟨_, rfl⟩

/-- The line of a request is made of its facts. -/
theorem answer_line (mapped : Mapped LivePipe)
    (hmapped : handling.mapped env state uploadMaxBytes = some mapped) :
    (answer env state handling.times handling.request handling.fates handling.fileFates
      (handling.routed env state uploadMaxBytes) mapped).line =
        handling.line env state uploadMaxBytes mapped := by
  obtain ⟨hcalls, hfileCalls, hlogs, hpiped, -⟩ := handling.handsOver env state uploadMaxBytes
  have hmaps := mapHandled_maps env handling.request.headers handling.request.requestId
    state.verbose _ mapped hmapped
  have hclass := hmaps.errorClass
  unfold answer line payload facts failure responseLength elapsed
  cases hbody : mapped.body with
  | ready bytes =>
    simp only [hcalls, hfileCalls, hlogs, hclass, hmaps.bodyBytes bytes hbody]
    rfl
  | stream pipe =>
    have hunfailed := hmaps.unfailed (by simp [hbody])
    obtain ⟨response, hhandled, hresponse⟩ := mapHandled_stream env handling.request.headers
      handling.request.requestId state.verbose _ mapped pipe hmapped hbody
    obtain ⟨hchain, hrunning⟩ := hpiped response pipe hhandled hresponse
    have hsnapshot := Upstream.finishStream_snapshot env.elapsedMs handling.times.ended
      (handling.piped env mapped pipe).bytes (handling.piped env mapped pipe).outcome
      (routedFacts env handling.execution handling.times.released
        (handling.run env state uploadMaxBytes)).upstream pipe.body.call
    rw [← hchain] at hsnapshot
    rw [hunfailed] at hclass
    unfold piped at hsnapshot ⊢
    simp only [hfileCalls, hlogs, hclass, Option.map_none, Option.getD_none, relayStream,
      hsnapshot, LineFacts.upstreamCalls, hrunning, Option.toList_none, List.map_nil,
      List.append_nil, pipeFailure_class]
  | file file =>
    have hunfailed := hmaps.unfailed (by simp [hbody])
    rw [hunfailed] at hclass
    unfold relayed
    simp only [hcalls, hfileCalls, hlogs, hclass, Option.map_none, Option.getD_none,
      relayFileStream, fileFailure_class]
    rfl

end Handling

end Handlings

section Runs

variable {Url Url' : Type} (env : Env) (state : AppState) (uploadMaxBytes : ℕ)

/-- A line as it is written, with the time that the script took, if one was to run. -/
structure Written where
  line : LogLine
  scriptDurationMs : Option Ms

def Handling.written (handling : Handling Url) (answered : Answered) : Written :=
  ⟨answered.line, (handling.job state uploadMaxBytes).map (fun _ => handling.scriptMs)⟩

/-- Two runs that agree on what the log may tell: the request id and the timings; of the
requests the method, the path, the id of the client, the allowed headers and what their
bodies count; of the responses the status, the allowed headers, the length and the kind of
their failure; what the scripts log; and the facts of the calls. -/
structure Alike (a : Handling Url) (b : Handling Url') (m n : Mapped LivePipe) : Prop where
  requestId : a.request.requestId = b.request.requestId
  elapsed : a.elapsed env m = b.elapsed env n
  scriptMs : a.scriptMs = b.scriptMs
  method : a.request.method = b.request.method
  path : a.request.path = b.request.path
  clientRequestId : a.request.headers.getAll "x-request-id" =
    b.request.headers.getAll "x-request-id"
  requestHeaders : ∀ name ∈ requestLogHeaders,
    a.request.headers.getAll name = b.request.headers.getAll name
  prepared : prepareRequest uploadMaxBytes a.request.headers a.body =
    prepareRequest uploadMaxBytes b.request.headers b.body
  status : m.status = n.status
  responseHeaders : ∀ name ∈ responseLogHeaders, m.headers.getAll name = n.headers.getAll name
  responseLength : a.responseLength env m = b.responseLength env n
  failure : (a.failure env state uploadMaxBytes m).map Failure.variant =
    (b.failure env state uploadMaxBytes n).map Failure.variant
  scriptLogs : scriptLogged (a.run env state uploadMaxBytes) =
    scriptLogged (b.run env state uploadMaxBytes)
  upstream : (a.facts env state uploadMaxBytes m).upstream =
    (b.facts env state uploadMaxBytes n).upstream
  running : (a.facts env state uploadMaxBytes m).running =
    (b.facts env state uploadMaxBytes n).running
  files : (a.facts env state uploadMaxBytes m).files = (b.facts env state uploadMaxBytes n).files

variable {env state uploadMaxBytes} {a : Handling Url} {b : Handling Url'} {m n : Mapped LivePipe}

theorem Alike.prepare (h : Alike env state uploadMaxBytes a b m n) :
    a.prepare uploadMaxBytes = b.prepare uploadMaxBytes := by
  funext params
  exact h.prepared

theorem Alike.routed (h : Alike env state uploadMaxBytes a b m n) :
    (a.routed env state uploadMaxBytes).routeLabel =
        (b.routed env state uploadMaxBytes).routeLabel ∧
      (a.routed env state uploadMaxBytes).params = (b.routed env state uploadMaxBytes).params ∧
      (a.routed env state uploadMaxBytes).requestBodyBytes =
        (b.routed env state uploadMaxBytes).requestBodyBytes ∧
      (a.routed env state uploadMaxBytes).upload =
        (b.routed env state uploadMaxBytes).upload := by
  unfold Handling.routed
  rw [h.method, h.path, h.prepare]
  exact routeRequest_same env _ _ state.routes state.fallback _ _ _ _ _

/-- A failure and its variant have one class. -/
theorem className_congr {failed other : Option Failure}
    (h : failed.map Failure.variant = other.map Failure.variant) :
    failed.map Failure.className = other.map Failure.className := by
  have hclass := congrArg (Option.map Failure.className) h
  rw [Option.map_map, Option.map_map] at hclass
  have hvariant : Failure.className ∘ Failure.variant = Failure.className :=
    funext Failure.className_variant
  rwa [hvariant] at hclass

/-- Runs that are alike make the same line of their facts. -/
theorem Alike.line (h : Alike env state uploadMaxBytes a b m n) :
    a.line env state uploadMaxBytes m = b.line env state uploadMaxBytes n := by
  obtain ⟨hlabel, hparams, hbytes, hupload⟩ := h.routed
  have hrequest := loggableHeaders_congr _ _ _ h.requestHeaders
  have hresponse := loggableHeaders_congr _ _ _ h.responseHeaders
  have hclient : a.request.headers.get "x-request-id" = b.request.headers.get "x-request-id" :=
    congrArg List.head? h.clientRequestId
  have hcalls : (a.facts env state uploadMaxBytes m).upstreamCalls =
      (b.facts env state uploadMaxBytes n).upstreamCalls := by
    unfold LineFacts.upstreamCalls
    rw [h.upstream, h.running]
  unfold Handling.line
  simp only [h.requestId, hlabel, h.method, h.path, h.status, className_congr h.failure, h.elapsed,
    hbytes, h.responseLength, hrequest, hresponse, hcalls, h.files, hupload, hparams, hclient,
    h.scriptLogs]

/-- No failure of a relay is answered with a body of the engine. -/
theorem pipeFailure_bodiless {outcome : Upstream.StreamOutcome} {failure : Failure}
    (h : pipeFailure outcome = some failure) (requestId : String) (verbose : Bool) :
    failure.body requestId verbose = none := by
  unfold pipeFailure at h
  split at h
  · cases h
  · obtain rfl := Option.some.inj h
    rfl
  · obtain rfl := Option.some.inj h
    rfl

theorem fileFailure_bodiless {outcome : Files.StreamOutcome} {failure : Failure}
    (h : fileFailure outcome = some failure) (requestId : String) (verbose : Bool) :
    failure.body requestId verbose = none := by
  unfold fileFailure at h
  split at h
  · cases h
  · obtain rfl := Option.some.inj h
    rfl
  · obtain rfl := Option.some.inj h
    rfl

/-- A failure that the engine makes a body of is answered with that body alone. -/
theorem answer_failed {handling : Handling Url} {mapped : Mapped LivePipe}
    (hmapped : handling.mapped env state uploadMaxBytes = some mapped) {failure : Failure}
    (hfailure : handling.failure env state uploadMaxBytes mapped = some failure) {bytes : Bytes}
    (hbody : failure.body handling.request.requestId state.verbose = some bytes) :
    (answer env state handling.times handling.request handling.fates handling.fileFates
      (handling.routed env state uploadMaxBytes) mapped).frames = [bytes] := by
  have hmaps := mapHandled_maps env handling.request.headers handling.request.requestId
    state.verbose _ mapped hmapped
  unfold Handling.failure at hfailure
  cases hready : mapped.body with
  | ready sent =>
    rw [hready] at hfailure
    obtain ⟨other, hother, hsame⟩ := hmaps.failed failure hfailure
    rw [hready] at hother
    obtain rfl := MappedBody.ready.inj hother
    obtain rfl := Option.some.inj (hsame.symm.trans hbody)
    unfold answer
    rw [hready]
  | stream pipe =>
    simp only [hready] at hfailure
    rw [pipeFailure_bodiless hfailure] at hbody
    cases hbody
  | file file =>
    simp only [hready] at hfailure
    rw [fileFailure_bodiless hfailure] at hbody
    cases hbody

variable (env state uploadMaxBytes a b m n)

/-- Runs that are alike write the same line, and the client gets the same body of every
failure that the engine answers, with or without details. -/
theorem log_line_alike (hm : a.mapped env state uploadMaxBytes = some m)
    (hn : b.mapped env state uploadMaxBytes = some n)
    (halike : Alike env state uploadMaxBytes a b m n) :
    ∃ x y, a.answered env state uploadMaxBytes = some x ∧
      b.answered env state uploadMaxBytes = some y ∧
      a.written state uploadMaxBytes x = b.written state uploadMaxBytes y ∧
      ∀ failure bytes, a.failure env state uploadMaxBytes m = some failure →
        failure.body a.request.requestId state.verbose = some bytes →
          x.frames = [bytes] ∧ y.frames = [bytes] := by
  refine ⟨_, _, by rw [a.answered_eq, hm, Option.map_some],
    by rw [b.answered_eq, hn, Option.map_some], ?_, ?_⟩
  · have hline := halike.line
    rw [← a.answer_line env state uploadMaxBytes m hm,
      ← b.answer_line env state uploadMaxBytes n hn] at hline
    have hjob : a.job state uploadMaxBytes = b.job state uploadMaxBytes := by
      unfold Handling.job
      rw [halike.method, halike.path, halike.prepare]
    unfold Handling.written
    rw [hline, hjob, halike.scriptMs]
  · intro failure bytes hfailure hbody
    have hvariant := halike.failure
    rw [hfailure] at hvariant
    obtain ⟨other, hother, hsame⟩ := Option.map_eq_some_iff.mp hvariant.symm
    have hotherBody : other.body b.request.requestId state.verbose = some bytes := by
      rw [← Failure.body_variant, hsame, Failure.body_variant, ← halike.requestId, hbody]
    exact ⟨answer_failed hm hfailure hbody, answer_failed hn hother hotherBody⟩

end Runs

section Sample

def Env.sample : Env := ⟨HeaderGrammar.letters, id, fun elapsed => UInt64.ofNat elapsed⟩

/-- One route, whose script runs until its deadline. -/
def AppState.sample : AppState := ⟨[⟨none, "GET", "/", "s.js"⟩], none, true, "host"⟩

/-- A request with a cookie, whose script gets a URL with a query and an answer. -/
def Handling.sample (cookie : Bytes) (query : String) (answer : Bytes) : Handling String where
  times := ⟨0, 0, 0, 0⟩
  request := ⟨"id", "GET", "/", [("cookie", [cookie])]⟩
  body := ⟨some [], ⟨true, true, []⟩, false⟩
  execution :=
    ⟨⟨⟨.ok, fun _ url => .ok url, fun _ => "http", fun _ => some "h", fun _ => some "h",
        fun _ => "/", id⟩,
      fun _ => ⟨fun _ _ _ _ => .ok ⟨200, [], fun _ => .ok answer, []⟩, 0, 0, fun _ => 0, 0, 0⟩,
      fun _ _ => ⟨.error .notFound, 0, 0, by simp⟩, fun _ _ => none, ⟨fun _ => "", 0⟩,
      fun _ => State.newSharedState, id, fun _ => "", fun _ => 0⟩,
    ⟨["h"], 1000, 1000, none⟩, false,
    fun _ => some (.hostCall .httpGet (.object [("url", .string ("http://h/?" ++ query))])),
    false, fun _ => .null, fun _ => .ok "", true,
    ⟨true, .started, true, true, some ⟨[⟨[112, 10], by decide⟩], .silent⟩, true,
      ⟨fun _ => false, fun _ => false⟩, .success, none⟩, .untilCopy, 0⟩
  scriptMs := 0
  fates := ⟨fun _ => false, fun _ => true⟩
  fileFates := ⟨true, fun _ => .failed, fun _ => true⟩

theorem log_line_alike_secrets : ∃ x y,
    (Handling.sample [1] "key=1" [5]).answered .sample .sample 0 = some x ∧
      (Handling.sample [2] "key=2" [6]).answered .sample .sample 0 = some y ∧
      (Handling.sample [1] "key=1" [5]).written .sample 0 x =
        (Handling.sample [2] "key=2" [6]).written .sample 0 y := by
  have ha : ((Handling.sample [1] "key=1" [5]).mapped .sample .sample 0).isSome = true := by
    decide +kernel
  have hb : ((Handling.sample [2] "key=2" [6]).mapped .sample .sample 0).isSome = true := by
    decide +kernel
  obtain ⟨x, y, hx, hy, hwritten, -⟩ := log_line_alike .sample .sample 0
    (Handling.sample [1] "key=1" [5]) (Handling.sample [2] "key=2" [6])
    (Option.get _ ha) (Option.get _ hb) (Option.some_get ha).symm (Option.some_get hb).symm
    { requestId := rfl
      elapsed := by decide +kernel +revert
      scriptMs := rfl
      method := rfl
      path := rfl
      clientRequestId := rfl
      requestHeaders := by decide +kernel +revert
      prepared := rfl
      status := by decide +kernel +revert
      responseHeaders := by decide +kernel +revert
      responseLength := by decide +kernel +revert
      failure := by decide +kernel +revert
      scriptLogs := by decide +kernel +revert
      upstream := by decide +kernel +revert
      running := by decide +kernel +revert
      files := by decide +kernel +revert }
  exact ⟨x, y, hx, hy, hwritten⟩

end Sample
end StuntDouble.Server
