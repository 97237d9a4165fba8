import StuntDouble.Handler

/-!
The call chains in the one log line of a request. Every call that has returned has its
duration there, except in three cases: the run ends while the host still keeps a piped
body, a call outlives the line on a host that keeps file bodies, or a piped response is
rejected after the upstream calls were copied. The theorem says that there is no fourth.
-/
namespace StuntDouble.Server

open Http Matcher RequestLog Files Script

section Routed

variable {env : Env} {now : ℕ} {run : ScriptJob → ScriptRun LivePipe} {job : ScriptJob}
  {routed : Routed LivePipe}

/-- A run without a response is handed over as it is. -/
theorem RoutedBy.failed (h : RoutedBy env now run (some job) routed)
    (hnone : (run job).outcome.response = none) :
    routed.upstreamCalls = (run job).upstreamCalls ∧ routed.fileCalls = (run job).fileCalls ∧
      ∀ response, routed.handled ≠ .responded response := by
  have hinner : ∀ (label : String) (requestBodyBytes : Option ℕ) (upload : Json), ∃ error,
      (runScriptInner run label job requestBodyBytes upload).handled = .failed error := by
    intro label requestBodyBytes upload
    simp only [runScriptInner, hnone]
    cases (run job).outcome.error with
    | none => exact ⟨.noResponse, rfl⟩
    | some error => exact ⟨error, rfl⟩
  cases h with
  | route job hkind label requestBodyBytes upload =>
    obtain ⟨error, herror⟩ := hinner label requestBodyBytes upload
    exact ⟨rfl, rfl, by simp [herror]⟩
  | fallback job hkind label requestBodyBytes upload =>
    obtain ⟨error, herror⟩ := hinner label requestBodyBytes upload
    unfold checkFallback
    rw [herror]
    exact ⟨rfl, rfl, by simp [herror]⟩

/-- A response is handed over as it is, or its stream is let go because no fallback streams. -/
theorem RoutedBy.responded (h : RoutedBy env now run (some job) routed)
    (response : ScriptResponse LivePipe FileBody)
    (hresponse : (run job).outcome.response = some response) :
    routed.upstreamCalls = (run job).upstreamCalls ∧
      (job.matchKind = "route" → routed.handled = .responded response ∧
        routed.fileCalls = (run job).fileCalls) ∧
      (job.matchKind ≠ "route" →
        routed.fileCalls = (if isStream response.body = true then
          releaseBody env now (run job).fileCalls response.body else (run job).fileCalls) ∧
        ∀ other, routed.handled = .responded other → isStream other.body = false) := by
  have hinner : ∀ (label : String) (requestBodyBytes : Option ℕ) (upload : Json),
      (runScriptInner run label job requestBodyBytes upload).handled = .responded response := by
    intro label requestBodyBytes upload
    simp only [runScriptInner, hresponse]
  cases h with
  | route job hkind label requestBodyBytes upload =>
    exact ⟨rfl, fun _ => ⟨hinner _ _ _, rfl⟩, fun hother => absurd hkind hother⟩
  | fallback job hkind label requestBodyBytes upload =>
    have hbuffered : isStream response.body = false →
        releaseBody env now (run job).fileCalls response.body = (run job).fileCalls := by
      intro hstream
      cases hbody : response.body with
      | text text => rfl
      | bytes bytes => rfl
      | stream pipe => simp [hbody, isStream] at hstream
      | file file => simp [hbody, isStream] at hstream
    unfold checkFallback
    rw [hinner]
    simp only
    by_cases hrejected : response.status ≠ requiredStatus job.matchKind ∨
        isStream response.body = true
    · rw [if_pos hrejected]
      refine ⟨rfl, fun hother => absurd hother hkind, fun _ => ⟨?_, by simp⟩⟩
      by_cases hstream : isStream response.body = true
      · rw [if_pos hstream]
        rfl
      · rw [if_neg hstream]
        exact hbuffered ((Bool.not_eq_true _).mp hstream)
    · rw [if_neg hrejected]
      have hnot : ¬ isStream response.body = true := (not_or.mp hrejected).2
      have hstream : isStream response.body = false := (Bool.not_eq_true _).mp hnot
      rw [if_neg hnot]
      split
      · refine ⟨rfl, fun hother => absurd hother hkind, fun _ => ⟨rfl, ?_⟩⟩
        intro other hother
        obtain rfl := Handled.responded.inj hother
        exact hstream
      · refine ⟨rfl, fun hother => absurd hother hkind, fun _ => ⟨rfl, ?_⟩⟩
        intro other hother
        rw [hinner] at hother
        obtain rfl := Handled.responded.inj hother
        exact hstream

end Routed

section Accounts

variable {Url : Type} (env : Env) (execution : Execution Url)

/-- The script run of a request, when it has one. -/
def scriptRan (job : Option ScriptJob) :
    Option (ScriptJob × Ran HostState LivePipe FileBody) :=
  match job with
  | none => none
  | some job =>
    match execution.readToString job.script with
    | .error _ => none
    | .ok source => if execution.slot then some (job, execution.ran env source job) else none

/-- A script runs and hands back its chains, or it does not run and an error is handed back. -/
theorem runScript_cases (job : ScriptJob) :
    (∃ error, runScript env execution job = ⟨.failed error, [], []⟩ ∧
      scriptRan env execution (some job) = none) ∨
    ∃ source, runScript env execution job =
        withCalls env execution (execution.ran env source job) ∧
      scriptRan env execution (some job) = some (job, execution.ran env source job) := by
  unfold runScript scriptRan
  cases hsource : execution.readToString job.script with
  | error error =>
    simp only [hsource]
    exact Or.inl ⟨_, rfl, trivial⟩
  | ok source =>
    simp only [hsource]
    by_cases hslot : execution.slot = true
    · simp only [if_pos hslot]
      exact Or.inr ⟨source, rfl, rfl⟩
    · simp only [if_neg hslot]
      exact Or.inl ⟨.capacityExceeded, rfl, trivial⟩

/-- A piped response is rejected: no fallback streams, and malformed headers are refused. -/
def StreamRejected (job : ScriptJob) (ran : Ran HostState LivePipe FileBody) : Prop :=
  ∃ response pipe, ran.outcome.response = some response ∧ response.body = .stream pipe ∧
    (job.matchKind ≠ "route" ∨ ∃ message, responseHeaders env response.headers = .error message)

/-- How a request comes to log an entry whose call has returned as still open. -/
def Loses (run : Option (ScriptJob × Ran HostState LivePipe FileBody)) : Prop :=
  ∃ job ran, run = some (job, ran) ∧
    (PipeHeld env execution ran ∨ FilesHeld execution ran ∨ StreamRejected env job ran)

/-- Every logged call that is not still running has its duration. -/
def LogLine.Accounted (line : LogLine)
    (run : Option (ScriptJob × Ran HostState LivePipe FileBody)) : Prop :=
  RequestLog.Accounted line.upstreamCalls (run.bind (fun run => run.2.runningCall)) ∧
    RequestLog.Accounted line.fileCalls (run.bind (fun run => run.2.runningFile))

theorem withCalls_outcome (ran : Ran HostState LivePipe FileBody) :
    (withCalls env execution ran).outcome = ran.outcome := by
  unfold withCalls
  split
  · rfl
  · simp only
    split <;> rfl

variable (state : AppState) (times : Times) (request : Incoming)
  (fates : StreamFates) (fileFates : RelayFates)

/-- A routed request is answered, and its line accounts for the calls unless it loses one. -/
def Answers (routed : Routed LivePipe)
    (run : Option (ScriptJob × Ran HostState LivePipe FileBody)) : Prop :=
  ∃ answered, respond env state times request fates fileFates routed = some answered ∧
    (answered.line.Accounted run ↔ ¬ Loses env execution run)

theorem loses_some (job : ScriptJob) (ran : Ran HostState LivePipe FileBody) :
    Loses env execution (some (job, ran)) ↔
      PipeHeld env execution ran ∨ FilesHeld execution ran ∨ StreamRejected env job ran := by
  constructor
  · intro h
    obtain ⟨job', ran', hrun, hcases⟩ := h
    obtain ⟨rfl, rfl⟩ := Prod.mk.inj (Option.some.inj hrun)
    exact hcases
  · intro h
    exact ⟨job, ran, rfl, h⟩

/-- A request that hands over no calls logs none. -/
theorem answers_empty (routed : Routed LivePipe) (hupstream : routed.upstreamCalls = [])
    (hfile : routed.fileCalls = []) (h : ∀ response, routed.handled ≠ .responded response) :
    Answers env execution state times request fates fileFates routed
      none := by
  obtain ⟨answered, hanswered, hcalls, hfileCalls⟩ := respond_ready env state times request fates
    fileFates routed (fun response hresponse => absurd hresponse (h response))
  have haccounted : answered.line.Accounted none := by
    unfold LogLine.Accounted
    rw [hcalls, hfileCalls, hupstream, hfile]
    exact ⟨accounted_nil _, accounted_nil _⟩
  refine ⟨answered, hanswered, fun _ hloses => ?_, fun _ => haccounted⟩
  obtain ⟨job, ran, hrun, -⟩ := hloses
  contradiction

variable {job : ScriptJob} {ran : Ran HostState LivePipe FileBody}
  {run : ScriptJob → ScriptRun LivePipe} {routed : Routed LivePipe} {now : ℕ}

/-- The calls of a run without a response are logged as they were handed over. -/
theorem answers_failed (hrun : run job = withCalls env execution ran)
    (hnone : ran.outcome.response = none) (htracked : ran.pump.host.Tracked)
    (hrouted : RoutedBy env now run (some job) routed) :
    Answers env execution state times request fates fileFates routed
      (some (job, ran)) := by
  have hresponse : (run job).outcome.response = none := by
    rw [hrun, withCalls_outcome, hnone]
  have hrejected : ¬ StreamRejected env job ran := by
    intro h
    obtain ⟨response, pipe, hsome, -⟩ := h
    rw [hnone] at hsome
    contradiction
  obtain ⟨hupstream, hfile, hhandled⟩ := hrouted.failed hresponse
  obtain ⟨answered, hanswered, hcalls, hfileCalls⟩ := respond_ready env state times request fates
    fileFates routed (fun response h => absurd h (hhandled response))
  obtain ⟨hpipe, hfiles⟩ := withCalls_failed env execution htracked
  refine ⟨answered, hanswered, ?_⟩
  unfold LogLine.Accounted
  rw [loses_some, hcalls, hfileCalls, hupstream, hfile, hrun]
  simp only [Option.bind_some, hpipe, hfiles]
  simp [hrejected]

/-- With a response only the rejection of a stream can lose an entry, and no call is running. -/
theorem keeps_line (job : ScriptJob) (response : ScriptResponse LivePipe FileBody)
    (h : Keeps ran response) (line : LogLine) :
    (line.Accounted (some (job, ran)) ↔
      RequestLog.Accounted line.upstreamCalls none ∧ RequestLog.Accounted line.fileCalls none) ∧
    (Loses env execution (some (job, ran)) ↔ StreamRejected env job ran) := by
  obtain ⟨hpipe, hfiles, hrunning, hrunningFile, -, -⟩ := withCalls_responded env execution
    response h
  unfold LogLine.Accounted
  rw [loses_some]
  simp [hrunning, hrunningFile, hpipe, hfiles]

variable {response : ScriptResponse LivePipe FileBody}

/-- A request whose run ended with a response hands over the chains of the run; a fallback
has let go of a stream. -/
structure HandsOver (job : ScriptJob) (ran : Ran HostState LivePipe FileBody)
    (response : ScriptResponse LivePipe FileBody) (now : ℕ) (routed : Routed LivePipe) : Prop where
  upstreamCalls : routed.upstreamCalls = ran.pump.host.calls.snapshot
  route : job.matchKind = "route" →
    routed.handled = .responded response ∧ routed.fileCalls = ran.pump.host.fileCalls
  fallback : job.matchKind ≠ "route" →
    routed.fileCalls = (if isStream response.body = true then
      releaseBody env now ran.pump.host.fileCalls response.body else ran.pump.host.fileCalls) ∧
    ∀ other, routed.handled = .responded other → isStream other.body = false

theorem RoutedBy.handsOver (hrun : run job = withCalls env execution ran)
    (hsome : ran.outcome.response = some response) (hkeeps : Keeps ran response)
    (hrouted : RoutedBy env now run (some job) routed) :
    HandsOver env job ran response now routed := by
  obtain ⟨-, -, -, -, hupstream, hfile⟩ := withCalls_responded env execution response hkeeps
  have hresponse : (run job).outcome.response = some response := by
    rw [hrun, withCalls_outcome, hsome]
  obtain ⟨hcalls, hroute, hfallback⟩ := hrouted.responded response hresponse
  rw [hrun, hupstream] at hcalls
  rw [hrun, hfile] at hroute hfallback
  exact ⟨hcalls, hroute, hfallback⟩

theorem not_streamRejected (job : ScriptJob) (hsome : ran.outcome.response = some response)
    (hbody : ∀ pipe, response.body ≠ .stream pipe) : ¬ StreamRejected env job ran := by
  intro h
  obtain ⟨other, pipe, hother, hpipe, -⟩ := h
  obtain rfl := Option.some.inj (hsome.symm.trans hother)
  exact hbody pipe hpipe

/-- A line accounts for the calls of a run with a response when both of its copies do, and
that no stream was rejected is all there is to know. -/
theorem answers_of_line (hkeeps : Keeps ran response) (answered : Answered)
    (hanswered : respond env state times request fates fileFates routed = some answered)
    (hline : RequestLog.Accounted answered.line.upstreamCalls none ∧
      RequestLog.Accounted answered.line.fileCalls none ↔ ¬ StreamRejected env job ran) :
    Answers env execution state times request fates fileFates routed (some (job, ran)) := by
  obtain ⟨haccounted, hloses⟩ := keeps_line env execution job response hkeeps answered.line
  refine ⟨answered, hanswered, ?_⟩
  rw [haccounted, hloses]
  exact hline

theorem answers_buffered (hover : HandsOver env job ran response now routed)
    (hsome : ran.outcome.response = some response) (hkeeps : Keeps ran response)
    (hbuffered : isStream response.body = false) :
    Answers env execution state times request fates fileFates routed (some (job, ran)) := by
  have hpipe : ∀ pipe, response.body ≠ .stream pipe := by
    intro pipe hbody
    simp [hbody, isStream] at hbuffered
  have hfile : ∀ file, response.body ≠ .file file := by
    intro file hbody
    simp [hbody, isStream] at hbuffered
  have hhandled : routed.fileCalls = ran.pump.host.fileCalls ∧
      ∀ other, routed.handled = .responded other → isStream other.body = false := by
    by_cases hkind : job.matchKind = "route"
    · obtain ⟨hresponded, hcalls⟩ := hover.route hkind
      refine ⟨hcalls, ?_⟩
      intro other hother
      obtain rfl := Handled.responded.inj (hresponded.symm.trans hother)
      exact hbuffered
    · obtain ⟨hcalls, hothers⟩ := hover.fallback hkind
      rw [if_neg (by simp [hbuffered])] at hcalls
      exact ⟨hcalls, hothers⟩
  obtain ⟨answered, hanswered, hcalls, hfileCalls⟩ := respond_ready env state times request fates
    fileFates routed hhandled.2
  apply answers_of_line env execution state times request fates fileFates hkeeps answered hanswered
  rw [hcalls, hfileCalls, hover.upstreamCalls, hhandled.1]
  have hrejected := not_streamRejected env job hsome hpipe
  simp [(hkeeps.calls_nil hpipe).accounted, (hkeeps.fileCalls_nil hfile).accounted, hrejected]

theorem finishStream_owned {calls : Upstream.CallLog} {call : Pending} (h : calls.Owned [call])
    (elapsedMs : ℕ → Ms) (now bytes : ℕ) (outcome : Upstream.StreamOutcome) :
    (Upstream.finishStream elapsedMs now bytes outcome calls call).Owned [] := by
  apply h.finishWith elapsedMs now bytes
  intro record hrecord
  by_cases houtcome : outcome = .upstreamError
  · rw [if_pos houtcome]
    exact hrecord
  · rw [if_neg houtcome]
    exact hrecord

/-- A piped response accounts for its call exactly when it is relayed. -/
theorem answers_pipe (hover : HandsOver env job ran response now routed)
    (hsome : ran.outcome.response = some response) (hkeeps : Keeps ran response) (pipe : LivePipe)
    (hbody : response.body = .stream pipe) :
    Answers env execution state times request fates fileFates routed (some (job, ran)) := by
  have hkept := hkeeps.calls_stream pipe hbody
  have hfiles := hkeeps.fileCalls_nil (fun file hfile => by simp [hbody] at hfile)
  have hstale : ¬ RequestLog.Accounted ran.pump.host.calls.snapshot none := by
    rw [hkept.accounted_iff]
    simp
  have hrejected : StreamRejected env job ran ↔ job.matchKind ≠ "route" ∨
      ∃ message, responseHeaders env response.headers = .error message := by
    constructor
    · intro h
      obtain ⟨other, -, hother, -, hcases⟩ := h
      obtain rfl := Option.some.inj (hsome.symm.trans hother)
      exact hcases
    · intro h
      exact ⟨response, pipe, hsome, hbody, h⟩
  by_cases hkind : job.matchKind = "route"
  · obtain ⟨hhandled, hfileCalls⟩ := hover.route hkind
    obtain ⟨answered, hanswered, hlogged, hcases⟩ := respond_pipe env state times request fates
      fileFates routed response pipe hhandled hbody
    apply answers_of_line env execution state times request fates fileFates hkeeps answered
      hanswered
    rw [hrejected]
    rcases hcases with ⟨message, hheaders, hcalls⟩ | ⟨headers, bytes, outcome, hheaders, hcalls⟩
    · rw [hcalls, hover.upstreamCalls]
      simp [hstale, hheaders]
    · have hclosed := finishStream_owned hkept env.elapsedMs times.ended bytes outcome
      rw [hcalls, hkeeps.chain pipe hbody, hlogged, hfileCalls]
      simp [hclosed.accounted, hfiles.accounted, hheaders, hkind]
  · obtain ⟨hfileCalls, hothers⟩ := hover.fallback hkind
    obtain ⟨answered, hanswered, hcalls, -⟩ := respond_ready env state times request fates
      fileFates routed hothers
    apply answers_of_line env execution state times request fates fileFates hkeeps answered
      hanswered
    rw [hrejected, hcalls, hover.upstreamCalls]
    simp [hstale, hkind]

/-- A file response accounts for its call, whether it is relayed or let go. -/
theorem answers_file (hover : HandsOver env job ran response now routed)
    (hsome : ran.outcome.response = some response) (hkeeps : Keeps ran response) (file : FileBody)
    (hbody : response.body = .file file) :
    Answers env execution state times request fates fileFates routed (some (job, ran)) := by
  have hpipe : ∀ pipe, response.body ≠ .stream pipe := by simp [hbody]
  have hfiles := hkeeps.fileCalls_file file hbody
  have hanswer : ∃ answered, respond env state times request fates fileFates routed =
        some answered ∧ answered.line.upstreamCalls = routed.upstreamCalls ∧
      ∃ chain : CallLog, chain.Owned [] ∧ answered.line.fileCalls = chain.snapshot := by
    by_cases hkind : job.matchKind = "route"
    · obtain ⟨hhandled, hfileCalls⟩ := hover.route hkind
      apply respond_file env state times request fates fileFates routed response file hhandled
        hbody (hkeeps.size_lt file hbody)
      rw [hfileCalls]
      exact hfiles
    · obtain ⟨hfileCalls, hothers⟩ := hover.fallback hkind
      obtain ⟨answered, hanswered, hcalls, hlogged⟩ := respond_ready env state times request fates
        fileFates routed hothers
      rw [hbody, if_pos (by rfl)] at hfileCalls
      refine ⟨answered, hanswered, hcalls, routed.fileCalls, ?_, hlogged⟩
      rw [hfileCalls]
      exact hfiles.finishWith env.elapsedMs now 0 id (fun _ h => h)
  obtain ⟨answered, hanswered, hcalls, chain, hchain, hlogged⟩ := hanswer
  apply answers_of_line env execution state times request fates fileFates hkeeps answered hanswered
  rw [hcalls, hlogged, hover.upstreamCalls]
  have hrejected := not_streamRejected env job hsome hpipe
  simp [(hkeeps.calls_nil hpipe).accounted, hchain.accounted, hrejected]

/-- In the one line of a request every call that has returned has its duration, unless the
host keeps a body too long or a piped response is rejected. -/
theorem request_calls_accounted (env : Env) (execution : Execution Url) (state : AppState)
    (times : Times) (request : Incoming) (prepare : Params → Preparation) (fates : StreamFates)
    (fileFates : RelayFates) :
    ∃ answered, handle env state times request (runScript env execution) prepare fates fileFates =
        some answered ∧
      (answered.line.Accounted (scriptRan env execution
          (requestJob state.routes state.fallback prepare request.method request.path)) ↔
        ¬ Loses env execution (scriptRan env execution
          (requestJob state.routes state.fallback prepare request.method request.path))) := by
  have hrouted := routeRequest_by env times.released state.routes state.fallback
    (runScript env execution) prepare request.method request.path
  unfold handle
  generalize routeRequest env times.released state.routes state.fallback (runScript env execution)
    prepare request.method request.path = routed at hrouted ⊢
  cases hjob : requestJob state.routes state.fallback prepare request.method request.path with
  | none =>
    rw [hjob] at hrouted
    cases hrouted with
    | unrun label params handled requestBodyBytes upload hhandled =>
      exact answers_empty env execution state times request fates fileFates _ rfl rfl hhandled
  | some job =>
    rw [hjob] at hrouted
    rcases runScript_cases env execution job with ⟨error, hrun, hran⟩ | ⟨source, hrun, hran⟩
    · obtain ⟨hupstream, hfile, hhandled⟩ := hrouted.failed (by rw [hrun]; rfl)
      rw [hrun] at hupstream hfile
      rw [hran]
      exact answers_empty env execution state times request fates fileFates routed hupstream hfile
        hhandled
    · rw [hran]
      rcases ran_ended env execution source job with
        ⟨hnone, htracked⟩ | ⟨response, hsome, hkeeps⟩
      · exact answers_failed env execution state times request fates fileFates hrun hnone htracked
          hrouted
      · have hover := hrouted.handsOver env execution hrun hsome hkeeps
        cases hbody : response.body with
        | stream pipe =>
          exact answers_pipe env execution state times request fates fileFates hover hsome hkeeps
            pipe hbody
        | file file =>
          exact answers_file env execution state times request fates fileFates hover hsome hkeeps
            file hbody
        | text text =>
          exact answers_buffered env execution state times request fates fileFates hover hsome
            hkeeps (by rw [hbody]; rfl)
        | bytes bytes =>
          exact answers_buffered env execution state times request fates fileFates hover hsome
            hkeeps (by rw [hbody]; rfl)

/-- A script pipes an answer and never ends: its call has returned, and is logged as open. -/
theorem request_calls_accounted_piped :
    let env : Env := ⟨HeaderGrammar.letters, id, fun elapsed => UInt64.ofNat elapsed⟩
    let library : Upstream.UrlLibrary String :=
      ⟨.ok, fun _ url => .ok url, fun _ => "http", some, some, fun _ => "/", id⟩
    let world : HostWorld String :=
      ⟨library, fun _ => ⟨fun _ _ _ _ => .ok ⟨200, [], fun _ => .ok [], [.chunk [1]]⟩, 0, 0,
        fun _ => 0, 0, 0⟩, fun _ _ => ⟨.error .notFound, 0, 0, by simp⟩, fun _ _ => none,
        ⟨fun _ => "", 0⟩, fun _ => State.newSharedState, id, fun _ => "", fun _ => 0⟩
    let process : Process := ⟨true, .started, true, true, some ⟨[⟨[112, 10], by decide⟩], .silent⟩,
      true, ⟨fun _ => false, fun _ => false⟩, .success, none⟩
    let execution : Execution String := ⟨world, ⟨["a"], 1000, 1000, none⟩, false,
      fun _ => some (.hostCall .httpPipe (.object [("url", .string "a")])), false, fun _ => .null,
      fun _ => .ok "", true, process, .untilCopy, 0⟩
    let state : AppState := ⟨[⟨none, "GET", "/", "s.js"⟩], none, false, "h"⟩
    let request : Incoming := ⟨"r", "GET", "/", []⟩
    let prepare : Params → Preparation := fun _ => .ready none .null
    let run := scriptRan env execution
      (requestJob state.routes state.fallback prepare request.method request.path)
    ∃ answered, handle env state ⟨0, 0, 0, 0⟩ request (runScript env execution) prepare
        ⟨fun _ => false, fun _ => true⟩ ⟨true, fun _ => .failed, fun _ => true⟩ = some answered ∧
      (run.bind (fun run => run.2.pump.orphan)).isNone = true ∧ ¬ answered.line.Accounted run := by
  intro env library world process execution state request prepare run
  have hentry : (handle env state ⟨0, 0, 0, 0⟩ request (runScript env execution) prepare
      ⟨fun _ => false, fun _ => true⟩ ⟨true, fun _ => .failed, fun _ => true⟩).map
        (fun answered => answered.line.upstreamCalls.map
          (fun entry => (entry.get "duration_ms").map Json.isNull)) = some [some true] := by
    decide +kernel +revert
  have hrunning : (run.bind (fun run => run.2.runningCall)) = none := by decide +kernel +revert
  have horphan : (run.bind (fun run => run.2.pump.orphan)).isNone = true := by
    decide +kernel +revert
  clear_value run
  obtain ⟨answered, hanswered, hcalls⟩ := Option.map_eq_some_iff.mp hentry
  refine ⟨answered, hanswered, horphan, ?_⟩
  intro haccounted
  obtain ⟨hupstream, -⟩ := haccounted
  rw [hrunning] at hupstream
  obtain ⟨entry, hone, hnull⟩ := List.map_eq_singleton_iff.mp hcalls
  obtain ⟨value, hvalue, hisNull⟩ := Option.map_eq_some_iff.mp hnull
  rw [Json.eq_null_of_isNull hisNull] at hvalue
  exact hupstream 0 entry (by rw [hone]; rfl) (by simp) hvalue

end Accounts

end StuntDouble.Server
