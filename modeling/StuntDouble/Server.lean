import StuntDouble.Config
import StuntDouble.Files
import StuntDouble.Script

/-!
One request from its route to the response that is mapped onto HTTP. How the
body is prepared and what a script run hands back are given. Whoever lets go of a
file body finalizes its call in the file log of the request; the upstream calls
are a snapshot that was taken when the run ended.
-/
namespace StuntDouble.Server

open Http Matcher StuntDouble.Configuration RequestLog Files Script

variable {Pipe : Type}

/-- The HTTP grammar, the quoting of texts in messages, and the rendering of timings. -/
structure Env where
  grammar : HeaderGrammar
  debugText : String → String
  elapsedMs : ℕ → Ms

/-- Why a multipart body could not be parsed. -/
inductive ParseFailureKind
  | invalid
  | tooLarge
  | io
deriving DecidableEq, Repr

structure ParseFailure where
  kind : ParseFailureKind
  files : ℕ
  countedBytes : Option ℕ
deriving DecidableEq, Repr

namespace ParseFailure

def code (failure : ParseFailure) : String :=
  match failure.kind with
  | .invalid => "invalid_multipart"
  | .tooLarge => "upload_too_large"
  | .io => "upload_io_error"

def statusCode (failure : ParseFailure) : ℕ :=
  match failure.kind with
  | .tooLarge => 413
  | .invalid => 400
  | .io => 500

def detail (failure : ParseFailure) : String :=
  match failure.kind with
  | .tooLarge => "upload exceeds files.upload_max_bytes"
  | .invalid => "multipart body is malformed"
  | .io => "upload temporary storage failed"

end ParseFailure

/-- How one request was handled, before it is mapped onto HTTP. -/
inductive Handled (Pipe : Type)
  | notFound
  | bodyTooLarge
  | requestTimeout
  | uploadFailed (failure : ParseFailure)
  | failed (error : Script.Error)
  | responded (response : ScriptResponse Pipe FileBody)

structure Routed (Pipe : Type) where
  routeLabel : String
  params : Params
  handled : Handled Pipe
  scriptLogs : List Script.LogRecord
  upstreamCalls : List Json
  fileCalls : CallLog
  requestBodyBytes : Option ℕ
  upload : Json

/-- What a script run hands back, with its call chains. -/
structure ScriptRun (Pipe : Type) where
  outcome : Outcome Pipe FileBody
  upstreamCalls : List Json
  fileCalls : CallLog

structure ScriptJob where
  script : String
  params : Params
  matchKind : String
  allowedMethods : List String

/-- The body of a matched request, parsed within the deadline or not. -/
inductive Preparation
  | ready (requestBodyBytes : Option ℕ) (upload : Json)
  | upload (failure : ParseFailure) (requestBodyBytes : Option ℕ)
  | bodyTooLarge (requestBodyBytes : Option ℕ)
  | elapsed (contentLength : Option ℕ)

def uploadLog (files totalBytes : ℕ) (error : Option String) : Json :=
  .object [("error", Json.opt Json.string error), ("files", .nat files),
    ("total_bytes", .nat totalBytes)]

/-- A request that ended before a script could run. -/
def Routed.unrun (label : String) (params : Params) (handled : Handled Pipe)
    (requestBodyBytes : Option ℕ) (upload : Json) : Routed Pipe :=
  ⟨label, params, handled, [], [], [], requestBodyBytes, upload⟩

def runScriptInner (run : ScriptJob → ScriptRun Pipe) (label : String) (job : ScriptJob)
    (requestBodyBytes : Option ℕ) (upload : Json) : Routed Pipe :=
  let ran := run job
  let handled := match ran.outcome.response, ran.outcome.error with
    | some response, _ => .responded response
    | none, some error => .failed error
    | none, none => .failed .noResponse
  ⟨label, job.params, handled, ran.outcome.logs, ran.upstreamCalls, ran.fileCalls,
    requestBodyBytes, upload⟩

section Fallback

variable (env : Env) (now : ℕ)

/-- Let go of a body; only a file call is still visible in the log of the request. -/
def releaseBody (fileCalls : CallLog) : ResponseBody Pipe FileBody → CallLog
  | .file file => file.call.drop env.elapsedMs now fileCalls
  | _ => fileCalls

def requiredStatus (matchKind : String) : ℕ := if matchKind = "method_not_allowed" then 405 else 404

def isStream : ResponseBody Pipe FileBody → Bool
  | .stream _ | .file _ => true
  | .text _ | .bytes _ => false

/-- The host owns `Allow`: whatever the script set is replaced. -/
def withAllow (headers : List (String × String)) (allowedMethods : List String) :
    List (String × String) :=
  headers.filter (fun header => !eqIgnoreAsciiCase header.1 "allow") ++
    [("Allow", joined allowedMethods)]

def checkFallback (matchKind : String) (allowedMethods : List String) (routed : Routed Pipe) :
    Routed Pipe :=
  match routed.handled with
  | .responded response =>
    if response.status ≠ requiredStatus matchKind ∨ isStream response.body = true then
      { routed with
        handled := .failed (.failed "fallback script produced an invalid response")
        fileCalls := releaseBody env now routed.fileCalls response.body }
    else if matchKind = "method_not_allowed" then
      { routed with
        handled := .responded
          { response with headers := withAllow response.headers allowedMethods } }
    else routed
  | _ => routed

def runFallback (run : ScriptJob → ScriptRun Pipe) (fallback : Fallback) (matchKind : String)
    (allowedMethods : List String) : Routed Pipe :=
  checkFallback env now matchKind allowedMethods
    (runScriptInner run (fallback.name.getD "fallback")
      ⟨fallback.script, ∅, matchKind, allowedMethods⟩ none (uploadLog 0 0 none))

def matchKind (allowedMethods : List String) : String :=
  if allowedMethods.isEmpty then "not_found" else "method_not_allowed"

/-- The route of a request: its own, the fallback, or none. -/
def routeRequest (routes : List Route) (fallback : Option Fallback)
    (run : ScriptJob → ScriptRun Pipe) (prepare : Params → Preparation) (method path : String) :
    Routed Pipe :=
  match matchRoute routes (asciiUpper method) path with
  | none =>
    match fallback with
    | none => .unrun "" ∅ .notFound none (uploadLog 0 0 none)
    | some fallback =>
      runFallback env now run fallback (matchKind (allowedMethods routes path))
        (allowedMethods routes path)
  | some found =>
    match routes[found.routeIndex]? with
    | none => .unrun "" ∅ .notFound none (uploadLog 0 0 none)
    | some route =>
      let label := route.name.getD route.path
      match prepare found.params with
      | .ready requestBodyBytes upload =>
        runScriptInner run label ⟨route.script, found.params, "route", []⟩ requestBodyBytes upload
      | .upload failure requestBodyBytes =>
        .unrun label found.params (.uploadFailed failure) requestBodyBytes
          (uploadLog failure.files (failure.countedBytes.getD 0) (some failure.code))
      | .bodyTooLarge requestBodyBytes =>
        .unrun label found.params .bodyTooLarge requestBodyBytes (uploadLog 0 0 none)
      | .elapsed contentLength =>
        .unrun label found.params .requestTimeout contentLength
          (uploadLog 0 0 (some "request_timeout"))

end Fallback

section Mapping

/-- The response body, ready or still streaming. -/
inductive MappedBody (Pipe : Type)
  | ready (bytes : Bytes)
  | stream (pipe : Pipe)
  | file (file : FileBody)

/-- A response for HTTP. `released` is a streamed body that the mapping let go. -/
structure Mapped (Pipe : Type) where
  status : ℕ
  errorClass : String
  headers : HeaderMap
  body : MappedBody Pipe
  bodyBytes : Option ℕ
  released : Option (ResponseBody Pipe FileBody)

/-- The JSON body of a response that no script wrote. -/
def errorBody (requestId errorClass : String) (detail : Option String) : Bytes :=
  Utf8.encode (Json.compact (fun _ => "null")
    (.object ((match detail with
      | none => []
      | some detail => [("detail", .string detail)]) ++
        [("error", .string errorClass), ("request_id", .string requestId)])))

def errorMapped (status : ℕ) (errorClass requestId : String) (detail : Option String) :
    Mapped Pipe :=
  ⟨status, errorClass, [], .ready (errorBody requestId errorClass detail),
    some (errorBody requestId errorClass detail).length, none⟩

def failedMapped (error : Script.Error) (requestId : String) (verbose : Bool) : Mapped Pipe :=
  errorMapped error.status error.className requestId (if verbose then some error.detail else none)

def scriptStatus (status : ℕ) : ℕ := if 100 ≤ status ∧ status ≤ 999 then status else 500

def bufferedMapped (status : ℕ) (headers : HeaderMap) (body : Bytes) : Mapped Pipe :=
  ⟨scriptStatus status, "", headers, .ready body, some body.length, none⟩

variable (env : Env)

def validatedHeaderPairs : List (String × String) → Except String (List (String × HeaderValue))
  | [] => .ok []
  | (name, value) :: rest =>
    match env.grammar.name name with
    | none => .error ("invalid header name " ++ env.debugText name)
    | some parsed =>
      if env.grammar.value value then
        (validatedHeaderPairs rest).map (fun pairs => (parsed, Utf8.encode value) :: pairs)
      else .error ("invalid value for header " ++ env.debugText name)

def responseHeaders (pairs : List (String × String)) : Except String HeaderMap :=
  (validatedHeaderPairs env pairs).map
    (fun pairs => pairs.foldl (fun headers pair => headers.append pair.1 pair.2) [])

/-- Set a header to a text, when the grammar admits it as a value. -/
def setHeader (headers : HeaderMap) (name value : String) : HeaderMap :=
  if env.grammar.value value then headers.insert name (Utf8.encode value) else headers

def setContentLength (headers : HeaderMap) (len : ℕ) : HeaderMap :=
  setHeader env headers "content-length" (toString len)

inductive RangeRequest
  | none
  | single (value : String)
  | unusable

def rangeRequest (headers : HeaderMap) : RangeRequest :=
  if headers.containsKey "if-range" then .none
  else
    match headers.getAll "range" with
    | [] => .none
    | first :: [] =>
      match first.toStr with
      | some value => .single value
      | none => .unusable
    | _ :: _ :: _ => .unusable

/-- The headers that the host owns for file streams. -/
def framingNames : List String := ["content-length", "content-range", "accept-ranges"]

def framingHeader (headers : HeaderMap) : Option String :=
  framingNames.find? (fun name => headers.containsKey name)

/-- The slice of a file that answers a request; no decision when arithmetic would wrap. -/
def fileDecision (size : ℕ) (requestHeaders : HeaderMap) : Option RangeDecision :=
  match rangeRequest requestHeaders with
  | .none => decideRange size none
  | .single value => decideRange size (some value)
  | .unusable => some .unsatisfiable

def fileFailed (file : FileBody) (message requestId : String) (verbose : Bool) : Mapped Pipe :=
  { (failedMapped (.failed message) requestId verbose : Mapped Pipe) with
    released := some (.file file) }

def mapFileResponse (status : ℕ) (headers : HeaderMap) (file : FileBody)
    (requestHeaders : HeaderMap) (requestId : String) (verbose : Bool) : Option (Mapped Pipe) :=
  if status ≠ 200 then
    some (fileFailed file "ctx.respond: a file stream body requires status 200" requestId verbose)
  else
    match framingHeader headers with
    | some name =>
      some (fileFailed file ("ctx.respond: the host owns " ++ name ++ " for file streams")
        requestId verbose)
    | none =>
      let headers := headers.insert "accept-ranges" (Utf8.encode "bytes")
      match fileDecision file.size requestHeaders with
      | none => none
      | some .full =>
        some ⟨scriptStatus status, "", setContentLength env headers file.size, .file file, none,
          none⟩
      | some (.partialContent start len) =>
        ((checkedAdd start len).bind (fun stop => checkedSub stop 1)).map (fun last =>
          ⟨206, "", setContentLength env (setHeader env headers "content-range" ("bytes " ++
              toString start ++ "-" ++ toString last ++ "/" ++ toString file.size)) len,
            .file { file with offset := start, len := len }, none, none⟩)
      | some .unsatisfiable =>
        some ⟨416, "", setContentLength env (setHeader env headers "content-range"
            ("bytes */" ++ toString file.size)) 0, .ready [], some 0, some (.file file)⟩

/-- A script response on HTTP; a streamed body is let go with headers that are malformed. -/
def mapResponse (response : ScriptResponse Pipe FileBody) (requestHeaders : HeaderMap)
    (requestId : String) (verbose : Bool) : Option (Mapped Pipe) :=
  match responseHeaders env response.headers with
  | .error message =>
    some { (failedMapped (.failed message) requestId verbose : Mapped Pipe) with
      released := if isStream response.body then some response.body else none }
  | .ok headers =>
    match response.body with
    | .text text => some (bufferedMapped response.status headers (Utf8.encode text))
    | .bytes bytes => some (bufferedMapped response.status headers (bytes.map UInt8.ofNat))
    | .stream pipe =>
      some ⟨scriptStatus response.status, "", headers, .stream pipe, none, none⟩
    | .file file =>
      mapFileResponse env response.status headers file requestHeaders requestId verbose

def mapHandled (handled : Handled Pipe) (requestHeaders : HeaderMap) (requestId : String)
    (verbose : Bool) : Option (Mapped Pipe) :=
  match handled with
  | .bodyTooLarge => some ⟨413, "request_body_too_large", [], .ready [], some 0, none⟩
  | .uploadFailed failure =>
    some (errorMapped (scriptStatus failure.statusCode) failure.code requestId
      (if verbose then some failure.detail else none))
  | .requestTimeout =>
    some (errorMapped 408 "request_timeout" requestId
      (if verbose then some "request body read timeout" else none))
  | .notFound => some (errorMapped 404 "not_found" requestId none)
  | .failed error => some (failedMapped error requestId verbose)
  | .responded response => mapResponse env response requestHeaders requestId verbose

/-- The names that come out are the names that went in, in lower case. -/
theorem validatedHeaderPairs_name (headers : List (String × String))
    (pairs : List (String × HeaderValue)) (h : validatedHeaderPairs env headers = .ok pairs) :
    ∀ pair ∈ pairs, ∃ header ∈ headers, pair.1 = asciiLower header.1 := by
  induction headers generalizing pairs with
  | nil =>
    obtain rfl := Except.ok.inj h
    simp
  | cons header rest ih =>
    obtain ⟨name, value⟩ := header
    rw [validatedHeaderPairs] at h
    cases hname : env.grammar.name name with
    | none =>
      simp only [hname] at h
      contradiction
    | some parsed =>
      simp only [hname] at h
      by_cases hvalue : env.grammar.value value = true
      · rw [if_pos hvalue] at h
        cases hrest : validatedHeaderPairs env rest with
        | error message =>
          rw [hrest] at h
          contradiction
        | ok others =>
          rw [hrest] at h
          obtain rfl := Except.ok.inj h
          intro pair hpair
          rcases List.mem_cons.mp hpair with rfl | hpair
          · exact ⟨(name, value), by simp, env.grammar.name_lower name parsed hname⟩
          · obtain ⟨header, hheader, heq⟩ := ih others hrest pair hpair
            exact ⟨header, List.mem_cons_of_mem _ hheader, heq⟩
      · rw [if_neg hvalue] at h
        contradiction

end Mapping

end StuntDouble.Server
