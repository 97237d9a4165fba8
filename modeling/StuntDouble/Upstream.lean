import StuntDouble.RequestLog
import StuntDouble.Http

/-!
Allowlisted upstream calls. Redirects are followed by the program itself, one hop
at a time. The URL library, the HTTP client and the clock are given: what the
client answers may depend on the number of the request, so that every behaviour
of the servers is covered. A call returns the URLs that it requested, in order.
-/
namespace StuntDouble.Upstream

open RequestLog Http

def maxRedirects : ℕ := 3

def maxResponseBytes : ℕ := 8 * 1024 * 1024

structure CallRecord where
  api : String
  host : Option String
  path : Option String
  status : Option ℕ
  responseBytes : Option ℕ
  durationMs : Option Ms
  redirects : ℕ
  error : Option String
  kind : Option String
deriving DecidableEq

def CallRecord.new (api : String) : CallRecord :=
  ⟨api, none, none, none, none, none, 0, none, none⟩

instance : LogRecord CallRecord where
  toJson record := .object [("api", .string record.api),
    ("duration_ms", Json.opt (fun ms => .number (.float ms)) record.durationMs),
    ("error", Json.opt Json.string record.error), ("host", Json.opt Json.string record.host),
    ("kind", Json.opt Json.string record.kind), ("path", Json.opt Json.string record.path),
    ("redirects", .nat record.redirects),
    ("response_bytes", Json.opt Json.nat record.responseBytes),
    ("status", Json.opt Json.nat record.status)]
  setDurationMs record ms := { record with durationMs := some ms }
  setBytes record bytes := { record with responseBytes := some bytes }
  durationMs record := record.durationMs
  toJson_duration record := by cases record.durationMs <;> rfl
  durationMs_set _ _ := rfl
  durationMs_setBytes _ _ := rfl

abbrev CallLog := Chain CallRecord

/-- Times are in nanoseconds. -/
structure Access where
  allowHosts : List String
  defaultTimeout : ℕ
  scriptDeadline : ℕ
  clientRange : Option String

structure UrlLibrary (Url : Type) where
  parse : String → Except String Url
  join : Url → String → Except String Url
  scheme : Url → String
  host : Url → Option String
  hostStr : Url → Option String
  path : Url → String
  debugText : String → String

/-- Why the HTTP client did not answer. -/
inductive ClientError
  | badUri (message : String)
  | http (message : String)
  | timeout
  | hostNotFound
  | bodyExceedsLimit (limit : ℕ)
  | other (message : String)

/-- One read of a response body; an empty chunk is its end. -/
inductive BodyRead
  | chunk (bytes : Bytes)
  | interrupted
  | failed

/-- An answer of the HTTP client, whose body is read at once or in steps. -/
structure Answer where
  status : ℕ
  headers : HeaderMap
  readToVec : ℕ → Except ClientError Bytes
  reads : List BodyRead

/-- The HTTP client and the clock during one call. -/
structure World (Url : Type) where
  fetch : ℕ → Url → ℕ → Option String → Except ClientError Answer
  budgetAt : ℕ
  startAt : ℕ
  turnAt : ℕ → ℕ
  startedAt : ℕ
  finishedAt : ℕ

inductive TransportKind
  | timeout
  | dns
  | other
deriving DecidableEq, Repr

def TransportKind.asStr : TransportKind → String
  | .timeout => "timeout"
  | .dns => "dns"
  | .other => "transport"

inductive Error
  | policy (message : String)
  | invalidUrl (message : String)
  | redirect (message : String)
  | transport (kind : TransportKind) (message : String)
  | status (status : ℕ)
deriving DecidableEq, Repr

namespace Error

def code : Error → String
  | .policy _ => "script_error"
  | .invalidUrl _ => "upstream_url_invalid"
  | .redirect _ => "upstream_redirect_error"
  | .transport _ _ => "upstream_unreachable"
  | .status _ => "upstream_http_error"

def message : Error → String
  | .policy message | .invalidUrl message | .redirect message | .transport _ message => message
  | .status n => "ctx.http.pipe: upstream returned status " ++ toString n

def transportKind : Error → Option String
  | .transport kind _ => some kind.asStr
  | _ => none

end Error

structure Response where
  status : ℕ
  headers : List (String × String)
  body : Bytes

/-- A piped body with the handle of its call; `none` is a frame that failed. -/
structure PipeBody where
  stream : List (Option Bytes)
  call : Pending

structure PipeResponse where
  status : ℕ
  headers : List (String × String)
  body : PipeBody

structure GetCall where
  url : String
  timeout : Option ℕ

structure PipeCall where
  url : String
  status : Option ℕ
  headers : List (String × String)

def timeoutError : Error := .transport .timeout "ctx.http: upstream timeout"

def mapUreqError : ClientError → Error
  | .badUri message => .policy ("ctx.http: invalid URL: " ++ message)
  | .http message => .policy ("ctx.http: invalid request: " ++ message)
  | .timeout => timeoutError
  | .hostNotFound => .transport .dns "ctx.http: upstream host not found"
  | .bodyExceedsLimit limit =>
    .policy ("ctx.http.get: upstream response body exceeds the " ++ toString limit ++
      "-byte limit")
  | .other message => .transport .other ("ctx.http: " ++ message)

def isRedirect (status : ℕ) : Bool := [301, 302, 303, 307, 308].contains status

/-- The frames that the background reader sends. -/
def pumpBody : List BodyRead → List (Option Bytes)
  | [] => []
  | .chunk [] :: _ => []
  | .chunk (byte :: more) :: rest => some (byte :: more) :: pumpBody rest
  | .interrupted :: rest => pumpBody rest
  | .failed :: _ => [none]

section Payloads

variable (debugText : String → String)

def parseGetCall (call : Json) : Except Error GetCall :=
  match call.asObject with
  | none => .error (.policy "ctx.http.get: call payload must be an object")
  | some entries =>
    match entries.find? (fun entry => entry.1 ≠ "url" ∧ entry.1 ≠ "timeout_ms") with
    | some entry => .error (.policy ("ctx.http.get: unknown opts key " ++ debugText entry.1))
    | none =>
      match (call.get "url").bind Json.asStr with
      | none => .error (.policy "ctx.http.get: url must be a string")
      | some url =>
        match call.get "timeout_ms" with
        | none => .ok ⟨url, none⟩
        | some value =>
          match value.asU64.filter (fun ms => decide (0 < ms)) with
          | some ms => .ok ⟨url, some (ms * 1000000)⟩
          | none => .error (.policy "ctx.http.get: opts.timeout_ms must be a positive integer")

def parsePipeStatus : Option Json → Except Error (Option ℕ)
  | none | some .null => .ok none
  | some value =>
    match value.asU64.filter (fun status => decide (100 ≤ status ∧ status ≤ 599)) with
    | some status => .ok (some status)
    | none => .error (.policy "ctx.http.pipe: status must be an integer in [100, 599]")

def parsePipeRow : Json → Except Error (String × String)
  | .array [.string name, .string value] => .ok (name, value)
  | _ => .error (.policy "ctx.http.pipe: headers must be [name, value] pairs")

def parsePipeHeaders : Option Json → Except Error (List (String × String))
  | none | some .null => .ok []
  | some (.array rows) => rows.mapM parsePipeRow
  | some _ => .error (.policy "ctx.http.pipe: headers must be [name, value] pairs")

def parsePipeCall (call : Json) : Except Error PipeCall :=
  match call.asObject with
  | none => .error (.policy "ctx.http.pipe: call payload must be an object")
  | some entries =>
    match entries.find? (fun entry => entry.1 ∉ ["url", "status", "headers"]) with
    | some entry => .error (.policy ("ctx.http.pipe: unknown opts key " ++ debugText entry.1))
    | none =>
      match (call.get "url").bind Json.asStr with
      | none => .error (.policy "ctx.http.pipe: url must be a string")
      | some url =>
        match parsePipeStatus (call.get "status") with
        | .error error => .error error
        | .ok status => (parsePipeHeaders (call.get "headers")).map (fun headers =>
            ⟨url, status, headers⟩)

end Payloads

section Calls

variable {Url : Type} (lib : UrlLibrary Url) (access : Access) (world : World Url)

/-- Protocol and host check; the port is not matched. -/
def validate (url : Url) (invalidUrl : String → Error) : Except Error Unit :=
  if lib.scheme url = "http" ∨ lib.scheme url = "https" then
    match lib.host url with
    | none => .error (.policy "ctx.http.get: URL has no host")
    | some host =>
      if access.allowHosts.any (fun allowed => eqIgnoreAsciiCase allowed host) then .ok ()
      else .error (.policy ("upstream host " ++ lib.debugText host ++
        " is not in upstream.allow_hosts"))
  else .error (invalidUrl ("upstream protocol " ++ lib.debugText (lib.scheme url) ++
    " is not allowed (use http or https)"))

/-- Time left for the script to catch a transport error. -/
def replyMargin (remaining : ℕ) : ℕ := min (remaining / 10) (100 * 1000000)

/-- The smaller of the remaining and the requested time, less a margin for the reply. -/
def callBudget (remaining requested : ℕ) : ℕ :=
  if remaining ≤ requested then remaining - replyMargin remaining else requested

def budget (requested : Option ℕ) : Except Error ℕ :=
  let budget := callBudget (access.scriptDeadline - world.budgetAt)
    (requested.getD access.defaultTimeout)
  if budget = 0 then .error timeoutError else .ok budget

def recordUrl (url : Url) (record : CallRecord) : CallRecord :=
  { record with host := lib.hostStr url, path := some (lib.path url) }

def finishCall (elapsedMs : ℕ → Ms) (error : Option Error) (record : CallRecord) : CallRecord :=
  let record := { record with
    durationMs := some (elapsedMs (world.finishedAt - world.startedAt)) }
  match error with
  | none => record
  | some error =>
    { record with
      error := some error.code
      kind := error.transportKind
      status := match error with
        | .status answered => some answered
        | _ => record.status }

/-- How one of the two calls follows redirects. -/
structure Mode where
  call : String
  range : Option String
  redirectError : String → Error
  missingLocationIsError : Bool

/-- The result of a call, with its log and the URLs that it requested. -/
structure Called (Url A : Type) where
  result : Except Error A
  calls : CallLog
  requested : List Url

def sendFollowingRedirects (mode : Mode) (deadline index redirects : ℕ) (url : Url)
    (calls : CallLog) (requested : List Url) : Called Url Answer :=
  let left := deadline - world.turnAt redirects
  if left = 0 then ⟨.error timeoutError, calls, requested⟩
  else
    match world.fetch redirects url left mode.range with
    | .error error => ⟨.error (mapUreqError error), calls, requested ++ [url]⟩
    | .ok answer =>
      if isRedirect answer.status then
        match answer.headers.get "location" with
        | none =>
          if mode.missingLocationIsError then
            ⟨.error (mode.redirectError (mode.call ++ ": redirect status " ++
              toString answer.status ++ " has no Location header")), calls, requested ++ [url]⟩
          else ⟨.ok answer, calls, requested ++ [url]⟩
        | some location =>
          if maxRedirects ≤ redirects then
            ⟨.error (mode.redirectError (mode.call ++ ": redirect limit exceeded (max 3 hops)")),
              calls, requested ++ [url]⟩
          else
            match location.toStr with
            | none =>
              ⟨.error (mode.redirectError (mode.call ++
                ": redirect Location is not a valid string")), calls, requested ++ [url]⟩
            | some location =>
              match lib.join url location with
              | .error error =>
                ⟨.error (mode.redirectError (mode.call ++ ": invalid redirect Location: " ++
                  error)), calls, requested ++ [url]⟩
              | .ok next =>
                match validate lib access next mode.redirectError with
                | .error error => ⟨.error error, calls, requested ++ [url]⟩
                | .ok () =>
                  sendFollowingRedirects mode deadline index (redirects + 1) next
                    (calls.update index (fun record =>
                      recordUrl lib next { record with redirects := redirects + 1 }))
                    (requested ++ [url])
      else ⟨.ok answer, calls, requested ++ [url]⟩
termination_by maxRedirects - redirects

/-- What both calls do with their first URL: validate it, then follow redirects in time. -/
def sendFirst (mode : Mode) (invalidUrl : String → Error) (timeout : Option ℕ) (index : ℕ)
    (url : Url) (calls : CallLog) : Called Url Answer :=
  match validate lib access url invalidUrl with
  | .error error => ⟨.error error, calls, []⟩
  | .ok () =>
    match budget access world timeout with
    | .error error => ⟨.error error, calls, []⟩
    | .ok budget =>
      sendFollowingRedirects lib access world mode (world.startAt + budget) index 0 url calls []

/-- The values that are text, with the lower-case names of their headers. -/
def textHeaders (headers : HeaderMap) : List (String × String) :=
  headers.flatMap (fun entry => entry.2.filterMap (fun value =>
    value.toStr.map (fun text => (asciiLower entry.1, text))))

def readResponse (answer : Answer) : Except Error Response :=
  match answer.readToVec maxResponseBytes with
  | .error error => .error (mapUreqError error)
  | .ok body => .ok ⟨answer.status, textHeaders answer.headers, body⟩

def getMode : Mode := ⟨"ctx.http.get", none, .policy, false⟩

def getInner (call : Json) (index : ℕ) (calls : CallLog) : Called Url Response :=
  match parseGetCall lib.debugText call with
  | .error error => ⟨.error error, calls, []⟩
  | .ok call =>
    match lib.parse call.url with
    | .error error => ⟨.error (.policy ("ctx.http.get: invalid URL: " ++ error)), calls, []⟩
    | .ok url =>
      let sent := sendFirst lib access world getMode .policy call.timeout index url
        (calls.update index (recordUrl lib url))
      ⟨sent.result.bind readResponse, sent.calls, sent.requested⟩

def get (elapsedMs : ℕ → Ms) (call : Json) (calls : CallLog) : Called Url Response :=
  let begun := calls.beginCall (CallRecord.new "http.get")
  let inner := getInner lib access world call begun.2 begun.1
  match inner.result with
  | .ok response =>
    let calls := inner.calls.update begun.2 (fun record =>
      { record with status := some response.status, responseBytes := some response.body.length })
    { inner with calls := calls.update begun.2 (finishCall world elapsedMs none) }
  | .error error =>
    { inner with calls := inner.calls.update begun.2 (finishCall world elapsedMs (some error)) }

def pipeMode : Mode := ⟨"ctx.http.pipe", access.clientRange, .redirect, true⟩

/-- The upstream headers that a piped response takes over, behind the script's own. -/
def passthrough (headers : List (String × String)) (upstream : HeaderMap) :
    List (String × String) :=
  (upstream.flatMap (fun entry => entry.2.map (fun value => (asciiLower entry.1, value)))).foldl
    (fun headers entry =>
      if (entry.1 = "content-range" ∨ entry.1 = "content-length") ∧
          ¬ headers.any (fun existing => eqIgnoreAsciiCase existing.1 entry.1) then
        match entry.2.toStr with
        | some value => headers ++ [(entry.1, value)]
        | none => headers
      else headers) headers

/-- The piped response of an answer that is not an error. -/
def pipeAnswer (call : PipeCall) (index : ℕ) (answer : Answer) : Except Error PipeResponse :=
  if 200 ≤ answer.status ∧ answer.status ≤ 299 then
    .ok ⟨call.status.getD answer.status, passthrough call.headers answer.headers,
      ⟨pumpBody answer.reads, ⟨index, world.startedAt, false⟩⟩⟩
  else .error (.status answer.status)

def pipeInner (call : Json) (index : ℕ) (calls : CallLog) : Called Url PipeResponse :=
  match parsePipeCall lib.debugText call with
  | .error error => ⟨.error error, calls, []⟩
  | .ok call =>
    match lib.parse call.url with
    | .error error => ⟨.error (.invalidUrl ("ctx.http.pipe: invalid URL: " ++ error)), calls, []⟩
    | .ok url =>
      let sent := sendFirst lib access world (pipeMode access) .invalidUrl none index url
        (calls.update index (recordUrl lib url))
      match sent.result with
      | .error error => ⟨.error error, sent.calls, sent.requested⟩
      | .ok answer =>
        ⟨pipeAnswer world call index answer,
          sent.calls.update index (fun record => { record with status := some answer.status }),
          sent.requested⟩

def pipe (elapsedMs : ℕ → Ms) (call : Json) (calls : CallLog) : Called Url PipeResponse :=
  let begun := calls.beginCall (CallRecord.new "http.pipe")
  let inner := pipeInner lib access world call begun.2 begun.1
  match inner.result with
  | .ok _ => inner
  | .error error =>
    { inner with calls := inner.calls.update begun.2 (finishCall world elapsedMs (some error)) }

end Calls

end StuntDouble.Upstream
