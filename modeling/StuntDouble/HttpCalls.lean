import StuntDouble.FileCalls

/-!
`ctx.http.get` from a script to the upstream and back. The prelude checks the arguments, the
host makes the call, and the script sees the response of the upstream or throws its error.
-/
namespace StuntDouble.Prelude

open Http JsonText Script Upstream

section Payloads

inductive UrlArg
  | text (units : List UInt16)
  | other

/-- The options of a call; `special` is an object of another prototype, and `timeout` is what
`timeout_ms` is found to be when it is one of the names. -/
inductive PlainOpts
  | absent
  | other
  | special
  | plain (symbols : List String) (names : List (List UInt16)) (timeout : Element)

def timeoutName : List UInt16 := Utf16.encode "timeout_ms"

def checkPlainOpts (label : String) (allowedKeys : List (List UInt16)) :
    PlainOpts → Except Thrown Unit
  | .absent => .ok ()
  | .other => .error (.typeError (label ++ ": opts must be an object"))
  | .special => .error (.typeError (label ++ ": opts must be a plain object"))
  | .plain (symbol :: _) _ _ => .error (.typeError (label ++ ": unknown opts key " ++ symbol))
  | .plain [] names _ =>
    match names.find? fun name => !allowedKeys.contains name with
    | some name => .error (.typeError (label ++ ": unknown opts key " ++
        String.ofList (stringify (.string name))))
    | none => .ok ()

/-- The timeout among the options, if it is one of them. -/
def checkTimeout : PlainOpts → Except Thrown (Option ℕ)
  | .plain _ names timeout =>
    if names.contains timeoutName then
      match timeout with
      | .integer ms =>
        if 0 < ms then .ok (some ms.toNat)
        else .error (.typeError "ctx.http.get: opts.timeout_ms must be a positive integer")
      | .other =>
        .error (.typeError "ctx.http.get: opts.timeout_ms must be a positive integer")
    else .ok none
  | _ => .ok none

variable (numberText : ℕ → NumberText)

def getPayload (url : List UInt16) (timeout : Option ℕ) : Tree :=
  .object ((Utf16.encode "url", .string url) ::
    (timeout.map fun ms => (timeoutName, .number (numberText ms))).toList)

def httpGetPayload (opts : PlainOpts) : UrlArg → Except Thrown Tree
  | .other => .error (.typeError "ctx.http.get: url must be a string")
  | .text url => do
    checkPlainOpts "ctx.http.get" [timeoutName] opts
    let timeout ← checkTimeout opts
    return getPayload numberText url timeout

end Payloads

section Calls

/-- What `ctx.http.get` returns; `bytes` decodes the body when it is called. -/
structure HttpResponse where
  status : Option Json
  headers : Option Json
  text : Option Json
  bytes : Except Thrown Bytes

def httpResponse (result : Json) : HttpResponse :=
  let upstream := result.get "response"
  ⟨upstream.bind (Json.get "status"), upstream.bind (Json.get "headers"),
    upstream.bind (Json.get "text"),
    decodeBase64 (textMember (upstream.getD .null) "body_base64").toList⟩

variable {Url : Type} (floatText : UInt64 → String) (readFloat : List Char → Option UInt64)
  (numberText : ℕ → NumberText) (env : Server.Env) (world : HostWorld Url)

def httpGet (host : HostState) (url : UrlArg) (opts : PlainOpts) :
    HostState × Except Raised HttpResponse :=
  match httpGetPayload numberText opts url with
  | .error thrown => (host, .error (.thrown thrown))
  | .ok payload =>
    ((serveHost floatText readFloat env world host .httpGet payload).1,
      (callBridge readFloat (serveHost floatText readFloat env world host .httpGet payload).2
        "ctx.http.get").map httpResponse)

end Calls

section Meaning

/-- Options that are taken, with their timeout. -/
inductive Accepts : PlainOpts → Option ℕ → Prop
  | absent : Accepts .absent none
  | empty (timeout : Element) : Accepts (.plain [] [] timeout) none
  | timeout (names : List (List UInt16)) (hsome : names ≠ [])
      (hnames : ∀ name ∈ names, name = timeoutName) (ms : ℕ) (hms : 0 < ms) :
      Accepts (.plain [] names (.integer ms)) (some ms)

/-- What a call throws for an error of the host. -/
def raisedOf (error : Upstream.Error) : Raised :=
  match error.transportKind with
  | some kind => .upstream error.message kind
  | none => .thrown (.coded error.code error.message)

theorem readAnswer_upstream (error : Upstream.Error) :
    readAnswer (upstreamErrorJson error) = .error (raisedOf error) := by
  cases error with
  | transport kind message => cases kind <;> rfl
  | policy message | invalidUrl message | redirect message => rfl
  | status answered => rfl

end Meaning

section Checks

end Checks

section Payloads

variable (readFloat : List Char → Option UInt64) {numberText : ℕ → NumberText}

end Payloads

section Responses

variable {base64 : Bytes → String} (hbase64 : ∀ bytes, (base64 bytes).toList = Base64.encode bytes)

end Responses

section Runs

variable {Url : Type} (floatText : UInt64 → String) (readFloat : List Char → Option UInt64)
  (numberText : ℕ → NumberText) (env : Server.Env) (world : HostWorld Url)

/-- Options are taken with one timeout. -/
theorem Accepts.unique {opts : PlainOpts} {timeout other : Option ℕ} (h : Accepts opts timeout)
    (hother : Accepts opts other) : timeout = other := by
  cases h with
  | absent => cases hother; rfl
  | empty found =>
    cases hother with
    | empty _ => rfl
    | timeout _ hsome => exact absurd rfl hsome
  | timeout names hsome hnames ms hpos =>
    cases hother with
    | empty _ => exact absurd rfl hsome
    | timeout _ _ _ _ _ => rfl

theorem plain_upstreamErrorJson (error : Upstream.Error) : Plain (upstreamErrorJson error) := by
  refine ⟨trivial, ?_, trivial, trivial, trivial⟩
  cases error.transportKind <;> trivial

end Runs

end StuntDouble.Prelude
