import StuntDouble.Machine
import StuntDouble.Server
import StuntDouble.Utf16

/-!
`ctx.respond`, `ctx.http.pipe` and `ctx.log` as the script prelude has them. The first two look
for a response when they are entered and write theirs when their checks are done; the last one
writes its entry when its arguments are formatted. In between, converting an argument may run
user code, which may call any of them again. The calls under way are a stack, and an action is
what the innermost one meets next.
-/
namespace StuntDouble.Prelude

open Http Server

inductive FileHandle
  | file (handle : ℕ)
  | upload (handle : ℕ)
deriving DecidableEq, Repr

/-- A status argument; what is not an integer is no status. -/
inductive StatusArg
  | integer (status : ℤ)
  | other
deriving DecidableEq, Repr

/-- A body argument; a handle and a plain array are objects that the script keeps. A text is
the code units of the engine. -/
inductive BodyArg
  | absent
  | text (text : List UInt16)
  | handle (id : ℕ)
  | typed (bytes : Bytes)
  | array (id : ℕ)
  | other

/-- An element of a body array, as it is read. -/
inductive Element
  | integer (value : ℤ)
  | other
deriving DecidableEq, Repr

/-- The options of a pipe. -/
inductive OptsArg
  | absent
  | invalid
  | plain (status : Option StatusArg)

/-- A recorded body; `array` is the array of the script, with the bytes that were checked. -/
inductive RecordedBody
  | text (text : List UInt16)
  | handle (handle : FileHandle)
  | bytes (bytes : List ℕ)
  | array (id : ℕ) (bytes : List ℕ)
deriving DecidableEq, Repr

inductive Recorded
  | response (status : ℕ) (headers : List (String × String)) (body : RecordedBody)
  | stream (status : ℕ) (headers : List (String × String))
deriving DecidableEq, Repr

inductive Level
  | info
  | warn
  | error
deriving DecidableEq, Repr

def Level.name : Level → String
  | .info => "info"
  | .warn => "warn"
  | .error => "error"

/-- An entry of the log, with its message as the engine holds it. -/
structure Logged where
  level : String
  message : List UInt16
deriving DecidableEq, Repr

/-- What is called; a call of `ctx.log` has its place among those that log. -/
inductive Api
  | respond (status : ℕ) (body : BodyArg)
  | pipe (url : String) (status : Option ℕ)
  | log (level : Level) (slot : ℕ)

inductive Phase
  | opts
  | headers
  | last
deriving DecidableEq, Repr

/-- A call whose checks are under way, with what they have converted so far. -/
structure Frame where
  api : Api
  phase : Phase
  headers : List (String × String)
  bytes : List ℕ

/-- The global of the prelude, the handles and the calls under way. The slots are kept for the
statements only: what logs, in the order of the calls, with the entry once it is written. -/
structure Realm where
  response : Option Recorded
  logs : List Logged
  slots : List (Option Logged)
  handles : List (Option FileHandle)
  frames : List Frame

/-- How a call that is over ended: with `true`, with `false`, with an entry in the log, or with
an exception. -/
inductive Answer
  | running
  | recorded (response : Recorded)
  | ignored
  | logged
  | threw
deriving DecidableEq, Repr

/-- What the innermost call meets next, or a call or a stream that user code opens. A header or
a url that no text can hold is refused by the host, as a `raise` or a `bridge` without a reply.
The last action stands for a script that writes the global of the prelude, or changes a built-in
that the prelude uses: anything may come of it. -/
inductive Action
  | respond (status : StatusArg) (body : BodyArg)
  | pipe (url : Option String)
  | log (level : Level)
  | stream (handle : FileHandle)
  | opts (opts : OptsArg)
  | header (name value : String)
  | headersEnd
  | element (element : Element)
  | bodyEnd
  | bridge (reply : Option (UInt16 × List (String × String)))
  | logged (message : List UInt16)
  | raise
  | tamper (changed : Realm) (answer : Answer)

def Realm.start : Realm := ⟨none, [], [], [], []⟩

section Checks

def checkStatus : StatusArg → Option ℕ
  | .integer status => if 100 ≤ status ∧ status ≤ 599 then some status.toNat else none
  | .other => none

/-- The status of the options of a pipe, if they are valid. -/
def checkPipeOpts : OptsArg → Option (Option ℕ)
  | .absent => some none
  | .invalid => none
  | .plain none => some none
  | .plain (some status) => (checkStatus status).map some

def checkByte : Element → Option ℕ
  | .integer value => if 0 ≤ value ∧ value ≤ 255 then some value.toNat else none
  | .other => none

/-- Whether a header is the host's in a response for a method that is not allowed. -/
def checkHostOwnedAllow (matchKind : String) (headers : List (String × String)) : Bool :=
  !(matchKind == "method_not_allowed" && headers.any (fun header => asciiLower header.1 == "allow"))

def checkFileStreamResponse (status : ℕ) (headers : List (String × String)) : Bool :=
  status == 200 && !headers.any (fun header => framingNames.contains (asciiLower header.1))

variable (env : Env) (matchKind : String)

/-- The headers of a call, converted and validated. -/
def checkedHeaders (frame : Frame) : Bool :=
  match validatedHeaderPairs env frame.headers, frame.api with
  | .error _, _ => false
  | .ok _, .respond _ _ => checkHostOwnedAllow matchKind frame.headers
  | .ok _, .pipe _ _ => true
  | .ok _, .log _ _ => true

/-- The body of a response, if it passes; a handle has to be open and its response plain. -/
def checkedBody (realm : Realm) (frame : Frame) (status : ℕ) : BodyArg → Option RecordedBody
  | .absent => some (.text [])
  | .text text => some (.text text)
  | .handle id =>
    match realm.handles[id]? with
    | some (some handle) =>
      if checkFileStreamResponse status frame.headers then some (.handle handle) else none
    | _ => none
  | .typed bytes => some (.bytes (bytes.map UInt8.toNat))
  | .array id => some (.array id frame.bytes)
  | .other => none

/-- The response that an action completes, when it is the last check of a call and passes. -/
def completed (realm : Realm) (action : Action) : Option Recorded :=
  match realm.frames with
  | [] => none
  | frame :: _ =>
    match frame.api, frame.phase, action with
    | .respond status body, .last, .bodyEnd =>
      (checkedBody realm frame status body).map (.response status frame.headers)
    | .pipe _ _, .last, .bridge (some (status, headers)) => some (.stream status.toNat headers)
    | _, _, _ => none

end Checks

section Steps

variable (env : Env) (matchKind : String)

/-- The warning of a call that finds a response. -/
def ignoredWarning (label : String) : Logged :=
  ⟨"warn", Utf16.encode (label ++ " ignored: a response was already produced")⟩

/-- Write an entry whose message is a text already. -/
def Realm.note (realm : Realm) (entry : Logged) : Realm :=
  { realm with logs := realm.logs ++ [entry], slots := realm.slots ++ [some entry] }

/-- The calls that look for a response when they are entered. -/
def Action.isCall : Action → Bool
  | .respond _ _ | .pipe _ => true
  | _ => false

/-- Enter a call, unless there is a response already. -/
def Realm.enter (realm : Realm) (label : String) (frame : Option Frame) : Realm × Answer :=
  if realm.response.isSome then (realm.note (ignoredWarning label), .ignored)
  else
    match frame with
    | none => (realm, .threw)
    | some frame => ({ realm with frames := frame :: realm.frames }, .running)

/-- Enter a call of `ctx.log`. -/
def Realm.enterLog (realm : Realm) (level : Level) : Realm × Answer :=
  ({ realm with slots := realm.slots ++ [none],
                frames := ⟨.log level realm.slots.length, .last, [], []⟩ :: realm.frames },
    .running)

/-- Leave the innermost call with an exception. -/
def Realm.leave (realm : Realm) : Realm × Answer :=
  ({ realm with frames := realm.frames.tail }, .threw)

/-- Go on with the innermost call. -/
def Realm.goOn (realm : Realm) (frame : Frame) : Realm × Answer :=
  ({ realm with frames := frame :: realm.frames.tail }, .running)

/-- A handle that a response takes is gone. -/
def consume (handles : List (Option FileHandle)) : Frame → List (Option FileHandle)
  | ⟨.respond _ (.handle id), _, _, _⟩ => handles.set id none
  | _ => handles

/-- Record the response of the innermost call, and return `true` from it. -/
def Realm.record (realm : Realm) (frame : Frame) (response : Recorded) : Realm × Answer :=
  ({ realm with response := some response, handles := consume realm.handles frame,
                frames := realm.frames.tail }, .recorded response)

/-- Write the entry of the innermost call, a call of `ctx.log`. -/
def Realm.write (realm : Realm) (slot : ℕ) (entry : Logged) : Realm × Answer :=
  ({ realm with logs := realm.logs ++ [entry], slots := realm.slots.set slot (some entry),
                frames := realm.frames.tail }, .logged)

/-- An action of the innermost call. -/
def stepFrame (realm : Realm) (frame : Frame) (action : Action) : Realm × Answer :=
  match completed realm action with
  | some response => realm.record frame response
  | none =>
    match frame.api, frame.phase, action with
    | .pipe url _, .opts, .opts opts =>
      match checkPipeOpts opts with
      | some status => realm.goOn { frame with api := .pipe url status, phase := .headers }
      | none => realm.leave
    | _, .headers, .header name value =>
      realm.goOn { frame with headers := frame.headers ++ [(name, value)] }
    | _, .headers, .headersEnd =>
      if checkedHeaders env matchKind frame then realm.goOn { frame with phase := .last }
      else realm.leave
    | .respond _ (.array _), .last, .element element =>
      match checkByte element with
      | some byte => realm.goOn { frame with bytes := frame.bytes ++ [byte] }
      | none => realm.leave
    | .respond _ _, .last, .bodyEnd => realm.leave
    | .pipe _ _, .last, .bridge _ => realm.leave
    | .log level slot, _, .logged message => realm.write slot ⟨level.name, message⟩
    | _, _, .raise => realm.leave
    | _, _, _ => (realm, .running)

/-- An action of the innermost call, if a call is under way. -/
def stepTop (realm : Realm) (action : Action) : Realm × Answer :=
  match realm.frames with
  | [] => (realm, .running)
  | frame :: _ => stepFrame env matchKind realm frame action

def step (realm : Realm) (action : Action) : Realm × Answer :=
  match action with
  | .respond status body =>
    realm.enter "ctx.respond" ((checkStatus status).map (fun status =>
      ⟨.respond status body, .headers, [], []⟩))
  | .pipe url =>
    realm.enter "ctx.http.pipe" (url.map (fun url => ⟨.pipe url none, .opts, [], []⟩))
  | .log level => realm.enterLog level
  | .stream handle => ({ realm with handles := realm.handles ++ [some handle] }, .running)
  | .tamper changed answer => (changed, answer)
  | action => stepTop env matchKind realm action

end Steps

section Cases

variable (env : Env) (matchKind : String) (realm : Realm) (frame : Frame)

/-- What an action of the innermost call does. -/
inductive FrameStepped : Action → Realm × Answer → Prop
  | recorded (action : Action) (response : Recorded)
      (hcompleted : completed realm action = some response) :
      FrameStepped action (realm.record frame response)
  | opts (url : String) (status given : Option ℕ) (opts : OptsArg)
      (hapi : frame.api = .pipe url status) (hopts : checkPipeOpts opts = some given) :
      FrameStepped (.opts opts)
        (realm.goOn { frame with api := .pipe url given, phase := .headers })
  | header (name value : String) (hphase : frame.phase = .headers) :
      FrameStepped (.header name value)
        (realm.goOn { frame with headers := frame.headers ++ [(name, value)] })
  | headersEnd (hphase : frame.phase = .headers)
      (hheaders : checkedHeaders env matchKind frame = true) :
      FrameStepped .headersEnd (realm.goOn { frame with phase := .last })
  | element (element : Element) (byte status id : ℕ)
      (hapi : frame.api = .respond status (.array id))
      (hbyte : checkByte element = some byte) :
      FrameStepped (.element element) (realm.goOn { frame with bytes := frame.bytes ++ [byte] })
  | wrote (level : Level) (slot : ℕ) (message : List UInt16) (hapi : frame.api = .log level slot) :
      FrameStepped (.logged message) (realm.write slot ⟨level.name, message⟩)
  | left (action : Action) (hnone : completed realm action = none)
      (hleft : action = .raise ∨ frame.phase = .headers ∨
        ∀ level slot, frame.api ≠ .log level slot) :
      FrameStepped action realm.leave
  | stayed (action : Action) (hnone : completed realm action = none) :
      FrameStepped action (realm, .running)

variable {env matchKind realm frame}

/-- Only the last action of a call completes it. -/
theorem completed_none {action : Action} (hbody : action ≠ .bodyEnd)
    (hbridge : ∀ reply, action ≠ .bridge reply) : completed realm action = none := by
  unfold completed
  split
  · rfl
  · split
    · exact absurd rfl hbody
    · exact absurd rfl (hbridge _)
    · rfl

theorem stepFrame_stepped (action : Action) :
    FrameStepped env matchKind realm frame action
      (stepFrame env matchKind realm frame action) := by
  unfold stepFrame
  split
  · rename_i response hcompleted
    exact .recorded action response hcompleted
  · rename_i hnone
    split
    · rename_i url status opts hapi hphase
      split
      · rename_i given hopts
        exact .opts url status given opts hapi hopts
      · exact .left _ hnone (Or.inr (Or.inr (by simp [hapi])))
    · rename_i name value hphase
      exact .header name value hphase
    · rename_i hphase
      split
      · rename_i hheaders
        exact .headersEnd hphase hheaders
      · exact .left _ hnone (Or.inr (Or.inl hphase))
    · rename_i status id element hapi hphase
      split
      · rename_i byte hbyte
        exact .element element byte status id hapi hbyte
      · exact .left _ hnone (Or.inr (Or.inr (by simp [hapi])))
    · rename_i hapi _
      exact .left _ hnone (Or.inr (Or.inr (by simp [hapi])))
    · rename_i hapi _
      exact .left _ hnone (Or.inr (Or.inr (by simp [hapi])))
    · rename_i level slot message hapi
      exact .wrote level slot message hapi
    · exact .left _ hnone (Or.inl rfl)
    · exact .stayed _ hnone

variable (env matchKind realm)

/-- What a step does, by what it finds of the response and of the calls under way. -/
inductive Stepped : Action → Realm × Answer → Prop
  | ignored (action : Action) (label : String) (hcall : action.isCall = true)
      (hresponse : realm.response.isSome = true) :
      Stepped action (realm.note (ignoredWarning label), .ignored)
  | refused (action : Action) (hcall : action.isCall = true) : Stepped action (realm, .threw)
  | respond (arg : StatusArg) (status : ℕ) (body : BodyArg)
      (hstatus : checkStatus arg = some status)
      (hresponse : realm.response = none) :
      Stepped (.respond arg body) ({ realm with
        frames := ⟨.respond status body, .headers, [], []⟩ :: realm.frames }, .running)
  | pipe (url : String) (hresponse : realm.response = none) :
      Stepped (.pipe (some url)) ({ realm with
        frames := ⟨.pipe url none, .opts, [], []⟩ :: realm.frames }, .running)
  | log (level : Level) : Stepped (.log level) (realm.enterLog level)
  | stream (handle : FileHandle) :
      Stepped (.stream handle) ({ realm with handles := realm.handles ++ [some handle] }, .running)
  | idle (action : Action) (hframes : realm.frames = []) : Stepped action (realm, .running)
  | inner (frame : Frame) (rest : List Frame) (action : Action) (result : Realm × Answer)
      (hframes : realm.frames = frame :: rest)
      (hinner : FrameStepped env matchKind realm frame action result) : Stepped action result
  | tampered (changed : Realm) (answer : Answer) :
      Stepped (.tamper changed answer) (changed, answer)

variable {env matchKind realm}

theorem stepTop_stepped (action : Action) :
    Stepped env matchKind realm action (stepTop env matchKind realm action) := by
  unfold stepTop
  split
  · rename_i hframes
    exact .idle action hframes
  · rename_i frame rest hframes
    exact .inner frame rest action _ hframes (stepFrame_stepped action)

theorem enter_ignored {label : String} {frame : Option Frame}
    (hresponse : realm.response.isSome = true) :
    realm.enter label frame = (realm.note (ignoredWarning label), .ignored) := if_pos hresponse

theorem enter_fresh {label : String} {frame : Option Frame} (hresponse : realm.response = none) :
    realm.enter label frame =
      match frame with
      | none => (realm, .threw)
      | some frame => ({ realm with frames := frame :: realm.frames }, .running) :=
  if_neg (by rw [hresponse]; simp)

theorem step_stepped (action : Action) :
    Stepped env matchKind realm action (step env matchKind realm action) := by
  cases action with
  | respond arg body =>
    cases hresponse : realm.response with
    | some response =>
      rw [step, enter_ignored (by rw [hresponse]; rfl)]
      exact .ignored _ "ctx.respond" rfl (by rw [hresponse]; rfl)
    | none =>
      rw [step, enter_fresh hresponse]
      cases hstatus : checkStatus arg with
      | none => exact .refused _ rfl
      | some status => exact .respond arg status body hstatus hresponse
  | pipe url =>
    cases hresponse : realm.response with
    | some response =>
      rw [step, enter_ignored (by rw [hresponse]; rfl)]
      exact .ignored _ "ctx.http.pipe" rfl (by rw [hresponse]; rfl)
    | none =>
      rw [step, enter_fresh hresponse]
      cases url with
      | none => exact .refused _ rfl
      | some url => exact .pipe url hresponse
  | log level => exact .log level
  | stream handle => exact .stream handle
  | tamper changed answer => exact .tampered changed answer
  | _ => exact stepTop_stepped _

end Cases

end StuntDouble.Prelude
