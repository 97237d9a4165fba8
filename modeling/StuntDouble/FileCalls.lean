import StuntDouble.FilePaths
import StuntDouble.RequestViews

/-!
The calls of `ctx.file` and of the files of a request, from a script to the host and back.
Over whole runs a call returns what the opened file holds, or throws for it, and its streams
hold the files as they were opened.
-/
namespace StuntDouble.Files

open Script

def FileOp.label : FileOp → String
  | readText => "ctx.file.readText"
  | readBytes => "ctx.file.readBytes"
  | stream => "ctx.file.stream"

def FileOp.uploadSuffix : FileOp → String
  | readText => ".text"
  | readBytes => ".bytes"
  | stream => ".stream"

theorem FileOp.parse_name (op : FileOp) : FileOp.parse op.name = some op := by
  cases op <;> rfl

/-- A file from its first byte to its last. -/
def wholeFile (content : Bytes) (call : RequestLog.Pending) : FileBody :=
  ⟨content, content.length, 0, content.length, call⟩

/-- A table of streams that hold whole files. -/
def Whole : Streams FileBody → List Bytes → Prop :=
  List.Forall₂ fun stream content => ∃ call, stream = some (wholeFile content call)

theorem Whole.last {streams : Streams FileBody} {contents : List Bytes} {content : Bytes}
    (h : Whole streams (contents ++ [content])) :
    ∃ call, streams[contents.length]? = some (some (wholeFile content call)) := by
  have hright : contents.length < (contents ++ [content]).length := by simp
  have hleft : contents.length < streams.length := by
    rw [h.length_eq]
    exact hright
  obtain ⟨call, hcall⟩ := h.get hleft hright
  refine ⟨call, ?_⟩
  rw [List.getElem?_eq_getElem hleft]
  simpa using hcall

theorem exists_of_rel {A B : Type} {R : A → B → Prop} {a : Option A} {b : B}
    (h : Option.Rel R a (some b)) : ∃ x, a = some x ∧ R x b := by
  cases h with
  | some hrel => exact ⟨_, rfl, hrel⟩

end StuntDouble.Files

namespace StuntDouble.Prelude

open Files JsonText Script

section Calls

inductive PathArg
  | text (units : List UInt16)
  | other

/-- What a call returns; text and handle are members of the answer. -/
inductive FileOutput
  | text (text : Option Json)
  | bytes (bytes : Bytes)
  | stream (handle : Option Json)

/-- A call of `ctx.file`, or of a file of `ctx.request` by the index that it has there. -/
inductive FileCall
  | file (op : FileOp) (path : PathArg)
  | upload (op : FileOp) (index : Fin (2 ^ 32))

def checkFilePath (label : String) : PathArg → Except Thrown (List UInt16)
  | .text units => .ok units
  | .other => .error (.typeError (label ++ ": path must be a string"))

def pathPayload (op : FileOp) (path : List UInt16) : Tree :=
  .object [(Utf16.encode "op", .string (Utf16.encode op.name)), (Utf16.encode "path", .string path)]

def uploadPayload (op : FileOp) (index : ℕ) : Tree :=
  .object [(Utf16.encode "op", .string (Utf16.encode op.name)),
    (Utf16.encode "index", natTree index)]

namespace FileCall

def op : FileCall → FileOp
  | file op _ | upload op _ => op

def label : FileCall → String
  | file op _ => op.label
  | upload op index => "ctx.request.files[" ++ toString index.val ++ "]" ++ op.uploadSuffix

def bridge : FileCall → BridgeName
  | file _ _ => .file
  | upload _ _ => .upload

def payload : FileCall → Except Thrown Tree
  | file op path => (checkFilePath op.label path).map (pathPayload op)
  | upload op index => .ok (uploadPayload op index.val)

end FileCall

/-- What the prelude returns of an answer. -/
def fileOutput (op : FileOp) (result : Json) : Except Raised FileOutput :=
  match op with
  | .readText => .ok (.text (result.get "text"))
  | .readBytes =>
    ((decodeBase64 (textMember result "bytes_base64").toList).mapError Raised.thrown).map .bytes
  | .stream => .ok (.stream (result.get "handle"))

variable {Url : Type} (floatText : UInt64 → String) (readFloat : List Char → Option UInt64)
  (env : Server.Env) (world : HostWorld Url)

/-- The host behind a bridge; a payload that is no value does not reach it. -/
def serveHost (host : HostState) (bridge : BridgeName) (payload : Tree) :
    HostState × Option (List Char) :=
  match fromStr readFloat (stringify payload) with
  | none => (host, none)
  | some json =>
    ((host.dispatch env world ⟨bridge, json⟩).1,
      (host.dispatch env world ⟨bridge, json⟩).2.map (Json.compactChars floatText))

def FileCall.run (host : HostState) (call : FileCall) : HostState × Except Raised FileOutput :=
  match call.payload with
  | .error thrown => (host, .error (.thrown thrown))
  | .ok payload =>
    ((serveHost floatText readFloat env world host call.bridge payload).1,
      (callBridge readFloat (serveHost floatText readFloat env world host call.bridge payload).2
        call.label).bind (fileOutput call.op))

end Calls

section Meaning

/-- What an opened file comes to for a script; a stream is known by its number. -/
def readOutcome (op : FileOp) (content : Except Files.Error Bytes) (handle : ℕ) :
    Except Raised FileOutput :=
  match content with
  | .error error => .error (.thrown (.coded error.code error.message))
  | .ok bytes =>
    if op = .stream then .ok (.stream (some (.nat handle)))
    else if maxReadBytes < bytes.length then
      .error (.thrown (.coded Files.Error.tooLarge.code Files.Error.tooLarge.message))
    else if op = .readBytes then .ok (.bytes bytes)
    else
      match Utf8.decode bytes with
      | none => .error (.thrown (.coded Files.Error.encoding.code Files.Error.encoding.message))
      | some text => .ok (.text (some (.string text)))

/-- The stream that an opened file leaves. -/
def streamed (op : FileOp) (content : Except Files.Error Bytes) : List Bytes :=
  match content with
  | .error _ => []
  | .ok bytes => if op = .stream then [bytes] else []

/-- How many calls have reached the host, and the files that have been opened as streams. -/
structure FileState where
  turn : ℕ
  files : List Bytes
  uploads : Option (List Bytes)

variable {Url : Type} (world : HostWorld Url)

/-- A call without a bridge in between. -/
def fileStep (state : FileState) : FileCall → FileState × Except Raised FileOutput
  | .file op .other =>
    (state, .error (.thrown (.typeError (op.label ++ ": path must be a string"))))
  | .file op (.text units) =>
    match toText units with
    | none => (state, .error (.thrown (.coded "script_error" (op.label ++ ": host bridge failed"))))
    | some path =>
      let content := (world.openFile state.turn path).content
      (⟨state.turn + 1, state.files ++ streamed op content, state.uploads⟩,
        readOutcome op content state.files.length)
  | .upload op index =>
    match state.uploads with
    | none =>
      (⟨state.turn + 1, state.files, none⟩,
        .error (.thrown (.coded "script_error" "__sd_upload called outside a script request")))
    | some uploads =>
      match world.uploaded state.turn index.val with
      | none =>
        (⟨state.turn + 1, state.files, some uploads⟩,
          .error (.thrown (.coded "script_error" "ctx.request.files: index out of range")))
      | some opening =>
        (⟨state.turn + 1, state.files, some (uploads ++ streamed op opening.content)⟩,
          readOutcome op opening.content uploads.length)

/-- A host whose streams are the ones of the state. -/
structure Hosts (host : HostState) (state : FileState) : Prop where
  turn : host.turn = state.turn
  files : ∃ streams, host.files = some streams ∧ Whole streams state.files
  uploads : Option.Rel Whole host.uploads state.uploads

end Meaning

section Answers

theorem readAnswer_failure {code : String} (message : String) (h : code ≠ "upstream_unreachable") :
    readAnswer (failureJson code message) = .error (.thrown (.coded code message)) := by
  have hok : truthy ((failureJson code message).get "ok") = false := rfl
  have hcode : ((failureJson code message).get "code").bind Json.asStr = some code := rfl
  have hne : ¬ some code = some "upstream_unreachable" := fun heq => h (Option.some.inj heq)
  have hmembers : textMember (failureJson code message) "code" = code ∧
      textMember (failureJson code message) "message" = message := ⟨rfl, rfl⟩
  rw [readAnswer, hok, hcode, if_neg hne, hmembers.1, hmembers.2]
  rfl

theorem readAnswer_error (error : Files.Error) :
    readAnswer (errorJson error) = .error (.thrown (.coded error.code error.message)) := by
  apply readAnswer_failure
  cases error <;> simp [Files.Error.code]

theorem plain_failureJson (code message : String) : Plain (failureJson code message) :=
  ⟨trivial, trivial, trivial, trivial⟩

variable (base64 : Bytes → String) (hbase64 : ∀ bytes, (base64 bytes).toList = Base64.encode bytes)
  (elapsedMs : ℕ → RequestLog.Ms)

include hbase64

/-- The answer about a file that is read whole. -/
theorem readAll_answer {op : FileOp} (hop : op ≠ .stream) (bytes : Bytes) (handle : ℕ) :
    (∀ error, readAll base64 op bytes = .error error → readOutcome op (.ok bytes) handle =
      .error (.thrown (.coded error.code error.message))) ∧
    ∀ read, readAll base64 op bytes = .ok read → Plain read.1 ∧
      (readAnswer read.1).bind (fileOutput op) = readOutcome op (.ok bytes) handle := by
  unfold readAll readCapped readOutcome
  by_cases hlong : maxReadBytes < bytes.length
  · simp only [if_pos hlong, if_neg hop]
    refine ⟨?_, by simp⟩
    intro error herror
    cases herror
    rfl
  · simp only [if_neg hlong, if_neg hop]
    cases op with
    | stream => exact absurd rfl hop
    | readText =>
      simp only [if_true]
      cases hdecode : Utf8.decode bytes with
      | none =>
        refine ⟨?_, by simp⟩
        intro error herror
        cases herror
        rfl
      | some text =>
        refine ⟨by simp, ?_⟩
        intro read hread
        cases hread
        exact ⟨⟨trivial, trivial, trivial⟩, rfl⟩
    | readBytes =>
      refine ⟨by simp, ?_⟩
      intro read hread
      cases hread
      refine ⟨⟨trivial, trivial, trivial⟩, ?_⟩
      show ((decodeBase64 (base64 bytes).toList).mapError Raised.thrown).map _ = _
      rw [hbase64, decodeBase64_encode]
      rfl

/-- The answer about a file, and the streams behind it. -/
theorem perform_answer (op : FileOp) (api : String) (opening : Opening)
    {streams : Streams FileBody} {contents : List Bytes} (hwhole : Whole streams contents)
    (hfew : contents.length < 2 ^ 53) (calls : CallLog) :
    Plain (perform base64 elapsedMs op api opening streams calls).json ∧
      (readAnswer (perform base64 elapsedMs op api opening streams calls).json).bind
          (fileOutput op) = readOutcome op opening.content contents.length ∧
        Whole (perform base64 elapsedMs op api opening streams calls).streams
          (contents ++ streamed op opening.content) := by
  have hlength : streams.length = contents.length := hwhole.length_eq
  unfold perform
  cases hcontent : opening.content with
  | error error =>
    refine ⟨plain_failureJson _ _, ?_, ?_⟩
    · simp only [readAnswer_error]
      rfl
    · rw [streamed, List.append_nil]
      exact hwhole
  | ok bytes =>
    by_cases hstream : op = .stream
    · subst hstream
      simp only [if_true, registerStream, streamed, hlength]
      refine ⟨⟨?_, trivial, trivial⟩, rfl, List.rel_append hwhole (.cons ⟨_, rfl⟩ .nil)⟩
      exact hfew.trans (by decide)
    · obtain ⟨herror, hok⟩ := readAll_answer base64 hbase64 hstream bytes contents.length
      simp only [if_neg hstream, streamed, List.append_nil]
      cases hall : readAll base64 op bytes with
      | error error =>
        refine ⟨plain_failureJson _ _, ?_, hwhole⟩
        simp only [readAnswer_error]
        exact (herror error hall).symm
      | ok read =>
        obtain ⟨hplain, hanswer⟩ := hok read hall
        exact ⟨hplain, hanswer, hwhole⟩

end Answers

section Steps

variable {Url : Type} (floatText : UInt64 → String) (readFloat : List Char → Option UInt64)
  (env : Server.Env) {world : HostWorld Url}
  (hbase64 : ∀ bytes, (world.base64 bytes).toList = Base64.encode bytes)

theorem payload_pair {op : FileOp} {name : String} {tree : Tree} {value : Json}
    (hname : name ≠ "op") (htree : tree.toJson readFloat = some value)
    (hvalue : value.toValue = value) (hdepth : depth value ≤ 1) :
    ∃ json, fromStr readFloat (stringify (.object [(Utf16.encode "op",
        .string (Utf16.encode op.name)), (Utf16.encode name, tree)])) = some json ∧
      (json.get "op").bind Json.asStr = some op.name ∧ json.get name = some value := by
  have hentries : entriesToJson readFloat [(Utf16.encode "op", .string (Utf16.encode op.name)),
      (Utf16.encode name, tree)] = some [("op", .string op.name), (name, value)] := by
    simp only [entriesToJson, toText_encode, Tree.toJson, htree, Option.bind_some, Option.map_some]
  obtain ⟨json, hjson, hget⟩ := fromStr_object readFloat hentries (by simp [hname.symm])
    (by simp only [depthEntries, depth, recursionLimit]; omega)
  refine ⟨json, hjson, ?_, ?_⟩
  · rw [hget, List.lookup_cons_self]
    rfl
  · rw [hget, List.lookup_cons, beq_false_of_ne hname, List.lookup_cons_self, Option.map_some,
      hvalue]

theorem serveHost_answered {host next : HostState} {bridge : BridgeName} {payload : Tree}
    {json answer : Json} (hread : fromStr readFloat (stringify payload) = some json)
    (hdispatch : host.dispatch env world ⟨bridge, json⟩ = (next, some answer))
    (hplain : Plain answer) (label : String) :
    (serveHost floatText readFloat env world host bridge payload).1 = next ∧
      callBridge readFloat (serveHost floatText readFloat env world host bridge payload).2 label =
        readAnswer answer := by
  have hserve : serveHost floatText readFloat env world host bridge payload =
      (next, some (Json.compactChars floatText answer)) := by
    simp only [serveHost, hread, hdispatch, Option.map_some]
  rw [hserve]
  exact ⟨rfl, callBridge_compact floatText readFloat label hplain⟩

theorem run_served {host next : HostState} {call : FileCall} {payload : Tree} {json answer : Json}
    (hpayload : call.payload = .ok payload)
    (hread : fromStr readFloat (stringify payload) = some json)
    (hdispatch : host.dispatch env world ⟨call.bridge, json⟩ = (next, some answer))
    (hplain : Plain answer) :
    call.run floatText readFloat env world host =
      (next, (readAnswer answer).bind (fileOutput call.op)) := by
  obtain ⟨hnext, hanswer⟩ :=
    serveHost_answered floatText readFloat env hread hdispatch hplain call.label
  unfold FileCall.run
  rw [hpayload]
  simp only [hnext, hanswer]

theorem dispatch_file {host : HostState} {streams : Streams FileBody} {op : FileOp} {json : Json}
    {path : String} (hfiles : host.files = some streams)
    (hop : (json.get "op").bind Json.asStr = some op.name)
    (hpath : json.get "path" = some (.string path)) :
    host.dispatch env world ⟨.file, json⟩ =
      ({ host with
          turn := host.turn + 1
          files := some (perform world.base64 env.elapsedMs op op.api
            (world.openFile host.turn path) streams host.fileCalls).streams
          fileCalls := (perform world.base64 env.elapsedMs op op.api
            (world.openFile host.turn path) streams host.fileCalls).calls },
        some (perform world.base64 env.elapsedMs op op.api (world.openFile host.turn path) streams
          host.fileCalls).json) := by
  simp only [HostState.dispatch, hfiles, fileCall, hop, hpath, Option.bind_some, Json.asStr,
    FileOp.parse_name]

theorem dispatch_upload {host : HostState} {streams : Streams FileBody} {op : FileOp} {json : Json}
    {index : ℕ} {opening : Opening} (huploads : host.uploads = some streams)
    (hop : (json.get "op").bind Json.asStr = some op.name)
    (hindex : json.get "index" = some (.nat index))
    (hopening : world.uploaded host.turn index = some opening) :
    host.dispatch env world ⟨.upload, json⟩ =
      ({ host with
          turn := host.turn + 1
          uploads := some (perform world.base64 env.elapsedMs op op.uploadApi opening streams
            host.fileCalls).streams
          fileCalls := (perform world.base64 env.elapsedMs op op.uploadApi opening streams
            host.fileCalls).calls },
        some (perform world.base64 env.elapsedMs op op.uploadApi opening streams
          host.fileCalls).json) := by
  simp only [HostState.dispatch, huploads, uploadCall, hop, hindex, Option.bind_some, Json.asU64,
    FileOp.parse_name, hopening]

/-- Room for the number of one more stream, as a script has numbers. -/
def FileState.Room (state : FileState) (calls : ℕ) : Prop :=
  state.files.length + calls ≤ 2 ^ 53 ∧ ∀ uploads ∈ state.uploads, uploads.length + calls ≤ 2 ^ 53

/-- A call is answered as it is without a bridge, and the streams stay those of the state. -/
def Follows (world : HostWorld Url) (host : HostState) (state : FileState) (call : FileCall) :
    Prop :=
  (call.run floatText readFloat env world host).2 = (fileStep world state call).2 ∧
    Hosts (call.run floatText readFloat env world host).1 (fileStep world state call).1

include hbase64

theorem file_follows {host : HostState} {state : FileState} (hhosts : Hosts host state)
    (hroom : state.Room 1) (op : FileOp) (path : PathArg) :
    Follows floatText readFloat env world host state (.file op path) := by
  obtain ⟨hturn, ⟨streams, hfiles, hwhole⟩, huploads⟩ := hhosts
  cases path with
  | other => exact ⟨rfl, hturn, ⟨streams, hfiles, hwhole⟩, huploads⟩
  | text units =>
    have hpayload : (FileCall.file op (.text units)).payload = .ok (pathPayload op units) := rfl
    cases htext : toText units with
    | none =>
      have hread : fromStr readFloat (stringify (pathPayload op units)) = none := by
        rw [fromStr, parse_stringify]
        simp only [pathPayload, Tree.toJson, entriesToJson, toText_encode, htext,
          Option.bind_some, Option.map_some, Option.map_none, Option.bind_none, Option.filter_none]
      have hserve : serveHost floatText readFloat env world host .file (pathPayload op units) =
          (host, none) := by
        rw [serveHost, hread]
      have hrun : (FileCall.file op (.text units)).run floatText readFloat env world host =
          (host, .error (.thrown (.coded "script_error"
            (op.label ++ ": host bridge failed")))) := by
        unfold FileCall.run
        rw [hpayload]
        simp only [FileCall.bridge, hserve]
        rfl
      have hstep : fileStep world state (.file op (.text units)) =
          (state, .error (.thrown (.coded "script_error"
            (op.label ++ ": host bridge failed")))) := by
        simp only [fileStep, htext]
      rw [Follows, hrun, hstep]
      exact ⟨rfl, hturn, ⟨streams, hfiles, hwhole⟩, huploads⟩
    | some path =>
      have htree : (Tree.string units).toJson readFloat = some (.string path) := by
        rw [Tree.toJson, htext, Option.map_some]
      obtain ⟨json, hread, hop, hpath⟩ := payload_pair readFloat (show "path" ≠ "op" by decide)
        htree rfl (Nat.zero_le 1)
      obtain ⟨hplain, hanswer, hnext⟩ := perform_answer world.base64 hbase64 env.elapsedMs op
        op.api (world.openFile host.turn path) hwhole (by have hle := hroom.1; omega) host.fileCalls
      have hrun := run_served floatText readFloat env hpayload hread
        (dispatch_file env hfiles hop hpath) hplain
      have hstep : fileStep world state (.file op (.text units)) =
          (⟨state.turn + 1, state.files ++ streamed op (world.openFile host.turn path).content,
            state.uploads⟩, readOutcome op (world.openFile host.turn path).content
              state.files.length) := by
        simp only [fileStep, htext, hturn]
      rw [Follows, hrun, hstep]
      exact ⟨hanswer, congrArg (· + 1) hturn, ⟨_, rfl, hnext⟩, huploads⟩

theorem upload_follows {host : HostState} {state : FileState} (hhosts : Hosts host state)
    (hroom : state.Room 1) (op : FileOp) (index : Fin (2 ^ 32)) :
    Follows floatText readFloat env world host state (.upload op index) := by
  obtain ⟨hturn, hfiles, huploads⟩ := hhosts
  have hpayload : (FileCall.upload op index).payload = .ok (uploadPayload op index.val) := rfl
  obtain ⟨json, hread, hop, hindex⟩ := payload_pair readFloat (show "index" ≠ "op" by decide)
    (natTree_toJson readFloat (show index.val < 2 ^ 64 by omega)) rfl (Nat.zero_le 1)
  have hturn' : host.turn + 1 = state.turn + 1 := congrArg (· + 1) hturn
  cases hstate : state.uploads with
  | none =>
    rw [hstate] at huploads
    have hnone : host.uploads = none := by
      cases hhost : host.uploads with
      | none => rfl
      | some streams =>
        rw [hhost] at huploads
        cases huploads
    have hdispatch : host.dispatch env world ⟨.upload, json⟩ = ({ host with turn := host.turn + 1 },
        some (failureJson "script_error" "__sd_upload called outside a script request")) := by
      simp only [HostState.dispatch, hnone]
    have hrun := run_served floatText readFloat env hpayload hread hdispatch
      (plain_failureJson _ _)
    have hstep : fileStep world state (.upload op index) = (⟨state.turn + 1, state.files, none⟩,
        .error (.thrown (.coded "script_error"
          "__sd_upload called outside a script request"))) := by
      simp only [fileStep, hstate]
    rw [Follows, hrun, hstep, readAnswer_failure _ (by decide)]
    refine ⟨rfl, hturn', hfiles, ?_⟩
    show Option.Rel Whole host.uploads none
    rw [hnone]
    exact .none
  | some contents =>
    rw [hstate] at huploads
    obtain ⟨streams, hstreams, hwhole⟩ := exists_of_rel huploads
    cases hopening : world.uploaded host.turn index.val with
    | none =>
      have hdispatch : host.dispatch env world ⟨.upload, json⟩ =
          ({ host with turn := host.turn + 1, uploads := some streams },
            some (failureJson "script_error" "ctx.request.files: index out of range")) := by
        simp only [HostState.dispatch, hstreams, uploadCall, hop, hindex, Option.bind_some,
          Json.asU64, FileOp.parse_name, hopening]
      have hrun := run_served floatText readFloat env hpayload hread hdispatch
        (plain_failureJson _ _)
      have hstep : fileStep world state (.upload op index) =
          (⟨state.turn + 1, state.files, some contents⟩,
            .error (.thrown (.coded "script_error" "ctx.request.files: index out of range"))) := by
        simp only [fileStep, hstate, ← hturn, hopening]
      rw [Follows, hrun, hstep, readAnswer_failure _ (by decide)]
      exact ⟨rfl, hturn', hfiles, .some hwhole⟩
    | some opening =>
      have hle := hroom.2 contents hstate
      obtain ⟨hplain, hanswer, hnext⟩ := perform_answer world.base64 hbase64 env.elapsedMs op
        op.uploadApi opening hwhole (by omega) host.fileCalls
      have hrun := run_served floatText readFloat env hpayload hread
        (dispatch_upload env hstreams hop hindex hopening) hplain
      have hstep : fileStep world state (.upload op index) =
          (⟨state.turn + 1, state.files, some (contents ++ streamed op opening.content)⟩,
            readOutcome op opening.content contents.length) := by
        simp only [fileStep, hstate, ← hturn, hopening]
      rw [Follows, hrun, hstep]
      exact ⟨hanswer, hturn', hfiles, .some hnext⟩

end Steps

section Room

open Machine

variable {Url : Type} (world : HostWorld Url)

theorem streamed_length (op : FileOp) (content : Except Files.Error Bytes) :
    (streamed op content).length ≤ 1 := by
  unfold streamed
  split
  · exact Nat.zero_le 1
  · split <;> simp

/-- A call takes up the room of one stream at most. -/
theorem FileState.Room.step {state : FileState} {calls : ℕ} (h : state.Room (calls + 1))
    (call : FileCall) :
    (fileStep world state call).1.Room calls := by
  obtain ⟨hfiles, huploads⟩ := h
  have hkept : FileState.Room state calls :=
    ⟨by omega, fun uploads hsome => by have hle := huploads uploads hsome; omega⟩
  cases call with
  | file op path =>
    cases path with
    | other => exact hkept
    | text units =>
      cases htext : toText units with
      | none =>
        simp only [fileStep, htext]
        exact hkept
      | some path =>
        simp only [fileStep, htext]
        refine ⟨?_, hkept.2⟩
        have hlength := streamed_length op (world.openFile state.turn path).content
        rw [List.length_append]
        omega
  | upload op index =>
    cases hstate : state.uploads with
    | none =>
      simp only [fileStep, hstate]
      exact ⟨hkept.1, by simp⟩
    | some contents =>
      have hle := huploads contents hstate
      cases hopening : world.uploaded state.turn index.val with
      | none =>
        simp only [fileStep, hstate, hopening]
        refine ⟨hkept.1, ?_⟩
        intro uploads hsome
        cases hsome
        omega
      | some opening =>
        simp only [fileStep, hstate, hopening]
        refine ⟨hkept.1, ?_⟩
        intro uploads hsome
        cases hsome
        have hlength := streamed_length op opening.content
        rw [List.length_append]
        omega

theorem FileState.Room.final {state : FileState} {calls more : List FileCall}
    (h : state.Room (calls ++ more).length) :
    (Machine.final (fileStep world) state calls).Room more.length := by
  induction calls generalizing state with
  | nil => exact h
  | cons call rest ih => exact ih (h.step world call)

/-- A request with uploads keeps them. -/
theorem final_uploads {state : FileState} (h : state.uploads.isSome = true)
    (calls : List FileCall) : (final (fileStep world) state calls).uploads.isSome = true := by
  refine final_invariant (fileStep world) (fun state => state.uploads.isSome = true)
    (fun _ => True) ?_ state h calls (fun _ _ => trivial)
  intro state call _ h
  obtain ⟨uploads, huploads⟩ := Option.isSome_iff_exists.mp h
  cases call with
  | file op path =>
    cases path with
    | other => exact h
    | text units =>
      cases htext : toText units <;> simp only [fileStep, htext, h]
  | upload op index =>
    cases hopening : world.uploaded state.turn index.val <;>
      simp only [fileStep, huploads, hopening, Option.isSome_some]

end Room

section Runs

open Machine

variable {Url : Type} (floatText : UInt64 → String) (readFloat : List Char → Option UInt64)
  (env : Server.Env) {world : HostWorld Url}

theorem run_follows (hbase64 : ∀ bytes, (world.base64 bytes).toList = Base64.encode bytes)
    {host : HostState} {state : FileState} (hhosts : Hosts host state) (calls : List FileCall)
    (hroom : state.Room calls.length) :
    outputs (FileCall.run floatText readFloat env world) host calls =
      outputs (fileStep world) state calls ∧
    Hosts (final (FileCall.run floatText readFloat env world) host calls)
      (final (fileStep world) state calls) := by
  induction calls generalizing host state with
  | nil => exact ⟨rfl, hhosts⟩
  | cons call rest ih =>
    have hone : state.Room 1 := by
      obtain ⟨hfiles, huploads⟩ := hroom
      rw [List.length_cons] at hfiles
      refine ⟨by omega, fun uploads hsome => ?_⟩
      have hle := huploads uploads hsome
      rw [List.length_cons] at hle
      omega
    have hfollows : Follows floatText readFloat env world host state call := by
      cases call with
      | file op path => exact file_follows floatText readFloat env hbase64 hhosts hone op path
      | upload op index => exact upload_follows floatText readFloat env hbase64 hhosts hone op index
    obtain ⟨hanswers, hfinal⟩ := ih hfollows.2 (hroom.step world call)
    refine ⟨?_, hfinal⟩
    rw [outputs_cons, outputs_cons, hfollows.1, hanswers]

theorem hosts_new (access : Upstream.Access) (uploads : Bool) :
    Hosts (HostState.new access uploads) ⟨0, [], if uploads then some [] else none⟩ := by
  refine ⟨rfl, ⟨[], rfl, .nil⟩, ?_⟩
  cases uploads with
  | true => exact .some .nil
  | false => exact .none

theorem room_new (uploads : Bool) {calls : ℕ} (h : calls ≤ 2 ^ 53) :
    FileState.Room ⟨0, [], if uploads then some [] else none⟩ calls := by
  refine ⟨by simpa using h, ?_⟩
  intro contents hcontents
  cases uploads with
  | true =>
    cases hcontents
    simpa using h
  | false => cases hcontents

/-- The calls of a script on its files: each is answered as it is without a bridge, and the
streams that are left hold the files as they were opened. -/
theorem file_calls_run (hbase64 : ∀ bytes, (world.base64 bytes).toList = Base64.encode bytes)
    (access : Upstream.Access) (uploads : Bool) (calls : List FileCall)
    (hfew : calls.length ≤ 2 ^ 53) :
    outputs (FileCall.run floatText readFloat env world) (HostState.new access uploads) calls =
      outputs (fileStep world) ⟨0, [], if uploads then some [] else none⟩ calls ∧
    Hosts (final (FileCall.run floatText readFloat env world) (HostState.new access uploads) calls)
      (final (fileStep world) ⟨0, [], if uploads then some [] else none⟩ calls) :=
  run_follows floatText readFloat env hbase64 (hosts_new access uploads) calls
    (room_new uploads hfew)

/-- A host whose files all hold the same text. -/
def sampleWorld : HostWorld String :=
  ⟨⟨.ok, fun _ url => .ok url, fun _ => "http", some, some, fun _ => "/", id⟩,
    fun _ => ⟨fun _ _ _ _ => .error (.http "refused"), 0, 0, fun _ => 0, 0, 0⟩,
    fun _ _ => ⟨.ok [104, 105], 0, 0, by simp⟩, fun _ _ => none, ⟨fun _ => "", 0⟩,
    fun _ => State.newSharedState, id, fun bytes => String.ofList (Base64.encode bytes), fun _ => 0⟩

/-- A file that is read as a text and then opened as a stream. -/
theorem file_calls_run_twice :
    outputs (FileCall.run (fun _ => "") (fun _ => none)
      ⟨Http.HeaderGrammar.letters, id, fun elapsed => UInt64.ofNat elapsed⟩ sampleWorld)
      (HostState.new ⟨["a"], 1000, 1000, none⟩ false)
      [.file .readText (.text (Utf16.encode "f")), .file .stream (.text (Utf16.encode "f"))] =
        [.ok (.text (some (.string "hi"))), .ok (.stream (some (.nat 0)))] := by
  have hbase64 : ∀ bytes, (sampleWorld.base64 bytes).toList = Base64.encode bytes := by
    intro bytes
    exact String.toList_ofList
  have hname : toText (Utf16.encode "f") = some "f" := toText_encode "f"
  rw [(file_calls_run (fun _ => "") (fun _ => none)
    ⟨Http.HeaderGrammar.letters, id, fun elapsed => UInt64.ofNat elapsed⟩ hbase64
    ⟨["a"], 1000, 1000, none⟩ false _ (by simp)).1]
  simp only [outputs_cons, outputs_nil, fileStep, hname]
  rfl

end Runs

end StuntDouble.Prelude
