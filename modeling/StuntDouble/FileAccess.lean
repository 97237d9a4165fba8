import StuntDouble.Files
import StuntDouble.Script

/-!
The bridge calls of `ctx.file` and of the uploaded files. Both check their payload
and then read or open one file, with one entry in the shared chain: it is closed
when the call returns, unless the call has opened a stream. Which file a path or an
index names, and whether it can be opened, is given.
-/
namespace StuntDouble.Files

open RequestLog Script

inductive FileOp
  | readText
  | readBytes
  | stream
deriving DecidableEq, Repr

namespace FileOp

def parse (raw : String) : Option FileOp :=
  if raw = "readText" then some readText
  else if raw = "readBytes" then some readBytes
  else if raw = "stream" then some stream
  else none

def api : FileOp → String
  | readText => "file.readText"
  | readBytes => "file.readBytes"
  | stream => "file.stream"

def uploadApi : FileOp → String
  | readText => "upload.text"
  | readBytes => "upload.bytes"
  | stream => "upload.stream"

end FileOp

/-- Why a file call failed. -/
inductive Error
  | pathInvalid (reason : String)
  | notFound
  | tooLarge
  | encoding
  | io (message : String)
deriving DecidableEq, Repr

def maxReadBytes : ℕ := 8 * 1024 * 1024

namespace Error

def code : Error → String
  | pathInvalid _ => "file_path_invalid"
  | notFound => "file_not_found"
  | tooLarge => "file_too_large"
  | encoding => "file_encoding_error"
  | io _ => "file_io_error"

def message : Error → String
  | pathInvalid reason => reason
  | notFound => "file not found"
  | tooLarge => "file exceeds the " ++ toString maxReadBytes ++ "-byte read cap"
  | encoding => "file is not valid UTF-8"
  | io message => message

end Error

/-- A file that a call opens, or why it cannot, and when the call starts and ends. The size
of a file is an unsigned 64-bit integer. -/
structure Opening where
  content : Except Error Bytes
  startedAt : ℕ
  finishedAt : ℕ
  fits : ∀ bytes, content = .ok bytes → bytes.length < 2 ^ 64

/-- The answer of a call, with the opened streams and the chain behind it. -/
structure Called where
  json : Json
  streams : Streams FileBody
  calls : CallLog

def failureJson (code message : String) : Json :=
  .object [("code", .string code), ("message", .string message), ("ok", .bool false)]

def errorJson (error : Error) : Json := failureJson error.code error.message

def readCapped (content : Bytes) : Except Error Bytes :=
  if maxReadBytes < content.length then .error .tooLarge else .ok content

def registerStream (streams : Streams FileBody) (body : FileBody) : ℕ × Streams FileBody :=
  (streams.length, streams ++ [some body])

def finishCall (ms : Ms) (bytes : Option ℕ) (error : Option String) (record : CallRecord) :
    CallRecord :=
  { record with bytes := bytes, durationMs := some ms, error := error }

section Calls

variable (base64 : Bytes → String) (elapsedMs : ℕ → Ms)

/-- What reading a whole file answers, and the bytes that it counts. -/
def readAll (op : FileOp) (content : Bytes) : Except Error (Json × ℕ) :=
  match readCapped content with
  | .error error => .error error
  | .ok bytes =>
    if op = .readText then
      match Utf8.decode bytes with
      | none => .error .encoding
      | some text =>
        .ok (.object [("ok", .bool true), ("text", .string text)], text.utf8ByteSize)
    else
      .ok (.object [("bytes_base64", .string (base64 bytes)), ("ok", .bool true)], bytes.length)

/-- Read or open one file, with one entry in the chain. -/
def perform (op : FileOp) (api : String) (opening : Opening) (streams : Streams FileBody)
    (calls : CallLog) : Called :=
  let begun := calls.beginCall (CallRecord.new api)
  let ms := elapsedMs (opening.finishedAt - opening.startedAt)
  match opening.content with
  | .error error =>
    ⟨errorJson error, streams, begun.1.update begun.2 (finishCall ms none (some error.code))⟩
  | .ok content =>
    if op = .stream then
      let registered := registerStream streams
        ⟨content, content.length, 0, content.length, ⟨begun.2, opening.startedAt, false⟩⟩
      ⟨.object [("handle", .nat registered.1), ("ok", .bool true)], registered.2, begun.1⟩
    else
      match readAll base64 op content with
      | .error error =>
        ⟨errorJson error, streams, begun.1.update begun.2 (finishCall ms none (some error.code))⟩
      | .ok (json, bytes) =>
        ⟨json, streams, begun.1.update begun.2 (finishCall ms (some bytes) none)⟩

def fileCall (openFile : String → Opening) (payload : Json) (streams : Streams FileBody)
    (calls : CallLog) : Called :=
  match (payload.get "op").bind Json.asStr with
  | none => ⟨failureJson "script_error" "ctx.file: missing operation", streams, calls⟩
  | some raw =>
    match (payload.get "path").bind Json.asStr with
    | none => ⟨failureJson "file_path_invalid" "ctx.file: path must be a string", streams, calls⟩
    | some path =>
      match FileOp.parse raw with
      | none => ⟨failureJson "script_error" "ctx.file: unknown operation", streams, calls⟩
      | some op => perform base64 elapsedMs op op.api (openFile path) streams calls

def uploadCall (uploaded : ℕ → Option Opening) (payload : Json) (streams : Streams FileBody)
    (calls : CallLog) : Called :=
  match (payload.get "op").bind Json.asStr with
  | none => ⟨failureJson "script_error" "ctx.request.files: missing operation", streams, calls⟩
  | some raw =>
    match FileOp.parse raw with
    | none => ⟨failureJson "script_error" "ctx.request.files: unknown operation", streams, calls⟩
    | some op =>
      match (payload.get "index").bind Json.asU64 with
      | none =>
        ⟨failureJson "script_error" "ctx.request.files: index must be a non-negative integer",
          streams, calls⟩
      | some index =>
        match uploaded index with
        | none =>
          ⟨failureJson "script_error" "ctx.request.files: index out of range", streams, calls⟩
        | some opening => perform base64 elapsedMs op op.uploadApi opening streams calls

end Calls

section Effects

variable (base64 : Bytes → String) (elapsedMs : ℕ → Ms)

/-- What a call does to the streams and the chain: nothing, one closed entry, or one open
entry with its stream. -/
inductive Effect (streams : Streams FileBody) (calls : CallLog) :
    Streams FileBody → CallLog → Prop
  | nothing : Effect streams calls streams calls
  | closed (record : CallRecord) (hclosed : Closed record) :
      Effect streams calls streams (calls ++ [record])
  | opened (record : CallRecord) (hopen : ¬ Closed record) (body : FileBody)
      (hindex : body.call.index = calls.length) (hpending : body.call.finished = false)
      (hsize : body.size < 2 ^ 64) :
      Effect streams calls (streams ++ [some body]) (calls ++ [record])

theorem closed_finishCall (ms : Ms) (bytes : Option ℕ) (error : Option String)
    (record : CallRecord) : Closed (finishCall ms bytes error record) := rfl

theorem perform_effect (op : FileOp) (api : String) (opening : Opening)
    (streams : Streams FileBody) (calls : CallLog) :
    Effect streams calls (perform base64 elapsedMs op api opening streams calls).streams
      (perform base64 elapsedMs op api opening streams calls).calls := by
  have hfinish : ∀ f : CallRecord → CallRecord, (∀ record, Closed (f record)) →
      Effect streams calls streams
        (Chain.update (calls ++ [CallRecord.new api]) calls.length f) := by
    intro f hf
    rw [update_last]
    exact .closed _ (hf _)
  unfold perform
  simp only [Chain.beginCall]
  cases hcontent : opening.content with
  | error error => exact hfinish _ (closed_finishCall _ _ _)
  | ok content =>
    by_cases hstream : op = .stream
    · simp only [if_pos hstream]
      exact .opened _ (by simp [Closed, LogRecord.durationMs, CallRecord.new]) _ rfl rfl
        (opening.fits content hcontent)
    · simp only [if_neg hstream]
      cases readAll base64 op content with
      | error error => exact hfinish _ (closed_finishCall _ _ _)
      | ok read => exact hfinish _ (closed_finishCall _ _ _)

theorem fileCall_effect (openFile : String → Opening) (payload : Json)
    (streams : Streams FileBody) (calls : CallLog) :
    Effect streams calls (fileCall base64 elapsedMs openFile payload streams calls).streams
      (fileCall base64 elapsedMs openFile payload streams calls).calls := by
  unfold fileCall
  split
  · exact .nothing
  · split
    · exact .nothing
    · split
      · exact .nothing
      · exact perform_effect base64 elapsedMs _ _ _ streams calls

theorem uploadCall_effect (uploaded : ℕ → Option Opening) (payload : Json)
    (streams : Streams FileBody) (calls : CallLog) :
    Effect streams calls (uploadCall base64 elapsedMs uploaded payload streams calls).streams
      (uploadCall base64 elapsedMs uploaded payload streams calls).calls := by
  unfold uploadCall
  split
  · exact .nothing
  · split
    · exact .nothing
    · split
      · exact .nothing
      · split
        · exact .nothing
        · exact perform_effect base64 elapsedMs _ _ _ streams calls

end Effects

end StuntDouble.Files
