import StuntDouble.Handler

/-!
The body of a matched request, before its script runs. A multipart body is parsed part by
part into files, under one budget for all of its data; any other body is buffered. What the
parser of the library yields, whether the temporary files can be written and whether the
deadline passes is given.
-/
namespace StuntDouble.Files

open Http Server

/-- Whether a body is parsed as form data. -/
def isMultipart (headers : HeaderMap) : Bool :=
  match (headers.get "content-type").bind HeaderValue.toStr with
  | none => false
  | some value =>
    eqIgnoreAsciiCase (String.ofList (trim (value.toList.takeWhile (fun c => c != ';'))))
      "multipart/form-data"

def contentLength (headers : HeaderMap) : Option ℕ :=
  ((headers.get "content-length").bind HeaderValue.toStr).bind (fun text =>
    parseU64 (String.ofList (trim text.toList)))

/-- An error of the multipart library; only a body that is too large is told apart. -/
inductive MultipartError
  | payloadTooLarge
  | other
deriving DecidableEq, Repr

/-- One chunk of a part, and whether it could be written to the file of the part. -/
inductive ChunkRead
  | chunk (bytes : Bytes) (written : Bool)
  | failed (error : MultipartError)

/-- One part: its names, whether its file could be created and closed, and its chunks. -/
structure Part where
  name : Option String
  filename : Option String
  contentType : Option String
  created : Bool
  reads : List ChunkRead
  closed : Bool

inductive PartRead
  | part (part : Part)
  | failed (error : MultipartError)

/-- A multipart body, with whether there is a directory for it and a boundary in it. -/
structure Multipart where
  directory : Bool
  boundary : Bool
  parts : List PartRead

structure UploadedFile where
  field : String
  filename : String
  contentType : Option String
  size : ℕ
  content : Bytes

structure UploadStore where
  files : List UploadedFile
  totalBytes : ℕ

/-- The state of the parser; nothing is counted before the first part has been begun. -/
structure Parsing where
  files : List UploadedFile
  totalBytes : ℕ
  countedBytes : Option ℕ

def mapMultipartError (error : MultipartError) (files : ℕ) (countedBytes : Option ℕ) :
    ParseFailure :=
  match error with
  | .payloadTooLarge => ⟨.tooLarge, files, countedBytes⟩
  | .other => ⟨.invalid, files, countedBytes⟩

/-- The part of a filename behind its last slash of either style. -/
def clientBasename (raw : String) : String :=
  String.ofList (raw.toList.reverse.takeWhile (fun c => c != '/' && c != '\\')).reverse

/-- Read the chunks of a part; only those of a file are kept. -/
def readChunks (maxBytes files : ℕ) (isFile : Bool) (totalBytes size : ℕ) (content : Bytes) :
    List ChunkRead → Except ParseFailure (ℕ × ℕ × Bytes)
  | [] => .ok (totalBytes, size, content)
  | .failed error :: _ => .error (mapMultipartError error files (some totalBytes))
  | .chunk bytes written :: rest =>
    let total := saturatingAdd totalBytes bytes.length
    if maxBytes < total then .error ⟨.tooLarge, files, some total⟩
    else if isFile then
      if written then
        readChunks maxBytes files isFile total (saturatingAdd size bytes.length)
          (content ++ bytes) rest
      else .error ⟨.io, files, some total⟩
    else readChunks maxBytes files isFile total size content rest

def parsePart (maxBytes : ℕ) (parsing : Parsing) (part : Part) : Except ParseFailure Parsing :=
  let files := parsing.files.length
  match part.name with
  | none => .error ⟨.invalid, files, parsing.countedBytes⟩
  | some field =>
    if part.filename.isSome && !part.created then .error ⟨.io, files, parsing.countedBytes⟩
    else
      match readChunks maxBytes files part.filename.isSome parsing.totalBytes 0 []
          part.reads with
      | .error failure => .error failure
      | .ok (total, size, content) =>
        match part.filename with
        | none => .ok ⟨parsing.files, total, some total⟩
        | some filename =>
          if part.closed then
            .ok ⟨parsing.files ++
              [⟨field, clientBasename filename, part.contentType, size, content⟩], total,
              some total⟩
          else .error ⟨.io, files, some total⟩

def parseParts (maxBytes : ℕ) (parsing : Parsing) :
    List PartRead → Except ParseFailure UploadStore
  | [] => .ok ⟨parsing.files, parsing.totalBytes⟩
  | .failed error :: _ =>
    .error (mapMultipartError error parsing.files.length parsing.countedBytes)
  | .part part :: rest =>
    match parsePart maxBytes parsing part with
    | .error failure => .error failure
    | .ok parsing => parseParts maxBytes parsing rest

def parseMultipart (maxBytes : ℕ) (multipart : Multipart) : Except ParseFailure UploadStore :=
  if multipart.directory = false then .error ⟨.io, 0, none⟩
  else if multipart.boundary = false then .error ⟨.invalid, 0, none⟩
  else parseParts maxBytes ⟨[], 0, none⟩ multipart.parts

end StuntDouble.Files

namespace StuntDouble.Server

open Http Files

def nonMultipartBodyLimit : ℕ := 2 * 1024 * 1024

def multipartFramingAllowance : ℕ := 1024 * 1024

/-- The body of a request: its bytes unless reading them fails, what the multipart library
makes of them, and whether the deadline passes first. -/
structure RequestBody where
  bytes : Option Bytes
  multipart : Multipart
  late : Bool

def prepareRequest (uploadMaxBytes : ℕ) (headers : HeaderMap) (body : RequestBody) : Preparation :=
  let announced := contentLength headers
  if body.late then .elapsed announced
  else if isMultipart headers then
    if announced.any (fun len =>
        decide (saturatingAdd uploadMaxBytes multipartFramingAllowance < len)) then
      .upload ⟨.tooLarge, 0, none⟩ announced
    else
      match parseMultipart uploadMaxBytes body.multipart with
      | .ok store =>
        .ready (announced.or (some store.totalBytes))
          (uploadLog store.files.length store.totalBytes none)
      | .error failure => .upload failure (announced.or failure.countedBytes)
  else
    match body.bytes with
    | none => .bodyTooLarge announced
    | some bytes =>
      if nonMultipartBodyLimit < bytes.length then .bodyTooLarge announced
      else .ready (some bytes.length) (uploadLog 0 0 none)

end StuntDouble.Server
