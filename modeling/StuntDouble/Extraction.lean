import StuntDouble.CheckedCalls
import StuntDouble.JsonStringify
import StuntDouble.Messages
import StuntDouble.Worker

/-!
How the record of a run leaves the engine. The worker writes the response and the log out as one
text and reads that text back as a value; a text with a lone surrogate in it is not read.
-/
namespace StuntDouble.Prelude

open JsonText Script

def Logged.ofRecord (entry : LogRecord) : Logged := ⟨entry.level, Utf16.encode entry.message⟩

/-- How the evaluation of a script ends: with an error, or with a record of its response as
the engine finds it. -/
inductive Ending
  | failed (error : Error)
  | finished (response : Tree)

section Reading

variable (readFloat : List Char → Option UInt64)

mutual

/-- How deep containers are nested, empty ones included. -/
def depth : Json → ℕ
  | .array items => depthItems items + 1
  | .object entries => depthEntries entries + 1
  | _ => 0

def depthItems : List Json → ℕ
  | [] => 0
  | item :: rest => max (depth item) (depthItems rest)

def depthEntries : List (String × Json) → ℕ
  | [] => 0
  | (_, value) :: rest => max (depth value) (depthEntries rest)

end

/-- The containers that the reader of JSON follows into each other. -/
def recursionLimit : ℕ := 127

/-- A value read from a text, in which a repeated member replaces the earlier one. -/
def fromStr (text : List Char) : Option Json :=
  ((parse readFloat text).filter fun tree => decide (depth tree ≤ recursionLimit)).map
    Json.toValue

end Reading

section Trees

def loggedTree (entry : Logged) : Tree :=
  .object [(Utf16.encode "level", .string (Utf16.encode entry.level)),
    (Utf16.encode "message", .string entry.message)]

/-- What the script that reads the realm writes out. -/
def extractTree (response : Tree) (logs : List Logged) : Tree :=
  .object [(Utf16.encode "response", response),
    (Utf16.encode "logs", .array (logs.map loggedTree))]

/-- A whole number, as an engine writes it. -/
def digitsText (n : ℕ) : NumberText := ⟨Nat.toDigits 10 n, by simp, by
  intro c hc
  exact toDigits_numeric c hc⟩

def natTree (n : ℕ) : Tree := .number (digitsText n)

/-- The headers of a record, as the engine has them. -/
def headersTree (headers : List (String × String)) : Tree :=
  .array (headers.map fun header =>
    .array [.string (Utf16.encode header.1), .string (Utf16.encode header.2)])

def fileHandleTree : FileHandle → Tree
  | .file handle => .object [(Utf16.encode "file", natTree handle)]
  | .upload handle => .object [(Utf16.encode "upload", natTree handle)]

def bytesTree (bytes : List ℕ) : Tree := .array (bytes.map natTree)

/-- A body as it is written out; `readArray` is what an array of the script reads as by then. -/
def bodyTree (readArray : ℕ → Tree) : RecordedBody → Tree
  | .text text => .string text
  | .handle handle => fileHandleTree handle
  | .bytes bytes => bytesTree bytes
  | .array id _ => readArray id

/-- A response as it is written out, with its members in the order of their assignment. -/
def recordedTree (readArray : ℕ → Tree) : Recorded → Tree
  | .response status headers body =>
    .object [(Utf16.encode "status", natTree status), (Utf16.encode "headers", headersTree headers),
      (Utf16.encode "body", bodyTree readArray body)]
  | .stream status headers =>
    .object [(Utf16.encode "stream", .bool true), (Utf16.encode "status", natTree status),
      (Utf16.encode "headers", headersTree headers)]

/-- What the realm has for a response at the end. -/
def responseTree (readArray : ℕ → Tree) (realm : Realm) : Tree :=
  match realm.response with
  | none => .null
  | some response => recordedTree readArray response

end Trees

section Evaluation

variable (readFloat : List Char → Option UInt64) (readError : List Char → String)

/-- The log is read out of the realm only after the script ran to its end. -/
def evaluateInWorker (realm : Realm) : Ending → Except Error Json
  | .failed error => .error error
  | .finished response =>
    let dump := stringify (extractTree response realm.logs)
    match fromStr readFloat dump with
    | some record => .ok record
    | none => .error (.failed ("cannot read script state: " ++ readError dump))

/-- The final result of a job; an error of an unknown kind is not delivered. -/
def runJob : Except Error Json → Option FinalResult
  | .ok record => some (.success record)
  | .error (.upstreamUnreachable message kind) =>
    (FinalErrorKind.fromUpstream kind).map fun kind => .error ⟨some kind, message⟩
  | .error (.failed message) => some (.error ⟨none, message⟩)
  | .error .memoryLimitExceeded =>
    some (.error ⟨some .memoryLimit, Error.memoryLimitExceeded.detail⟩)
  | .error error => some (.error ⟨none, error.detail⟩)

def fileHandleJson : FileHandle → Json
  | .file handle => .object [("file", .nat handle)]
  | .upload handle => .object [("upload", .nat handle)]

def headersJson (headers : List (String × String)) : Json :=
  .array (headers.map (fun header => .array [.string header.1, .string header.2]))

/-- A body as a value; a text with a lone surrogate has none. -/
def bodyJson : RecordedBody → Json
  | .text text => .string ((toText text).getD "")
  | .handle handle => fileHandleJson handle
  | .bytes bytes | .array _ bytes => .array (bytes.map Json.nat)

/-- The response that a call recorded, as a value. -/
def asRecorded : Recorded → Json
  | .response status headers body =>
    .object [("body", bodyJson body), ("headers", headersJson headers), ("status", .nat status)]
  | .stream status headers =>
    .object [("headers", headersJson headers), ("status", .nat status), ("stream", .bool true)]

/-- The response that the record is read back with, when the arrays of the script read so. -/
def extracted (readArray : ℕ → Tree) (realm : Realm) : Option Json :=
  (fromStr readFloat (stringify (extractTree (responseTree readArray realm) realm.logs))).bind
    fun record => record.get "response"

/-- The arrays of the script still read as they were checked, handles are exact numbers, and no
surrogate is alone in a text. -/
def StillReads (readArray : ℕ → Tree) : RecordedBody → Prop
  | .text text => Utf16.WellFormed text
  | .array id bytes => readArray id = bytesTree bytes
  | .handle (.file handle) | .handle (.upload handle) => handle < 2 ^ 53
  | .bytes _ => True

end Evaluation

section Records

variable (readFloat : List Char → Option UInt64)

/-- A record that the engine's text can carry: no surrogate is alone in a message, and the
response is a value that is not nested too deep. -/
def Readable (response : Tree) (logs : List Logged) : Prop :=
  (∀ entry ∈ logs, Utf16.WellFormed entry.message) ∧
    ∃ value, response.toJson readFloat = some value ∧ depth value < recursionLimit

/-- The entry with its message as a text. -/
def textOf (entry : Logged) : Option LogRecord :=
  (toText entry.message).map fun message => ⟨entry.level, message⟩

def recordJson (entry : LogRecord) : Json :=
  .object [("level", .string entry.level), ("message", .string entry.message)]

theorem toText_encode (text : String) : toText (Utf16.encode text) = some text := by
  rw [toText, Utf16.encode, toChars_encodeChars, Option.map_some, String.ofList_toList]

theorem ofRecord_of_textOf {entry : Logged} {found : LogRecord} (h : textOf entry = some found) :
    Logged.ofRecord found = entry := by
  obtain ⟨message, hmessage, rfl⟩ := Option.map_eq_some_iff.mp h
  obtain ⟨chars, hchars, rfl⟩ := Option.map_eq_some_iff.mp hmessage
  have hunits := encodeChars_of_toChars hchars
  rw [Logged.ofRecord, Utf16.encode, String.toList_ofList, hunits]

theorem toText_isSome {units : List UInt16} (h : Utf16.WellFormed units) :
    (toText units).isSome = true := by
  rw [toText, Option.isSome_map, toChars_isSome_iff]
  exact h

theorem textOf_isSome_iff (entry : Logged) :
    (textOf entry).isSome ↔ Utf16.WellFormed entry.message := by
  rw [textOf, toText, Option.isSome_map, Option.isSome_map, toChars_isSome_iff]

theorem loggedTree_toJson (entry : Logged) :
    (loggedTree entry).toJson readFloat = (textOf entry).map recordJson := by
  simp only [loggedTree, Tree.toJson, entriesToJson, toText_encode, Option.bind_some,
    Option.map_some, textOf]
  cases toText entry.message <;> rfl

/-- The entries of the log, as the reader of the text gets them. -/
theorem itemsToJson_logs (logs : List Logged) :
    itemsToJson readFloat (logs.map loggedTree) =
      (logs.mapM textOf).map fun entries => entries.map recordJson := by
  induction logs with
  | nil => rfl
  | cons entry rest ih =>
    rw [List.map_cons, itemsToJson, loggedTree_toJson, ih, List.mapM_cons]
    cases textOf entry with
    | none => rfl
    | some found => cases rest.mapM textOf <;> rfl

theorem mapM_textOf_isSome_iff (logs : List Logged) :
    (logs.mapM textOf).isSome ↔ ∀ entry ∈ logs, Utf16.WellFormed entry.message := by
  induction logs with
  | nil => simp
  | cons entry rest ih =>
    rw [List.forall_mem_cons, ← ih, ← textOf_isSome_iff, List.mapM_cons]
    cases textOf entry with
    | none => simp
    | some found => cases rest.mapM textOf <;> simp

theorem ofRecord_of_mapM {logs : List Logged} {entries : List LogRecord}
    (h : logs.mapM textOf = some entries) : entries.map Logged.ofRecord = logs := by
  induction logs generalizing entries with
  | nil =>
    cases h
    rfl
  | cons entry rest ih =>
    rw [List.mapM_cons] at h
    obtain ⟨found, hfound, h⟩ := Option.bind_eq_some_iff.mp h
    obtain ⟨others, hothers, h⟩ := Option.bind_eq_some_iff.mp h
    cases h
    rw [List.map_cons, ofRecord_of_textOf hfound, ih hothers]

/-- The record of a run, with the log as it is read. -/
def recordOf (value : Json) (entries : List LogRecord) : Json :=
  .object [("response", value), ("logs", .array (entries.map recordJson))]

theorem extractTree_toJson (response : Tree) (logs : List Logged) :
    (extractTree response logs).toJson readFloat =
      (response.toJson readFloat).bind fun value =>
        (logs.mapM textOf).map fun entries => recordOf value entries := by
  simp only [extractTree, Tree.toJson, entriesToJson, toText_encode, Option.bind_some,
    itemsToJson_logs]
  cases response.toJson readFloat with
  | none => rfl
  | some value => cases logs.mapM textOf <;> rfl

theorem depthItems_records (entries : List LogRecord) :
    depthItems (entries.map recordJson) ≤ 1 := by
  induction entries with
  | nil => exact Nat.zero_le 1
  | cons entry rest ih => exact max_le (le_refl 1) ih

/-- The log is never the deepest part of a record that is at the limit. -/
theorem depth_recordOf (value : Json) (entries : List LogRecord) :
    depth (recordOf value entries) ≤ recursionLimit ↔ depth value < recursionLimit := by
  have hlogs := depthItems_records entries
  have hdepth : depth (recordOf value entries) =
      max (depth value) (max (depthItems (entries.map recordJson) + 1) 0) + 1 := rfl
  rw [hdepth, recursionLimit]
  omega

theorem fromStr_extract (response : Tree) (logs : List Logged) :
    fromStr readFloat (stringify (extractTree response logs)) =
      (((response.toJson readFloat).filter fun value =>
        decide (depth value < recursionLimit)).bind fun value =>
          (logs.mapM textOf).map fun entries => (recordOf value entries).toValue) := by
  rw [fromStr, parse_stringify, extractTree_toJson]
  cases response.toJson readFloat with
  | none => rfl
  | some value =>
    cases logs.mapM textOf with
    | none =>
      show none = _
      cases (some value).filter fun value => decide (depth value < recursionLimit) <;> rfl
    | some entries =>
      have hdepth := depth_recordOf value entries
      by_cases h : depth value < recursionLimit
      · simp [Option.filter, h, hdepth.mpr h]
      · simp [Option.filter, h, hdepth]

theorem recordJson_ordered (entry : LogRecord) : (recordJson entry).Ordered := by
  have hkeys : "level" < "message" := by decide
  exact ⟨List.pairwise_pair.mpr hkeys, trivial, trivial, trivial⟩

theorem parseLogRecord_recordJson (entry : LogRecord) :
    parseLogRecord (recordJson entry).toValue = some entry := by
  rw [Json.toValue_eq _ (recordJson_ordered entry)]
  rfl

theorem toValues_records (entries : List LogRecord) :
    (Json.toValues (entries.map recordJson)).filterMap parseLogRecord = entries := by
  induction entries with
  | nil => rfl
  | cons entry rest ih =>
    rw [List.map_cons, Json.toValues,
      List.filterMap_cons_some (parseLogRecord_recordJson entry), ih]

theorem parseScriptLogs_recordOf (value : Json) (entries : List LogRecord) :
    parseScriptLogs (recordOf value entries).toValue = entries := by
  have hlogs : ((recordOf value entries).toValue.get "logs").bind Json.asArray =
      some (Json.toValues (entries.map recordJson)) := by
    rw [recordOf, Json.toValue, Json.get, Json.lookup_toEntries _ _ _ (by simp)]
    rfl
  rw [parseScriptLogs, hlogs]
  exact toValues_records entries

/-- What a record says of its log survives, whatever it says of its response. -/
theorem parseHostRecord_logs {Pipe File : Type} (host : Json) (pipeStream : Option Pipe)
    (fileHost uploadHost : Option (Streams File)) :
    (parseHostRecord host pipeStream fileHost uploadHost).logs = parseScriptLogs host := by
  unfold parseHostRecord
  split
  · rfl
  · split
    · rfl
    · simp only
      split <;> rfl

theorem recordOf_toValue (value : Json) (entries : List LogRecord) :
    (recordOf value entries).toValue =
      .object [("logs", .array (entries.map recordJson)), ("response", value.toValue)] := by
  have hkeys : "logs" < "response" := by decide
  have hentries : Json.toValues (entries.map recordJson) = entries.map recordJson := by
    induction entries with
    | nil => rfl
    | cons entry rest ih =>
      rw [List.map_cons, Json.toValues, ih, Json.toValue_eq _ (recordJson_ordered entry)]
  rw [recordOf, Json.toValue, Json.toEntries, Json.toEntries, Json.toEntries, Json.toValue,
    hentries]
  simp only [Json.insertEntry, if_pos hkeys]

theorem records_payload (entries : List LogRecord) :
    JsonText.PlainItems (entries.map recordJson) ∧
      Json.OrderedItems (entries.map recordJson) := by
  induction entries with
  | nil => exact ⟨trivial, trivial⟩
  | cons entry rest ih =>
    obtain ⟨hplain, hordered⟩ := ih
    exact ⟨⟨⟨trivial, trivial, trivial⟩, hplain⟩, recordJson_ordered entry, hordered⟩

end Records

section Responses

variable (readFloat : List Char → Option UInt64)

theorem numberOf_toDigits {n : ℕ} (h : n < 2 ^ 64) :
    numberOf readFloat (Nat.toDigits 10 n) = some (.posInt n) := by
  have hread := numberOf_numberText (fun _ => "") readFloat (show Integral (.posInt n) from h)
  rwa [Json.numberText, Nat.toString_eq_repr, Nat.toList_repr] at hread

theorem natTree_toJson {n : ℕ} (h : n < 2 ^ 64) :
    (natTree n).toJson readFloat = some (.nat n) :=
  congrArg (Option.map Json.number) (numberOf_toDigits readFloat h)

theorem headersTree_toJson (headers : List (String × String)) :
    (headersTree headers).toJson readFloat = some (headersJson headers) := by
  have hrows : itemsToJson readFloat (headers.map fun header =>
      .array [.string (Utf16.encode header.1), .string (Utf16.encode header.2)]) =
        some (headers.map fun header => .array [.string header.1, .string header.2]) := by
    induction headers with
    | nil => rfl
    | cons header rest ih =>
      rw [List.map_cons, itemsToJson_cons, ih]
      simp only [Tree.toJson, itemsToJson, toText_encode, Option.map_some, Option.bind_some,
        List.map_cons]
  rw [headersTree, Tree.toJson, hrows]
  rfl

theorem bytesTree_toJson {bytes : List ℕ} (h : ∀ byte ∈ bytes, byte ≤ 255) :
    (bytesTree bytes).toJson readFloat = some (.array (bytes.map Json.nat)) := by
  have hitems : itemsToJson readFloat (bytes.map natTree) = some (bytes.map Json.nat) := by
    induction bytes with
    | nil => rfl
    | cons byte rest ih =>
      have hbyte := h byte (by simp)
      rw [List.map_cons, itemsToJson_cons, natTree_toJson readFloat (by omega),
        ih fun other hother => h other (List.mem_cons_of_mem _ hother)]
      rfl
  rw [bytesTree, Tree.toJson, hitems]
  rfl

theorem bodyTree_toJson {readArray : ℕ → Tree} {body : RecordedBody}
    (hbytes : ∀ bytes, (body = .bytes bytes ∨ ∃ id, body = .array id bytes) →
      ∀ byte ∈ bytes, byte ≤ 255) (hreads : StillReads readArray body) :
    (bodyTree readArray body).toJson readFloat = some (bodyJson body) := by
  cases body with
  | text text =>
    obtain ⟨found, hfound⟩ := Option.isSome_iff_exists.mp (toText_isSome hreads)
    rw [bodyTree, Tree.toJson, bodyJson, hfound]
    rfl
  | bytes bytes => exact bytesTree_toJson readFloat (hbytes bytes (Or.inl rfl))
  | array id bytes =>
    have hread : readArray id = bytesTree bytes := hreads
    rw [bodyTree, hread]
    exact bytesTree_toJson readFloat (hbytes bytes (Or.inr ⟨id, rfl⟩))
  | handle handle =>
    cases handle with
    | file handle | upload handle =>
      have hlt : handle < 2 ^ 53 := hreads
      simp only [bodyTree, fileHandleTree, Tree.toJson, entriesToJson, toText_encode,
        Option.bind_some, natTree_toJson readFloat (show handle < 2 ^ 64 by omega),
        Option.map_some]
      rfl

theorem headersJson_payload (headers : List (String × String)) :
    Payload (headersJson headers) ∧ depth (headersJson headers) ≤ 2 := by
  have hrows : JsonText.PlainItems (headers.map fun header =>
      .array [.string header.1, .string header.2]) ∧
        Json.OrderedItems (headers.map fun header =>
          .array [.string header.1, .string header.2]) ∧
        depthItems (headers.map fun header => .array [.string header.1, .string header.2]) ≤ 1 := by
    induction headers with
    | nil => exact ⟨trivial, trivial, Nat.zero_le 1⟩
    | cons header rest ih =>
      obtain ⟨hplain, hordered, hdepth⟩ := ih
      exact ⟨⟨⟨trivial, trivial, trivial⟩, hplain⟩, ⟨⟨trivial, trivial, trivial⟩, hordered⟩,
        max_le (le_refl 1) hdepth⟩
  obtain ⟨hplain, hordered, hdepth⟩ := hrows
  exact ⟨⟨hplain, hordered⟩, Nat.succ_le_succ hdepth⟩

theorem bodyJson_payload {readArray : ℕ → Tree} {body : RecordedBody}
    (hbytes : ∀ bytes, (body = .bytes bytes ∨ ∃ id, body = .array id bytes) →
      ∀ byte ∈ bytes, byte ≤ 255) (hreads : StillReads readArray body) :
    Payload (bodyJson body) ∧ depth (bodyJson body) ≤ 1 := by
  have hitems {bytes : List ℕ} (hsmall : ∀ byte ∈ bytes, byte ≤ 255) :
      JsonText.PlainItems (bytes.map Json.nat) ∧ Json.OrderedItems (bytes.map Json.nat) ∧
        depthItems (bytes.map Json.nat) = 0 := by
    induction bytes with
    | nil => exact ⟨trivial, trivial, rfl⟩
    | cons byte rest ih =>
      have hbyte := hsmall byte (by simp)
      obtain ⟨hplain, hordered, hdepth⟩ := ih fun other hother =>
        hsmall other (List.mem_cons_of_mem _ hother)
      exact ⟨⟨show byte < 2 ^ 64 by omega, hplain⟩, ⟨trivial, hordered⟩,
        (max_eq_right (Nat.zero_le _)).trans hdepth⟩
  have hlist {bytes : List ℕ} (hsmall : ∀ byte ∈ bytes, byte ≤ 255) :
      Payload (.array (bytes.map Json.nat)) ∧ depth (.array (bytes.map Json.nat)) ≤ 1 := by
    obtain ⟨hplain, hordered, hdepth⟩ := hitems hsmall
    exact ⟨⟨hplain, hordered⟩, (congrArg (· + 1) hdepth).le⟩
  cases body with
  | text text => exact ⟨⟨trivial, trivial⟩, Nat.zero_le 1⟩
  | bytes bytes => exact hlist (hbytes bytes (Or.inl rfl))
  | array id bytes => exact hlist (hbytes bytes (Or.inr ⟨id, rfl⟩))
  | handle handle =>
    cases handle with
    | file handle | upload handle =>
      have hlt : handle < 2 ^ 53 := hreads
      exact ⟨⟨⟨show handle < 2 ^ 64 by omega, trivial⟩, List.pairwise_singleton _ _, trivial,
        trivial⟩, le_refl 1⟩

/-- A record that is read as the response, and sent on as a value. -/
structure ReadAs (response : Recorded) (tree : Tree) : Prop where
  read : ∃ value, tree.toJson readFloat = some value ∧ depth value < recursionLimit ∧
    value.toValue = asRecorded response
  payload : Payload (asRecorded response)
  shallow : depth (asRecorded response) ≤ 3

theorem recordedTree_response {readArray : ℕ → Tree} {status : ℕ}
    {headers : List (String × String)} {body : RecordedBody} (hstatus : status ≤ 599)
    (hbytes : ∀ bytes, (body = .bytes bytes ∨ ∃ id, body = .array id bytes) →
      ∀ byte ∈ bytes, byte ≤ 255) (hreads : StillReads readArray body) :
    ReadAs readFloat (.response status headers body)
      (recordedTree readArray (.response status headers body)) := by
  obtain ⟨⟨hheaders, hheadersOrdered⟩, hheadersDepth⟩ := headersJson_payload headers
  obtain ⟨⟨hbody, hbodyOrdered⟩, hbodyDepth⟩ := bodyJson_payload hbytes hreads
  refine ⟨⟨.object [("status", .nat status), ("headers", headersJson headers),
    ("body", bodyJson body)], ?_, ?_, ?_⟩, ?_, ?_⟩
  · simp only [recordedTree, Tree.toJson, entriesToJson, toText_encode, Option.bind_some,
      natTree_toJson readFloat (show status < 2 ^ 64 by omega),
      headersTree_toJson, bodyTree_toJson readFloat hbytes hreads, Option.map_some]
  · have hdepth : depth (.object [("status", .nat status), ("headers", headersJson headers),
        ("body", bodyJson body)]) =
          max 0 (max (depth (headersJson headers)) (max (depth (bodyJson body)) 0)) + 1 := rfl
    rw [hdepth, recursionLimit]
    omega
  · have hfirst : "headers" < "status" := by decide
    have hsecond : "body" < "headers" := by decide
    rw [asRecorded, Json.toValue, Json.toEntries, Json.toEntries, Json.toEntries,
      Json.toEntries, Json.toValue_eq _ hheadersOrdered, Json.toValue_eq _ hbodyOrdered]
    simp only [Json.insertEntry, if_pos hfirst, if_pos hsecond]
    rfl
  · have hkeys : List.Pairwise (· < ·) ["body", "headers", "status"] := by decide
    rw [asRecorded]
    exact ⟨⟨hbody, hheaders, show status < 2 ^ 64 by omega, trivial⟩, hkeys, hbodyOrdered,
      hheadersOrdered, trivial, trivial⟩
  · have hdepth : depth (asRecorded (.response status headers body)) =
        max (depth (bodyJson body)) (max (depth (headersJson headers)) (max 0 0)) + 1 := rfl
    rw [hdepth]
    omega

theorem recordedTree_stream (readArray : ℕ → Tree) {status : ℕ}
    (headers : List (String × String)) (hstatus : status < 2 ^ 16) :
    ReadAs readFloat (.stream status headers)
      (recordedTree readArray (.stream status headers)) := by
  obtain ⟨⟨hheaders, hordered⟩, hheadersDepth⟩ := headersJson_payload headers
  have hrecorded : asRecorded (.stream status headers) = .object [("headers", headersJson headers),
      ("status", .nat status), ("stream", .bool true)] := rfl
  refine ⟨⟨.object [("stream", .bool true), ("status", .nat status),
    ("headers", headersJson headers)], ?_, ?_, ?_⟩, ?_, ?_⟩
  · simp only [recordedTree, Tree.toJson, entriesToJson, toText_encode, Option.bind_some,
      natTree_toJson readFloat (show status < 2 ^ 64 by omega), headersTree_toJson,
      Option.map_some]
  · have hdepth : depth (.object [("stream", .bool true), ("status", .nat status),
        ("headers", headersJson headers)]) =
          max 0 (max 0 (max (depth (headersJson headers)) 0)) + 1 := rfl
    rw [hdepth, recursionLimit]
    omega
  · have hfirst : "status" < "stream" := by decide
    have hsecond : "headers" < "status" := by decide
    rw [hrecorded, Json.toValue, Json.toEntries, Json.toEntries, Json.toEntries, Json.toEntries,
      Json.toValue_eq _ hordered, Json.insertEntry, Json.insertEntry, if_pos hfirst,
      Json.insertEntry, if_pos hsecond]
    rfl
  · have hkeys : List.Pairwise (· < ·) ["headers", "status", "stream"] := by decide
    rw [hrecorded]
    exact ⟨⟨hheaders, show status < 2 ^ 64 by omega, trivial, trivial⟩, hkeys, hordered, trivial,
      trivial, trivial⟩
  · have hdepth : depth (asRecorded (.stream status headers)) =
        max (depth (headersJson headers)) (max 0 (max 0 0)) + 1 := rfl
    rw [hdepth]
    omega

end Responses

section Arrivals

/-- A parser that reads what was written, where containers are nested no deeper than its limit. -/
def ReadsNested (limit : ℕ) (floatText : UInt64 → String) (parse : List Char → Option Json) :
    Prop :=
  ∀ value, Plain value → depth value ≤ limit → ∀ space, (∀ c ∈ space, isSpace c = true) →
    parse (value.compactChars floatText ++ space) = some value

/-- The final result is read off its line by every such parser. -/
def Arrives (result : FinalResult) : Prop :=
  ∀ (floatText : UInt64 → String) (parse : List Char → Option Json),
    ReadsNested recursionLimit floatText parse →
      WorkerMessage.decode parse (writeLine floatText (WorkerMessage.finalResult result).toJson) =
        some (.finalResult result)

theorem arrives_of_shallow {result : FinalResult}
    (hplain : (WorkerMessage.finalResult result).Plain)
    (hdepth : depth (WorkerMessage.finalResult result).toJson ≤ recursionLimit) :
    Arrives result := by
  intro floatText parse hparse
  have hread := hparse _ ((WorkerMessage.finalResult result).plain_toJson hplain) hdepth ['\n']
    (by simp [isSpace])
  rw [WorkerMessage.decode, decode_writeLine, Option.bind_some, decodeWire, String.toList_ofList,
    hread]
  exact (WorkerMessage.finalResult result).fromTree_toJson hplain

end Arrivals

end StuntDouble.Prelude
