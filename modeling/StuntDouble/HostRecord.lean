import StuntDouble.Script

/-!
The parent's reading of the record that a finished worker delivers. The record
is arbitrary JSON, since the route script can write the global it is read from.
The readers of headers and bodies drop what they cannot use, so a response may
differ from its record; the last section says exactly when it does not.
-/
namespace StuntDouble.Script

variable {Pipe File : Type}

def parseLogRecord (entry : Json) : Option LogRecord :=
  match (entry.get "level").bind Json.asStr, (entry.get "message").bind Json.asStr with
  | some level, some message => some ⟨level, message⟩
  | _, _ => none

def parseScriptLogs (host : Json) : List LogRecord :=
  match (host.get "logs").bind Json.asArray with
  | none => []
  | some entries => entries.filterMap parseLogRecord

def parseHeaderRow (row : Json) : Option (String × String) :=
  match row.asArray with
  | none => none
  | some pair =>
    match pair[0]?.bind Json.asStr, pair[1]?.bind Json.asStr with
    | some name, some value => some (name, value)
    | _, _ => none

def parseScriptHeaders (response : Json) : List (String × String) :=
  match (response.get "headers").bind Json.asArray with
  | none => []
  | some rows => rows.filterMap parseHeaderRow

def parseByte (value : Json) : Option ℕ := value.asU64.filter (fun n => decide (n ≤ 255))

/-- The stream a body asks for by a handle, when it is still there to be claimed. -/
def claimStream (host : Option (Streams File)) (missingHost missingStream : String)
    (handle : ℕ) : Except Error (ResponseBody Pipe File) :=
  match host with
  | none => .error (.failed missingHost)
  | some streams =>
    match (takeStream streams handle).1 with
    | none => .error (.failed missingStream)
    | some file => .ok (.file file)

def fileHandle (response : Json) : Option ℕ :=
  ((response.get "body").bind (Json.get "file")).bind Json.asU64

def uploadHandle (response : Json) : Option ℕ :=
  ((response.get "body").bind (Json.get "upload")).bind Json.asU64

def isStreamed (response : Json) : Bool := (response.get "stream").bind Json.asBool == some true

def bufferedBody (response : Json) : ResponseBody Pipe File :=
  match response.get "body" with
  | some (.string text) => .text text
  | some (.array bytes) => .bytes (bytes.filterMap parseByte)
  | _ => .text ""

def parseScriptBody (response : Json) (pipeStream : Option Pipe)
    (fileHost uploadHost : Option (Streams File)) : Except Error (ResponseBody Pipe File) :=
  if isStreamed response then
    match pipeStream with
    | none => .error (.failed "ctx.http.pipe: streamed response was not recorded")
    | some stream => .ok (.stream stream)
  else match fileHandle response with
    | some handle =>
      claimStream fileHost "ctx.file.stream: file access was not recorded"
        "ctx.file.stream: handle was not recorded" handle
    | none =>
      match uploadHandle response with
      | some handle =>
        claimStream uploadHost "ctx.request.files: upload access was not recorded"
          "ctx.request.files: upload stream was not recorded" handle
      | none => .ok (bufferedBody response)

/-- The response of a record, unless it is absent or null. -/
def recordedResponse (host : Json) : Option Json :=
  (host.get "response").filter (fun value => !value.isNull)

/-- The status of a record, when it is a 16-bit integer. -/
def recordedStatus (response : Json) : Option ℕ :=
  ((response.get "status").bind Json.asU64).filter (fun value => decide (value < 2 ^ 16))

def parseHostRecord (host : Json) (pipeStream : Option Pipe)
    (fileHost uploadHost : Option (Streams File)) : Outcome Pipe File :=
  let logs := parseScriptLogs host
  match recordedResponse host with
  | none => scriptOutcome none logs (some .noResponse)
  | some response =>
    match recordedStatus response with
    | none => scriptOutcome none logs (some (.failed "ctx.respond: status was not recorded"))
    | some status =>
      let headers := parseScriptHeaders response
      match parseScriptBody response pipeStream fileHost uploadHost with
      | .error error => scriptOutcome none logs (some error)
      | .ok body => scriptOutcome (some ⟨status, headers, body⟩) logs none

section Claims

/-- A streamed body is one of the streams that were left for it. -/
def Claims (pipeStream : Option Pipe) (fileHost uploadHost : Option (Streams File)) :
    ResponseBody Pipe File → Prop
  | .text _ | .bytes _ => True
  | .stream pipe => pipeStream = some pipe
  | .file file => ∃ streams, (fileHost = some streams ∨ uploadHost = some streams) ∧
      some file ∈ streams

theorem claimStream_claims (host : Option (Streams File)) (missingHost missingStream : String)
    (handle : ℕ) (body : ResponseBody Pipe File)
    (h : claimStream host missingHost missingStream handle = .ok body) :
    ∃ streams file, host = some streams ∧ some file ∈ streams ∧ body = .file file := by
  unfold claimStream takeStream at h
  cases host with
  | none => contradiction
  | some streams =>
    simp only at h
    split at h
    · contradiction
    · rename_i file htaken
      split at htaken
      · rename_i found hfound
        obtain rfl := Option.some.inj htaken
        obtain rfl := Except.ok.inj h
        exact ⟨streams, found, rfl, List.mem_of_getElem? hfound, rfl⟩
      · contradiction

theorem parseScriptBody_claims (response : Json) (pipeStream : Option Pipe)
    (fileHost uploadHost : Option (Streams File)) (body : ResponseBody Pipe File)
    (h : parseScriptBody response pipeStream fileHost uploadHost = .ok body) :
    Claims pipeStream fileHost uploadHost body := by
  unfold parseScriptBody at h
  split at h
  · cases pipeStream with
    | none => contradiction
    | some pipe =>
      obtain rfl := Except.ok.inj h
      rfl
  · split at h
    · obtain ⟨streams, file, hhost, hmem, rfl⟩ := claimStream_claims _ _ _ _ _ h
      exact ⟨streams, Or.inl hhost, hmem⟩
    · split at h
      · obtain ⟨streams, file, hhost, hmem, rfl⟩ := claimStream_claims _ _ _ _ _ h
        exact ⟨streams, Or.inr hhost, hmem⟩
      · obtain rfl := Except.ok.inj h
        unfold bufferedBody
        split <;> trivial

/-- A response claims its streamed body from what was left for it. -/
theorem parseHostRecord_claims (host : Json) (pipeStream : Option Pipe)
    (fileHost uploadHost : Option (Streams File)) (response : ScriptResponse Pipe File)
    (h : (parseHostRecord host pipeStream fileHost uploadHost).response = some response) :
    Claims pipeStream fileHost uploadHost response.body := by
  unfold parseHostRecord at h
  split at h
  · contradiction
  · split at h
    · contradiction
    · simp only at h
      split at h
      · contradiction
      · rename_i body hbody
        obtain rfl := Option.some.inj h
        exact parseScriptBody_claims _ pipeStream fileHost uploadHost body hbody

end Claims

section FailClosed

/-- A header row as the prelude records it. -/
def headerRow (pair : String × String) : Json := .array [.string pair.1, .string pair.2]

/-- The body of a response is the one its record asks for. -/
def ReproducesBody (record : Json) : ResponseBody Pipe File → Prop
  | .text text =>
    record.get "body" = some (.string text) ∨ (record.get "body" = none ∧ text = "")
  | .bytes bytes =>
    record.get "body" = some (.array (bytes.map Json.nat)) ∧ ∀ n ∈ bytes, n ≤ 255
  | .stream _ => isStreamed record = true
  | .file _ => (fileHandle record).isSome ∨ (uploadHandle record).isSome

/-- A response says all that its record says. -/
structure Reproduces (record : Json) (response : ScriptResponse Pipe File) : Prop where
  status_eq : record.get "status" = some (.nat response.status)
  status_range : 100 ≤ response.status ∧ response.status ≤ 599
  headers_eq : (record.get "headers" = none ∧ response.headers = []) ∨
    record.get "headers" = some (.array (response.headers.map headerRow))
  body_eq : ReproducesBody record response.body

/-- A record is answered with an error or reproduced in full. -/
def FailClosed (host : Json) (outcome : Outcome Pipe File) : Prop :=
  (outcome.response = none ∧ outcome.error.isSome) ∨
    ∃ record response, recordedResponse host = some record ∧
      outcome.response = some response ∧ outcome.error = none ∧ Reproduces record response

/-- A handle names a stream that was opened and not yet claimed. -/
def HasStream (host : Option (Streams File)) (handle : ℕ) : Prop :=
  ∃ streams file, host = some streams ∧ streams[handle]? = some (some file)

/-- The stream that a record asks for, if it asks for one, was left for it. -/
def BodyAvailable (record : Json) (pipeStream : Option Pipe)
    (fileHost uploadHost : Option (Streams File)) : Prop :=
  match isStreamed record, fileHandle record, uploadHandle record with
  | true, _, _ => pipeStream.isSome = true
  | false, some handle, _ => HasStream fileHost handle
  | false, none, some handle => HasStream uploadHost handle
  | false, none, none => True

/-- The headers are missing or pairs of strings. -/
def LegibleHeaders (record : Json) : Prop :=
  record.get "headers" = none ∨ ∃ rows, record.get "headers" = some (.array rows) ∧
    ∀ row ∈ rows, ∃ pair, row = headerRow pair

/-- The body is a stream, missing, a string or an array of bytes. -/
def LegibleBody (record : Json) : Prop :=
  isStreamed record = true ∨ (fileHandle record).isSome ∨ (uploadHandle record).isSome ∨
    record.get "body" = none ∨ (∃ text, record.get "body" = some (.string text)) ∨
      ∃ bytes, record.get "body" = some (.array bytes) ∧
        ∀ byte ∈ bytes, ∃ n, n ≤ 255 ∧ byte = .nat n

theorem map_filterMap_eq_iff {A B : Type*} (parse : A → Option B) (render : B → A)
    (valid : B → Prop) (hparse : ∀ b, valid b → parse (render b) = some b) (xs : List A)
    (hvalid : ∀ x ∈ xs, ∀ b, parse x = some b → valid b) :
    xs = (xs.filterMap parse).map render ↔ ∀ x ∈ xs, ∃ b, valid b ∧ x = render b := by
  constructor
  · intro h x hx
    rw [h] at hx
    obtain ⟨b, hb, rfl⟩ := List.mem_map.mp hx
    obtain ⟨y, hy, hparsed⟩ := List.mem_filterMap.mp hb
    exact ⟨b, hvalid y hy b hparsed, rfl⟩
  · intro h
    induction xs with
    | nil => rfl
    | cons x rest ih =>
      obtain ⟨b, hb, hx⟩ := h x (by simp)
      have hrest := ih (fun y hy => hvalid y (by simp [hy])) (fun y hy => h y (by simp [hy]))
      rw [hx, List.filterMap_cons_some (hparse b hb), List.map_cons, ← hrest]

theorem parseScriptHeaders_iff (record : Json) :
    ((record.get "headers" = none ∧ parseScriptHeaders record = []) ∨
        record.get "headers" = some (.array ((parseScriptHeaders record).map headerRow))) ↔
      LegibleHeaders record := by
  unfold parseScriptHeaders LegibleHeaders
  cases hheaders : record.get "headers" with
  | none => simp
  | some headers =>
    cases headers with
    | array rows =>
      have hrows := map_filterMap_eq_iff parseHeaderRow headerRow (fun _ => True)
        (fun pair _ => rfl) rows (fun _ _ _ _ => trivial)
      simpa [Json.asArray] using hrows
    | _ => simp [Json.asArray]

theorem parseByte_nat (n : ℕ) (hn : n ≤ 255) : parseByte (.nat n) = some n := by
  simp [parseByte, Json.asU64, hn]

theorem parseByte_le (value : Json) (n : ℕ) (h : parseByte value = some n) : n ≤ 255 := by
  unfold parseByte at h
  rw [Option.filter_eq_some_iff] at h
  simpa using h.2

theorem bufferedBody_iff (record : Json) (hstreamed : isStreamed record = false)
    (hfile : fileHandle record = none) (hupload : uploadHandle record = none) :
    ReproducesBody record (bufferedBody record : ResponseBody Pipe File) ↔ LegibleBody record := by
  unfold bufferedBody LegibleBody
  cases hbody : record.get "body" with
  | none => simp [ReproducesBody, hbody]
  | some body =>
    cases body with
    | string text => simp [ReproducesBody, hbody]
    | array bytes =>
      have hbytes := map_filterMap_eq_iff parseByte Json.nat (· ≤ 255) parseByte_nat bytes
        (fun value _ n hn => parseByte_le value n hn)
      have hle : ∀ n ∈ bytes.filterMap parseByte, n ≤ 255 := by
        intro n hn
        obtain ⟨value, -, hvalue⟩ := List.mem_filterMap.mp hn
        exact parseByte_le value n hvalue
      simp only [ReproducesBody, hbody, Option.some.injEq, Json.array.injEq, hbytes,
        and_iff_left hle]
      simp [hstreamed, hfile, hupload]
    | _ => simp [ReproducesBody, hbody, hstreamed, hfile, hupload]

theorem claimStream_cases (host : Option (Streams File)) (missingHost missingStream : String)
    (handle : ℕ) :
    (HasStream host handle ∧ ∃ file, (claimStream host missingHost missingStream handle :
        Except Error (ResponseBody Pipe File)) = .ok (.file file)) ∨
      (¬ HasStream host handle ∧ ∃ error, (claimStream host missingHost missingStream handle :
        Except Error (ResponseBody Pipe File)) = .error error) := by
  unfold claimStream HasStream takeStream
  cases host with
  | none => simp
  | some streams =>
    cases hslot : streams[handle]? with
    | none => simp [hslot]
    | some slot => cases slot <;> simp [hslot]

/-- A body that was read is the one recorded exactly when the record is legible. -/
theorem parseScriptBody_cases (record : Json) (pipeStream : Option Pipe)
    (fileHost uploadHost : Option (Streams File)) :
    (BodyAvailable record pipeStream fileHost uploadHost ∧
        ∃ body, parseScriptBody record pipeStream fileHost uploadHost = .ok body ∧
          (ReproducesBody record body ↔ LegibleBody record)) ∨
      (¬ BodyAvailable record pipeStream fileHost uploadHost ∧
        ∃ error, parseScriptBody record pipeStream fileHost uploadHost = .error error) := by
  unfold BodyAvailable parseScriptBody
  cases hstreamed : isStreamed record with
  | true => cases pipeStream <;> simp [ReproducesBody, LegibleBody, hstreamed]
  | false =>
    cases hfile : fileHandle record with
    | some handle =>
      rcases @claimStream_cases Pipe File fileHost
        "ctx.file.stream: file access was not recorded" "ctx.file.stream: handle was not recorded"
        handle with ⟨hhas, file, hclaim⟩ | ⟨hhas, error, hclaim⟩
      · exact Or.inl ⟨hhas, .file file, hclaim, by simp [ReproducesBody, LegibleBody, hfile]⟩
      · exact Or.inr ⟨hhas, error, hclaim⟩
    | none =>
      cases hupload : uploadHandle record with
      | some handle =>
        rcases @claimStream_cases Pipe File uploadHost
          "ctx.request.files: upload access was not recorded"
          "ctx.request.files: upload stream was not recorded"
          handle with ⟨hhas, file, hclaim⟩ | ⟨hhas, error, hclaim⟩
        · exact Or.inl ⟨hhas, .file file, hclaim, by simp [ReproducesBody, LegibleBody, hupload]⟩
        · exact Or.inr ⟨hhas, error, hclaim⟩
      | none =>
        exact Or.inl ⟨trivial, bufferedBody record, rfl,
          bufferedBody_iff record hstreamed hfile hupload⟩

theorem recordedStatus_get (record : Json) (status : ℕ) (h : recordedStatus record = some status) :
    record.get "status" = some (.nat status) := by
  unfold recordedStatus at h
  obtain ⟨hbind, -⟩ := Option.filter_eq_some_iff.mp h
  obtain ⟨value, hget, hvalue⟩ := Option.bind_eq_some_iff.mp hbind
  rw [hget]
  cases value with
  | number n =>
    cases n with
    | posInt k =>
      obtain rfl := Option.some.inj hvalue
      rfl
    | _ => contradiction
  | _ => contradiction

/-- A record is read in full, or refused, exactly when it asks for no response,
for a missing stream, has no 16-bit status, or is legible with a status in range. -/
theorem parseHostRecord_failClosed (host : Json) (pipeStream : Option Pipe)
    (fileHost uploadHost : Option (Streams File)) :
    FailClosed host (parseHostRecord host pipeStream fileHost uploadHost) ↔
      ∀ record status, recordedResponse host = some record → recordedStatus record = some status →
        BodyAvailable record pipeStream fileHost uploadHost →
          (100 ≤ status ∧ status ≤ 599) ∧ LegibleHeaders record ∧ LegibleBody record := by
  unfold parseHostRecord
  cases hrecord : recordedResponse host with
  | none => simp [FailClosed, scriptOutcome]
  | some record =>
    cases hstatus : recordedStatus record with
    | none =>
      simp only [hstatus]
      constructor
      · intro _ record' status' hr hs
        obtain rfl := Option.some.inj hr
        rw [hstatus] at hs
        contradiction
      · intro _
        exact Or.inl ⟨rfl, rfl⟩
    | some status =>
      rcases parseScriptBody_cases record pipeStream fileHost uploadHost with
        ⟨havailable, body, hbody, hiff⟩ | ⟨hmissing, error, hbody⟩
      · have hget := recordedStatus_get record status hstatus
        simp only [hstatus, hbody]
        constructor
        · intro h record' status' hr hs _
          obtain rfl := Option.some.inj hr
          obtain rfl := Option.some.inj (hstatus.symm.trans hs)
          rcases h with ⟨hnone, -⟩ | ⟨record', response, hr', hresponse, -, hall⟩
          · contradiction
          · obtain rfl := Option.some.inj (hrecord.symm.trans hr')
            obtain rfl := Option.some.inj hresponse
            exact ⟨hall.status_range, (parseScriptHeaders_iff record).mp hall.headers_eq,
              hiff.mp hall.body_eq⟩
        · intro h
          obtain ⟨hrange, hheaders, hlegible⟩ := h record status rfl hstatus havailable
          exact Or.inr ⟨record, _, hrecord, rfl, rfl,
            ⟨hget, hrange, (parseScriptHeaders_iff record).mpr hheaders, hiff.mpr hlegible⟩⟩
      · simp only [hstatus, hbody]
        constructor
        · intro _ record' status' hr _ havailable
          obtain rfl := Option.some.inj hr
          exact absurd havailable hmissing
        · intro _
          exact Or.inl ⟨rfl, rfl⟩

/-- A byte array that the script changes after `ctx.respond` has checked it is
read back without its bad byte. -/
theorem parseHostRecord_drops_byte :
    ¬ FailClosed
      (.object [("logs", .array []), ("response", .object [("body", .array [.nat 300]),
        ("headers", .array []), ("status", .nat 200)])])
      (parseHostRecord
        (.object [("logs", .array []), ("response", .object [("body", .array [.nat 300]),
          ("headers", .array []), ("status", .nat 200)])])
        (none : Option Unit) (some ([] : Streams Unit)) none) := by
  intro h
  rcases h with ⟨hnone, -⟩ | ⟨record, response, hrecord, hresponse, -, hall⟩
  · contradiction
  · obtain rfl := Option.some.inj hrecord
    obtain rfl := Option.some.inj hresponse
    have hbody : some (Json.array [.nat 300]) = some (Json.array []) := hall.body_eq.1
    simp at hbody

end FailClosed

end StuntDouble.Script
