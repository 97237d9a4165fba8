import StuntDouble.TextSizes
import StuntDouble.LineReads
import StuntDouble.Host
import StuntDouble.Operands
import StuntDouble.ScriptLogs

/-!
The longest lines of the worker protocol. A buffered value may have up to eight MiB, of any
bytes; as text it fills at most 48 MiB of its line, and an upstream body crosses a second time
in base64. What is left below the limit is enough for the headers and the names.
-/
namespace StuntDouble

namespace Json

section Maps

variable (floatText : UInt64 → String)

theorem mem_insertEntry {key : String} {value : Json} {entries : List (String × Json)}
    {entry : String × Json} (h : entry ∈ insertEntry key value entries) :
    entry = (key, value) ∨ entry ∈ entries := by
  induction entries with
  | nil => exact Or.inl (List.mem_singleton.mp h)
  | cons other rest ih =>
    rw [insertEntry] at h
    split at h
    · exact List.mem_cons.mp h
    · split at h
      · exact (List.mem_cons.mp h).imp_right (List.mem_cons_of_mem _)
      · rcases List.mem_cons.mp h with h | h
        · exact Or.inr (h ▸ List.mem_cons_self)
        · exact (ih h).imp_right (List.mem_cons_of_mem _)

/-- A member adds at most its own size, be it that it replaces another one. -/
theorem sum_insertEntry (size : String × Json → ℕ) (key : String) (value : Json)
    (entries : List (String × Json)) :
    ((insertEntry key value entries).map size).sum ≤
      (entries.map size).sum + size (key, value) := by
  induction entries with
  | nil => simp [insertEntry]
  | cons entry rest ih =>
    rw [insertEntry]
    split
    · simp only [List.map_cons, List.sum_cons]
      omega
    · split
      · simp only [List.map_cons, List.sum_cons]
        omega
      · simp only [List.map_cons, List.sum_cons]
        omega

theorem entriesBound_eq_sum (entries : List (String × Json)) :
    entriesBound floatText entries =
      (entries.map fun entry => literalSize entry.1 + sizeBound floatText entry.2 + 4).sum := by
  induction entries with
  | nil => rfl
  | cons entry rest ih => rw [entriesBound, List.map_cons, List.sum_cons, ih]

theorem insertEntry_bound (key : String) (value : Json) (entries : List (String × Json)) :
    entriesBound floatText (insertEntry key value entries) ≤
      entriesBound floatText entries + (literalSize key + sizeBound floatText value + 4) := by
  rw [entriesBound_eq_sum, entriesBound_eq_sum]
  exact sum_insertEntry _ key value entries

theorem plainEntries_iff (entries : List (String × Json)) :
    JsonText.PlainEntries entries ↔ ∀ entry ∈ entries, JsonText.Plain entry.2 := by
  induction entries with
  | nil => simp [JsonText.PlainEntries]
  | cons entry rest ih => rw [JsonText.PlainEntries, ih, List.forall_mem_cons]

theorem insertEntry_plain {key : String} {value : Json} {entries : List (String × Json)}
    (hvalue : JsonText.Plain value) (h : JsonText.PlainEntries entries) :
    JsonText.PlainEntries (insertEntry key value entries) := by
  rw [plainEntries_iff] at h ⊢
  intro entry hentry
  rcases mem_insertEntry hentry with rfl | hold
  · exact hvalue
  · exact h entry hold

mutual

/-- A value that was read is written in no more bytes. -/
theorem sizeBound_toValue (v : Json) : sizeBound floatText v.toValue ≤ sizeBound floatText v := by
  match v with
  | .null | .bool _ | .number _ | .string _ => exact Nat.le_refl _
  | .array items =>
    have hitems := itemsBound_toValues items
    rw [toValue, sizeBound, sizeBound]
    omega
  | .object entries =>
    have hentries := entriesBound_toEntries [] entries
    simp only [toValue, sizeBound, entriesBound] at hentries ⊢
    omega

theorem itemsBound_toValues (items : List Json) :
    itemsBound floatText (toValues items) ≤ itemsBound floatText items := by
  match items with
  | [] => exact Nat.le_refl _
  | item :: rest =>
    have hitem := sizeBound_toValue item
    have hrest := itemsBound_toValues rest
    rw [toValues, itemsBound, itemsBound]
    omega

theorem entriesBound_toEntries (front entries : List (String × Json)) :
    entriesBound floatText (toEntries front entries) ≤
      entriesBound floatText front + entriesBound floatText entries := by
  match entries with
  | [] => exact Nat.le_refl _
  | (key, value) :: rest =>
    have hvalue := sizeBound_toValue value
    have hinsert := insertEntry_bound floatText key value.toValue front
    have hrest := entriesBound_toEntries (insertEntry key value.toValue front) rest
    rw [toEntries, entriesBound]
    omega

end

mutual

theorem plain_toValue (v : Json) (h : JsonText.Plain v) : JsonText.Plain v.toValue := by
  match v with
  | .null | .bool _ | .number _ | .string _ => exact h
  | .array items =>
    rw [toValue]
    exact plainItems_toValues items h
  | .object entries =>
    rw [toValue]
    exact plainEntries_toEntries [] entries trivial h

theorem plainItems_toValues (items : List Json) (h : JsonText.PlainItems items) :
    JsonText.PlainItems (toValues items) := by
  match items with
  | [] => trivial
  | item :: rest => exact ⟨plain_toValue item h.1, plainItems_toValues rest h.2⟩

theorem plainEntries_toEntries (front entries : List (String × Json))
    (hfront : JsonText.PlainEntries front) (h : JsonText.PlainEntries entries) :
    JsonText.PlainEntries (toEntries front entries) := by
  match entries with
  | [] => exact hfront
  | (key, value) :: rest =>
    exact plainEntries_toEntries _ rest (insertEntry_plain (plain_toValue value h.1) hfront) h.2

end

end Maps

end Json

namespace Script

open Files Http LineReader RequestLog Upstream

section Headers

theorem setMember_eq_insertEntry (entries : List (String × Json)) (name : String)
    (value : Json) : setMember entries name value = Json.insertEntry name value entries := by
  induction entries with
  | nil => rfl
  | cons entry rest ih =>
    obtain ⟨key, old⟩ := entry
    rw [setMember, Json.insertEntry, ih]
    by_cases hsame : name = key
    · subst hsame
      rw [if_pos rfl, if_neg (lt_irrefl name), if_pos rfl]
    · rw [if_neg hsame, if_neg hsame]

/-- The bytes of a member, as they are before they are written. -/
def memberSize (entry : String × Json) : ℕ :=
  entry.1.utf8ByteSize + (entry.2.asStr.map String.utf8ByteSize).getD 0

/-- The members of distinct names that collect headers. -/
structure Collected (entries : List (String × Json)) (total : ℕ) : Prop where
  ordered : (entries.map Prod.fst).Pairwise (· < ·)
  strings : ∀ entry ∈ entries, ∃ s, entry.2 = .string s
  sum_le : (entries.map memberSize).sum ≤ total

theorem ordered_insertEntry (key : String) (value : Json) {entries : List (String × Json)}
    (h : (entries.map Prod.fst).Pairwise (· < ·)) :
    ((Json.insertEntry key value entries).map Prod.fst).Pairwise (· < ·) := by
  induction entries with
  | nil => exact List.pairwise_singleton _ _
  | cons entry rest ih =>
    have hsplit := List.pairwise_cons.mp h
    rw [Json.insertEntry]
    split
    · rename_i hlt
      refine List.pairwise_cons.mpr ⟨?_, h⟩
      intro name hname
      rcases List.mem_cons.mp hname with rfl | hname
      · exact hlt
      · exact hlt.trans (hsplit.1 name hname)
    · rename_i hge
      split
      · rename_i heq
        rw [heq]
        exact h
      · rename_i hne
        refine List.pairwise_cons.mpr ⟨?_, ih hsplit.2⟩
        intro name hname
        obtain ⟨other, hother, rfl⟩ := List.mem_map.mp hname
        rcases Json.mem_insertEntry hother with rfl | hother
        · exact lt_of_le_of_ne (not_lt.mp hge) (Ne.symm hne)
        · exact hsplit.1 other.1 (List.mem_map_of_mem hother)

theorem Collected.insert {entries : List (String × Json)} {total : ℕ}
    (h : Collected entries total) (header : String × String) :
    Collected (setMember entries header.1 (.string header.2))
      (total + (header.1.utf8ByteSize + header.2.utf8ByteSize)) := by
  rw [setMember_eq_insertEntry]
  refine ⟨ordered_insertEntry _ _ h.ordered, ?_, ?_⟩
  · intro entry hentry
    rcases Json.mem_insertEntry hentry with rfl | hentry
    · exact ⟨header.2, rfl⟩
    · exact h.strings entry hentry
  · have hsum := Json.sum_insertEntry memberSize header.1 (.string header.2) entries
    have hsize : memberSize (header.1, .string header.2) =
        header.1.utf8ByteSize + header.2.utf8ByteSize := rfl
    have htotal := h.sum_le
    omega

theorem collected_foldl (headers : List (String × String)) {entries : List (String × Json)}
    {total : ℕ} (h : Collected entries total) :
    Collected (headers.foldl (fun headers header => setMember headers header.1 (.string header.2))
      entries) (total +
        (headers.map fun header => header.1.utf8ByteSize + header.2.utf8ByteSize).sum) := by
  induction headers generalizing entries total with
  | nil => exact h
  | cons header rest ih =>
    have hrest := ih (h.insert header)
    rw [List.map_cons, List.sum_cons, ← Nat.add_assoc]
    exact hrest

theorem length_le_sum {entries : List (String × Json)} (h : ∀ entry ∈ entries, entry.1 ≠ "") :
    entries.length ≤ (entries.map memberSize).sum := by
  induction entries with
  | nil => exact Nat.le_refl 0
  | cons entry rest ih =>
    have hrest := ih fun entry hentry => h entry (List.mem_cons_of_mem _ hentry)
    have hname : entry.1.utf8ByteSize ≠ 0 :=
      mt String.utf8ByteSize_eq_zero_iff.mp (h entry List.mem_cons_self)
    rw [List.length_cons, List.map_cons, List.sum_cons, memberSize]
    omega

/-- At most one name is empty, the first one. -/
theorem Collected.length_le {entries : List (String × Json)} {total : ℕ}
    (h : Collected entries total) : entries.length ≤ total + 1 := by
  have htotal := h.sum_le
  cases entries with
  | nil => exact Nat.zero_le _
  | cons entry rest =>
    have hlater := (List.pairwise_cons.mp h.ordered).1
    have hrest : rest.length ≤ (rest.map memberSize).sum := by
      apply length_le_sum
      intro other hother hempty
      have hlt := hlater other.1 (List.mem_map_of_mem hother)
      rw [hempty, String.lt_iff_toList_lt] at hlt
      exact List.not_lt_nil _ hlt
    rw [List.map_cons, List.sum_cons] at htotal
    rw [List.length_cons]
    omega

theorem Collected.bound (floatText : UInt64 → String) {entries : List (String × Json)}
    {total : ℕ} (h : Collected entries total) :
    Json.entriesBound floatText entries ≤ 12 * total + 6 := by
  have hall : ∀ entries : List (String × Json),
      (∀ entry ∈ entries, ∃ s, entry.2 = .string s) →
        Json.entriesBound floatText entries ≤
          6 * (entries.map memberSize).sum + 6 * entries.length := by
    intro entries hstrings
    induction entries with
    | nil => exact Nat.le_refl 0
    | cons entry rest ih =>
      obtain ⟨key, value⟩ := entry
      obtain ⟨s, rfl⟩ := hstrings (key, value) List.mem_cons_self
      have hrest := ih fun entry hentry => hstrings entry (List.mem_cons_of_mem _ hentry)
      have hkey := Json.literalSize_le key
      have hvalue := Json.literalSize_le s
      have hsize : memberSize (key, .string s) = key.utf8ByteSize + s.utf8ByteSize := rfl
      rw [Json.entriesBound, Json.sizeBound, List.map_cons, List.sum_cons, List.length_cons, hsize]
      omega
  have hbound := hall entries h.strings
  have hlength := h.length_le
  have htotal := h.sum_le
  omega

theorem Collected.plain {entries : List (String × Json)} {total : ℕ}
    (h : Collected entries total) : JsonText.PlainEntries entries := by
  rw [Json.plainEntries_iff]
  intro entry hentry
  obtain ⟨s, hs⟩ := h.strings entry hentry
  rw [hs]
  trivial

/-- The bytes of the headers of an answer. -/
def headerBytes (headers : HeaderMap) : ℕ :=
  (headers.flatMap fun entry => entry.2.map fun value => entry.1.utf8ByteSize + value.length).sum

theorem toLower_size (c : Char) : c.toLower.utf8Size = c.utf8Size := by
  unfold Char.toLower
  split
  · rename_i hupper
    have hle : c.toNat ≤ 90 := UInt32.le_iff_toNat_le.mp hupper.2
    have hsum : (c.val + ('a'.val - 'A'.val)).toNat = (c.toNat + 32) % 2 ^ 32 :=
      UInt32.toNat_add c.val 32
    rw [Utf8.utf8Size_of_lt (c := c) (by omega)]
    apply Utf8.utf8Size_of_lt
    show (c.val + ('a'.val - 'A'.val)).toNat < 128
    omega
  · rfl

/-- The headers that the HTTP client takes, in bytes. -/
def maxHeaderBytes : ℕ := 64 * 1024

theorem asciiLower_size (s : String) : (asciiLower s).utf8ByteSize = s.utf8ByteSize := by
  rw [Utf8.utf8ByteSize_eq, Utf8.utf8ByteSize_eq, asciiLower, String.toList_ofList, List.map_map]
  congr 1
  exact List.map_congr_left fun c _ => toLower_size c

theorem toStr_size {value : HeaderValue} {text : String} (h : value.toStr = some text) :
    text.utf8ByteSize = value.length := by
  unfold HeaderValue.toStr at h
  split at h
  · rw [← Utf8.encode_of_decode h]
    rfl
  · cases h

/-- The headers of a response are among those of the answer. -/
theorem textHeaders_size (headers : HeaderMap) :
    ((textHeaders headers).map fun header => header.1.utf8ByteSize + header.2.utf8ByteSize).sum ≤
      headerBytes headers := by
  unfold textHeaders headerBytes
  induction headers with
  | nil => exact Nat.le_refl 0
  | cons entry rest ih =>
    have hvalues : ∀ values : List HeaderValue,
        ((values.filterMap fun value => value.toStr.map fun text => (asciiLower entry.1, text)).map
          fun header => header.1.utf8ByteSize + header.2.utf8ByteSize).sum ≤
            (values.map fun value => entry.1.utf8ByteSize + value.length).sum := by
      intro values
      induction values with
      | nil => exact Nat.le_refl 0
      | cons value values ihvalues =>
        rw [List.filterMap_cons, List.map_cons, List.sum_cons]
        cases htext : value.toStr with
        | none =>
          simp only [Option.map_none]
          omega
        | some text =>
          have hsize := toStr_size htext
          have hname := asciiLower_size entry.1
          simp only [Option.map_some, List.map_cons, List.sum_cons]
          omega
    have hentry := hvalues entry.2
    rw [List.flatMap_cons, List.flatMap_cons, List.map_append, List.sum_append, List.sum_append]
    omega

end Headers

section Lines

variable (floatText : UInt64 → String)

/-- A line within the limit, which both sides of the protocol read as a whole. -/
structure Delivered (line : Bytes) : Prop where
  length_le : line.length ≤ maxProtocolLineBytes
  toWorker : ∀ reader : Reader, line <+: reader.bytes →
    ∃ text, (readLimitedLine maxProtocolLineBytes reader).1 = .line text ∧ Utf8.encode text = line
  toParent : ∀ reader : AsyncReader, line <+: reader.bytes →
    ∃ text, (readLimitedLineAsync maxProtocolLineBytes reader).1 = .line text ∧
      Utf8.encode text = line

theorem delivered_of_size {message : Json} (hplain : JsonText.Plain message)
    (hsize : Json.sizeBound floatText message < maxProtocolLineBytes) :
    Delivered (writeLine floatText message) := by
  have hlength : (writeLine floatText message).length ≤ maxProtocolLineBytes := by
    have hcompact := Json.compactChars_size floatText message
    rw [writeLine, List.length_append, encode_eq, List.length_singleton]
    omega
  have hasync : ∀ reader : AsyncReader, writeLine floatText message <+: reader.bytes →
      ∃ text, (readLimitedLineAsync maxProtocolLineBytes reader).1 = .line text ∧
        Utf8.encode text = writeLine floatText message := by
    rintro reader ⟨after, hafter⟩
    rw [writeLine, List.append_assoc, List.singleton_append] at hafter
    have hbody : newline ∉ encode floatText message := newline_not_mem_encode hplain
    have hread := readLimitedLineAsync_terminated maxProtocolLineBytes hbody hafter.symm
    have hdecode : Utf8.decode (writeLine floatText message) =
        some (String.ofList (message.compactChars floatText ++ ['\n'])) := decode_writeLine message
    have hne : writeLine floatText message ≠ [] := by simp [writeLine]
    have hline := decodeLine_of_ne_nil hne
    rw [hdecode] at hline
    rw [← writeLine, if_neg (not_lt.mpr hlength)] at hread
    exact ⟨_, hread.1.trans hline, Utf8.encode_of_decode hdecode⟩
  refine ⟨hlength, ?_, hasync⟩
  intro reader hreader
  rw [(readLimitedLine_toAsync maxProtocolLineBytes reader).1]
  exact hasync reader.toAsync (by rwa [Reader.toAsync_bytes])

theorem bridgeName_size (name : BridgeName) : Json.literalSize name.asStr ≤ 21 := by
  cases name <;> decide

/-- The line that answers a bridge call. -/
theorem delivered_hostResult {result : Json} (hplain : JsonText.Plain result)
    (hsize : Json.sizeBound floatText result ≤ 67000000) :
    Delivered (writeLine floatText (ParentMessage.hostResult result).toJson) := by
  apply delivered_of_size floatText
  · exact ⟨trivial, hplain, trivial⟩
  · have hnames : Json.literalSize "type" + Json.literalSize "host_result" +
        Json.literalSize "result" = 21 := rfl
    simp only [ParentMessage.toJson, Json.sizeBound, Json.entriesBound, maxProtocolLineBytes]
    omega

/-- The line of a bridge call. -/
theorem delivered_hostCall (name : BridgeName) {payload : Json} (hplain : JsonText.Plain payload)
    (hsize : Json.sizeBound floatText payload ≤ 67000000) :
    Delivered (writeLine floatText (WorkerMessage.hostCall name payload).toJson) := by
  apply delivered_of_size floatText
  · exact ⟨trivial, trivial, hplain, trivial⟩
  · have hnames : Json.literalSize "type" + Json.literalSize "host_call" +
        Json.literalSize "name" + Json.literalSize "payload" = 24 := rfl
    have hname := bridgeName_size name
    simp only [WorkerMessage.toJson, Json.sizeBound, Json.entriesBound, maxProtocolLineBytes]
    omega

end Lines

section Values

variable (floatText : UInt64 → String) (base64 : Bytes → String)

theorem base64_size (hbase64 : ∀ bytes, base64 bytes = String.ofList (Base64.encode bytes))
    (bytes : Bytes) : Json.literalSize (base64 bytes) = 4 * ((bytes.length + 2) / 3) := by
  rw [hbase64, Base64.encode_size]

/-- What reading a file answers; a file above the cap is not read. -/
theorem readAll_size (hbase64 : ∀ bytes, base64 bytes = String.ofList (Base64.encode bytes))
    {op : FileOp} {content : Bytes} {read : Json × ℕ}
    (h : Files.readAll base64 op content = .ok read) :
    JsonText.Plain read.1 ∧ Json.sizeBound floatText read.1 ≤ 6 * maxReadBytes + 100 := by
  have hnames : Json.literalSize "ok" = 2 ∧ Json.literalSize "text" = 4 ∧
      Json.literalSize "bytes_base64" = 12 := ⟨rfl, rfl, rfl⟩
  unfold Files.readAll readCapped at h
  split at h
  · cases h
  · rename_i bytes hcap
    split at hcap
    · cases hcap
    · rename_i hlength
      cases hcap
      split at h
      · split at h
        · cases h
        · rename_i text htext
          cases h
          have htext : text.utf8ByteSize = content.length := by
            rw [← Utf8.encode_of_decode htext]
            rfl
          have hliteral := Json.literalSize_le text
          refine ⟨⟨trivial, trivial, trivial⟩, ?_⟩
          simp only [Json.sizeBound, Json.entriesBound]
          omega
      · cases h
        have hbytes := base64_size base64 hbase64 content
        refine ⟨⟨trivial, trivial, trivial⟩, ?_⟩
        simp only [Json.sizeBound, Json.entriesBound]
        omega

theorem readAll_error {op : FileOp} {content : Bytes} {error : Files.Error}
    (h : Files.readAll base64 op content = .error error) :
    error = .tooLarge ∨ error = .encoding := by
  unfold Files.readAll readCapped at h
  split at h
  · rename_i hcap
    split at hcap
    · cases hcap
      cases h
      exact Or.inl rfl
    · cases hcap
  · split at h
    · split at h
      · cases h
        exact Or.inr rfl
      · cases h
    · cases h

/-- Both file bridges read a file whole unless they stream it. -/
theorem perform_size (hbase64 : ∀ bytes, base64 bytes = String.ofList (Base64.encode bytes))
    (elapsedMs : ℕ → Ms) {op : FileOp} (api : String) {opening : Opening} {content : Bytes}
    (hcontent : opening.content = .ok content) (hop : op ≠ .stream)
    (streams : Streams FileBody) (calls : Files.CallLog) :
    JsonText.Plain (perform base64 elapsedMs op api opening streams calls).json ∧
      Json.sizeBound floatText (perform base64 elapsedMs op api opening streams calls).json ≤
        6 * maxReadBytes + 100 := by
  unfold perform
  simp only [hcontent, if_neg hop]
  cases hread : Files.readAll base64 op content with
  | error error =>
    have hnames : Json.literalSize "code" + Json.literalSize "message" + Json.literalSize "ok" =
        13 := rfl
    have herror : Json.literalSize error.code + Json.literalSize error.message ≤ 100 := by
      rcases readAll_error base64 hread with rfl | rfl <;> decide +kernel
    refine ⟨⟨trivial, trivial, trivial, trivial⟩, ?_⟩
    simp only [errorJson, failureJson, Json.sizeBound, Json.entriesBound, maxReadBytes]
    omega
  | ok read => exact readAll_size floatText base64 hbase64 hread

theorem responseJson_size
    (hbase64 : ∀ bytes, base64 bytes = String.ofList (Base64.encode bytes)) {answer : Answer}
    {response : Upstream.Response} (h : readResponse answer = .ok response)
    (hbody : response.body.length ≤ maxResponseBytes)
    (hheaders : headerBytes answer.headers ≤ maxHeaderBytes) (hstatus : answer.status < 2 ^ 16) :
    JsonText.Plain (responseJson base64 response) ∧
      Json.sizeBound floatText (responseJson base64 response) ≤ 66000000 := by
  unfold readResponse at h
  split at h
  · cases h
  · rename_i body hread
    cases h
    have hempty : Collected [] 0 := ⟨List.Pairwise.nil, by simp, Nat.le_refl 0⟩
    have hcollected := collected_foldl (textHeaders answer.headers) hempty
    have htotal := textHeaders_size answer.headers
    have hmembers := hcollected.bound floatText
    have hstatusSize := Json.nat_size floatText (n := answer.status) (k := 5) (by omega) (by omega)
    have hbytes := base64_size base64 hbase64 body
    have htext := Json.literalSize_decodeLossy body
    have hnames : Json.literalSize "body_base64" = 11 ∧ Json.literalSize "headers" = 7 ∧
        Json.literalSize "status" = 6 ∧ Json.literalSize "text" = 4 := ⟨rfl, rfl, rfl, rfl⟩
    refine ⟨⟨trivial, hcollected.plain, ?_, trivial, trivial⟩, ?_⟩
    · show answer.status < 2 ^ 64
      omega
    · simp only [maxResponseBytes, maxHeaderBytes] at hbody hheaders
      simp only [responseJson, Json.sizeBound, Json.entriesBound] at hstatusSize ⊢
      omega

end Values

section Calls

variable {Url : Type} (floatText : UInt64 → String) (env : Server.Env) (world : HostWorld Url)

/-- The bridge calls that answer with a buffered value. The cap on files is checked by the
host; a status is an unsigned 16-bit integer. -/
inductive Buffered (host : HostState) : HostCall → Prop
  | file {payload : Json} {op : FileOp} {path : String} {streams : Streams FileBody}
      {content : Bytes} (hop : ((payload.get "op").bind Json.asStr).bind FileOp.parse = some op)
      (hpath : (payload.get "path").bind Json.asStr = some path) (hwhole : op ≠ .stream)
      (hfiles : host.files = some streams)
      (hcontent : (world.openFile host.turn path).content = .ok content) :
      Buffered host ⟨.file, payload⟩
  | upload {payload : Json} {op : FileOp} {index : ℕ} {opening : Opening}
      {streams : Streams FileBody} {content : Bytes}
      (hop : ((payload.get "op").bind Json.asStr).bind FileOp.parse = some op)
      (hindex : (payload.get "index").bind Json.asU64 = some index) (hwhole : op ≠ .stream)
      (huploads : host.uploads = some streams)
      (hupload : world.uploaded host.turn index = some opening)
      (hcontent : opening.content = .ok content) : Buffered host ⟨.upload, payload⟩
  | response {payload : Json} {access : Access} {response : Upstream.Response} {answer : Answer}
      (haccess : host.upstream = some access)
      (hresult : (Upstream.get world.lib access (world.upstream host.turn) env.elapsedMs payload
        host.calls).result = .ok response)
      (hanswer : readResponse answer = .ok response)
      (hbody : response.body.length ≤ maxResponseBytes)
      (hheaders : headerBytes answer.headers ≤ maxHeaderBytes)
      (hstatus : answer.status < 2 ^ 16) : Buffered host ⟨.httpGet, payload⟩

theorem buffered_size
    (hbase64 : ∀ bytes, world.base64 bytes = String.ofList (Base64.encode bytes))
    {host : HostState} {call : HostCall} (h : Buffered env world host call) :
    ∃ result, (host.dispatch env world call).2 = some result ∧ JsonText.Plain result ∧
      Json.sizeBound floatText result ≤ 67000000 := by
  have hcap : 6 * maxReadBytes + 100 ≤ 67000000 := by decide
  cases h with
  | @file payload op path streams content hop hpath hwhole hfiles hcontent =>
    obtain ⟨raw, hraw, hparse⟩ := Option.bind_eq_some_iff.mp hop
    obtain ⟨hplain, hsize⟩ := perform_size floatText world.base64 hbase64 env.elapsedMs op.api
      hcontent hwhole streams host.fileCalls
    refine ⟨_, ?_, hplain, hsize.trans hcap⟩
    simp only [HostState.dispatch, hfiles, fileCall, hraw, hpath, hparse]
  | @upload payload op index opening streams content hop hindex hwhole huploads hupload
      hcontent =>
    obtain ⟨raw, hraw, hparse⟩ := Option.bind_eq_some_iff.mp hop
    obtain ⟨hplain, hsize⟩ := perform_size floatText world.base64 hbase64 env.elapsedMs
      op.uploadApi hcontent hwhole streams host.fileCalls
    refine ⟨_, ?_, hplain, hsize.trans hcap⟩
    simp only [HostState.dispatch, huploads, uploadCall, hraw, hindex, hparse, hupload]
  | @response payload access response answer haccess hresult hanswer hbody hheaders hstatus =>
    obtain ⟨hplain, hsize⟩ := responseJson_size floatText world.base64 hbase64 hanswer hbody
      hheaders hstatus
    have hnames : Json.literalSize "ok" + Json.literalSize "response" = 10 := rfl
    refine ⟨.object [("ok", .bool true), ("response", responseJson world.base64 response)], ?_,
      ⟨trivial, hplain, trivial⟩, ?_⟩
    · simp only [HostState.dispatch, haccess, hresult]
    · simp only [Json.sizeBound, Json.entriesBound] at hsize ⊢
      omega

end Calls

end Script

namespace Prelude

open JsonText

section Operands

def CryptoInput.toTree : CryptoInput → Tree
  | .string value => .object [(Utf16.encode "type", .string (Utf16.encode "string")),
      (Utf16.encode "value", .string value)]
  | .bytes value => .object [(Utf16.encode "type", .string (Utf16.encode "bytes")),
      (Utf16.encode "value", .string (Utf16.encodeChars value))]

/-- The payload of a call of `ctx.crypto`, with its checked operands. -/
def cryptoPayload (op : String) (operands : List (String × CryptoInput)) : Tree :=
  .object ((Utf16.encode "op", .string (Utf16.encode op)) ::
    operands.map fun operand => (Utf16.encode operand.1, operand.2.toTree))

/-- What the calls send to the host; a script may pass more arguments than they take. -/
def cryptoSha256 : List InputArg → Except Thrown Tree
  | [] => .error (.coded "crypto_invalid_input" "ctx.crypto.sha256: input is required")
  | input :: _ => do
    let checked ← checkCryptoInput input "ctx.crypto.sha256" (some 0) 8388608
    return cryptoPayload "sha256" [("input", checked)]

def cryptoHmacSha256 : List InputArg → Except Thrown Tree
  | key :: message :: _ => do
    let checkedKey ← checkCryptoInput key "ctx.crypto.hmacSha256" (some 0) 1024
    let checkedMessage ← checkCryptoInput message "ctx.crypto.hmacSha256" (some 0) 8388608
    return cryptoPayload "hmac_sha256" [("key", checkedKey), ("message", checkedMessage)]
  | _ =>
    .error (.coded "crypto_invalid_input" "ctx.crypto.hmacSha256: key and message are required")

def cryptoTimingSafeEqual : List InputArg → Except Thrown Tree
  | left :: right :: _ => do
    let checkedLeft ← checkCryptoInput left "ctx.crypto.timingSafeEqual" (some 1) 1024
    let checkedRight ← checkCryptoInput right "ctx.crypto.timingSafeEqual" (some 1) 1024
    return cryptoPayload "timing_safe_equal" [("left", checkedLeft), ("right", checkedRight)]
  | _ =>
    .error (.coded "crypto_invalid_input"
      "ctx.crypto.timingSafeEqual: left and right are required")

/-- The calls of `ctx.crypto` that take operands. -/
inductive CryptoCall
  | sha256
  | hmacSha256
  | timingSafeEqual

def CryptoCall.payload : CryptoCall → List InputArg → Except Thrown Tree
  | .sha256 => cryptoSha256
  | .hmacSha256 => cryptoHmacSha256
  | .timingSafeEqual => cryptoTimingSafeEqual

variable (floatText : UInt64 → String) (readFloat : List Char → Option UInt64)

/-- An operand that the worker reads as a value of limited size. -/
def Sends (input : CryptoInput) (limit : ℕ) : Prop :=
  ∃ json, input.toTree.toJson readFloat = some json ∧ Plain json ∧ depth json ≤ 1 ∧
    Json.sizeBound floatText json ≤ limit

theorem sends_string (text : String) :
    Sends floatText readFloat (.string (Utf16.encode text)) (6 * text.utf8ByteSize + 29) := by
  have hliteral := Json.literalSize_le text
  have hnames : Json.literalSize "type" + Json.literalSize "string" + Json.literalSize "value" =
      15 := rfl
  refine ⟨.object [("type", .string "string"), ("value", .string text)], ?_,
    ⟨trivial, trivial, trivial⟩, ?_, ?_⟩
  · simp only [CryptoInput.toTree, Tree.toJson, entriesToJson, toText_encode, Option.bind_some,
      Option.map_some]
  · exact Nat.le_refl 1
  · simp only [Json.sizeBound, Json.entriesBound]
    omega

theorem sends_bytes (bytes : Bytes) :
    Sends floatText readFloat (.bytes (encodeBase64 bytes)) (6 * bytes.length + 28) := by
  have hsize := Base64.encode_size bytes
  have hnames : Json.literalSize "type" + Json.literalSize "bytes" + Json.literalSize "value" =
      14 := rfl
  refine ⟨.object [("type", .string "bytes"),
    ("value", .string (String.ofList (Base64.encode bytes)))], ?_,
    ⟨trivial, trivial, trivial⟩, ?_, ?_⟩
  · have hvalue : toText (Utf16.encodeChars (encodeBase64 bytes)) =
        some (String.ofList (Base64.encode bytes)) := by
      rw [toText, toChars_encodeChars, encodeBase64_canonical, Option.map_some]
    simp only [CryptoInput.toTree, Tree.toJson, entriesToJson, toText_encode, hvalue,
      Option.bind_some, Option.map_some]
  · exact Nat.le_refl 1
  · simp only [Json.sizeBound, Json.entriesBound]
    omega

theorem bind_ok {A B : Type} {first : Except Thrown A} {next : A → Except Thrown B} {b : B}
    (h : first.bind next = .ok b) : ∃ a, first = .ok a ∧ next a = .ok b := by
  cases first with
  | error e => cases h
  | ok a => exact ⟨a, rfl, h⟩

/-- A checked operand is within its limit, in characters or in bytes. -/
theorem sends_checked {value : InputArg} {label : String} {minBytes : Option ℕ} {maxBytes : ℕ}
    {checked : CryptoInput} (h : checkCryptoInput value label minBytes maxBytes = .ok checked) :
    Sends floatText readFloat checked (6 * maxBytes + 29) := by
  have hmono {input : CryptoInput} {least limit : ℕ} (hle : least ≤ limit)
      (hsends : Sends floatText readFloat input least) :
      Sends floatText readFloat input limit := by
    obtain ⟨json, hjson, hplain, hdepth, hsize⟩ := hsends
    exact ⟨json, hjson, hplain, hdepth, hsize.trans hle⟩
  have hbytes {bytes : Bytes}
      (hlength : checkLength label minBytes maxBytes bytes.length = .ok ()) :
      Sends floatText readFloat (.bytes (encodeBase64 bytes)) (6 * maxBytes + 29) := by
    have hle := ((checkLength_ok label minBytes maxBytes bytes.length).mp hlength).2
    exact hmono (by omega) (sends_bytes floatText readFloat bytes)
  cases value with
  | missing => cases h
  | text units =>
    have hwell := checkCryptoInput_wellFormed h
    obtain ⟨text, rfl⟩ := (Utf16.wellFormed_iff units).mp hwell
    obtain ⟨-, -, h⟩ := bind_ok h
    obtain ⟨_, hlength, h⟩ := bind_ok h
    cases h
    rw [measureUtf8Bytes_encode, encode_length] at hlength
    have hle := ((checkLength_ok label minBytes maxBytes _).mp hlength).2
    exact hmono (by omega) (sends_string floatText readFloat text)
  | typed bytes =>
    obtain ⟨_, hlength, h⟩ := bind_ok h
    cases h
    exact hbytes hlength
  | array items =>
    obtain ⟨bytes, -, h⟩ := bind_ok h
    obtain ⟨_, hlength, h⟩ := bind_ok h
    cases h
    exact hbytes hlength
  | other => cases h

theorem entriesToJson_operands {operands : List (String × CryptoInput)} {limits : List ℕ}
    (h : List.Forall₂ (fun operand limit => Sends floatText readFloat operand.2 limit) operands
      limits) :
    ∃ entries, entriesToJson readFloat
        (operands.map fun operand => (Utf16.encode operand.1, operand.2.toTree)) = some entries ∧
      PlainEntries entries ∧ depthEntries entries ≤ 1 ∧
        Json.entriesBound floatText entries ≤
          (operands.map fun operand => Json.literalSize operand.1 + 4).sum + limits.sum := by
  induction h with
  | nil => exact ⟨[], rfl, trivial, Nat.zero_le 1, Nat.le_refl 0⟩
  | @cons operand limit operands limits hoperand _ ih =>
    obtain ⟨json, hjson, hplain, hdepth, hsize⟩ := hoperand
    obtain ⟨entries, hentries, hplains, hdepths, hsizes⟩ := ih
    refine ⟨(operand.1, json) :: entries, ?_, ⟨hplain, hplains⟩, max_le hdepth hdepths, ?_⟩
    · rw [List.map_cons, entriesToJson, toText_encode, hjson, hentries]
      rfl
    · rw [Json.entriesBound, List.map_cons, List.sum_cons, List.sum_cons]
      omega

/-- The worker reads a payload as a value that is no longer than the payload. -/
theorem fromStr_cryptoPayload (op : String) (operands : List (String × CryptoInput))
    (names : List String) {limits : List ℕ} (hkeys : operands.map Prod.fst = names)
    (h : List.Forall₂ (fun operand limit => Sends floatText readFloat operand.2 limit) operands
      limits)
    (hnames : Json.literalSize op + (names.map fun name => Json.literalSize name + 4).sum ≤ 100)
    (hlimits : limits.sum ≤ 60000000) :
    ∃ json, fromStr readFloat (stringify (cryptoPayload op operands)) = some json ∧ Plain json ∧
      Json.sizeBound floatText json ≤ 67000000 := by
  obtain ⟨entries, hentries, hplain, hdepth, hsize⟩ :=
    entriesToJson_operands floatText readFloat h
  have htree : (cryptoPayload op operands).toJson readFloat =
      some (.object (("op", .string op) :: entries)) := by
    simp only [cryptoPayload, Tree.toJson, entriesToJson, toText_encode, hentries, Option.bind_some,
      Option.map_some]
  have hlimit : depth (.object (("op", .string op) :: entries)) ≤ recursionLimit := by
    simp only [depth, depthEntries, recursionLimit]
    omega
  have hname : Json.literalSize "op" = 2 := rfl
  rw [← hkeys, List.map_map] at hnames
  simp only [Function.comp_def] at hnames
  have hread := Json.sizeBound_toValue floatText (.object (("op", .string op) :: entries))
  have hvalue := Json.plain_toValue (.object (("op", .string op) :: entries)) ⟨trivial, hplain⟩
  refine ⟨_, ?_, hvalue, hread.trans ?_⟩
  · rw [fromStr, parse_stringify, htree, Option.filter_some, if_pos (decide_eq_true hlimit)]
    rfl
  · simp only [Json.sizeBound, Json.entriesBound]
    omega

theorem payload_delivered {call : CryptoCall} {arguments : List InputArg} {payload : Tree}
    (h : call.payload arguments = .ok payload) :
    ∃ json, fromStr readFloat (stringify payload) = some json ∧
      Script.Delivered (Script.writeLine floatText
        (Script.WorkerMessage.hostCall .crypto json).toJson) := by
  have hsent : ∃ json, fromStr readFloat (stringify payload) = some json ∧ Plain json ∧
      Json.sizeBound floatText json ≤ 67000000 := by
    cases call with
    | sha256 =>
      match arguments with
      | [] => cases h
      | input :: _ =>
        obtain ⟨checked, hchecked, h⟩ := bind_ok h
        cases h
        exact fromStr_cryptoPayload floatText readFloat "sha256"
          [("input", checked)] ["input"] rfl
          (.cons (sends_checked floatText readFloat hchecked) .nil)
          (by decide) (by decide)
    | hmacSha256 =>
      match arguments with
      | [] | [_] => cases h
      | key :: message :: _ =>
        obtain ⟨checkedKey, hkey, h⟩ := bind_ok h
        obtain ⟨checkedMessage, hmessage, h⟩ := bind_ok h
        cases h
        exact fromStr_cryptoPayload floatText readFloat "hmac_sha256"
          [("key", checkedKey), ("message", checkedMessage)] ["key", "message"] rfl
          (.cons (sends_checked floatText readFloat hkey)
            (.cons (sends_checked floatText readFloat hmessage) .nil))
          (by decide) (by decide)
    | timingSafeEqual =>
      match arguments with
      | [] | [_] => cases h
      | left :: right :: _ =>
        obtain ⟨checkedLeft, hleft, h⟩ := bind_ok h
        obtain ⟨checkedRight, hright, h⟩ := bind_ok h
        cases h
        exact fromStr_cryptoPayload floatText readFloat "timing_safe_equal"
          [("left", checkedLeft), ("right", checkedRight)] ["left", "right"] rfl
          (.cons (sends_checked floatText readFloat hleft)
            (.cons (sends_checked floatText readFloat hright) .nil))
          (by decide) (by decide)
  obtain ⟨json, hjson, hplain, hsize⟩ := hsent
  exact ⟨json, hjson, Script.delivered_hostCall floatText .crypto hplain hsize⟩

end Operands

end Prelude

namespace Script

open Prelude JsonText Upstream

/-- A buffered value crosses the protocol on one line that both sides accept: the answers of
the host on their way to the worker, and the operands of `ctx.crypto` on their way back. -/
theorem permitted_lines_fit {Url : Type} (floatText : UInt64 → String)
    (readFloat : List Char → Option UInt64) (env : Server.Env) (world : HostWorld Url)
    (hbase64 : ∀ bytes, world.base64 bytes = String.ofList (Base64.encode bytes)) :
    (∀ (host : HostState) (call : HostCall), Buffered env world host call →
      ∃ result, (host.dispatch env world call).2 = some result ∧
        Delivered (writeLine floatText (ParentMessage.hostResult result).toJson)) ∧
    (∀ (call : CryptoCall) (arguments : List InputArg) (payload : Tree),
      call.payload arguments = .ok payload →
        ∃ json, fromStr readFloat (stringify payload) = some json ∧
          Delivered (writeLine floatText (WorkerMessage.hostCall .crypto json).toJson)) := by
  constructor
  · intro host call hcall
    obtain ⟨result, hresult, hplain, hsize⟩ := buffered_size floatText env world hbase64 hcall
    exact ⟨result, hresult, delivered_hostResult floatText hplain hsize⟩
  · intro call arguments payload hpayload
    exact payload_delivered floatText readFloat hpayload

/-- A file that is no text, an upstream body that is none either, and an operand. -/
theorem permitted_lines_fit_small :
    let env : Server.Env := ⟨Http.HeaderGrammar.letters, id, fun elapsed => UInt64.ofNat elapsed⟩
    let library : UrlLibrary String :=
      ⟨.ok, fun _ url => .ok url, fun _ => "http", some, some, fun _ => "/", id⟩
    let world : HostWorld String :=
      ⟨library, fun _ => ⟨fun _ _ _ _ => .ok ⟨200, [("x", [[97]])], fun _ => .ok [255, 34], []⟩,
        0, 0, fun _ => 0, 0, 0⟩, fun _ _ => ⟨.ok [10, 255], 0, 0, by simp⟩, fun _ _ => none,
        ⟨fun _ => "", 0⟩, fun _ => State.newSharedState, id,
        fun bytes => String.ofList (Base64.encode bytes), fun _ => 0⟩
    let host := HostState.new ⟨["a"], 1000, 1000, none⟩ false
    let file : HostCall := ⟨.file, .object [("op", .string "readBytes"), ("path", .string "f")]⟩
    let httpGet : HostCall := ⟨.httpGet, .object [("url", .string "a")]⟩
    (∃ result, (host.dispatch env world file).2 = some result ∧
      Delivered (writeLine (fun _ => "") (ParentMessage.hostResult result).toJson)) ∧
    (∃ result, (host.dispatch env world httpGet).2 = some result ∧
      Delivered (writeLine (fun _ => "") (ParentMessage.hostResult result).toJson)) ∧
    (∃ payload, CryptoCall.sha256.payload [.text (Utf16.encode "a")] = .ok payload ∧
      ∃ json, fromStr (fun _ => none) (stringify payload) = some json ∧
        Delivered (writeLine (fun _ => "") (WorkerMessage.hostCall .crypto json).toJson)) := by
  intro env library world host file httpGet
  have hget : (Upstream.get world.lib ⟨["a"], 1000, 1000, none⟩ (world.upstream host.turn)
      env.elapsedMs httpGet.payload host.calls).result.toOption.map (fun response =>
        (response.status, response.headers, response.body)) =
          some (200, [("x", "a")], [255, 34]) := by decide +kernel +revert
  obtain ⟨response, hresult, hparts⟩ := Option.map_eq_some_iff.mp hget
  have hbuffered : Buffered env world host httpGet := by
    cases hfound : (Upstream.get world.lib ⟨["a"], 1000, 1000, none⟩ (world.upstream host.turn)
        env.elapsedMs httpGet.payload host.calls).result with
    | error error =>
      rw [hfound] at hresult
      cases hresult
    | ok found =>
      rw [hfound] at hresult
      cases hresult
      obtain ⟨status, headers, body⟩ := response
      cases hparts
      exact @Buffered.response _ env world host _ _ _
        ⟨200, [("x", [[97]])], fun _ => .ok [255, 34], []⟩ rfl hfound rfl (by decide) (by decide)
        (by decide)
  obtain ⟨hcalls, hoperands⟩ :=
    permitted_lines_fit (fun _ => "") (fun _ => none) env world fun _ => rfl
  have hwhole : Files.FileOp.readBytes ≠ .stream := by simp
  exact ⟨hcalls host file (@Buffered.file _ env world host _ .readBytes "f" _ _ rfl rfl hwhole rfl
    rfl), hcalls host httpGet hbuffered, _, rfl, hoperands .sha256 [.text (Utf16.encode "a")] _ rfl⟩

end Script

end StuntDouble
