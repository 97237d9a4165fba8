import StuntDouble.BridgeCalls
import StuntDouble.ClientRange
import StuntDouble.LineLengths
import StuntDouble.StateValues
import StuntDouble.Query
import StuntDouble.UploadParts

/-!
What a script sees of its request. The server takes a snapshot, the worker reads it from its
job, and the prelude turns it into `ctx.request`: the body and the uploaded files come out as
they were sent.
-/
namespace StuntDouble.Files

/-- What a script may know of an uploaded file. -/
structure UploadFileMeta where
  field : String
  filename : String
  contentType : Option String
  size : ℕ

def UploadFileMeta.toJson (file : UploadFileMeta) : Json :=
  .object [("contentType", Json.opt .string file.contentType), ("field", .string file.field),
    ("filename", .string file.filename), ("size", .nat file.size)]

def UploadedFile.meta (file : UploadedFile) : UploadFileMeta :=
  ⟨file.field, file.filename, file.contentType, file.size⟩

def UploadStore.metas (store : UploadStore) : List UploadFileMeta :=
  store.files.map UploadedFile.meta

end StuntDouble.Files

namespace StuntDouble.Script

open Files Http Matcher Upstream

structure RequestSnapshot where
  method : String
  path : String
  params : Params
  query : Params
  rawQuery : String
  headers : List (String × String)
  bodyText : Option String
  bodyBytes : Option Bytes
  files : List UploadFileMeta
  matchKind : String

namespace RequestSnapshot

def new (method path : String) (params : Params) (rawQuery : String) (headers : HeaderMap)
    (body : Option Bytes) (files : List UploadFileMeta) (matchKind : String) : RequestSnapshot where
  method := asciiUpper method
  path := path
  params := params
  query := parseQuery rawQuery
  rawQuery := rawQuery
  headers := snapshotHeaders headers
  bodyText := body.bind Utf8.decode
  bodyBytes := body
  files := files
  matchKind := matchKind

/-- Names with texts, collected into a map; the last text of a name stays. -/
def textMap (pairs : List (String × String)) : Json :=
  .object (pairs.foldl (fun entries pair => setMember entries pair.1 (.string pair.2)) [])

def pairsOf (params : Params) : List (String × String) :=
  params.entries.map fun entry => (entry.1, entry.2)

def toJson (base64 : Bytes → String) (snapshot : RequestSnapshot) : Json :=
  .object [("bodyBytes", Json.opt (fun bytes => .string (base64 bytes)) snapshot.bodyBytes),
    ("bodyText", Json.opt .string snapshot.bodyText),
    ("files", .array (snapshot.files.map UploadFileMeta.toJson)),
    ("headers", textMap snapshot.headers), ("method", .string snapshot.method),
    ("params", textMap (pairsOf snapshot.params)), ("path", .string snapshot.path),
    ("query", textMap (pairsOf snapshot.query)), ("rawQuery", .string snapshot.rawQuery)]

end RequestSnapshot

section Maps

variable {pairs : List (String × String)}

theorem lookup_foldl (pairs : List (String × String)) (entries : List (String × Json))
    (name : String) :
    (pairs.foldl (fun entries pair => setMember entries pair.1 (.string pair.2)) entries).lookup
      name = ((pairs.reverse.lookup name).map Json.string).or (entries.lookup name) := by
  induction pairs generalizing entries with
  | nil => rfl
  | cons pair rest ih =>
    rw [List.foldl_cons, ih, setMember_eq_insertEntry, Json.lookup_insertEntry,
      List.reverse_cons, List.lookup_append,
      List.lookup_cons, List.lookup_nil]
    by_cases hname : name = pair.1
    · subst hname
      cases rest.reverse.lookup pair.1 <;> simp
    · simp [hname, beq_false_of_ne hname]

/-- The last text of a name is what its member is. -/
theorem textMap_get (pairs : List (String × String)) (name : String) :
    (RequestSnapshot.textMap pairs).get name =
      (pairs.reverse.lookup name).map Json.string := by
  show (pairs.foldl _ []).lookup name = _
  rw [lookup_foldl, List.lookup_nil, Option.or_none]

theorem pairsOf_lookup (params : Params) (name : String) :
    (RequestSnapshot.pairsOf params).reverse.lookup name = params.lookup name := by
  have hkeys : ((RequestSnapshot.pairsOf params).reverse.map Prod.fst).Nodup := by
    rw [List.map_reverse, List.nodup_reverse, RequestSnapshot.pairsOf, List.map_map]
    exact params.nodupKeys
  apply Option.ext
  intro text
  constructor
  · intro h
    obtain ⟨front, back, hsplit, -⟩ := List.lookup_eq_some_iff.mp h
    have hmem : (name, text) ∈ (RequestSnapshot.pairsOf params).reverse := by
      rw [hsplit]
      simp
    obtain ⟨entry, hentry, heq⟩ := List.mem_map.mp (List.mem_reverse.mp hmem)
    cases heq
    exact AList.mem_lookup_iff.mpr hentry
  · intro h
    have hentry := AList.mem_lookup_iff.mp h
    have hmem : (name, text) ∈ (RequestSnapshot.pairsOf params).reverse :=
      List.mem_reverse.mpr (List.mem_map.mpr ⟨_, hentry, rfl⟩)
    exact Prelude.lookup_of_mem hkeys hmem

theorem lookup_alike (key name : String) (values : List HeaderValue) :
    (values.map fun value => (key, Utf8.decodeLossy value)).lookup name =
      if name = key then values.head?.map Utf8.decodeLossy else none := by
  induction values with
  | nil => simp
  | cons value rest ih =>
    rw [List.map_cons, List.lookup_cons]
    by_cases hname : name = key
    · simp [hname]
    · rw [beq_false_of_ne hname, ih, if_neg hname, if_neg hname]

theorem headers_lookup (headers : HeaderMap) (hnames : (headers.map Prod.fst).Nodup)
    (hstored : Stored headers) (name : String) :
    (snapshotHeaders headers).reverse.lookup name =
      (headers.getAll name).getLast?.map Utf8.decodeLossy := by
  induction headers with
  | nil => rfl
  | cons entry rest ih =>
    obtain ⟨key, values⟩ := entry
    obtain ⟨hkey, hnames⟩ := List.nodup_cons.mp hnames
    have hlowered : asciiLower key = key := (hstored _ List.mem_cons_self).1
    have hrest : Stored rest := fun entry hentry => hstored entry (List.mem_cons_of_mem _ hentry)
    have hsplit : snapshotHeaders ((key, values) :: rest) =
        (values.map fun value => (key, Utf8.decodeLossy value)) ++ snapshotHeaders rest := by
      unfold snapshotHeaders
      rw [List.flatMap_cons, hlowered]
    rw [hsplit, List.reverse_append, List.lookup_append, ih hnames hrest, ← List.map_reverse,
      lookup_alike, List.head?_reverse, HeaderMap.getAll_cons]
    by_cases hname : name = key
    · subst hname
      have hnone : HeaderMap.getAll rest name = [] := by
        rw [HeaderMap.getAll, List.lookup_eq_none_iff.mpr]
        · rfl
        · intro other hother
          refine bne_iff_ne.mpr fun heq => hkey ?_
          rw [heq]
          exact List.mem_map.mpr ⟨other, hother, rfl⟩
      rw [hnone, if_pos rfl, if_pos rfl]
      rfl
    · rw [if_neg hname, if_neg hname, Option.or_none]

theorem names_append (headers : HeaderMap) (name : String) (value : HeaderValue)
    (hnames : (headers.map Prod.fst).Nodup) :
    ((headers.append name value).map Prod.fst).Nodup := by
  have hmem : ∀ (headers : HeaderMap) (other : String), other ∈ (headers.append name value).map
      Prod.fst → other ∈ headers.map Prod.fst ∨ other = name := by
    intro headers other hother
    induction headers with
    | nil => exact Or.inr (List.mem_singleton.mp hother)
    | cons entry rest ih =>
      rw [HeaderMap.append] at hother
      split at hother
      · exact Or.inl hother
      · rcases List.mem_cons.mp hother with rfl | hother
        · exact Or.inl List.mem_cons_self
        · exact (ih hother).imp (List.mem_cons_of_mem _) id
  induction headers with
  | nil => exact List.nodup_singleton _
  | cons entry rest ih =>
    obtain ⟨hentry, hrest⟩ := List.nodup_cons.mp hnames
    rw [HeaderMap.append]
    split
    · exact hnames
    · rename_i hne
      refine List.nodup_cons.mpr ⟨fun hin => ?_, ih hrest⟩
      rcases hmem rest entry.1 hin with hin | heq
      · exact hentry hin
      · exact hne heq

theorem getAll_append (headers : HeaderMap) (name other : String) (value : HeaderValue) :
    (headers.append name value).getAll other =
      headers.getAll other ++ if other = name then [value] else [] := by
  induction headers with
  | nil =>
    rw [HeaderMap.append, HeaderMap.getAll_cons]
    rfl
  | cons entry rest ih =>
    rw [HeaderMap.append, HeaderMap.getAll_cons]
    split
    · rename_i heq
      rw [HeaderMap.getAll_cons, heq]
      split <;> simp
    · rename_i hne
      rw [HeaderMap.getAll_cons, ih]
      by_cases hother : other = entry.1
      · rw [if_pos hother, if_pos hother, if_neg fun h => hne (hother.symm.trans h),
          List.append_nil]
      · rw [if_neg hother, if_neg hother]

/-- The values of the lines with a name, in order. -/
def valuesOf (lines : List (String × HeaderValue)) (name : String) : List HeaderValue :=
  (lines.filter fun line => asciiLower line.1 = name).map Prod.snd

theorem headerMap_getAll (lines : List (String × HeaderValue)) :
    ((headerMap lines).map Prod.fst).Nodup ∧
      ∀ name, (headerMap lines).getAll name = valuesOf lines name := by
  induction lines using List.reverseRecOn with
  | nil => exact ⟨List.nodup_nil, fun name => rfl⟩
  | append_singleton lines line ih =>
    obtain ⟨hnames, hvalues⟩ := ih
    rw [headerMap_concat]
    refine ⟨names_append _ _ _ hnames, fun name => ?_⟩
    rw [getAll_append, hvalues, valuesOf, valuesOf, List.filter_append, List.map_append]
    congr 1
    by_cases hname : name = asciiLower line.1
    · simp [hname]
    · have hother : ¬ asciiLower line.1 = name := fun h => hname h.symm
      simp [hname, hother]

/-- Of several lines with a name the script sees the last. -/
theorem headerMap_lookup (lines : List (String × HeaderValue)) (name : String) :
    (snapshotHeaders (headerMap lines)).reverse.lookup name =
      (valuesOf lines name).getLast?.map Utf8.decodeLossy := by
  obtain ⟨hnames, hvalues⟩ := headerMap_getAll lines
  rw [headers_lookup _ hnames (stored_headerMap lines), hvalues]

end Maps

end StuntDouble.Script

namespace StuntDouble.Files

open Server

section Sizes

variable (maxBytes : ℕ)

theorem saturatingAdd_lt (a b : ℕ) : saturatingAdd a b < 2 ^ 64 := by
  unfold saturatingAdd
  omega

theorem storeChunks_size (files : ℕ) (path : Option String) {totalBytes size : ℕ}
    (content : Bytes) (reads : List ChunkRead) (hsize : size < 2 ^ 64) {read : ℕ × ℕ × Bytes}
    (h : (storeChunks maxBytes files path totalBytes size content reads).result = .ok read) :
    read.2.1 < 2 ^ 64 := by
  induction reads generalizing totalBytes size content with
  | nil =>
    cases h
    exact hsize
  | cons chunk rest ih =>
    cases chunk with
    | failed error => cases h
    | chunk bytes written =>
      rw [storeChunks.eq_def] at h
      by_cases hlong : maxBytes < saturatingAdd totalBytes bytes.length
      · simp only [if_pos hlong] at h
        cases h
      · simp only [if_neg hlong] at h
        cases path with
        | none => exact ih content hsize h
        | some name =>
          cases written with
          | false => cases h
          | true => exact ih _ (saturatingAdd_lt _ _) h

/-- The files have sizes that are 64-bit integers. -/
def Sized (files : List StoredFile) : Prop := ∀ file ∈ files, file.upload.size < 2 ^ 64

theorem storePart_sized {storing after : Storing} {part : Part} (hsized : Sized storing.files)
    (h : (storePart maxBytes storing part).result = .ok after) : Sized after.files := by
  unfold storePart at h
  cases hname : part.name with
  | none =>
    rw [hname] at h
    cases h
  | some field =>
    rw [hname] at h
    by_cases hcreated : (part.filename.isSome && !part.created) = true
    · simp only [if_pos hcreated] at h
      cases h
    · simp only [if_neg hcreated] at h
      cases hread : (storeChunks maxBytes storing.files.length
          (part.filename.map fun _ => toString storing.files.length) storing.totalBytes 0 []
          part.reads).result with
      | error failure =>
        rw [hread] at h
        cases h
      | ok read =>
        have hsize := storeChunks_size maxBytes _ _ _ _ (by omega) hread
        rw [hread] at h
        cases hfilename : part.filename with
        | none =>
          rw [hfilename] at h
          cases h
          exact hsized
        | some filename =>
          rw [hfilename] at h
          by_cases hclosed : part.closed = true
          · simp only [if_pos hclosed] at h
            cases h
            intro file hfile
            rcases List.mem_append.mp hfile with hfile | hfile
            · exact hsized file hfile
            · cases List.mem_singleton.mp hfile
              exact hsize
          · simp only [if_neg hclosed] at h
            cases h

theorem storeParts_sized {storing : Storing} {parts : List PartRead} {uploads : StoredUploads}
    (hsized : Sized storing.files) (h : (storeParts maxBytes storing parts).result = .ok uploads) :
    Sized uploads.files := by
  induction parts generalizing storing with
  | nil =>
    cases h
    exact hsized
  | cons read rest ih =>
    cases read with
    | failed error => cases h
    | part part =>
      rw [storeParts] at h
      cases hpart : (storePart maxBytes storing part).result with
      | error failure =>
        rw [hpart] at h
        cases h
      | ok after =>
        rw [hpart] at h
        exact ih (storePart_sized maxBytes hsized hpart) h

theorem storeMultipart_sized {multipart : Multipart} {uploads : StoredUploads}
    (h : (storeMultipart maxBytes multipart).result = .ok uploads) : Sized uploads.files := by
  unfold storeMultipart at h
  split at h
  · cases h
  · split at h
    · cases h
    · exact storeParts_sized maxBytes (fun file hfile => absurd hfile List.not_mem_nil) h

end Sizes

end StuntDouble.Files

namespace StuntDouble.Server

open Files Http Matcher Script

/-- A request whose script can be run. -/
structure PreparedRequest where
  snapshot : RequestSnapshot
  uploads : Option StoredUploads
  upload : Json
  requestBodyBytes : Option ℕ
  matchAllowedMethods : List String

/-- What the preparation of a matched request hands to its script. -/
def preparedRequest (uploadMaxBytes : ℕ) (method path : String) (params : Params)
    (rawQuery : String) (headers : HeaderMap) (body : RequestBody) : Option PreparedRequest :=
  match prepareRequest uploadMaxBytes headers body with
  | .ready requestBodyBytes upload =>
    if isMultipart headers then
      (storeMultipart uploadMaxBytes body.multipart).result.toOption.map fun uploads =>
        ⟨.new method path params rawQuery headers none uploads.store.metas "route", some uploads,
          upload, requestBodyBytes, []⟩
    else
      body.bytes.map fun bytes =>
        ⟨.new method path params rawQuery headers (some bytes) [] "route", none, upload,
          requestBodyBytes, []⟩
  | _ => none

/-- What the fallback hands to its script, without reading a body. -/
def fallbackRequest (method path rawQuery : String) (headers : HeaderMap) (matchKind : String)
    (allowedMethods : List String) : PreparedRequest :=
  ⟨.new method path ∅ rawQuery headers none [] matchKind, none, uploadLog 0 0 none, none,
    allowedMethods⟩

/-- The message that starts the script. -/
def PreparedRequest.job (base64 : Bytes → String) (prepared : PreparedRequest) (script : String) :
    ParentMessage :=
  .job script (prepared.snapshot.toJson base64) prepared.snapshot.matchKind
    prepared.matchAllowedMethods

/-- The files of a prepared request. -/
def PreparedRequest.files (prepared : PreparedRequest) : List UploadedFile :=
  (prepared.uploads.map fun uploads => uploads.store.files).getD []

end StuntDouble.Server

namespace StuntDouble.Prelude

open Files Http JsonText Matcher Script Server Upstream

/-- A file of `ctx.request`; its functions call the host with its index. -/
structure UploadView where
  field : Option Json
  filename : Option Json
  contentType : Option Json
  size : Option Json
  index : ℕ

def uploadFile (file : Json) (index : ℕ) : UploadView :=
  ⟨file.get "field", file.get "filename", file.get "contentType", file.get "size", index⟩

/-- `ctx.request`: the members that stay as they come, the bytes of the body, and the files. -/
structure RequestView where
  raw : Json
  bodyBytes : Option Bytes
  files : List UploadView

def requestSnapshot (raw : Json) : Except Thrown RequestView :=
  let files := ((raw.get "files").bind Json.asArray).getD []
  let mapped := files.mapIdx fun index file => uploadFile file index
  match (raw.get "bodyBytes").bind Json.asStr with
  | none => .ok ⟨raw, none, mapped⟩
  | some text => (decodeBase64 text.toList).map fun bytes => ⟨raw, some bytes, mapped⟩

/-- What `ctx.request` shows of a request with these header lines. -/
structure Shows (method path : String) (params : Params) (rawQuery : String)
    (lines : List (String × HeaderValue)) (body : Option Bytes) (files : List UploadedFile)
    (view : RequestView) : Prop where
  method : view.raw.get "method" = some (.string (asciiUpper method))
  path : view.raw.get "path" = some (.string path)
  params : ∀ name, (view.raw.get "params").bind (Json.get name) =
    (params.lookup name).map Json.string
  query : ∀ name, (view.raw.get "query").bind (Json.get name) =
    ((parseQuery rawQuery).lookup name).map Json.string
  rawQuery : view.raw.get "rawQuery" = some (.string rawQuery)
  headers : ∀ name, (view.raw.get "headers").bind (Json.get name) =
    (valuesOf lines name).getLast?.map fun value => .string (Utf8.decodeLossy value)
  bodyText : view.raw.get "bodyText" = some (Json.opt .string (body.bind Utf8.decode))
  bodyBytes : view.bodyBytes = body
  files : view.files = files.mapIdx fun index file =>
    ⟨some (.string file.field), some (.string file.filename),
      some (Json.opt .string file.contentType), some (.nat file.size), index⟩

section Views

variable {base64 : Engine} (method path : String) (params : Params) (rawQuery : String)
  (lines : List (String × HeaderValue)) (body : Option Bytes) (files : List UploadedFile)
  (matchKind : String)

theorem requestSnapshot_toJson (hbase64 : base64.Standard) :
    ∃ view, requestSnapshot ((RequestSnapshot.new method path params rawQuery (headerMap lines)
        body (files.map UploadedFile.meta) matchKind).toJson base64.encode) = .ok view ∧
      Shows method path params rawQuery lines body files view := by
  have hparams (name : String) : (RequestSnapshot.textMap (RequestSnapshot.pairsOf params)).get
      name = (params.lookup name).map Json.string := by
    rw [textMap_get, pairsOf_lookup]
  have hquery (name : String) : (RequestSnapshot.textMap (RequestSnapshot.pairsOf
      (parseQuery rawQuery))).get name = ((parseQuery rawQuery).lookup name).map Json.string := by
    rw [textMap_get, pairsOf_lookup]
  have hheaders (name : String) :
      (RequestSnapshot.textMap (snapshotHeaders (headerMap lines))).get name =
        (valuesOf lines name).getLast?.map fun value => Json.string (Utf8.decodeLossy value) := by
    rw [textMap_get, headerMap_lookup, Option.map_map]
    rfl
  have hfiles : (((files.map UploadedFile.meta).map UploadFileMeta.toJson).mapIdx fun index file =>
      uploadFile file index) = files.mapIdx fun index file =>
        ⟨some (.string file.field), some (.string file.filename),
          some (Json.opt .string file.contentType), some (.nat file.size), index⟩ := by
    apply List.ext_getElem?
    intro index
    rw [List.getElem?_mapIdx, List.getElem?_mapIdx, List.getElem?_map, List.getElem?_map,
      Option.map_map, Option.map_map]
    rfl
  cases body with
  | none => exact ⟨_, rfl, rfl, rfl, hparams, hquery, rfl, hheaders, rfl, rfl, hfiles⟩
  | some bytes =>
    have hbytes : decodeBase64 (base64.encode bytes).toList = .ok bytes := by
      rw [hbase64.writes, decodeBase64_encode]
    refine ⟨_, congrArg (Except.map _) hbytes, rfl, rfl, hparams, hquery, rfl, hheaders, rfl, rfl,
      hfiles⟩

theorem textMap_payload (pairs : List (String × String)) :
    Payload (RequestSnapshot.textMap pairs) := by
  have hnone : Collected [] 0 := ⟨List.Pairwise.nil, by simp, Nat.le_refl 0⟩
  have hcollected := collected_foldl pairs hnone
  have hordered : ∀ entries : List (String × Json),
      (∀ entry ∈ entries, ∃ s, entry.2 = .string s) → Json.OrderedEntries entries := by
    intro entries h
    induction entries with
    | nil => trivial
    | cons entry rest ih =>
      obtain ⟨name, value⟩ := entry
      obtain ⟨text, rfl⟩ := h (name, value) List.mem_cons_self
      exact ⟨trivial, ih fun entry hentry => h entry (List.mem_cons_of_mem _ hentry)⟩
  exact ⟨hcollected.plain, hcollected.ordered, hordered _ hcollected.strings⟩

theorem opt_payload {A : Type} {f : A → Json} (value : Option A) (h : ∀ a, Payload (f a)) :
    Payload (Json.opt f value) := by
  cases value with
  | none => exact ⟨trivial, trivial⟩
  | some a => exact h a

theorem string_payload (text : String) : Payload (.string text) := ⟨trivial, trivial⟩

theorem meta_payload {file : UploadedFile} (hsize : file.size < 2 ^ 64) :
    Payload file.meta.toJson := by
  have htype : Payload (Json.opt .string file.contentType) := opt_payload _ string_payload
  have hnames : (["contentType", "field", "filename", "size"] : List String).Pairwise (· < ·) := by
    decide
  exact ⟨⟨htype.1, trivial, trivial, hsize, trivial⟩, hnames, htype.2, trivial, trivial, trivial,
    trivial⟩

theorem metas_payload (hsizes : ∀ file ∈ files, file.size < 2 ^ 64) :
    PlainItems ((files.map UploadedFile.meta).map UploadFileMeta.toJson) ∧
      Json.OrderedItems ((files.map UploadedFile.meta).map UploadFileMeta.toJson) := by
  induction files with
  | nil => exact ⟨trivial, trivial⟩
  | cons file rest ih =>
    obtain ⟨hplain, hordered⟩ := ih fun file hfile => hsizes file (List.mem_cons_of_mem _ hfile)
    have hfile := meta_payload (hsizes file List.mem_cons_self)
    exact ⟨⟨hfile.1, hplain⟩, hfile.2, hordered⟩

/-- The snapshot is a value as values are read. -/
theorem payload_toJson (hsizes : ∀ file ∈ files, file.size < 2 ^ 64) :
    Payload ((RequestSnapshot.new method path params rawQuery (headerMap lines) body
      (files.map UploadedFile.meta) matchKind).toJson base64.encode) := by
  have hbytes : Payload (Json.opt (fun bytes => .string (base64.encode bytes)) body) :=
    opt_payload _ fun bytes => string_payload _
  have htext : Payload (Json.opt .string (body.bind Utf8.decode)) := opt_payload _ string_payload
  have hfiles := metas_payload files hsizes
  have hheaders := textMap_payload (snapshotHeaders (headerMap lines))
  have hparams := textMap_payload (RequestSnapshot.pairsOf params)
  have hquery := textMap_payload (RequestSnapshot.pairsOf (parseQuery rawQuery))
  have hnames : (["bodyBytes", "bodyText", "files", "headers", "method", "params", "path", "query",
      "rawQuery"] : List String).Pairwise (· < ·) := by
    decide
  exact ⟨⟨hbytes.1, htext.1, hfiles.1, hheaders.1, trivial, hparams.1, trivial, hquery.1, trivial,
    trivial⟩, hnames, hbytes.2, htext.2, hfiles.2, hheaders.2, trivial, hparams.2, trivial,
    hquery.2, trivial, trivial⟩

/-- The job of a request, read by its worker. -/
def Seen (floatText : UInt64 → String) (parse : List Char → Option Json) (base64 : Engine)
    (prepared : PreparedRequest) (script : String) (shows : RequestView → Prop) : Prop :=
  ∃ request view, ParentMessage.decode parse (writeLine floatText
      (prepared.job base64.encode script).toJson) =
        some (.job script request prepared.snapshot.matchKind prepared.matchAllowedMethods) ∧
    requestSnapshot request = .ok view ∧ shows view

theorem seen_new {floatText : UInt64 → String} {parse : List Char → Option Json}
    (hparse : JsonText.Standard floatText parse) (hbase64 : base64.Standard)
    {prepared : PreparedRequest}
    (hsnapshot : prepared.snapshot = .new method path params rawQuery (headerMap lines) body
      (files.map UploadedFile.meta) matchKind)
    (hsizes : ∀ file ∈ files, file.size < 2 ^ 64) (script : String) :
    Seen floatText parse base64 prepared script
      (Shows method path params rawQuery lines body files) := by
  obtain ⟨view, hview, hshows⟩ := requestSnapshot_toJson method path params rawQuery lines body
    files matchKind hbase64
  have hpayload : Payload (prepared.snapshot.toJson base64.encode) := by
    rw [hsnapshot]
    exact payload_toJson method path params rawQuery lines body files matchKind hsizes
  refine ⟨_, view, ParentMessage.decode_toJson hparse hpayload, ?_, hshows⟩
  rw [hsnapshot]
  exact hview

theorem preparedRequest_cases {uploadMaxBytes : ℕ} {headers : HeaderMap} {body : RequestBody}
    {prepared : PreparedRequest}
    (h : preparedRequest uploadMaxBytes method path params rawQuery headers body =
      some prepared) :
    (isMultipart headers = true ∧ ∃ uploads,
      (storeMultipart uploadMaxBytes body.multipart).result = .ok uploads ∧
        prepared.uploads = some uploads ∧ prepared.snapshot =
          .new method path params rawQuery headers none uploads.store.metas "route") ∨
    (isMultipart headers ≠ true ∧ ∃ bytes, body.bytes = some bytes ∧ prepared.uploads = none ∧
      prepared.snapshot = .new method path params rawQuery headers (some bytes) [] "route") := by
  unfold preparedRequest at h
  split at h
  · split at h
    · rename_i hmultipart
      obtain ⟨uploads, huploads, rfl⟩ := Option.map_eq_some_iff.mp h
      refine Or.inl ⟨hmultipart, uploads, ?_, rfl, rfl⟩
      cases hresult : (storeMultipart uploadMaxBytes body.multipart).result with
      | error failure =>
        rw [hresult] at huploads
        cases huploads
      | ok stored =>
        rw [hresult] at huploads
        cases huploads
        rfl
    · rename_i hmultipart
      obtain ⟨bytes, hbytes, rfl⟩ := Option.map_eq_some_iff.mp h
      exact Or.inr ⟨hmultipart, bytes, hbytes, rfl, rfl⟩
  · cases h

theorem preparedRequest_seen {floatText : UInt64 → String} {parse : List Char → Option Json}
    (hparse : JsonText.Standard floatText parse) (hbase64 : base64.Standard)
    {uploadMaxBytes : ℕ} {body : RequestBody} {prepared : PreparedRequest}
    (h : preparedRequest uploadMaxBytes method path params rawQuery (headerMap lines) body =
      some prepared) (script : String) :
    Seen floatText parse base64 prepared script (Shows method path params rawQuery lines
      (if isMultipart (headerMap lines) then none else body.bytes) prepared.files) := by
  rcases preparedRequest_cases method path params rawQuery h with
    ⟨hmultipart, uploads, hresult, huploads, hsnapshot⟩ |
      ⟨hmultipart, bytes, hbytes, huploads, hsnapshot⟩
  · have hfiles : prepared.files = uploads.store.files := by
      rw [PreparedRequest.files, huploads]
      rfl
    rw [if_pos hmultipart, hfiles]
    refine seen_new method path params rawQuery lines none uploads.store.files "route" hparse
      hbase64 hsnapshot ?_ script
    intro file hfile
    obtain ⟨stored, hstored, rfl⟩ := List.mem_map.mp hfile
    exact storeMultipart_sized uploadMaxBytes hresult stored hstored
  · have hfiles : prepared.files = [] := by
      rw [PreparedRequest.files, huploads]
      rfl
    rw [if_neg hmultipart, hbytes, hfiles]
    exact seen_new method path params rawQuery lines (some bytes) [] "route" hparse hbase64
      hsnapshot (by simp) script

/-- The script finds in `ctx.request` what the client has sent: it takes the way through the job
of its worker, and a body that is buffered comes out byte for byte. -/
theorem request_seen {floatText : UInt64 → String} {parse : List Char → Option Json}
    (hparse : JsonText.Standard floatText parse) (hbase64 : base64.Standard)
    (uploadMaxBytes : ℕ) (body : RequestBody) (script : String) :
    (∀ prepared, preparedRequest uploadMaxBytes method path params rawQuery (headerMap lines)
        body = some prepared →
      Seen floatText parse base64 prepared script (Shows method path params rawQuery lines
        (if isMultipart (headerMap lines) then none else body.bytes) prepared.files)) ∧
    ∀ allowedMethods, Seen floatText parse base64
      (fallbackRequest method path rawQuery (headerMap lines) matchKind allowedMethods) script
        (Shows method path ∅ rawQuery lines none []) := by
  constructor
  · intro prepared h
    exact preparedRequest_seen method path params rawQuery lines hparse hbase64 h script
  · intro allowedMethods
    exact seen_new method path ∅ rawQuery lines none [] matchKind hparse hbase64 rfl (by simp)
      script

/-- A body that is no text, and a header line that comes twice. -/
theorem request_seen_twice :
    ∃ prepared, preparedRequest 10 "post" "/a" ∅ "x=1" (headerMap [("X", [97]), ("x", [98])])
        ⟨some [255, 1], ⟨true, true, []⟩, false⟩ = some prepared ∧
      Seen (fun _ => "") (JsonText.parse fun _ => none) Engine.strict prepared "s.js" fun view =>
        view.bodyBytes = some [255, 1] ∧
          (view.raw.get "headers").bind (Json.get "x") = some (.string "b") := by
  have hseen := request_seen "post" "/a" ∅ "x=1" [("X", [97]), ("x", [98])] "route"
    (JsonText.standard_parse (fun _ => "") fun _ => none) Engine.strict_standard 10
    ⟨some [255, 1], ⟨true, true, []⟩, false⟩ "s.js"
  refine ⟨_, rfl, ?_⟩
  obtain ⟨request, view, hdecode, hview, hshows⟩ := hseen.1 _ rfl
  exact ⟨request, view, hdecode, hview, hshows.bodyBytes, hshows.headers "x"⟩

end Views

end StuntDouble.Prelude
