import StuntDouble.FileCalls

/-!
An uploaded file from the form of the client to the script. The parser stores it in the
temporary directory, the snapshot describes it, and the functions that the script finds in
`ctx.request.files` read the stored bytes.
-/
namespace StuntDouble.Files

open Script

/-- A stored file as a call opens it. -/
def uploadOpening (disk : Disk) (startedAt finishedAt : ℕ) (file : StoredFile) : Opening where
  content :=
    match disk file.path with
    | none => .error .notFound
    | some bytes => if bytes.length < 2 ^ 64 then .ok bytes else .error .tooLarge
  startedAt := startedAt
  finishedAt := finishedAt
  fits := by
    intro bytes h
    split at h
    · cases h
    · split at h
      · cases h
        assumption
      · cases h

theorem uploadOpening_content {disk : Disk} {file : StoredFile} {content : Bytes}
    (hdisk : disk file.path = some content) (hsize : content.length < 2 ^ 64)
    (startedAt finishedAt : ℕ) :
    (uploadOpening disk startedAt finishedAt file).content = .ok content := by
  simp only [uploadOpening, hdisk, if_pos hsize]

/-- The files that clean parts come to. -/
def uploadedFiles (parts : List Part) : List UploadedFile :=
  (parts.map Part.upload).filterMap Upload.uploaded

/-- What is left on the disk when the parts have been read. -/
def storedDisk (maxBytes : ℕ) (parts : List Part) : Disk :=
  diskAfter (fun _ => none) (storeMultipart maxBytes (received parts)).ops

theorem uploaded_size {upload : Upload} {file : UploadedFile} (h : upload.uploaded = some file) :
    file.content.length = file.size := by
  unfold Upload.uploaded at h
  split at h
  · cases h
    rfl
  · cases h

section Stored

variable {maxBytes : ℕ} (hbudget : maxBytes < 2 ^ 63) {parts : List Part}
  (hclean : ∀ part ∈ parts, part.Clean) {uploads : StoredUploads}
  (huploads : (storeMultipart maxBytes (received parts)).result = .ok uploads)

include hbudget hclean huploads

theorem stored_files : uploads.store.files = uploadedFiles parts :=
  ((storeMultipart_ends hbudget hclean).stored_ok huploads).2.1

/-- A file that a part comes to is opened with the data of the part. -/
theorem stored_opening {index : ℕ} {file : UploadedFile}
    (hfile : (uploadedFiles parts)[index]? = some file) (startedAt finishedAt : ℕ) :
    ∃ stored, uploads.files[index]? = some stored ∧
      (uploadOpening (storedDisk maxBytes parts) startedAt finishedAt stored).content =
        .ok file.content := by
  obtain ⟨-, hfiles, -, hdisk⟩ := (storeMultipart_ends hbudget hclean).stored_ok huploads
  have hindex : (uploads.files.map StoredFile.upload)[index]? = some file := by
    rw [hfiles]
    exact hfile
  rw [List.getElem?_map, Option.map_eq_some_iff] at hindex
  obtain ⟨stored, hstored, rfl⟩ := hindex
  have hmem := List.mem_of_getElem? hstored
  have hsize : stored.upload.size < 2 ^ 64 := storeMultipart_sized maxBytes huploads stored hmem
  have hlength : stored.upload.content.length = stored.upload.size := by
    obtain ⟨upload, -, huploaded⟩ := List.mem_filterMap.mp (List.mem_of_getElem? hfile)
    exact uploaded_size huploaded
  exact ⟨stored, hstored, uploadOpening_content (hdisk stored hmem) (by omega) _ _⟩

end Stored

end StuntDouble.Files

namespace StuntDouble.Prelude

open Files Http JsonText Machine Matcher Script Server Upstream

/-- A function of a file of the request returns what the file holds; a stream that it opens
holds all of it. -/
def UploadReturns {Url : Type} (floatText : UInt64 → String) (readFloat : List Char → Option UInt64)
    (env : Env) (world : HostWorld Url) (host : HostState) (index : Fin (2 ^ 32)) (op : FileOp)
    (content : Bytes) : Prop :=
  ∃ handle,
    ((FileCall.upload op index).run floatText readFloat env world host).2 =
      readOutcome op (.ok content) handle ∧
    (op = .stream → ∃ streams call,
      ((FileCall.upload op index).run floatText readFloat env world host).1.uploads =
        some streams ∧ streams[handle]? = some (some (wholeFile content call)))

/-- The functions of a file return what it holds, whatever calls came before. -/
def UploadReads {Url : Type} (floatText : UInt64 → String) (readFloat : List Char → Option UInt64)
    (env : Env) (world : HostWorld Url) (access : Access) (index : Fin (2 ^ 32))
    (content : Bytes) : Prop :=
  ∀ (before : List FileCall) (op : FileOp), before.length < 2 ^ 53 →
    UploadReturns floatText readFloat env world
      (final (FileCall.run floatText readFloat env world) (HostState.new access true) before)
      index op content

section Reading

variable {Url : Type} (floatText : UInt64 → String) (readFloat : List Char → Option UInt64)
  (env : Env) {world : HostWorld Url}
  (hbase64 : ∀ bytes, (world.base64 bytes).toList = Base64.encode bytes)

include hbase64

theorem upload_reads {host : HostState} {state : FileState} (hhosts : Hosts host state)
    (hroom : state.Room 1) (hsome : state.uploads.isSome = true) {index : Fin (2 ^ 32)}
    {opening : Opening} (hopening : world.uploaded state.turn index.val = some opening)
    {content : Bytes} (hcontent : opening.content = .ok content) (op : FileOp) :
    UploadReturns floatText readFloat env world host index op content := by
  obtain ⟨contents, hcontents⟩ := Option.isSome_iff_exists.mp hsome
  obtain ⟨hanswer, hnext⟩ := upload_follows floatText readFloat env hbase64 hhosts hroom op index
  have hstep : fileStep world state (.upload op index) =
      (⟨state.turn + 1, state.files, some (contents ++ streamed op (.ok content))⟩,
        readOutcome op (.ok content) contents.length) := by
    simp only [fileStep, hcontents, hopening, hcontent]
  rw [hstep] at hanswer hnext
  refine ⟨contents.length, hanswer, ?_⟩
  rintro rfl
  obtain ⟨streams, hstreams, hwhole⟩ := exists_of_rel hnext.uploads
  obtain ⟨call, hcall⟩ := Whole.last hwhole
  exact ⟨streams, call, hstreams, hcall⟩

theorem reads_of_opening (access : Access) {index : Fin (2 ^ 32)} {content : Bytes}
    (hopening : ∀ turn, ∃ opening, world.uploaded turn index.val = some opening ∧
      opening.content = .ok content) :
    UploadReads floatText readFloat env world access index content := by
  intro before op hfew
  have hlength : (before ++ [FileCall.upload op index]).length ≤ 2 ^ 53 := by
    rw [List.length_append, List.length_singleton]
    omega
  obtain ⟨-, hhosts⟩ := run_follows floatText readFloat env hbase64 (hosts_new access true) before
    (room_new true hfew.le)
  have hroom := (room_new true hlength).final world
  have hsome := final_uploads world
    (show (FileState.mk 0 [] (some [])).uploads.isSome = true from rfl) before
  obtain ⟨opening, hopening, hcontent⟩ := hopening
    (final (fileStep world) ⟨0, [], some []⟩ before).turn
  exact upload_reads floatText readFloat env hbase64 hhosts hroom hsome hopening hcontent op

end Reading

/-- A file of a form is described in `ctx.request.files` as the client has sent it, and its
functions read the bytes of its part. -/
theorem uploads_read {Url : Type} {floatText : UInt64 → String}
    (readFloat : List Char → Option UInt64) {parse : List Char → Option Json} {base64 : Engine}
    (hparse : JsonText.Standard floatText parse) (hbase64 : base64.Standard) (env : Env)
    {world : HostWorld Url} (hencode : world.base64 = base64.encode) (access : Access)
    {maxBytes : ℕ} (hbudget : maxBytes < 2 ^ 63) {parts : List Part}
    (hclean : ∀ part ∈ parts, part.Clean) {method path : String} {params : Params}
    {rawQuery : String} {lines : List (String × HeaderValue)}
    (hmultipart : isMultipart (headerMap lines) = true) {body : RequestBody}
    (hbody : body.multipart = received parts) {prepared : PreparedRequest}
    (hprepared : preparedRequest maxBytes method path params rawQuery (headerMap lines) body =
      some prepared)
    (hworld : ∀ turn index, ∃ startedAt finishedAt, world.uploaded turn index =
      ((prepared.uploads.bind fun uploads => uploads.files[index]?).map
        (uploadOpening (storedDisk maxBytes parts) startedAt finishedAt)))
    (script : String) :
    Seen floatText parse base64 prepared script fun view =>
      view.files.length = (uploadedFiles parts).length ∧
        ∀ (index : Fin (2 ^ 32)) (file : UploadedFile),
          (uploadedFiles parts)[index.val]? = some file →
            view.files[index.val]? = some ⟨some (.string file.field),
              some (.string file.filename), some (Json.opt .string file.contentType),
              some (.nat file.content.length), index.val⟩ ∧
            UploadReads floatText readFloat env world access index file.content := by
  obtain ⟨-, uploads, hresult, huploads, -⟩ | ⟨hother, -⟩ :=
    preparedRequest_cases method path params rawQuery hprepared
  · rw [hbody] at hresult
    have hfiles : prepared.files = uploadedFiles parts := by
      rw [PreparedRequest.files, huploads, ← stored_files hbudget hclean hresult]
      rfl
    obtain ⟨request, view, hdecode, hview, hshows⟩ :=
      preparedRequest_seen method path params rawQuery lines hparse hbase64 hprepared script
    have hviews := hshows.files
    rw [hfiles] at hviews
    refine ⟨request, view, hdecode, hview, ?_, ?_⟩
    · rw [hviews, List.length_mapIdx]
    · intro index file hfile
      constructor
      · have hsize : file.content.length = file.size := by
          obtain ⟨upload, -, huploaded⟩ := List.mem_filterMap.mp (List.mem_of_getElem? hfile)
          exact uploaded_size huploaded
        rw [hviews, List.getElem?_mapIdx, hfile, hsize]
        rfl
      · have hbytes : ∀ bytes, (world.base64 bytes).toList = Base64.encode bytes := by
          intro bytes
          rw [hencode, hbase64.writes]
        apply reads_of_opening floatText readFloat env hbytes access
        intro turn
        obtain ⟨startedAt, finishedAt, hopening⟩ := hworld turn index.val
        obtain ⟨stored, hstored, hcontent⟩ :=
          stored_opening hbudget hclean hresult hfile startedAt finishedAt
        refine ⟨_, ?_, hcontent⟩
        rw [hopening, huploads, Option.bind_some, hstored, Option.map_some]
  · exact absurd hmultipart hother

section Sample

/-- A text in two chunks. -/
def sampleParts : List Part :=
  [⟨some "f", some "a/b.txt", none, true, [.chunk [104] true, .chunk [105] true], true⟩]

def sampleLines : List (String × HeaderValue) :=
  [("Content-Type", Utf8.encode "multipart/form-data; boundary=x")]

def uploadWorld : HostWorld String :=
  { sampleWorld with
    uploaded := fun _ index => ((storeMultipart 10 (received sampleParts)).result.toOption.bind
      fun uploads => uploads.files[index]?).map (uploadOpening (storedDisk 10 sampleParts) 0 0) }

theorem sampleParts_clean : ∀ part ∈ sampleParts, part.Clean := by
  intro part hpart
  cases List.mem_singleton.mp hpart
  refine ⟨rfl, rfl, ?_⟩
  intro read hread
  rcases List.mem_cons.mp hread with rfl | hread
  · exact ⟨_, rfl⟩
  · cases List.mem_singleton.mp hread
    exact ⟨_, rfl⟩

theorem uploads_read_small :
    ∃ prepared, preparedRequest 10 "post" "/a" ∅ "" (headerMap sampleLines)
        ⟨none, received sampleParts, false⟩ = some prepared ∧
      Seen (fun _ => "") (JsonText.parse fun _ => none) Engine.strict prepared "s.js" fun view =>
        view.files.length = 1 ∧ UploadReads (fun _ => "") (fun _ => none)
          ⟨Http.HeaderGrammar.letters, id, fun elapsed => UInt64.ofNat elapsed⟩ uploadWorld
          ⟨["a"], 1000, 1000, none⟩ 0 [104, 105] := by
  have hmultipart : isMultipart (headerMap sampleLines) = true := by decide
  obtain ⟨prepared, hprepared⟩ : ∃ prepared, preparedRequest 10 "post" "/a" ∅ ""
      (headerMap sampleLines) ⟨none, received sampleParts, false⟩ = some prepared := ⟨_, rfl⟩
  refine ⟨prepared, hprepared, ?_⟩
  have hread := uploads_read (fun _ => none) (JsonText.standard_parse (fun _ => "") fun _ => none)
    Engine.strict_standard ⟨Http.HeaderGrammar.letters, id, fun elapsed => UInt64.ofNat elapsed⟩
    (show uploadWorld.base64 = Engine.strict.encode from rfl) ⟨["a"], 1000, 1000, none⟩
    (show 10 < 2 ^ 63 by omega) sampleParts_clean hmultipart rfl hprepared ?_ "s.js"
  · obtain ⟨request, view, hdecode, hview, hlength, hfiles⟩ := hread
    exact ⟨request, view, hdecode, hview, hlength, (hfiles 0 _ rfl).2⟩
  · intro turn index
    refine ⟨0, 0, ?_⟩
    rcases preparedRequest_cases "post" "/a" ∅ "" hprepared with
      ⟨-, uploads, hresult, huploads, -⟩ | ⟨hother, -⟩
    · have hstored : (storeMultipart 10 (received sampleParts)).result = .ok uploads := hresult
      show ((storeMultipart 10 (received sampleParts)).result.toOption.bind _).map _ = _
      rw [hstored, huploads]
      rfl
    · exact absurd hmultipart hother

end Sample

end StuntDouble.Prelude
