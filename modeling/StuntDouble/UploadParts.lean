import StuntDouble.Uploads
import Mathlib.Logic.Function.Basic

/-!
What a multipart body leaves in the temporary directory. The parser is run with the
operations that it makes on the disk, where the files are named by their number. If nothing
fails, what it stores and what it reports depend on the data of the parts alone.
-/
namespace StuntDouble.Files

open Server

section Disk

/-- An operation on the temporary directory; creating a file empties it. -/
inductive DiskOp
  | create (path : String)
  | write (path : String) (bytes : Bytes)

/-- The files of the directory. -/
abbrev Disk := String → Option Bytes

def DiskOp.apply (disk : Disk) : DiskOp → Disk
  | .create path => Function.update disk path (some [])
  | .write path bytes => Function.update disk path ((disk path).map (· ++ bytes))

def diskAfter (disk : Disk) (ops : List DiskOp) : Disk := ops.foldl DiskOp.apply disk

def DiskOp.size : DiskOp → ℕ
  | .create _ => 0
  | .write _ bytes => bytes.length

/-- How many bytes have been written in all. -/
def writtenBytes (ops : List DiskOp) : ℕ := (ops.map DiskOp.size).sum

end Disk

section Parser

/-- What a part of the parser returns, and what it does on the disk. -/
structure Stored (A : Type) where
  result : Except ParseFailure A
  ops : List DiskOp

structure StoredFile where
  upload : UploadedFile
  path : String

structure StoredUploads where
  files : List StoredFile
  totalBytes : ℕ

structure Storing where
  files : List StoredFile
  totalBytes : ℕ
  countedBytes : Option ℕ

/-- Read the chunks of a part; those of a file are written to its path. -/
def storeChunks (maxBytes files : ℕ) (path : Option String) (totalBytes size : ℕ)
    (content : Bytes) : List ChunkRead → Stored (ℕ × ℕ × Bytes)
  | [] => ⟨.ok (totalBytes, size, content), []⟩
  | .failed error :: _ => ⟨.error (mapMultipartError error files (some totalBytes)), []⟩
  | .chunk bytes written :: rest =>
    let total := saturatingAdd totalBytes bytes.length
    if maxBytes < total then ⟨.error ⟨.tooLarge, files, some total⟩, []⟩
    else
      match path with
      | some name =>
        if written then
          let stored := storeChunks maxBytes files path total (saturatingAdd size bytes.length)
            (content ++ bytes) rest
          ⟨stored.result, .write name bytes :: stored.ops⟩
        else ⟨.error ⟨.io, files, some total⟩, []⟩
      | none => storeChunks maxBytes files path total size content rest

/-- The path of a file is its number. -/
def storePart (maxBytes : ℕ) (storing : Storing) (part : Part) : Stored Storing :=
  let files := storing.files.length
  let path := part.filename.map fun _ => toString files
  match part.name with
  | none => ⟨.error ⟨.invalid, files, storing.countedBytes⟩, []⟩
  | some field =>
    if part.filename.isSome && !part.created then
      ⟨.error ⟨.io, files, storing.countedBytes⟩, []⟩
    else
      let created := path.toList.map DiskOp.create
      let stored := storeChunks maxBytes files path storing.totalBytes 0 [] part.reads
      match stored.result with
      | .error failure => ⟨.error failure, created ++ stored.ops⟩
      | .ok (total, size, content) =>
        match part.filename with
        | none => ⟨.ok ⟨storing.files, total, some total⟩, created ++ stored.ops⟩
        | some filename =>
          if part.closed then
            ⟨.ok ⟨storing.files ++
              [⟨⟨field, clientBasename filename, part.contentType, size, content⟩,
                toString files⟩], total, some total⟩, created ++ stored.ops⟩
          else ⟨.error ⟨.io, files, some total⟩, created ++ stored.ops⟩

def storeParts (maxBytes : ℕ) (storing : Storing) : List PartRead → Stored StoredUploads
  | [] => ⟨.ok ⟨storing.files, storing.totalBytes⟩, []⟩
  | .failed error :: _ =>
    ⟨.error (mapMultipartError error storing.files.length storing.countedBytes), []⟩
  | .part part :: rest =>
    let stored := storePart maxBytes storing part
    match stored.result with
    | .error failure => ⟨.error failure, stored.ops⟩
    | .ok storing =>
      let more := storeParts maxBytes storing rest
      ⟨more.result, stored.ops ++ more.ops⟩

def storeMultipart (maxBytes : ℕ) (multipart : Multipart) : Stored StoredUploads :=
  if multipart.directory = false then ⟨.error ⟨.io, 0, none⟩, []⟩
  else if multipart.boundary = false then ⟨.error ⟨.invalid, 0, none⟩, []⟩
  else storeParts maxBytes ⟨[], 0, none⟩ multipart.parts

def StoredUploads.store (uploads : StoredUploads) : UploadStore :=
  ⟨uploads.files.map StoredFile.upload, uploads.totalBytes⟩

def Storing.parsing (storing : Storing) : Parsing :=
  ⟨storing.files.map StoredFile.upload, storing.totalBytes, storing.countedBytes⟩

end Parser

section Results

variable (maxBytes : ℕ)

theorem storeChunks_result (files : ℕ) (path : Option String) (totalBytes size : ℕ)
    (content : Bytes) (reads : List ChunkRead) :
    (storeChunks maxBytes files path totalBytes size content reads).result =
      readChunks maxBytes files path.isSome totalBytes size content reads := by
  induction reads generalizing totalBytes size content with
  | nil => rfl
  | cons read rest ih =>
    cases read with
    | failed error => rfl
    | chunk bytes written =>
      rw [storeChunks.eq_def, readChunks.eq_def]
      by_cases hlong : maxBytes < saturatingAdd totalBytes bytes.length
      · simp only [if_pos hlong]
      · simp only [if_neg hlong]
        cases path with
        | none => exact ih _ _ _
        | some name =>
          cases written with
          | false => rfl
          | true => exact ih _ _ _

theorem storePart_result (storing : Storing) (part : Part) :
    (storePart maxBytes storing part).result.map Storing.parsing =
      parsePart maxBytes storing.parsing part := by
  have hlength : storing.parsing.files.length = storing.files.length := List.length_map _
  have htotal : storing.parsing.totalBytes = storing.totalBytes := rfl
  unfold storePart parsePart
  rw [hlength, htotal]
  cases part.name with
  | none => rfl
  | some field =>
    by_cases hcreated : (part.filename.isSome && !part.created) = true
    · simp only [if_pos hcreated]
      rfl
    · have hpath : (part.filename.map fun _ => toString storing.files.length).isSome =
          part.filename.isSome := Option.isSome_map
      simp only [if_neg hcreated, storeChunks_result, hpath]
      cases readChunks maxBytes storing.files.length part.filename.isSome storing.totalBytes 0 []
        part.reads with
      | error failure => rfl
      | ok read =>
        obtain ⟨total, size, content⟩ := read
        cases part.filename with
        | none => rfl
        | some filename =>
          cases part.closed with
          | false => rfl
          | true =>
            show Except.ok _ = Except.ok _
            simp [Storing.parsing]

theorem storeParts_result (storing : Storing) (parts : List PartRead) :
    (storeParts maxBytes storing parts).result.map StoredUploads.store =
      parseParts maxBytes storing.parsing parts := by
  induction parts generalizing storing with
  | nil => rfl
  | cons read rest ih =>
    cases read with
    | failed error =>
      show Except.error _ = Except.error _
      rw [Storing.parsing, List.length_map]
    | part part =>
      have hpart := storePart_result maxBytes storing part
      rw [storeParts, parseParts, ← hpart]
      cases hresult : (storePart maxBytes storing part).result with
      | error failure => rfl
      | ok after => exact ih after

/-- The operations on the disk change nothing about what the parser returns. -/
theorem storeMultipart_result (multipart : Multipart) :
    (storeMultipart maxBytes multipart).result.map StoredUploads.store =
      parseMultipart maxBytes multipart := by
  unfold storeMultipart parseMultipart
  split
  · rfl
  · split
    · rfl
    · exact storeParts_result maxBytes ⟨[], 0, none⟩ multipart.parts

end Results

section Chunks

def ChunkRead.bytes : ChunkRead → Bytes
  | .chunk bytes _ => bytes
  | .failed _ => []

def readBytes (reads : List ChunkRead) : Bytes := (reads.map ChunkRead.bytes).flatten

/-- A chunk that arrives and can be written. -/
def ChunkRead.Clean (read : ChunkRead) : Prop := ∃ bytes, read = .chunk bytes true

def chunkOps (path : Option String) (reads : List ChunkRead) : List DiskOp :=
  match path with
  | none => []
  | some name => reads.map fun read => .write name read.bytes

variable {maxBytes : ℕ} (hbudget : maxBytes < 2 ^ 63)
include hbudget

/-- A sum within the budget is not saturated, and one beyond stays beyond. -/
theorem saturatingAdd_budget (a b : ℕ) :
    (maxBytes < saturatingAdd a b ↔ maxBytes < a + b) ∧
      (a + b ≤ maxBytes → saturatingAdd a b = a + b) := by
  unfold saturatingAdd
  omega

theorem storeChunks_fits (files : ℕ) (path : Option String) {totalBytes size : ℕ}
    (content : Bytes) {reads : List ChunkRead} (hclean : ∀ read ∈ reads, read.Clean)
    (hsize : size ≤ totalBytes) (hfits : totalBytes + (readBytes reads).length ≤ maxBytes) :
    storeChunks maxBytes files path totalBytes size content reads =
      ⟨.ok (totalBytes + (readBytes reads).length,
        if path.isSome then size + (readBytes reads).length else size,
        if path.isSome then content ++ readBytes reads else content), chunkOps path reads⟩ := by
  induction reads generalizing totalBytes size content with
  | nil => cases path <;> simp [storeChunks, readBytes, chunkOps]
  | cons read rest ih =>
    obtain ⟨bytes, rfl⟩ := hclean read (by simp)
    have hrest := fun read hread => hclean read (List.mem_cons_of_mem _ hread)
    have hbytes : readBytes (.chunk bytes true :: rest) = bytes ++ readBytes rest := rfl
    rw [hbytes, List.length_append] at hfits ⊢
    have htotal := (saturatingAdd_budget hbudget totalBytes bytes.length).2 (by omega)
    have hshort : ¬ maxBytes < totalBytes + bytes.length := by omega
    rw [storeChunks.eq_def]
    cases path with
    | none =>
      simp only [htotal, if_neg hshort]
      rw [ih content hrest (by omega) (by omega)]
      simp [chunkOps, Nat.add_assoc]
    | some name =>
      have hadd := (saturatingAdd_budget hbudget size bytes.length).2 (by omega)
      simp only [htotal, hadd, if_neg hshort, if_true]
      rw [ih (content ++ bytes) hrest (by omega) (by omega)]
      simp [chunkOps, Nat.add_assoc, ChunkRead.bytes]

/-- Beyond the budget nothing is written any more. -/
theorem storeChunks_over (files : ℕ) (path : Option String) {totalBytes : ℕ} (size : ℕ)
    (content : Bytes) {reads : List ChunkRead} (hclean : ∀ read ∈ reads, read.Clean)
    (htotal : totalBytes ≤ maxBytes) (hover : maxBytes < totalBytes + (readBytes reads).length) :
    ∃ counted ops, storeChunks maxBytes files path totalBytes size content reads =
        ⟨.error ⟨.tooLarge, files, counted⟩, ops⟩ ∧
      totalBytes + writtenBytes ops ≤ maxBytes := by
  induction reads generalizing totalBytes size content with
  | nil =>
    have hnil : (readBytes []).length = 0 := rfl
    omega
  | cons read rest ih =>
    obtain ⟨bytes, rfl⟩ := hclean read (by simp)
    have hrest := fun read hread => hclean read (List.mem_cons_of_mem _ hread)
    have hbytes : readBytes (.chunk bytes true :: rest) = bytes ++ readBytes rest := rfl
    rw [hbytes, List.length_append] at hover
    obtain ⟨hlong, hexact⟩ := saturatingAdd_budget hbudget totalBytes bytes.length
    rw [storeChunks.eq_def]
    by_cases hchunk : maxBytes < totalBytes + bytes.length
    · refine ⟨some (saturatingAdd totalBytes bytes.length), [], ?_, htotal⟩
      simp only [if_pos (hlong.mpr hchunk)]
    · have hadd := hexact (by omega)
      have hnext : totalBytes + bytes.length ≤ maxBytes := by omega
      cases path with
      | none =>
        simp only [hadd, if_neg hchunk]
        obtain ⟨counted, ops, hops, hle⟩ := ih size content hrest hnext (by omega)
        exact ⟨counted, ops, hops, by omega⟩
      | some name =>
        simp only [hadd, if_neg hchunk, if_true]
        obtain ⟨counted, ops, hops, hle⟩ :=
          ih (saturatingAdd size bytes.length) (content ++ bytes) hrest hnext (by omega)
        rw [hops]
        refine ⟨counted, .write name bytes :: ops, rfl, ?_⟩
        have hsum : writtenBytes (.write name bytes :: ops) = bytes.length + writtenBytes ops := by
          rw [writtenBytes, List.map_cons, List.sum_cons]
          rfl
        omega

end Chunks

section Parts

/-- What a part carries, however it is split into chunks. -/
structure Upload where
  name : Option String
  filename : Option String
  contentType : Option String
  data : Bytes

def Part.upload (part : Part) : Upload :=
  ⟨part.name, part.filename, part.contentType, readBytes part.reads⟩

/-- A part that arrives without a failure, of the parser or of the disk. -/
structure Part.Clean (part : Part) : Prop where
  created : part.created = true
  closed : part.closed = true
  reads : ∀ read ∈ part.reads, read.Clean

/-- The file that is made of a part with a filename. -/
def Upload.uploaded (upload : Upload) : Option UploadedFile :=
  match upload.name, upload.filename with
  | some field, some filename =>
    some ⟨field, clientBasename filename, upload.contentType, upload.data.length, upload.data⟩
  | _, _ => none

/-- The operations of a part, if its file is the one with this number. -/
def partOps (files : ℕ) (part : Part) : List DiskOp :=
  match part.filename with
  | none => []
  | some _ => .create (toString files) :: chunkOps (some (toString files)) part.reads

def storedPart (files : ℕ) (part : Part) : List StoredFile :=
  match part.upload.uploaded with
  | none => []
  | some upload => [⟨upload, toString files⟩]

variable {maxBytes : ℕ} (hbudget : maxBytes < 2 ^ 63)

theorem storePart_nameless (storing : Storing) {part : Part} (h : part.name = none) :
    storePart maxBytes storing part =
      ⟨.error ⟨.invalid, storing.files.length, storing.countedBytes⟩, []⟩ := by
  unfold storePart
  rw [h]

include hbudget

theorem storePart_over {storing : Storing} (htotal : storing.totalBytes ≤ maxBytes) {part : Part}
    (hclean : part.Clean) (hname : part.name.isSome = true)
    (hover : maxBytes < storing.totalBytes + part.upload.data.length) :
    ∃ counted ops, storePart maxBytes storing part =
        ⟨.error ⟨.tooLarge, storing.files.length, counted⟩, ops⟩ ∧
      storing.totalBytes + writtenBytes ops ≤ maxBytes := by
  obtain ⟨field, hfield⟩ := Option.isSome_iff_exists.mp hname
  obtain ⟨counted, ops, hops, hle⟩ := storeChunks_over hbudget storing.files.length
    (part.filename.map fun _ => toString storing.files.length) 0 [] hclean.reads htotal hover
  have hcreated : (part.filename.isSome && !part.created) = false := by
    rw [hclean.created]
    simp
  unfold storePart
  rw [hfield]
  simp only [hcreated, Bool.false_eq_true, if_false, hops]
  refine ⟨counted, _, rfl, ?_⟩
  have hnone : writtenBytes
      ((part.filename.map fun _ => toString storing.files.length).toList.map DiskOp.create ++
        ops) = writtenBytes ops := by
    rw [writtenBytes, List.map_append, List.sum_append]
    cases part.filename <;> simp [DiskOp.size, writtenBytes]
  omega

theorem storePart_fits {storing : Storing} {part : Part} (hclean : part.Clean)
    (hname : part.name.isSome = true)
    (hfits : storing.totalBytes + part.upload.data.length ≤ maxBytes) :
    storePart maxBytes storing part =
      ⟨.ok ⟨storing.files ++ storedPart storing.files.length part,
        storing.totalBytes + part.upload.data.length,
        some (storing.totalBytes + part.upload.data.length)⟩,
        partOps storing.files.length part⟩ := by
  obtain ⟨field, hfield⟩ := Option.isSome_iff_exists.mp hname
  have hchunks := storeChunks_fits hbudget storing.files.length
    (part.filename.map fun _ => toString storing.files.length) [] hclean.reads
    (Nat.zero_le _) hfits
  have hcreated : (part.filename.isSome && !part.created) = false := by
    rw [hclean.created]
    simp
  unfold storePart
  rw [hfield]
  simp only [hcreated, Bool.false_eq_true, if_false, hchunks]
  cases hfilename : part.filename with
  | none =>
    simp [storedPart, partOps, Part.upload, Upload.uploaded, hfilename, chunkOps]
  | some filename =>
    simp [storedPart, partOps, Part.upload, Upload.uploaded, hfilename, hfield, hclean.closed]

end Parts

section Names

theorem toString_injective {m n : ℕ} (h : toString m = toString n) : m = n := by
  rw [Nat.toString_eq_repr, Nat.toString_eq_repr] at h
  have hdigits := congrArg String.toList h
  rw [Nat.toList_repr, Nat.toList_repr] at hdigits
  have hvalue := congrArg (fun digits => Nat.ofDigitChars 10 digits 0) hdigits
  simpa only [Nat.ofDigitChars_ten_toDigits] using hvalue

theorem diskAfter_append (disk : Disk) (ops more : List DiskOp) :
    diskAfter disk (ops ++ more) = diskAfter (diskAfter disk ops) more := List.foldl_append

theorem diskAfter_cons (disk : Disk) (op : DiskOp) (ops : List DiskOp) :
    diskAfter disk (op :: ops) = diskAfter (op.apply disk) ops := rfl

/-- The chunks of a file end up behind each other. -/
theorem chunkOps_content (disk : Disk) (name : String) (reads : List ChunkRead) :
    diskAfter disk (chunkOps (some name) reads) name =
      (disk name).map (· ++ readBytes reads) := by
  induction reads generalizing disk with
  | nil =>
    show disk name = _
    cases disk name <;> simp [readBytes]
  | cons read rest ih =>
    have hops : chunkOps (some name) (read :: rest) =
        .write name read.bytes :: chunkOps (some name) rest := rfl
    have hbytes : readBytes (read :: rest) = read.bytes ++ readBytes rest := rfl
    rw [hops, diskAfter_cons, ih, DiskOp.apply, Function.update_self, hbytes, Option.map_map]
    congr 1
    funext content
    exact List.append_assoc _ _ _

theorem chunkOps_other (disk : Disk) {name path : String} (hne : path ≠ name)
    (reads : List ChunkRead) :
    diskAfter disk (chunkOps (some name) reads) path = disk path := by
  induction reads generalizing disk with
  | nil => rfl
  | cons read rest ih =>
    have hops : chunkOps (some name) (read :: rest) =
        .write name read.bytes :: chunkOps (some name) rest := rfl
    rw [hops, diskAfter_cons, ih, DiskOp.apply, Function.update_of_ne hne]

theorem partOps_content (disk : Disk) (files : ℕ) {part : Part}
    (h : part.filename.isSome = true) :
    diskAfter disk (partOps files part) (toString files) = some part.upload.data := by
  obtain ⟨filename, hfilename⟩ := Option.isSome_iff_exists.mp h
  unfold partOps
  rw [hfilename]
  show diskAfter disk (.create (toString files) :: _) _ = _
  rw [diskAfter_cons, chunkOps_content, DiskOp.apply, Function.update_self]
  rfl

theorem partOps_other (disk : Disk) {files : ℕ} {path : String} (hne : path ≠ toString files)
    (part : Part) : diskAfter disk (partOps files part) path = disk path := by
  unfold partOps
  split
  · rfl
  · rw [diskAfter_cons, chunkOps_other _ hne, DiskOp.apply, Function.update_of_ne hne]

end Names

section Runs

def dataBytes (parts : List Part) : ℕ := (parts.map fun part => part.upload.data.length).sum

def fileCount (parts : List Part) : ℕ := parts.countP fun part => part.filename.isSome

/-- The operations of parts that all pass, after so many files. -/
def opsFrom (files : ℕ) : List Part → List DiskOp
  | [] => []
  | part :: rest => partOps files part ++ opsFrom (files + (storedPart files part).length) rest

def storedFrom (files : ℕ) : List Part → List StoredFile
  | [] => []
  | part :: rest =>
    storedPart files part ++ storedFrom (files + (storedPart files part).length) rest

theorem storedPart_length (files : ℕ) {part : Part} (hname : part.name.isSome = true) :
    (storedPart files part).length = if part.filename.isSome then 1 else 0 := by
  obtain ⟨field, hfield⟩ := Option.isSome_iff_exists.mp hname
  cases hfilename : part.filename <;>
    simp [storedPart, Part.upload, Upload.uploaded, hfield, hfilename]

theorem storedFrom_uploads (files : ℕ) (parts : List Part) :
    (storedFrom files parts).map StoredFile.upload =
      (parts.map Part.upload).filterMap Upload.uploaded := by
  induction parts generalizing files with
  | nil => rfl
  | cons part rest ih =>
    rw [storedFrom, List.map_append, ih, List.map_cons, List.filterMap_cons]
    unfold storedPart
    cases part.upload.uploaded <;> rfl

theorem storedPart_path (files : ℕ) (part : Part) :
    ∀ file ∈ storedPart files part, file.path = toString files := by
  intro file hfile
  unfold storedPart at hfile
  split at hfile
  · cases hfile
  · cases List.mem_singleton.mp hfile
    rfl

theorem storedFrom_path (files : ℕ) (parts : List Part) :
    ∀ file ∈ storedFrom files parts, ∃ index, files ≤ index ∧ file.path = toString index := by
  induction parts generalizing files with
  | nil => simp [storedFrom]
  | cons part rest ih =>
    intro file hfile
    rcases List.mem_append.mp hfile with hfile | hfile
    · exact ⟨files, le_refl files, storedPart_path files part file hfile⟩
    · obtain ⟨index, hindex, hpath⟩ := ih _ file hfile
      exact ⟨index, by omega, hpath⟩

/-- No two files have one name. -/
theorem storedFrom_nodup (files : ℕ) (parts : List Part) :
    ((storedFrom files parts).map StoredFile.path).Nodup := by
  induction parts generalizing files with
  | nil => exact List.nodup_nil
  | cons part rest ih =>
    rw [storedFrom, List.map_append]
    have hrest := ih (files + (storedPart files part).length)
    cases hstored : storedPart files part with
    | nil =>
      rw [hstored] at hrest
      exact hrest
    | cons file more =>
      have hone : more = [] := by
        unfold storedPart at hstored
        split at hstored <;> cases hstored
        rfl
      have hpath := storedPart_path files part file (by rw [hstored]; simp)
      rw [hstored] at hrest
      subst hone
      refine List.nodup_cons.mpr ⟨?_, hrest⟩
      intro hmem
      obtain ⟨other, hother, heq⟩ := List.mem_map.mp hmem
      obtain ⟨index, hindex, hindexPath⟩ := storedFrom_path _ rest other hother
      have hsame : index = files := toString_injective (by rw [← hindexPath, heq, hpath])
      rw [List.length_singleton] at hindex
      omega

theorem opsFrom_other (disk : Disk) {files : ℕ} {path : String}
    (h : ∀ index, files ≤ index → path ≠ toString index) (parts : List Part) :
    diskAfter disk (opsFrom files parts) path = disk path := by
  induction parts generalizing files disk with
  | nil => rfl
  | cons part rest ih =>
    rw [opsFrom, diskAfter_append, ih _ fun index hindex => h index (by omega),
      partOps_other disk (h files (le_refl files))]

/-- Every file has in the end what its part carried. -/
theorem opsFrom_content (disk : Disk) (files : ℕ) {parts : List Part}
    (hnames : ∀ part ∈ parts, part.name.isSome = true) :
    ∀ file ∈ storedFrom files parts,
      diskAfter disk (opsFrom files parts) file.path = some file.upload.content := by
  induction parts generalizing files disk with
  | nil => simp [storedFrom]
  | cons part rest ih =>
    have hname := hnames part (by simp)
    intro file hfile
    rw [opsFrom, diskAfter_append]
    rcases List.mem_append.mp hfile with hfile | hfile
    · obtain ⟨field, hfield⟩ := Option.isSome_iff_exists.mp hname
      have hpath := storedPart_path files part file hfile
      cases hfilename : part.filename with
      | none => simp [storedPart, Part.upload, Upload.uploaded, hfield, hfilename] at hfile
      | some filename =>
        have hlength : (storedPart files part).length = 1 := by
          rw [storedPart_length files hname, hfilename]
          rfl
        have hafter (index : ℕ) (hindex : files + 1 ≤ index) : file.path ≠ toString index := by
          rw [hpath]
          intro heq
          have hsame := toString_injective heq
          omega
        rw [hlength, opsFrom_other _ hafter, hpath,
          partOps_content disk files (by simp [hfilename])]
        simp [storedPart, Part.upload, Upload.uploaded, hfield, hfilename] at hfile
        rw [hfile]
        rfl
    · exact ih _ _ (fun part hpart => hnames part (List.mem_cons_of_mem _ hpart)) file hfile

theorem writtenBytes_append (ops more : List DiskOp) :
    writtenBytes (ops ++ more) = writtenBytes ops + writtenBytes more := by
  simp [writtenBytes]

theorem chunkOps_written (name : String) (reads : List ChunkRead) :
    writtenBytes (chunkOps (some name) reads) = (readBytes reads).length := by
  induction reads with
  | nil => rfl
  | cons read rest ih =>
    have hsum : writtenBytes (chunkOps (some name) (read :: rest)) =
        read.bytes.length + writtenBytes (chunkOps (some name) rest) := by
      simp [writtenBytes, chunkOps, DiskOp.size]
    rw [hsum, ih]
    simp [readBytes]

theorem opsFrom_written (files : ℕ) (parts : List Part) :
    writtenBytes (opsFrom files parts) ≤ dataBytes parts := by
  induction parts generalizing files with
  | nil => exact le_refl 0
  | cons part rest ih =>
    have hpart : writtenBytes (partOps files part) ≤ part.upload.data.length := by
      unfold partOps
      split
      · exact Nat.zero_le _
      · have hcreate : writtenBytes (.create (toString files) ::
            chunkOps (some (toString files)) part.reads) =
            writtenBytes (chunkOps (some (toString files)) part.reads) := by
          simp [writtenBytes, DiskOp.size]
        rw [hcreate, chunkOps_written]
        exact le_refl _
    have hsum : dataBytes (part :: rest) = part.upload.data.length + dataBytes rest := by
      simp [dataBytes]
    rw [opsFrom, writtenBytes_append, hsum]
    exact Nat.add_le_add hpart (ih _)

end Runs

section Verdicts

/-- A part that makes the body fail: it has no name, or its data does not fit any more. -/
def Offends (maxBytes : ℕ) (before : List Part) (part : Part) (kind : ParseFailureKind) : Prop :=
  (part.name = none ∧ kind = .invalid) ∨
    (part.name.isSome = true ∧ maxBytes < dataBytes before + part.upload.data.length ∧
      kind = .tooLarge)

/-- The parts pass, or the first that offends decides. -/
inductive PartsEnd (maxBytes : ℕ) (parts : List Part) : Stored StoredUploads → Prop
  | stored (hnames : ∀ part ∈ parts, part.name.isSome = true)
      (hfits : dataBytes parts ≤ maxBytes) :
      PartsEnd maxBytes parts
        ⟨.ok ⟨storedFrom 0 parts, dataBytes parts⟩, opsFrom 0 parts⟩
  | failed (before after : List Part) (part : Part) (kind : ParseFailureKind)
      (counted : Option ℕ) (ops : List DiskOp) (hparts : parts = before ++ part :: after)
      (hnames : ∀ other ∈ before, other.name.isSome = true) (hfits : dataBytes before ≤ maxBytes)
      (hoffends : Offends maxBytes before part kind) (hwritten : writtenBytes ops ≤ maxBytes) :
      PartsEnd maxBytes parts ⟨.error ⟨kind, fileCount before, counted⟩, ops⟩

theorem dataBytes_append (before : List Part) (part : Part) :
    dataBytes (before ++ [part]) = dataBytes before + part.upload.data.length := by
  simp [dataBytes]

theorem storedFrom_append (files : ℕ) (before : List Part) (part : Part) :
    storedFrom files (before ++ [part]) = storedFrom files before ++
      storedPart (files + (storedFrom files before).length) part := by
  induction before generalizing files with
  | nil => simp [storedFrom]
  | cons first before ih =>
    rw [List.cons_append, storedFrom, ih, storedFrom, List.append_assoc, List.length_append,
      Nat.add_assoc]

theorem opsFrom_append (files : ℕ) (before : List Part) (part : Part) :
    opsFrom files (before ++ [part]) = opsFrom files before ++
      partOps (files + (storedFrom files before).length) part := by
  induction before generalizing files with
  | nil => simp [opsFrom, storedFrom]
  | cons first before ih =>
    rw [List.cons_append, opsFrom, ih, opsFrom, storedFrom, List.append_assoc, List.length_append,
      Nat.add_assoc]

theorem storedFrom_length {parts : List Part} (h : ∀ part ∈ parts, part.name.isSome = true)
    (files : ℕ) : (storedFrom files parts).length = fileCount parts := by
  induction parts generalizing files with
  | nil => rfl
  | cons part rest ih =>
    rw [storedFrom, List.length_append, storedPart_length files (h part (by simp)),
      ih (fun part hpart => h part (List.mem_cons_of_mem _ hpart)), fileCount, fileCount,
      List.countP_cons, Nat.add_comm]

variable {maxBytes : ℕ} (hbudget : maxBytes < 2 ^ 63)
include hbudget

/-- The rest of a body, after parts that have passed. -/
theorem storeParts_ends (before : List Part) (hbefore : ∀ part ∈ before, part.name.isSome = true)
    (hfits : dataBytes before ≤ maxBytes) (counted : Option ℕ) {rest : List Part}
    (hclean : ∀ part ∈ rest, part.Clean) :
    PartsEnd maxBytes (before ++ rest)
      ⟨(storeParts maxBytes ⟨storedFrom 0 before, dataBytes before, counted⟩
          (rest.map .part)).result,
        opsFrom 0 before ++ (storeParts maxBytes ⟨storedFrom 0 before, dataBytes before, counted⟩
          (rest.map .part)).ops⟩ := by
  have hwritten := (opsFrom_written 0 before).trans hfits
  induction rest generalizing before counted with
  | nil =>
    rw [List.append_nil]
    show PartsEnd maxBytes before ⟨.ok ⟨storedFrom 0 before, dataBytes before⟩, _ ++ []⟩
    rw [List.append_nil]
    exact .stored hbefore hfits
  | cons part rest ih =>
    have hpart := hclean part (by simp)
    have hlength := storedFrom_length hbefore 0
    rw [List.map_cons, storeParts]
    cases hname : part.name with
    | none =>
      rw [storePart_nameless _ hname]
      simp only [hlength]
      refine .failed before rest part .invalid counted _ rfl hbefore hfits (Or.inl ⟨hname, rfl⟩) ?_
      rwa [List.append_nil]
    | some field =>
      have hsome : part.name.isSome = true := by rw [hname]; rfl
      by_cases hover : maxBytes < dataBytes before + part.upload.data.length
      · have htotal : (Storing.mk (storedFrom 0 before) (dataBytes before) counted).totalBytes ≤
            maxBytes := hfits
        obtain ⟨after, ops, hops, hle⟩ := storePart_over hbudget htotal hpart hsome hover
        rw [hops]
        simp only [hlength]
        refine .failed before rest part .tooLarge after _ rfl hbefore hfits
          (Or.inr ⟨hsome, hover, rfl⟩) ?_
        have hle : dataBytes before + writtenBytes ops ≤ maxBytes := hle
        rw [writtenBytes_append]
        exact (Nat.add_le_add_right (opsFrom_written 0 before) _).trans hle
      · have hnames : ∀ other ∈ before ++ [part], other.name.isSome = true := by
          intro other hother
          rcases List.mem_append.mp hother with hother | hother
          · exact hbefore other hother
          · cases List.mem_singleton.mp hother
            exact hsome
        have hnext : dataBytes (before ++ [part]) ≤ maxBytes := by
          rw [dataBytes_append]
          omega
        have hpass : (Storing.mk (storedFrom 0 before) (dataBytes before) counted).totalBytes +
            part.upload.data.length ≤ maxBytes := Nat.le_of_not_lt hover
        rw [storePart_fits hbudget hpart hsome hpass]
        have hrest := ih _ hnames hnext (some (dataBytes before + part.upload.data.length))
          (fun other hother => hclean other (List.mem_cons_of_mem _ hother))
          ((opsFrom_written 0 _).trans hnext)
        rw [storedFrom_append, opsFrom_append, dataBytes_append, Nat.zero_add, List.append_assoc,
          List.append_assoc] at hrest
        exact hrest

end Verdicts

section Reference

/-- Why a body fails and after how many files, by what its parts carry. -/
def verdict (maxBytes files totalBytes : ℕ) : List Upload → Option (ParseFailureKind × ℕ)
  | [] => none
  | upload :: rest =>
    if upload.name = none then some (.invalid, files)
    else if maxBytes < totalBytes + upload.data.length then some (.tooLarge, files)
    else
      verdict maxBytes (files + if upload.filename.isSome then 1 else 0)
        (totalBytes + upload.data.length) rest

/-- The kind and the file count that a run reports. -/
def Stored.verdict {A : Type} (stored : Stored A) : Option (ParseFailureKind × ℕ) :=
  match stored.result with
  | .ok _ => none
  | .error failure => some (failure.kind, failure.files)

variable {maxBytes : ℕ}

theorem verdict_append {before : List Part} (hnames : ∀ part ∈ before, part.name.isSome = true)
    (files totalBytes : ℕ) (hfits : totalBytes + dataBytes before ≤ maxBytes)
    (rest : List Upload) :
    Files.verdict maxBytes files totalBytes (before.map Part.upload ++ rest) =
      Files.verdict maxBytes (files + fileCount before) (totalBytes + dataBytes before) rest := by
  induction before generalizing files totalBytes with
  | nil => rfl
  | cons part before ih =>
    have hsum : dataBytes (part :: before) = part.upload.data.length + dataBytes before := by
      simp [dataBytes]
    have hname : ¬ part.upload.name = none := by
      have hsome := hnames part (by simp)
      intro hnone
      have hnone : part.name = none := hnone
      rw [hnone] at hsome
      cases hsome
    have hcount : fileCount (part :: before) =
        (if part.upload.filename.isSome then 1 else 0) + fileCount before := by
      rw [fileCount, List.countP_cons, Nat.add_comm]
      rfl
    rw [hsum] at hfits ⊢
    rw [List.map_cons, List.cons_append, Files.verdict, if_neg hname, if_neg (by omega),
      ih (fun part hpart => hnames part (List.mem_cons_of_mem _ hpart)) _ _ (by omega), hcount,
      Nat.add_assoc, Nat.add_assoc]

theorem PartsEnd.verdict_eq {parts : List Part} {stored : Stored StoredUploads}
    (h : PartsEnd maxBytes parts stored) :
    stored.verdict = Files.verdict maxBytes 0 0 (parts.map Part.upload) := by
  cases h with
  | stored hnames hfits =>
    have hzero : 0 + dataBytes parts ≤ maxBytes := by omega
    have hrun := verdict_append hnames 0 0 hzero []
    rw [List.append_nil] at hrun
    rw [hrun]
    rfl
  | failed before after part kind counted ops hparts hnames hfits hoffends hwritten =>
    have hzero : 0 + dataBytes before ≤ maxBytes := by omega
    have hrun := verdict_append hnames 0 0 hzero (part.upload :: after.map Part.upload)
    rw [hparts, List.map_append, List.map_cons, hrun, Nat.zero_add, Nat.zero_add, Files.verdict]
    rcases hoffends with ⟨hname, rfl⟩ | ⟨hname, hover, rfl⟩
    · have hname : part.upload.name = none := hname
      rw [if_pos hname]
      rfl
    · have hsome : ¬ part.upload.name = none := by
        intro hnone
        have hnone : part.name = none := hnone
        rw [hnone] at hname
        cases hname
      rw [if_neg hsome, if_pos hover]
      rfl

section Ends

variable {parts : List Part} {stored : Stored StoredUploads} (h : PartsEnd maxBytes parts stored)
include h

theorem PartsEnd.ok_iff : (∃ uploads, stored.result = .ok uploads) ↔
    (∀ part ∈ parts, part.name.isSome = true) ∧ dataBytes parts ≤ maxBytes := by
  cases h with
  | stored hnames hfits => exact iff_of_true ⟨_, rfl⟩ ⟨hnames, hfits⟩
  | failed before after part kind counted ops hparts hnames hfits hoffends hwritten =>
    refine iff_of_false ?_ ?_
    · rintro ⟨uploads, huploads⟩
      cases huploads
    · rintro ⟨hall, hsum⟩
      have hpart := hall part (by rw [hparts]; simp)
      rcases hoffends with ⟨hname, -⟩ | ⟨-, hover, -⟩
      · rw [hname] at hpart
        cases hpart
      · have htotal : dataBytes before + part.upload.data.length ≤ dataBytes parts := by
          rw [hparts]
          simp only [dataBytes, List.map_append, List.map_cons, List.sum_append, List.sum_cons]
          omega
        omega

theorem PartsEnd.stored_ok {uploads : StoredUploads} (huploads : stored.result = .ok uploads) :
    uploads.totalBytes = dataBytes parts ∧
      uploads.files.map StoredFile.upload =
        (parts.map Part.upload).filterMap Upload.uploaded ∧
      (uploads.files.map StoredFile.path).Nodup ∧
      ∀ file ∈ uploads.files,
        diskAfter (fun _ => none) stored.ops file.path = some file.upload.content := by
  cases h with
  | stored hnames hfits =>
    cases huploads
    exact ⟨rfl, storedFrom_uploads 0 parts, storedFrom_nodup 0 parts,
      opsFrom_content _ 0 hnames⟩
  | failed => cases huploads

theorem PartsEnd.failed_error {failure : ParseFailure} (hfailure : stored.result = .error failure) :
    ∃ before part after, parts = before ++ part :: after ∧
      (∀ other ∈ before, other.name.isSome = true) ∧ dataBytes before ≤ maxBytes ∧
      Offends maxBytes before part failure.kind ∧ failure.files = fileCount before := by
  cases h with
  | stored => cases hfailure
  | failed before after part kind counted ops hparts hnames hfits hoffends hwritten =>
    cases hfailure
    exact ⟨before, part, after, hparts, hnames, hfits, hoffends, rfl⟩

theorem PartsEnd.written_le : writtenBytes stored.ops ≤ maxBytes := by
  cases h with
  | stored hnames hfits => exact (opsFrom_written 0 parts).trans hfits
  | failed before after part kind counted ops hparts hnames hfits hoffends hwritten =>
    exact hwritten

end Ends

/-- A body that arrives without a failure, part by part. -/
def received (parts : List Part) : Multipart := ⟨true, true, parts.map .part⟩

theorem storeMultipart_ends (hbudget : maxBytes < 2 ^ 63) {parts : List Part}
    (hclean : ∀ part ∈ parts, part.Clean) :
    PartsEnd maxBytes parts (storeMultipart maxBytes (received parts)) :=
  storeParts_ends hbudget [] (by simp) (Nat.zero_le _) none hclean

theorem writtenBytes_prefix_le {ops moment : List DiskOp} (h : moment <+: ops) :
    writtenBytes moment ≤ writtenBytes ops := by
  obtain ⟨rest, rfl⟩ := h
  rw [writtenBytes_append]
  exact Nat.le_add_right _ _

/-- What the parser stores and reports of a body that arrives without a failure. -/
theorem parseMultipart_stores (hbudget : maxBytes < 2 ^ 63) {parts : List Part}
    (hclean : ∀ part ∈ parts, part.Clean) :
    (parseMultipart maxBytes (received parts) =
      (storeMultipart maxBytes (received parts)).result.map StoredUploads.store) ∧
    ((∃ uploads, (storeMultipart maxBytes (received parts)).result = .ok uploads) ↔
      (∀ part ∈ parts, part.name.isSome = true) ∧ dataBytes parts ≤ maxBytes) ∧
    (∀ uploads, (storeMultipart maxBytes (received parts)).result = .ok uploads →
      uploads.totalBytes = dataBytes parts ∧
      uploads.files.map StoredFile.upload =
        (parts.map Part.upload).filterMap Upload.uploaded ∧
      (uploads.files.map StoredFile.path).Nodup ∧
      ∀ file ∈ uploads.files,
        diskAfter (fun _ => none) (storeMultipart maxBytes (received parts)).ops file.path =
          some file.upload.content) ∧
    (∀ failure, (storeMultipart maxBytes (received parts)).result = .error failure →
      ∃ before part after, parts = before ++ part :: after ∧
        (∀ other ∈ before, other.name.isSome = true) ∧ dataBytes before ≤ maxBytes ∧
        Offends maxBytes before part failure.kind ∧ failure.files = fileCount before) ∧
    (∀ others : List Part, (∀ part ∈ others, part.Clean) →
      others.map Part.upload = parts.map Part.upload →
      (storeMultipart maxBytes (received others)).verdict =
        (storeMultipart maxBytes (received parts)).verdict) ∧
    (∀ moment, moment <+: (storeMultipart maxBytes (received parts)).ops →
      writtenBytes moment ≤ maxBytes) := by
  have hends := storeMultipart_ends hbudget hclean
  refine ⟨(storeMultipart_result maxBytes (received parts)).symm, ?_, ?_, ?_, ?_, ?_⟩
  · exact hends.ok_iff
  · intro uploads huploads
    exact hends.stored_ok huploads
  · intro failure hfailure
    exact hends.failed_error hfailure
  · intro others hothers hsame
    rw [(storeMultipart_ends hbudget hothers).verdict_eq, hends.verdict_eq, hsame]
  · intro moment hmoment
    exact (writtenBytes_prefix_le hmoment).trans hends.written_le

/-- A file in two chunks takes up the whole of a budget of three bytes. -/
theorem parseMultipart_stores_two :
    (∃ uploads, (storeMultipart 3 (received
      [⟨some "f", some "a/b.txt", none, true,
        [.chunk [1] true, .chunk [2, 3] true], true⟩])).result =
        .ok uploads) ∧
    writtenBytes (storeMultipart 3 (received
      [⟨some "f", some "a/b.txt", none, true, [.chunk [1] true, .chunk [2, 3] true],
        true⟩])).ops ≤ 3 := by
  have hclean : ∀ part ∈
      [Part.mk (some "f") (some "a/b.txt") none true [.chunk [1] true, .chunk [2, 3] true] true],
      part.Clean := by
    intro part hpart
    cases List.mem_singleton.mp hpart
    refine ⟨rfl, rfl, ?_⟩
    intro read hread
    rcases List.mem_cons.mp hread with rfl | hread
    · exact ⟨_, rfl⟩
    · cases List.mem_singleton.mp hread
      exact ⟨_, rfl⟩
  obtain ⟨-, hok, -, -, -, hwritten⟩ := parseMultipart_stores (by omega : 3 < 2 ^ 63) hclean
  refine ⟨hok.mpr ⟨?_, by decide⟩, hwritten _ (List.prefix_refl _)⟩
  intro part hpart
  cases List.mem_singleton.mp hpart
  rfl

end Reference

end StuntDouble.Files
