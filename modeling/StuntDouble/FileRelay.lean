import StuntDouble.Server

/-!
A file response and the relay of its body. The headers announce a slice of the
file; the relay seeks to it and copies it in chunks until it is exhausted, a read
fails, the file ends early, or the client closes. How much each read returns and
when the client closes is given, so the results hold for every such behaviour.
-/
namespace StuntDouble.Server

open Http RequestLog Files Script

variable {Pipe : Type}

/-- Read size for one relayed file frame. -/
def streamChunkBytes : ℕ := 64 * 1024

def saturatingAdd (a b : ℕ) : ℕ := min (a + b) (2 ^ 64 - 1)

/-- What one read does: it fails, or it returns at most so many bytes. -/
inductive ReadFate
  | failed
  | atMost (bytes : ℕ)
deriving DecidableEq, Repr

/-- The seek, the reads and the sends of one relay. -/
structure RelayFates where
  seek : Bool
  read : ℕ → ReadFate
  accept : ℕ → Bool

structure Relay where
  position : ℕ
  bytes : ℕ
  remaining : ℕ
  frames : List Bytes

structure Relayed where
  frames : List Bytes
  bytes : ℕ
  outcome : StreamOutcome
  terminalError : Bool

/-- The fields that the end of a relay writes into the log line. -/
structure RelayLog where
  responseBodyBytes : ℕ
  elapsed : Ms
  fileCalls : List Json
  error : Option String

/-- Read at most a chunk at a position. -/
def readFile (content : Bytes) (position chunk : ℕ) : ReadFate → Option Bytes
  | .failed => none
  | .atMost bytes => some ((content.drop position).take (min bytes chunk))

def Relay.ended (relay : Relay) (outcome : StreamOutcome) (terminalError : Bool) : Relayed :=
  ⟨relay.frames, relay.bytes, outcome, terminalError⟩

/-- The relay after the client took a chunk. -/
def Relay.sent (relay : Relay) (chunk : Bytes) : Relay :=
  ⟨relay.position + chunk.length, saturatingAdd relay.bytes chunk.length,
    relay.remaining - chunk.length, relay.frames ++ [chunk]⟩

def relayLoop (content : Bytes) (fates : RelayFates) (len turn : ℕ) (relay : Relay) : Relayed :=
  if relay.remaining = 0 then relay.ended .complete false
  else
    match readFile content relay.position (min relay.remaining streamChunkBytes)
        (fates.read turn) with
    | none => relay.ended .fileError true
    | some [] => relay.ended .fileError false
    | some (byte :: rest) =>
      if fates.accept turn then
        relayLoop content fates len (turn + 1) (relay.sent (byte :: rest))
      else relay.ended (.fromChannelClose relay.bytes (some len)) false
termination_by relay.remaining
decreasing_by
  simp only [Relay.sent, List.length_cons]
  omega

def relayBody (file : FileBody) (fates : RelayFates) : Relayed :=
  let relay : Relay := ⟨file.offset, 0, file.len, []⟩
  if 0 < file.offset ∧ fates.seek = false then relay.ended .fileError true
  else relayLoop file.content fates file.len 0 relay

/-- Relay a file body, finalize its call, and complete the log line of the request. -/
def relayFileStream (env : Env) (started now : ℕ) (file : FileBody) (fates : RelayFates)
    (fileCalls : CallLog) : Relayed × RelayLog × CallLog :=
  let relayed := relayBody file fates
  let finished := finishStream env.elapsedMs now relayed.bytes relayed.outcome fileCalls file.call
  (relayed, ⟨relayed.bytes, env.elapsedMs (now - started), finished.snapshot,
    relayed.outcome.errorClass⟩, finished)

section Slices

def slice (content : Bytes) (offset len : ℕ) : Bytes := (content.drop offset).take len

theorem slice_add (content : Bytes) (offset first second : ℕ) :
    slice content offset (first + second) =
      slice content offset first ++ slice content (offset + first) second := by
  unfold slice
  rw [List.take_add, List.drop_drop]

theorem slice_length (content : Bytes) (offset len : ℕ) (h : offset + len ≤ content.length) :
    (slice content offset len).length = len := by
  unfold slice
  rw [List.length_take, List.length_drop]
  omega

/-- A chunk that was read is the slice of its own length. -/
theorem readFile_slice (content : Bytes) (position chunk : ℕ) (fate : ReadFate) (data : Bytes)
    (h : readFile content position chunk fate = some data) :
    data = slice content position data.length ∧ data.length ≤ chunk := by
  cases fate with
  | failed => contradiction
  | atMost bytes =>
    obtain rfl := Option.some.inj h
    unfold slice
    rw [List.length_take]
    refine ⟨?_, by omega⟩
    rw [List.take_eq_take_iff]
    omega

/-- A read inside the file returns something, unless it fails or the file ends early. -/
theorem readFile_positive (content : Bytes) (position chunk bytes : ℕ) (hbytes : 0 < bytes)
    (hchunk : 0 < chunk) (hposition : position < content.length) :
    ∃ byte rest, readFile content position chunk (.atMost bytes) = some (byte :: rest) := by
  cases hdata : (content.drop position).take (min bytes chunk) with
  | nil =>
    have hlength := congrArg List.length hdata
    rw [List.length_take, List.length_drop, List.length_nil] at hlength
    omega
  | cons byte rest => exact ⟨byte, rest, congrArg some hdata⟩

end Slices

section Loop

/-- The loop has relayed the beginning of its slice and goes on right behind it. -/
structure Relay.Follows (content : Bytes) (offset len : ℕ) (relay : Relay) : Prop where
  frames_eq : relay.frames.flatten = slice content offset relay.bytes
  position_eq : relay.position = offset + relay.bytes
  split : relay.bytes + relay.remaining = len

variable (content : Bytes) (fates : RelayFates) (offset len : ℕ)

theorem Relay.Follows.sent {content : Bytes} {offset len : ℕ} {relay : Relay}
    (hfollows : relay.Follows content offset len) (hlen : len < 2 ^ 64) (fate : ReadFate)
    (data : Bytes) (hread : readFile content relay.position
      (min relay.remaining streamChunkBytes) fate = some data) :
    (relay.sent data).Follows content offset len := by
  obtain ⟨hframes, hposition, hsplit⟩ := hfollows
  obtain ⟨hdata, hchunk⟩ := readFile_slice content _ _ fate data hread
  have hadd : saturatingAdd relay.bytes data.length = relay.bytes + data.length := by
    unfold saturatingAdd
    omega
  refine ⟨?_, ?_, ?_⟩
  · simp only [Relay.sent, List.flatten_append, List.flatten_cons, List.flatten_nil,
      List.append_nil]
    rw [hadd, slice_add, ← hframes, ← hposition, ← hdata]
  · simp only [Relay.sent]
    omega
  · simp only [Relay.sent]
    omega

/-- What came of a relay: the beginning of the slice, and all of it exactly if it completed. -/
structure Relayed.Delivers (content : Bytes) (offset len : ℕ) (relayed : Relayed) : Prop where
  frames_eq : relayed.frames.flatten = slice content offset relayed.bytes
  bytes_le : relayed.bytes ≤ len
  complete_iff : relayed.outcome = .complete ↔ relayed.bytes = len

theorem Relay.Follows.ended {content : Bytes} {offset len : ℕ} {relay : Relay}
    (hfollows : relay.Follows content offset len) (outcome : StreamOutcome) (terminalError : Bool)
    (houtcome : outcome = .complete ↔ relay.remaining = 0) :
    (relay.ended outcome terminalError).Delivers content offset len := by
  obtain ⟨hframes, hposition, hsplit⟩ := hfollows
  refine ⟨hframes, ?_, ?_⟩
  · simp only [Relay.ended]
    omega
  · simp only [Relay.ended]
    rw [houtcome]
    omega

theorem relayLoop_delivers (hlen : len < 2 ^ 64) (turn : ℕ) (relay : Relay)
    (hfollows : relay.Follows content offset len) :
    (relayLoop content fates len turn relay).Delivers content offset len := by
  induction hremaining : relay.remaining using Nat.strongRecOn generalizing turn relay with
  | ind remaining ih =>
    unfold relayLoop
    by_cases hzero : relay.remaining = 0
    · rw [if_pos hzero]
      exact hfollows.ended .complete false (by simp [hzero])
    · rw [if_neg hzero]
      cases hread : readFile content relay.position (min relay.remaining streamChunkBytes)
          (fates.read turn) with
      | none => exact hfollows.ended .fileError true (by simp [hzero])
      | some data =>
        cases data with
        | nil => exact hfollows.ended .fileError false (by simp [hzero])
        | cons byte rest =>
          by_cases haccept : fates.accept turn = true
          · simp only [if_pos haccept]
            refine ih _ ?_ (turn + 1) _ (hfollows.sent hlen _ _ hread) rfl
            simp only [Relay.sent, List.length_cons]
            omega
          · simp only [if_neg haccept]
            have hsplit := hfollows.split
            have hshort : len ≠ relay.bytes := by omega
            refine hfollows.ended _ false ?_
            simp [StreamOutcome.fromChannelClose, hshort, hzero]

/-- Nothing interrupts a relay: every read returns something and the client takes every chunk. -/
def RelayFates.Smooth (fates : RelayFates) : Prop :=
  fates.seek = true ∧ ∀ turn, (∃ bytes, fates.read turn = .atMost (bytes + 1)) ∧
    fates.accept turn = true

theorem relayLoop_complete (hlen : len < 2 ^ 64) (hsmooth : fates.Smooth)
    (hfile : offset + len ≤ content.length) (turn : ℕ) (relay : Relay)
    (hfollows : relay.Follows content offset len) :
    (relayLoop content fates len turn relay).outcome = .complete := by
  induction hremaining : relay.remaining using Nat.strongRecOn generalizing turn relay with
  | ind remaining ih =>
    unfold relayLoop
    by_cases hzero : relay.remaining = 0
    · rw [if_pos hzero]
      rfl
    · rw [if_neg hzero]
      obtain ⟨⟨bytes, hbytes⟩, haccept⟩ := hsmooth.2 turn
      have hposition : relay.position < content.length := by
        have hsplit := hfollows.split
        have hstart := hfollows.position_eq
        omega
      have hchunk : 0 < min relay.remaining streamChunkBytes := by
        unfold streamChunkBytes
        omega
      obtain ⟨byte, rest, hread⟩ := readFile_positive content relay.position
        (min relay.remaining streamChunkBytes) (bytes + 1) (by omega) hchunk hposition
      rw [← hbytes] at hread
      simp only [hread, if_pos haccept]
      refine ih _ ?_ (turn + 1) _ (hfollows.sent hlen _ _ hread) rfl
      simp only [Relay.sent, List.length_cons]
      omega

end Loop

section Response

variable (env : Env)

/-- A body as the file capability opened it. -/
structure Opened (file : FileBody) (fileCalls : CallLog) : Prop where
  size_eq : file.size = file.content.length
  size_lt : file.size < 2 ^ 64
  offset_eq : file.offset = 0
  len_eq : file.len = file.size
  pending : file.call.finished = false
  begun : file.call.index < fileCalls.length

/-- What the client and the log line see of the relay of a slice. -/
structure Serves (started now : ℕ) (file : FileBody) (fileCalls : CallLog) (fates : RelayFates) :
    Prop where
  delivers : (relayFileStream env started now file fates fileCalls).1.Delivers file.content
    file.offset file.len
  complete : fates.Smooth →
    (relayFileStream env started now file fates fileCalls).1.outcome = .complete
  logged : (relayFileStream env started now file fates fileCalls).2.1.responseBodyBytes =
    (relayFileStream env started now file fates fileCalls).1.frames.flatten.length
  call : ∃ entry, (relayFileStream env started now file fates fileCalls).2.1.fileCalls[
      file.call.index]? = some entry ∧ entry.get "bytes" = some (.nat
        (relayFileStream env started now file fates fileCalls).1.frames.flatten.length)

theorem relayBody_delivers (file : FileBody) (fates : RelayFates) (hlen : file.len < 2 ^ 64)
    (hempty : 0 < file.offset → 0 < file.len) :
    (relayBody file fates).Delivers file.content file.offset file.len := by
  have hfollows : (⟨file.offset, 0, file.len, []⟩ : Relay).Follows file.content file.offset
      file.len := ⟨by simp [slice], by simp, by simp⟩
  unfold relayBody
  by_cases hseek : 0 < file.offset ∧ fates.seek = false
  · simp only [if_pos hseek]
    have hpos := hempty hseek.1
    refine hfollows.ended .fileError true ?_
    simp
    omega
  · simp only [if_neg hseek]
    exact relayLoop_delivers file.content fates file.offset file.len hlen 0 _ hfollows

theorem relayBody_complete (file : FileBody) (fates : RelayFates) (hlen : file.len < 2 ^ 64)
    (hfile : file.offset + file.len ≤ file.content.length) (hsmooth : fates.Smooth) :
    (relayBody file fates).outcome = .complete := by
  have hseek : ¬ (0 < file.offset ∧ fates.seek = false) := by simp [hsmooth.1]
  unfold relayBody
  simp only [if_neg hseek]
  exact relayLoop_complete file.content fates file.offset file.len hlen hsmooth hfile 0 _
    ⟨by simp [slice], by simp, by simp⟩

theorem relayFileStream_serves (started now : ℕ) (file : FileBody) (fileCalls : CallLog)
    (fates : RelayFates) (hlen : file.len < 2 ^ 64) (hempty : 0 < file.offset → 0 < file.len)
    (hfile : file.offset + file.len ≤ file.content.length)
    (hpending : file.call.finished = false) (hbegun : file.call.index < fileCalls.length) :
    Serves env started now file fileCalls fates := by
  have hdelivers := relayBody_delivers file fates hlen hempty
  have hbytes : (relayBody file fates).frames.flatten.length = (relayBody file fates).bytes := by
    have hle := hdelivers.bytes_le
    rw [hdelivers.frames_eq, slice_length _ _ _ (by omega)]
  obtain ⟨record, hrecord, hlogged⟩ := finishStream_get env.elapsedMs now
    (relayBody file fates).bytes (relayBody file fates).outcome fileCalls file.call hpending hbegun
  refine ⟨hdelivers, relayBody_complete file fates hlen hfile, hbytes.symm,
    LogRecord.toJson record, ?_, ?_⟩
  · simp only [relayFileStream, Chain.snapshot, List.getElem?_map]
    rw [hrecord]
    rfl
  · have hjson : (LogRecord.toJson record).get "bytes" =
        some (Json.opt Json.nat record.bytes) := rfl
    rw [hjson, hlogged]
    exact congrArg (fun n => some (Json.nat n)) hbytes.symm

theorem setHeader_insert (headers : HeaderMap) (name value : String)
    (hvisible : Visible value) :
    setHeader env headers name value = headers.insert name (Utf8.encode value) := by
  unfold setHeader
  rw [if_pos (env.grammar.value_visible value hvisible)]

theorem setContentLength_insert (headers : HeaderMap) (len : ℕ) :
    setContentLength env headers len =
      headers.insert "content-length" (Utf8.encode (toString len)) :=
  setHeader_insert env headers "content-length" (toString len) (visible_nat len)

theorem visible_span (start last size : ℕ) : Visible
    ("bytes " ++ toString start ++ "-" ++ toString last ++ "/" ++ toString size) := by
  have hunit : Visible "bytes " := by decide
  have hdash : Visible "-" := by decide
  have hslash : Visible "/" := by decide
  exact ((((hunit.append (visible_nat start)).append hdash).append (visible_nat last)).append
    hslash).append (visible_nat size)

/-- Script headers without framing headers map onto headers without them. -/
theorem framingHeader_none (scriptHeaders : List (String × String)) (headers : HeaderMap)
    (hheaders : responseHeaders env scriptHeaders = .ok headers)
    (hframing : ∀ header ∈ scriptHeaders, asciiLower header.1 ∉ framingNames) :
    framingHeader headers = none := by
  unfold responseHeaders at hheaders
  cases hpairs : validatedHeaderPairs env scriptHeaders with
  | error message =>
    rw [hpairs] at hheaders
    contradiction
  | ok pairs =>
    rw [hpairs] at hheaders
    obtain rfl := Except.ok.inj hheaders
    unfold framingHeader
    rw [List.find?_eq_none]
    intro name hname
    rw [HeaderMap.containsKey_foldl pairs [] name rfl]
    · exact Bool.false_ne_true
    · intro pair hpair hsame
      obtain ⟨header, hheader, hlower⟩ :=
        validatedHeaderPairs_name env scriptHeaders pairs hpairs pair hpair
      apply hframing header hheader
      rw [← hlower, hsame]
      exact hname

theorem fileDecision_within (size : ℕ) (requestHeaders : HeaderMap) (hsize : size < 2 ^ 64) :
    ∃ decision, fileDecision size requestHeaders = some decision ∧ decision.Within size := by
  unfold fileDecision
  cases rangeRequest requestHeaders with
  | none => exact decideRange_within size none hsize
  | single value => exact decideRange_within size (some value) hsize
  | unusable => exact ⟨.unsatisfiable, rfl, trivial⟩

/-- The text of a header value, as the bytes of the value. -/
def HasHeader (headers : HeaderMap) (name text : String) : Prop :=
  headers.getAll name = [Utf8.encode text]

/-- A 416 response: nothing is sent, and the call of the file is finalized without bytes. -/
structure Refused (file : FileBody) (fileCalls : CallLog) (mapped : Mapped Pipe) : Prop where
  status : mapped.status = 416
  body : mapped.body = .ready []
  logged : mapped.bodyBytes = some 0
  contentLength : HasHeader mapped.headers "content-length" "0"
  contentRange : HasHeader mapped.headers "content-range" ("bytes */" ++ toString file.size)
  released : ∃ body, mapped.released = some body ∧ ∀ now, ∃ record,
    (releaseBody env now fileCalls body)[file.call.index]? = some record ∧ record.bytes = some 0

/-- A response that announces a slice of the file: all of it with 200, a part with 206. -/
structure Announces (file sent : FileBody) (mapped : Mapped Pipe) : Prop where
  body : mapped.body = .file sent
  same : sent.content = file.content ∧ sent.call = file.call
  inside : sent.offset + sent.len ≤ file.size
  contentLength : HasHeader mapped.headers "content-length" (toString sent.len)
  range : (mapped.status = 200 ∧ sent.offset = 0 ∧ sent.len = file.size ∧
      mapped.headers.getAll "content-range" = []) ∨
    (mapped.status = 206 ∧ ∃ last, last + 1 = sent.offset + sent.len ∧ sent.offset ≤ last ∧
      HasHeader mapped.headers "content-range"
        ("bytes " ++ toString sent.offset ++ "-" ++ toString last ++ "/" ++ toString file.size))

theorem released_file (file : FileBody) (fileCalls : CallLog) (hopened : Opened file fileCalls)
    (now : ℕ) : ∃ record,
      (releaseBody env now fileCalls (.file file : ResponseBody Pipe FileBody))[file.call.index]? =
        some record ∧ record.bytes = some 0 := by
  obtain ⟨record, hrecord⟩ := finishWith_get env.elapsedMs now 0 id fileCalls file.call
    hopened.pending hopened.begun
  exact ⟨_, hrecord, rfl⟩

/-- Every file response with status 200 is refused, or announces the slice that its relay
delivers. -/
theorem file_response_slice (scriptHeaders : List (String × String)) (headers : HeaderMap)
    (hheaders : responseHeaders env scriptHeaders = .ok headers)
    (hframing : ∀ header ∈ scriptHeaders, asciiLower header.1 ∉ framingNames)
    (file : FileBody) (fileCalls : CallLog) (hopened : Opened file fileCalls)
    (requestHeaders : HeaderMap) (requestId : String) (verbose : Bool) :
    ∃ mapped : Mapped Pipe, mapFileResponse env 200 headers file requestHeaders requestId verbose =
        some mapped ∧
      (Refused env file fileCalls mapped ∨ ∃ sent, Announces file sent mapped ∧
        ∀ started now fates, Serves env started now sent fileCalls fates) := by
  obtain ⟨hsize, hlt, hoffset, hlen, hpending, hbegun⟩ := hopened
  have hnone := framingHeader_none env scriptHeaders headers hheaders hframing
  have hrange : headers.getAll "content-range" = [] := by
    apply HeaderMap.getAll_of_not_containsKey
    have hall := List.find?_eq_none.mp hnone "content-range" (by decide)
    exact Bool.not_eq_true _ ▸ hall
  obtain ⟨decision, hdecision, hwithin⟩ := fileDecision_within file.size requestHeaders hlt
  unfold mapFileResponse
  rw [if_neg (by simp)]
  simp only [hnone, hdecision]
  cases decision with
  | full =>
    refine ⟨_, rfl, Or.inr ⟨file, ⟨rfl, ⟨rfl, rfl⟩, by omega, ?_, Or.inl ⟨rfl, hoffset, hlen, ?_⟩⟩,
      ?_⟩⟩
    · simp only [HasHeader, setContentLength_insert, HeaderMap.getAll_insert, if_true, hlen]
    · simp only [setContentLength_insert, HeaderMap.getAll_insert]
      rw [if_neg (by decide), if_neg (by decide), hrange]
    · intro started now fates
      exact relayFileStream_serves env started now file fileCalls fates (by omega) (by omega)
        (by omega) hpending hbegun
  | partialContent start len =>
    obtain ⟨hpos, hinside⟩ := hwithin
    have hstop : checkedAdd start len = some (start + len) := if_pos (by omega)
    have hlast : checkedSub (start + len) 1 = some (start + len - 1) := if_pos (by omega)
    simp only [hstop, Option.bind_some, hlast, Option.map_some]
    refine ⟨_, rfl, Or.inr ⟨{ file with offset := start, len := len },
      ⟨rfl, ⟨rfl, rfl⟩, hinside, ?_, Or.inr ⟨rfl, start + len - 1, ?_, ?_, ?_⟩⟩, ?_⟩⟩
    · simp only [HasHeader, setContentLength_insert, HeaderMap.getAll_insert, if_true]
    · show start + len - 1 + 1 = start + len
      omega
    · show start ≤ start + len - 1
      omega
    · simp only [HasHeader, setContentLength_insert, HeaderMap.getAll_insert]
      rw [if_neg (by decide), setHeader_insert _ _ _ _ (visible_span _ _ _),
        HeaderMap.getAll_insert, if_pos rfl]
    · intro started now fates
      exact relayFileStream_serves env started now _ fileCalls fates (by simp; omega)
        (fun _ => hpos) (by simp; omega) hpending hbegun
  | unsatisfiable =>
    refine ⟨_, rfl, Or.inl ⟨rfl, rfl, rfl, ?_, ?_, .file file, rfl, fun now => ?_⟩⟩
    · simp only [HasHeader, setContentLength_insert, HeaderMap.getAll_insert, if_true]
      rfl
    · simp only [HasHeader, setContentLength_insert, HeaderMap.getAll_insert]
      have hunit : Visible "bytes */" := by decide
      rw [if_neg (by decide), setHeader_insert _ _ _ _ (hunit.append (visible_nat file.size)),
        HeaderMap.getAll_insert, if_pos rfl]
    · exact released_file env file fileCalls ⟨hsize, hlt, hoffset, hlen, hpending, hbegun⟩ now

theorem file_response_slice_three :
    let env : Env := ⟨HeaderGrammar.letters, id, fun elapsed => UInt64.ofNat elapsed⟩
    let file : FileBody := ⟨[1, 2, 3], 3, 0, 3, ⟨0, 0, false⟩⟩
    let fileCalls : CallLog := [CallRecord.new "file.stream"]
    ∃ mapped : Mapped Unit, mapFileResponse env 200 [] file
        [("range", [Utf8.encode "bytes=1-1"])] "r" false = some mapped ∧
      (Refused env file fileCalls mapped ∨ ∃ sent, Announces file sent mapped ∧
        ∀ started now fates, Serves env started now sent fileCalls fates) := by
  intro env file fileCalls
  have hopened : Opened file fileCalls := ⟨rfl, by decide, rfl, rfl, rfl, by decide⟩
  exact file_response_slice env [] [] rfl (by simp) file fileCalls hopened _ "r" false

end Response

end StuntDouble.Server
