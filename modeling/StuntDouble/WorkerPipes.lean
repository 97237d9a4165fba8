import StuntDouble.ScriptWorker
import StuntDouble.Transitions

/-!
What holds in every run of a worker and its parent, whatever is written on the pipes: which
ends of the pipes are open, that a dispatched call is served once, and that no worker outlives
its run. And which messages can be relied on to be read as they were written.
-/
namespace StuntDouble.ScriptWorker

open Channels LineReader Machine Script Transitions

section Legibility

variable (floatText : UInt64 → String) (parse : List Char → Option Json)

/-- A message of the parent that is read as it was written. -/
structure ReadsBack (message : ParentMessage) : Prop where
  short : (writeLine floatText message.toJson).length ≤ maxProtocolLineBytes
  oneLine : newline ∉ encode floatText message.toJson
  decodes : ParentMessage.decode parse (writeLine floatText message.toJson) = some message

/-- A message of the worker that is read as it was written, also without its newline, while
less of it is not read at all. -/
structure SpeaksClearly (message : WorkerMessage) : Prop where
  short : (writeLine floatText message.toJson).length ≤ maxProtocolLineBytes
  oneLine : newline ∉ encode floatText message.toJson
  decodes : WorkerMessage.decode parse (writeLine floatText message.toJson) = some message
  unterminated : WorkerMessage.decode parse (encode floatText message.toJson) = some message
  cut : ∀ cut, cut <+: encode floatText message.toJson → cut ≠ encode floatText message.toJson →
    WorkerMessage.decode parse cut = none

variable {floatText parse}

theorem readsBack_of_plain (hparse : JsonText.Standard floatText parse) {message : ParentMessage}
    (h : message.Plain)
    (hshort : (writeLine floatText message.toJson).length ≤ maxProtocolLineBytes) :
    ReadsBack floatText parse message :=
  ⟨hshort, newline_not_mem_encode (message.plain_toJson h), message.decode_toJson hparse h⟩

theorem speaksClearly_of_plain (hparse : JsonText.Standard floatText parse)
    {message : WorkerMessage} (h : message.Plain)
    (hshort : (writeLine floatText message.toJson).length ≤ maxProtocolLineBytes) :
    SpeaksClearly floatText parse message := by
  have hplain := message.plain_toJson h
  refine ⟨hshort, newline_not_mem_encode hplain, message.decode_toJson hparse h, ?_, ?_⟩
  · have htext : Utf8.decode (encode floatText message.toJson) =
        some (String.ofList (message.toJson.compactChars floatText)) := by
      rw [encode_eq, ← Utf8.encode_ofList, Utf8.decode_encode]
    have hread := hparse.reads message.toJson hplain [] (by simp)
    rw [List.append_nil] at hread
    rw [WorkerMessage.decode, htext, Option.bind_some, decodeWire, String.toList_ofList, hread]
    exact message.fromTree_toJson h
  · obtain ⟨entries, hentries⟩ := message.exists_object
    rw [hentries] at hplain ⊢
    intro cut hcut hne
    exact (decode_cut hparse hplain hcut hne).2

theorem decodeLine_of_decode {line : Bytes} {text : String} (hne : line ≠ [])
    (h : Utf8.decode line = some text) : decodeLine line = .line text := by
  cases line with
  | nil => exact absurd rfl hne
  | cons b rest =>
    unfold decodeLine
    rw [h]

theorem startJob_of_decode {E : Type} (engine : Engine E) {line : Bytes} (hne : line ≠ [])
    {script matchKind : String} {request : Json} {allowedMethods : List String}
    (h : ParentMessage.decode parse line = some (.job script request matchKind allowedMethods)) :
    startJob parse engine line = some (engine.start script request matchKind allowedMethods) := by
  obtain ⟨text, htext, hmessage⟩ := Option.bind_eq_some_iff.mp h
  unfold startJob
  rw [decodeLine_of_decode hne htext]
  simp only [hmessage]

theorem hostResponse_of_decode (wording : Wording) (name : BridgeName) {line : Bytes}
    (hne : line ≠ []) {result : Json}
    (h : ParentMessage.decode parse line = some (.hostResult result)) :
    hostResponse parse wording name line = .ok result := by
  obtain ⟨text, htext, hmessage⟩ := Option.bind_eq_some_iff.mp h
  unfold hostResponse
  rw [decodeLine_of_decode hne htext]
  simp only [hmessage]

end Legibility

section Ends

variable {floatText : UInt64 → String} {parse : List Char → Option Json} {wording : Wording}
  {E H : Type} {engine : Engine E} {dispatch : H → HostCall → H × Option Json}
  {memoryBounded : Bool} {capacity : ℕ} {s next : State E H capacity}

def Worker.gone : Worker E → Bool
  | .exited _ => true
  | _ => false

/-- What the worker still has to write, when it is writing. -/
def Worker.left : Worker E → Bytes
  | .calling _ _ left | .finishing left => left
  | _ => []

/-- The parent is in the exchange. -/
def Parent.talks : Parent → Bool
  | .sendingJob _ | .reading _ | .dispatching _ | .replying _ => true
  | _ => false

/-- Which ends of the pipes are left. -/
structure Ends (s : State E H capacity) : Prop where
  writes : s.toParent.ended = s.worker.gone
  reads : s.toWorker.closed = s.worker.gone
  speaks : s.toWorker.ended = !s.parent.talks
  listens : s.toParent.closed = !s.parent.talks

theorem start_ends (job : ParentMessage) (host : H) :
    Ends (State.start floatText job host : State E H capacity) := ⟨rfl, rfl, rfl, rfl⟩

theorem Ends.exit (h : Ends s) (success : Bool) : Ends (s.exit success) :=
  ⟨rfl, rfl, h.speaks, h.listens⟩

theorem Ends.leave (h : Ends s) {parent : Parent} (hparent : parent.talks = false) :
    Ends (s.leave parent) := by
  refine ⟨h.writes, h.reads, ?_, ?_⟩
  · show true = !parent.talks
    rw [hparent]
    rfl
  · show true = !parent.talks
    rw [hparent]
    rfl

/-- Neither party went, and each pipe has the ends that it had. -/
theorem Ends.same (h : Ends s) (hworker : next.worker.gone = s.worker.gone)
    (hparent : next.parent.talks = s.parent.talks)
    (hwrites : next.toParent.ended = s.toParent.ended)
    (hreads : next.toWorker.closed = s.toWorker.closed)
    (hspeaks : next.toWorker.ended = s.toWorker.ended)
    (hlistens : next.toParent.closed = s.toParent.closed) : Ends next := by
  refine ⟨?_, ?_, ?_, ?_⟩
  · rw [hwrites, hworker, h.writes]
  · rw [hreads, hworker, h.reads]
  · rw [hspeaks, hparent, h.speaks]
  · rw [hlistens, hparent, h.listens]

theorem compute_ends (hs : Ends s) (h : s.compute floatText parse wording engine = some next) :
    Ends next := by
  unfold State.compute at h
  split at h
  · rename_i e hworker
    have hgone : s.worker.gone = false := by rw [hworker]; rfl
    split at h
    · cases h
      exact hs.same hgone.symm rfl rfl rfl rfl rfl
    · cases h
      exact hs.same hgone.symm rfl rfl rfl rfl rfl
    · split at h
      · cases h
        exact hs.exit false
      · cases h
        exact hs.same hgone.symm rfl rfl rfl rfl rfl
  · contradiction

theorem workerWrite_ends (hs : Ends s) (h : s.workerWrite wording engine = some next) :
    Ends next := by
  unfold State.workerWrite at h
  split at h
  · rename_i e call b left hworker
    have hgone : s.worker.gone = false := by rw [hworker]; rfl
    split at h
    · rename_i pipe hsend
      have hpipe := Channel.send_accepted hsend
      cases h
      refine hs.same ?_ rfl hpipe.ended rfl rfl hpipe.closed
      rw [hgone]
      show Worker.gone (if left = [] then _ else _) = false
      split <;> rfl
    · cases h
      exact hs.same hgone.symm rfl rfl rfl rfl rfl
    · contradiction
  · rename_i b left hworker
    have hgone : s.worker.gone = false := by rw [hworker]; rfl
    split at h
    · rename_i pipe hsend
      have hpipe := Channel.send_accepted hsend
      cases h
      refine hs.same ?_ rfl hpipe.ended rfl rfl hpipe.closed
      rw [hgone]
      show Worker.gone (if left = [] then _ else _) = false
      split <;> rfl
    · cases h
      exact hs.exit false
    · contradiction
  · contradiction

theorem takeJob_ends (hs : Ends s) (hgone : s.worker.gone = false) (line : Bytes) :
    Ends (s.takeJob parse engine line) := by
  unfold State.takeJob
  split
  · exact hs.same hgone.symm rfl rfl rfl rfl rfl
  · exact hs.exit false

theorem takeResponse_ends (hs : Ends s) (hgone : s.worker.gone = false) (e : E) (call : HostCall)
    (line : Bytes) : Ends (s.takeResponse floatText parse wording engine e call line) := by
  unfold State.takeResponse
  split
  · exact hs.same hgone.symm rfl rfl rfl rfl rfl
  · exact hs.same hgone.symm rfl rfl rfl rfl rfl

theorem workerRead_ends (hs : Ends s)
    (h : s.workerRead floatText parse wording engine = some next) : Ends next := by
  unfold State.workerRead at h
  split at h
  · rename_i line hworker
    have hgone : s.worker.gone = false := by rw [hworker]; rfl
    split at h
    · contradiction
    · cases h
      exact takeJob_ends hs hgone line
    · rename_i b pipe hreceive
      have hpipe := Channel.receive_item hreceive
      have hnext : Ends { s with toWorker := pipe } :=
        hs.same rfl rfl rfl hpipe.closed hpipe.ended rfl
      split at h
      · cases h
        exact hnext.exit false
      · split at h
        · cases h
          exact takeJob_ends hnext hgone _
        · cases h
          exact hnext.same hgone.symm rfl rfl rfl rfl rfl
  · rename_i e call line hworker
    have hgone : s.worker.gone = false := by rw [hworker]; rfl
    split at h
    · contradiction
    · cases h
      exact takeResponse_ends hs hgone e call line
    · rename_i b pipe hreceive
      have hpipe := Channel.receive_item hreceive
      have hnext : Ends { s with toWorker := pipe } :=
        hs.same rfl rfl rfl hpipe.closed hpipe.ended rfl
      split at h
      · cases h
        exact hnext.same hgone.symm rfl rfl rfl rfl rfl
      · split at h
        · cases h
          exact takeResponse_ends hnext hgone e call _
        · cases h
          exact hnext.same hgone.symm rfl rfl rfl rfl rfl
  · contradiction

theorem parentWrite_ends (hs : Ends s) (h : s.parentWrite = some next) : Ends next := by
  unfold State.parentWrite at h
  split at h
  all_goals
    first
    | contradiction
    | rename_i b left hparent
      have htalks : s.parent.talks = true := by rw [hparent]; rfl
      split at h
      · rename_i pipe hsend
        have hpipe := Channel.send_accepted hsend
        cases h
        refine hs.same rfl ?_ rfl hpipe.closed hpipe.ended rfl
        rw [htalks]
        show Parent.talks (if left = [] then _ else _) = true
        split <;> rfl
      · cases h
        exact hs.leave rfl
      · contradiction

theorem takeMessage_ends (hs : Ends s) (htalks : s.parent.talks = true) (line : Bytes) :
    Ends (s.takeMessage parse line) := by
  unfold State.takeMessage
  split
  · exact hs.leave rfl
  · split
    · exact hs.leave rfl
    · exact hs.same rfl htalks.symm rfl rfl rfl rfl
    · exact hs.same rfl htalks.symm rfl rfl rfl rfl

theorem parentRead_ends (hs : Ends s) (h : s.parentRead parse = some next) : Ends next := by
  unfold State.parentRead at h
  split at h
  · rename_i line hparent
    have htalks : s.parent.talks = true := by rw [hparent]; rfl
    split at h
    · contradiction
    · split at h
      · cases h
        exact hs.leave rfl
      · cases h
        exact hs.leave rfl
      · cases h
        exact takeMessage_ends hs htalks _
    · rename_i b pipe hreceive
      have hpipe := Channel.receive_item hreceive
      have hnext : Ends { s with toParent := pipe } :=
        hs.same rfl rfl hpipe.ended rfl rfl hpipe.closed
      split at h
      · cases h
        exact hnext.leave rfl
      · split at h
        · cases h
          exact takeMessage_ends hnext htalks _
        · cases h
          exact hnext.same rfl htalks.symm rfl rfl rfl rfl
  · contradiction

theorem serve_ends (hs : Ends s) (h : s.serve floatText dispatch = some next) : Ends next := by
  unfold State.serve at h
  split at h
  · cases h
    exact hs.same rfl rfl rfl rfl rfl rfl
  · split at h
    · rename_i call hparent
      have htalks : s.parent.talks = true := by rw [hparent]; rfl
      split at h
      · rename_i host hdispatch
        cases h
        have hnext : Ends { s with host := host } := hs.same rfl rfl rfl rfl rfl rfl
        exact hnext.leave rfl
      · cases h
        exact hs.same rfl htalks.symm rfl rfl rfl rfl
    · contradiction

theorem reap_ends (hs : Ends s) (h : s.reap memoryBounded = some next) : Ends next := by
  unfold State.reap at h
  split at h
  · rename_i result hparent
    have htalks : s.parent.talks = false := by rw [hparent]; rfl
    split at h
    · cases h
      exact hs.same rfl htalks.symm rfl rfl rfl rfl
    · cases h
      exact hs.same rfl htalks.symm rfl rfl rfl rfl
    · contradiction
  · rename_i reason hparent
    have htalks : s.parent.talks = false := by rw [hparent]; rfl
    cases h
    split
    · exact hs.same rfl htalks.symm rfl rfl rfl rfl
    · exact (hs.exit false).same rfl htalks.symm rfl rfl rfl rfl
  · contradiction

theorem step_ends (hs : Ends s) {a : Action}
    (h : step floatText parse wording engine dispatch memoryBounded s a = some next) :
    Ends next := by
  cases a with
  | compute => exact compute_ends hs h
  | workerWrite => exact workerWrite_ends hs h
  | workerRead => exact workerRead_ends hs h
  | workerExit =>
    have h : s.workerExit = some next := h
    unfold State.workerExit at h
    split at h
    · cases h
      exact hs.exit true
    · contradiction
  | crash allocatorAbort =>
    have h : s.crash allocatorAbort = some next := h
    unfold State.crash at h
    split at h
    · contradiction
    · cases h
      exact (hs.exit false).same rfl rfl rfl rfl rfl rfl
  | parentWrite => exact parentWrite_ends hs h
  | parentRead => exact parentRead_ends hs h
  | serve => exact serve_ends hs h
  | reap => exact reap_ends hs h
  | deadline =>
    have h : s.deadline = some next := h
    unfold State.deadline at h
    split at h
    · cases h
      exact hs.leave rfl
    · cases h
      exact hs.leave rfl
    · cases h
      exact hs.leave rfl
    · cases h
      have hleft : Ends (s.leave (.terminating .timedOut)) := hs.leave rfl
      exact hleft.same rfl rfl rfl rfl rfl rfl
    · rename_i result hparent
      cases h
      refine hs.same rfl ?_ rfl rfl rfl rfl
      rw [hparent]
      rfl
    · contradiction
    · contradiction
  | waitError =>
    have h : s.waitError = some next := h
    unfold State.waitError at h
    split at h
    · rename_i result hparent
      cases h
      refine hs.same rfl ?_ rfl rfl rfl rfl
      rw [hparent]
      rfl
    · contradiction

end Ends

section Kinds

variable {floatText : UInt64 → String} {parse : List Char → Option Json} {wording : Wording}
  {E H : Type} {engine : Engine E} {dispatch : H → HostCall → H × Option Json}
  {memoryBounded : Bool} {capacity : ℕ} {s next : State E H capacity}

/-- The parent writes or reads. -/
def Parent.busy : Parent → Bool
  | .sendingJob _ | .reading _ | .replying _ => true
  | _ => false

/-- What a step leaves as it was, and what it changes beside the pipes. -/
inductive Kind (dispatch : H → HostCall → H × Option Json) (s next : State E H capacity) : Prop
  | worker (hgone : s.worker.gone = false) (hparent : next.parent = s.parent)
      (hhost : next.host = s.host) (horphan : next.orphan = s.orphan)
      (hmade : s.books.made <+: next.books.made)
      (hdispatched : next.books.dispatched = s.books.dispatched)
      (hanswered : next.books.answered = s.books.answered)
  | talk (hworker : next.worker = s.worker) (hbefore : s.parent.busy = true)
      (hafter : next.parent.busy = true) (hhost : next.host = s.host)
      (horphan : next.orphan = s.orphan) (hbooks : next.books = s.books)
  | dispatch (call : HostCall) (hworker : next.worker = s.worker) (hbefore : s.parent.busy = true)
      (hafter : next.parent = .dispatching call) (hhost : next.host = s.host)
      (horphan : next.orphan = s.orphan)
      (hbooks : next.books = { s.books with dispatched := s.books.dispatched ++ [call] })
  | serve (call : HostCall) (result : Json) (hworker : next.worker = s.worker)
      (hbefore : s.parent = .dispatching call) (hafter : next.parent.busy = true)
      (hdispatch : dispatch s.host call = (next.host, some result)) (hrunning : s.orphan = none)
      (horphan : next.orphan = none)
      (hbooks : next.books = { s.books with answered := s.books.answered ++ [result] })
  | refuse (call : HostCall) (hworker : next.worker = s.worker)
      (hbefore : s.parent = .dispatching call) (hafter : next.parent = .terminating .unexpected)
      (hdispatch : dispatch s.host call = (next.host, none)) (hrunning : s.orphan = none)
      (horphan : next.orphan = none) (hbooks : next.books = s.books)
  | late (call : HostCall) (hworker : next.worker = s.worker) (hparent : next.parent = s.parent)
      (hhost : next.host = (dispatch s.host call).1) (hrunning : s.orphan = some call)
      (horphan : next.orphan = none) (hbooks : next.books = s.books)
  | leave (hworker : next.worker = s.worker) (hbefore : s.parent.busy = true)
      (hafter : (∃ reason, next.parent = .terminating reason) ∨
        ∃ result, next.parent = .reaping result)
      (hhost : next.host = s.host) (horphan : next.orphan = s.orphan)
      (hbooks : next.books = s.books)
  | abandon (call : HostCall) (hworker : next.worker = s.worker)
      (hbefore : s.parent = .dispatching call) (hafter : next.parent = .terminating .timedOut)
      (hhost : next.host = s.host) (horphan : next.orphan = some call)
      (hbooks : next.books = s.books)
  | giveUp (result : FinalResult) (reason : Reason) (hworker : next.worker = s.worker)
      (hbefore : s.parent = .reaping result) (hafter : next.parent = .terminating reason)
      (hhost : next.host = s.host) (horphan : next.orphan = s.orphan)
      (hbooks : next.books = s.books)
  | succeed (result : FinalResult) (hbefore : s.parent = .reaping result)
      (hsuccess : s.worker = .exited true) (hworker : next.worker = s.worker)
      (hafter : next.parent = .returned (.ok result)) (hhost : next.host = s.host)
      (horphan : next.orphan = s.orphan) (hbooks : next.books = s.books)
  | fail (error : Error)
      (hbefore : (∃ result, s.parent = .reaping result) ∨
        ∃ reason, s.parent = .terminating reason ∧ (reason = .timedOut → error = .timedOut))
      (hworker : next.worker.gone = true) (hafter : next.parent = .returned (.error error))
      (hhost : next.host = s.host) (horphan : next.orphan = s.orphan)
      (hbooks : next.books = s.books)

theorem Kind.ofWorker (hgone : s.worker.gone = false) (hparent : next.parent = s.parent)
    (hhost : next.host = s.host) (horphan : next.orphan = s.orphan)
    (hbooks : next.books = s.books) : Kind dispatch s next :=
  .worker hgone hparent hhost horphan (by rw [hbooks]) (by rw [hbooks]) (by rw [hbooks])

theorem compute_kind (h : s.compute floatText parse wording engine = some next) :
    Kind dispatch s next := by
  unfold State.compute at h
  split at h
  · rename_i e hworker
    have hgone : s.worker.gone = false := by rw [hworker]; rfl
    split at h
    · cases h
      exact .ofWorker hgone rfl rfl rfl rfl
    · cases h
      exact .worker hgone rfl rfl rfl (List.prefix_append _ _) rfl rfl
    · split at h
      · cases h
        exact .ofWorker hgone rfl rfl rfl rfl
      · cases h
        exact .ofWorker hgone rfl rfl rfl rfl
  · contradiction

theorem workerWrite_kind (h : s.workerWrite wording engine = some next) :
    Kind dispatch s next := by
  unfold State.workerWrite at h
  split at h
  all_goals
    first
    | contradiction
    | have hgone : s.worker.gone = false := by
        rename_i hworker
        rw [hworker]
        rfl
      split at h
      · cases h
        exact .ofWorker hgone rfl rfl rfl rfl
      · cases h
        exact .ofWorker hgone rfl rfl rfl rfl
      · contradiction

theorem takeJob_kind (pipe : Channel UInt8 capacity) (hgone : s.worker.gone = false)
    (line : Bytes) :
    Kind dispatch s (State.takeJob parse engine { s with toWorker := pipe } line) := by
  unfold State.takeJob
  split
  · exact .ofWorker hgone rfl rfl rfl rfl
  · exact .ofWorker hgone rfl rfl rfl rfl

theorem takeResponse_kind (pipe : Channel UInt8 capacity) (hgone : s.worker.gone = false) (e : E)
    (call : HostCall) (line : Bytes) :
    Kind dispatch s
      (State.takeResponse floatText parse wording engine { s with toWorker := pipe } e call
        line) := by
  unfold State.takeResponse
  split
  · exact .worker hgone rfl rfl rfl List.prefix_rfl rfl rfl
  · exact .ofWorker hgone rfl rfl rfl rfl

theorem workerRead_kind (h : s.workerRead floatText parse wording engine = some next) :
    Kind dispatch s next := by
  unfold State.workerRead at h
  split at h
  · rename_i line hworker
    have hgone : s.worker.gone = false := by rw [hworker]; rfl
    split at h
    · contradiction
    · cases h
      exact takeJob_kind s.toWorker hgone line
    · rename_i b pipe hreceive
      split at h
      · cases h
        exact .ofWorker hgone rfl rfl rfl rfl
      · split at h
        · cases h
          exact takeJob_kind pipe hgone _
        · cases h
          exact .ofWorker hgone rfl rfl rfl rfl
  · rename_i e call line hworker
    have hgone : s.worker.gone = false := by rw [hworker]; rfl
    split at h
    · contradiction
    · cases h
      exact takeResponse_kind s.toWorker hgone e call line
    · rename_i b pipe hreceive
      split at h
      · cases h
        exact .ofWorker hgone rfl rfl rfl rfl
      · split at h
        · cases h
          exact takeResponse_kind pipe hgone e call _
        · cases h
          exact .ofWorker hgone rfl rfl rfl rfl
  · contradiction

theorem parentWrite_kind (h : s.parentWrite = some next) : Kind dispatch s next := by
  unfold State.parentWrite at h
  split at h
  all_goals
    first
    | contradiction
    | rename_i b left hparent
      have hbusy : s.parent.busy = true := by rw [hparent]; rfl
      split at h
      · cases h
        refine .talk rfl hbusy ?_ rfl rfl rfl
        show Parent.busy (if left = [] then _ else _) = true
        split <;> rfl
      · cases h
        exact .leave rfl hbusy (Or.inl ⟨_, rfl⟩) rfl rfl rfl
      · contradiction

theorem takeMessage_kind (pipe : Channel UInt8 capacity) (hbusy : s.parent.busy = true)
    (line : Bytes) :
    Kind dispatch s (State.takeMessage parse { s with toParent := pipe } line) := by
  unfold State.takeMessage
  split
  · exact .leave rfl hbusy (Or.inl ⟨_, rfl⟩) rfl rfl rfl
  · split
    · exact .leave rfl hbusy (Or.inl ⟨_, rfl⟩) rfl rfl rfl
    · exact .dispatch _ rfl hbusy rfl rfl rfl rfl
    · exact .talk rfl hbusy rfl rfl rfl rfl

theorem parentRead_kind (h : s.parentRead parse = some next) : Kind dispatch s next := by
  unfold State.parentRead at h
  split at h
  · rename_i line hparent
    have hbusy : s.parent.busy = true := by rw [hparent]; rfl
    split at h
    · contradiction
    · split at h
      · cases h
        exact .leave rfl hbusy (Or.inl ⟨_, rfl⟩) rfl rfl rfl
      · cases h
        exact .leave rfl hbusy (Or.inr ⟨_, rfl⟩) rfl rfl rfl
      · cases h
        exact takeMessage_kind s.toParent hbusy _
    · rename_i b pipe hreceive
      split at h
      · cases h
        exact .leave rfl hbusy (Or.inl ⟨_, rfl⟩) rfl rfl rfl
      · split at h
        · cases h
          exact takeMessage_kind pipe hbusy _
        · cases h
          exact .talk rfl hbusy rfl rfl rfl rfl
  · contradiction

theorem serve_kind (h : s.serve floatText dispatch = some next) : Kind dispatch s next := by
  unfold State.serve at h
  split at h
  · rename_i call horphan
    cases h
    exact .late call rfl rfl rfl horphan rfl rfl
  · rename_i horphan
    split at h
    · rename_i call hparent
      split at h
      · rename_i host hdispatch
        cases h
        exact .refuse call rfl hparent rfl hdispatch horphan horphan rfl
      · rename_i host result hdispatch
        cases h
        exact .serve call result rfl hparent rfl hdispatch horphan horphan rfl
    · contradiction

theorem deadline_kind (h : s.deadline = some next) : Kind dispatch s next := by
  unfold State.deadline at h
  split at h
  iterate 3
    · rename_i hparent
      cases h
      exact .leave rfl (by rw [hparent]; rfl) (Or.inl ⟨_, rfl⟩) rfl rfl rfl
  · rename_i call hparent
    cases h
    exact .abandon call rfl hparent rfl rfl rfl rfl
  · rename_i result hparent
    cases h
    exact .giveUp result _ rfl hparent rfl rfl rfl rfl
  · contradiction
  · contradiction

theorem reap_kind (h : s.reap memoryBounded = some next) : Kind dispatch s next := by
  unfold State.reap at h
  split at h
  · rename_i result hparent
    split at h
    · rename_i hworker
      cases h
      exact .succeed result hparent hworker rfl rfl rfl rfl rfl
    · rename_i hworker
      cases h
      exact .fail _ (Or.inl ⟨result, hparent⟩) (by rw [hworker]; rfl) rfl rfl rfl rfl
    · contradiction
  · rename_i reason hparent
    cases h
    have hlate : reason = .timedOut →
        givenUp memoryBounded reason s.allocatorAbort = .timedOut := by
      rintro rfl
      rfl
    split
    · rename_i success hworker
      exact .fail _ (Or.inr ⟨reason, hparent, hlate⟩) (by rw [hworker]; rfl) rfl rfl rfl rfl
    · exact .fail _ (Or.inr ⟨reason, hparent, hlate⟩) rfl rfl rfl rfl rfl
  · contradiction

theorem step_kind {a : Action}
    (h : step floatText parse wording engine dispatch memoryBounded s a = some next) :
    Kind dispatch s next := by
  cases a with
  | compute => exact compute_kind h
  | workerWrite => exact workerWrite_kind h
  | workerRead => exact workerRead_kind h
  | workerExit =>
    have h : s.workerExit = some next := h
    unfold State.workerExit at h
    split at h
    · rename_i hworker
      cases h
      exact .ofWorker (by rw [hworker]; rfl) rfl rfl rfl rfl
    · contradiction
  | crash allocatorAbort =>
    have h : s.crash allocatorAbort = some next := h
    unfold State.crash at h
    split at h
    · contradiction
    · rename_i hworker
      cases h
      refine .ofWorker ?_ rfl rfl rfl rfl
      cases hwhere : s.worker with
      | exited success => exact absurd hwhere (hworker success)
      | _ => rfl
  | parentWrite => exact parentWrite_kind h
  | parentRead => exact parentRead_kind h
  | serve => exact serve_kind h
  | reap => exact reap_kind h
  | deadline => exact deadline_kind h
  | waitError =>
    have h : s.waitError = some next := h
    unfold State.waitError at h
    split at h
    · rename_i result hparent
      cases h
      exact .giveUp result _ rfl hparent rfl rfl rfl rfl
    · contradiction

end Kinds

section Hosts

variable {floatText : UInt64 → String} {parse : List Char → Option Json} {wording : Wording}
  {E H : Type} {engine : Engine E} {dispatch : H → HostCall → H × Option Json}
  {memoryBounded : Bool} {capacity : ℕ} {s next : State E H capacity} {first : H}

/-- The call that was dispatched and that the host has not served yet. -/
def State.running (s : State E H capacity) : Option HostCall :=
  match s.orphan, s.parent with
  | some call, _ => some call
  | none, .dispatching call => some call
  | none, _ => none

theorem running_of_orphan {call : HostCall} (h : s.orphan = some call) :
    s.running = some call := by
  unfold State.running
  rw [h]

theorem running_of_dispatching {call : HostCall} (horphan : s.orphan = none)
    (h : s.parent = .dispatching call) : s.running = some call := by
  unfold State.running
  rw [horphan, h]

/-- Without a call that is dispatched only an orphan can be running. -/
theorem running_eq_orphan (h : ∀ call, s.parent ≠ .dispatching call) : s.running = s.orphan := by
  unfold State.running
  split
  · rename_i call horphan
    exact horphan.symm
  · rename_i call horphan hparent
    exact absurd hparent (h call)
  · rename_i horphan hother
    exact horphan.symm

theorem running_same (hbefore : ∀ call, s.parent ≠ .dispatching call)
    (hafter : ∀ call, next.parent ≠ .dispatching call) (horphan : next.orphan = s.orphan) :
    next.running = s.running := by
  rw [running_eq_orphan hbefore, running_eq_orphan hafter, horphan]

theorem Parent.not_dispatching_of_busy {parent : Parent} (h : parent.busy = true)
    (call : HostCall) : parent ≠ .dispatching call := by
  intro hparent
  rw [hparent] at h
  contradiction

theorem Parent.talks_of_busy {parent : Parent} (h : parent.busy = true) :
    parent.talks = true := by
  cases parent with
  | sendingJob left | reading line | replying left => rfl
  | dispatching call | reaping result | terminating reason | returned outcome => contradiction

/-- The deadline passed before the parent was done. -/
def State.Late (s : State E H capacity) : Prop :=
  s.parent = .terminating .timedOut ∨ s.parent = .returned (.error .timedOut)

/-- The host served the calls that were dispatched, but one that still runs, and it is what
they made of it. -/
structure Hosted (dispatch : H → HostCall → H × Option Json) (first : H)
    (s : State E H capacity) : Prop where
  served : ∃ served, s.books.dispatched = served ++ s.running.toList ∧
    s.host = final dispatch first served ∧
      s.books.answered.map some <+: outputs dispatch first served ∧
        (s.parent.talks = true → s.books.answered.map some = outputs dispatch first served)
  late : ∀ call, s.orphan = some call → s.Late

theorem Hosted.not_orphaned (hs : Hosted dispatch first s) (h : ¬s.Late) : s.orphan = none :=
  Option.eq_none_iff_forall_ne_some.mpr fun call horphan => h (hs.late call horphan)

theorem Hosted.orphaned (hs : Hosted dispatch first s) (h : s.parent.talks = true) :
    s.orphan = none := by
  apply hs.not_orphaned
  rintro (hparent | hparent)
  · rw [hparent] at h
    contradiction
  · rw [hparent] at h
    contradiction

theorem Hosted.not_orphaned_of_reaping (hs : Hosted dispatch first s) {result : FinalResult}
    (h : s.parent = .reaping result) : s.orphan = none := by
  apply hs.not_orphaned
  rintro (hparent | hparent)
  · rw [h] at hparent
    contradiction
  · rw [h] at hparent
    contradiction

theorem late_of_not_orphaned {call : HostCall} (horphan : s.orphan = none) :
    s.orphan = some call → s.Late := by
  rw [horphan]
  nofun

theorem start_hosted (job : ParentMessage) :
    Hosted dispatch first (State.start floatText job first : State E H capacity) :=
  ⟨⟨[], rfl, rfl, List.prefix_rfl, fun _ => rfl⟩, nofun⟩

/-- Nothing was dispatched, and nothing was served. -/
theorem Hosted.same (hs : Hosted dispatch first s)
    (hdispatched : next.books.dispatched = s.books.dispatched)
    (hanswered : next.books.answered = s.books.answered) (hhost : next.host = s.host)
    (hrunning : next.running = s.running)
    (htalks : next.parent.talks = true → s.parent.talks = true)
    (hlate : ∀ call, next.orphan = some call → next.Late) : Hosted dispatch first next := by
  obtain ⟨⟨served, hserved, hfinal, hanswers, hall⟩, -⟩ := hs
  refine ⟨⟨served, ?_, ?_, ?_, ?_⟩, hlate⟩
  · rw [hdispatched, hrunning, hserved]
  · rw [hhost, hfinal]
  · rw [hanswered]
    exact hanswers
  · intro h
    rw [hanswered]
    exact hall (htalks h)

/-- The call that was running is served. -/
theorem served_snoc {served : List HostCall} (call : HostCall) (result : Option Json)
    (hdispatch : dispatch (final dispatch first served) call = (next.host, result)) :
    next.host = final dispatch first (served ++ [call]) ∧
      outputs dispatch first (served ++ [call]) = outputs dispatch first served ++ [result] := by
  constructor
  · rw [final_append]
    simp only [final, hdispatch]
  · rw [outputs, outputs, history_append, List.map_append]
    simp only [history, hdispatch, List.map_cons, List.map_nil]

/-- The call that was running is served, and answered if the parent still waits for it. -/
theorem Hosted.serves (hs : Hosted dispatch first s) {call : HostCall} {result : Option Json}
    (hrunning : s.running = some call) (hdispatch : dispatch s.host call = (next.host, result))
    (hdispatched : next.books.dispatched = s.books.dispatched) (hidle : next.running = none)
    (horphan : next.orphan = none)
    (hanswered : next.books.answered = s.books.answered ∧ next.parent.talks = false ∨
      s.parent.talks = true ∧
        ∃ answer, result = some answer ∧ next.books.answered = s.books.answered ++ [answer]) :
    Hosted dispatch first next := by
  obtain ⟨served, hserved, hfinal, hanswers, hall⟩ := hs.served
  rw [hrunning] at hserved
  rw [hfinal] at hdispatch
  obtain ⟨hhost, houtputs⟩ := served_snoc call result hdispatch
  have hlast : next.books.dispatched = served ++ [call] ++ next.running.toList := by
    rw [hdispatched, hidle, hserved]
    simp
  refine ⟨⟨served ++ [call], hlast, hhost, ?_⟩, fun _ => late_of_not_orphaned horphan⟩
  rcases hanswered with ⟨hsame, hquiet⟩ | ⟨htalks, answer, rfl, hmore⟩
  · rw [hsame, houtputs]
    refine ⟨hanswers.trans (List.prefix_append _ _), ?_⟩
    rw [hquiet]
    nofun
  · have heq : next.books.answered.map some = outputs dispatch first (served ++ [call]) := by
      rw [hmore, houtputs, List.map_append, hall htalks]
      rfl
    exact ⟨by rw [heq], fun _ => heq⟩

/-- The parent has left the exchange, and the call that it left running still runs. -/
theorem Hosted.leaves (hs : Hosted dispatch first s) (hbooks : next.books = s.books)
    (hhost : next.host = s.host) (hrunning : next.running = s.running)
    (hquiet : next.parent.talks = false) (hlate : ∀ call, next.orphan = some call → next.Late) :
    Hosted dispatch first next := by
  refine hs.same (by rw [hbooks]) (by rw [hbooks]) hhost hrunning ?_ hlate
  rw [hquiet]
  nofun

theorem step_hosted {a : Action} (hs : Hosted dispatch first s)
    (h : step floatText parse wording engine dispatch memoryBounded s a = some next) :
    Hosted dispatch first next := by
  have hkind : Kind dispatch s next := step_kind h
  cases hkind with
  | worker hgone hparent hhost horphan hmade hdispatched hanswered =>
    refine hs.same hdispatched hanswered hhost ?_ ?_ ?_
    · unfold State.running
      rw [horphan, hparent]
    · rw [hparent]
      exact id
    · intro call hcall
      unfold State.Late
      rw [hparent]
      exact hs.late call (horphan.symm.trans hcall)
  | talk hworker hbefore hafter hhost horphan hbooks =>
    have htalks := Parent.talks_of_busy hbefore
    refine hs.same (by rw [hbooks]) (by rw [hbooks]) hhost ?_ (fun _ => htalks) ?_
    · exact running_same (Parent.not_dispatching_of_busy hbefore)
        (Parent.not_dispatching_of_busy hafter) horphan
    · intro call
      exact late_of_not_orphaned (horphan.trans (hs.orphaned htalks))
  | dispatch call hworker hbefore hafter hhost horphan hbooks =>
    have htalks := Parent.talks_of_busy hbefore
    have hnone := hs.orphaned htalks
    obtain ⟨served, hserved, hfinal, hanswers, hall⟩ := hs.served
    rw [running_eq_orphan (Parent.not_dispatching_of_busy hbefore), hnone] at hserved
    rw [hnone] at horphan
    refine ⟨⟨served, ?_, by rw [hhost, hfinal], by rw [hbooks]; exact hanswers, ?_⟩, ?_⟩
    · rw [hbooks, running_of_dispatching horphan hafter, hserved]
      simp
    · intro _
      rw [hbooks]
      exact hall htalks
    · intro other
      exact late_of_not_orphaned horphan
  | serve call result hworker hbefore hafter hdispatch hrunning horphan hbooks =>
    have htalks : s.parent.talks = true := by rw [hbefore]; rfl
    have hidle : next.running = none :=
      (running_eq_orphan (Parent.not_dispatching_of_busy hafter)).trans horphan
    refine hs.serves (running_of_dispatching hrunning hbefore) hdispatch (by rw [hbooks]) hidle
      horphan (Or.inr ⟨htalks, result, rfl, ?_⟩)
    rw [hbooks]
  | refuse call hworker hbefore hafter hdispatch hrunning horphan hbooks =>
    have hidle : next.running = none := (running_eq_orphan (by simp [hafter])).trans horphan
    refine hs.serves (running_of_dispatching hrunning hbefore) hdispatch (by rw [hbooks]) hidle
      horphan (Or.inl ⟨by rw [hbooks], ?_⟩)
    rw [hafter]
    rfl
  | late call hworker hparent hhost hrunning horphan hbooks =>
    have hquiet : s.parent.talks = false := by
      rcases hs.late call hrunning with hlate | hlate
      · rw [hlate]
        rfl
      · rw [hlate]
        rfl
    have hidle : next.running = none := by
      rw [running_eq_orphan, horphan]
      intro other hother
      rw [← hparent, hother] at hquiet
      contradiction
    have hdispatch : dispatch s.host call = (next.host, (dispatch s.host call).2) := by rw [hhost]
    refine hs.serves (running_of_orphan hrunning) hdispatch (by rw [hbooks]) hidle horphan
      (Or.inl ⟨by rw [hbooks], ?_⟩)
    rw [hparent]
    exact hquiet
  | leave hworker hbefore hafter hhost horphan hbooks =>
    have hnone := horphan.trans (hs.orphaned (Parent.talks_of_busy hbefore))
    have hquiet : next.parent.talks = false ∧ ∀ call, next.parent ≠ .dispatching call := by
      rcases hafter with ⟨reason, hafter⟩ | ⟨result, hafter⟩
      · rw [hafter]
        exact ⟨rfl, by simp⟩
      · rw [hafter]
        exact ⟨rfl, by simp⟩
    exact hs.leaves hbooks hhost
      (running_same (Parent.not_dispatching_of_busy hbefore) hquiet.2 horphan) hquiet.1
      fun _ => late_of_not_orphaned hnone
  | abandon call hworker hbefore hafter hhost horphan hbooks =>
    have hnone := hs.orphaned (by rw [hbefore]; rfl)
    have hrunning : next.running = s.running := by
      rw [running_of_orphan horphan, running_of_dispatching hnone hbefore]
    exact hs.leaves hbooks hhost hrunning (by rw [hafter]; rfl) fun _ _ => Or.inl hafter
  | giveUp result reason hworker hbefore hafter hhost horphan hbooks =>
    have hnone := horphan.trans (hs.not_orphaned_of_reaping hbefore)
    exact hs.leaves hbooks hhost (running_same (by simp [hbefore]) (by simp [hafter]) horphan)
      (by rw [hafter]; rfl) fun _ => late_of_not_orphaned hnone
  | succeed result hbefore hsuccess hworker hafter hhost horphan hbooks =>
    have hnone := horphan.trans (hs.not_orphaned_of_reaping hbefore)
    exact hs.leaves hbooks hhost (running_same (by simp [hbefore]) (by simp [hafter]) horphan)
      (by rw [hafter]; rfl) fun _ => late_of_not_orphaned hnone
  | fail error hbefore hworker hafter hhost horphan hbooks =>
    have hother : ∀ call, s.parent ≠ .dispatching call := by
      rcases hbefore with ⟨result, hbefore⟩ | ⟨reason, hbefore, -⟩
      · simp [hbefore]
      · simp [hbefore]
    refine hs.leaves hbooks hhost (running_same hother (by simp [hafter]) horphan)
      (by rw [hafter]; rfl) ?_
    intro call hcall
    rw [horphan] at hcall
    rcases hbefore with ⟨result, hbefore⟩ | ⟨reason, hbefore, herror⟩
    · rw [hs.not_orphaned_of_reaping hbefore] at hcall
      contradiction
    · rcases hs.late call hcall with hparent | hparent
      · rw [hbefore] at hparent
        cases hparent
        rw [State.Late, hafter, herror rfl]
        exact Or.inr rfl
      · rw [hbefore] at hparent
        contradiction

/-- A run that has returned has no worker any more, and a success is that of the process. -/
def Reaped (s : State E H capacity) : Prop :=
  (∀ outcome, s.parent = .returned outcome → s.worker.gone = true) ∧
    ∀ result, s.parent = .returned (.ok result) → s.worker = .exited true

theorem Reaped.of_not_returned (h : ∀ outcome, s.parent ≠ .returned outcome) : Reaped s :=
  ⟨fun outcome houtcome => absurd houtcome (h outcome),
    fun result hresult => absurd hresult (h (.ok result))⟩

theorem step_reaped {a : Action} (hs : Reaped s)
    (h : step floatText parse wording engine dispatch memoryBounded s a = some next) :
    Reaped next := by
  have hkind : Kind dispatch s next := step_kind h
  have hsame (hworker : next.worker = s.worker) (hparent : next.parent = s.parent) :
      Reaped next := by
    unfold Reaped
    rw [hworker, hparent]
    exact hs
  cases hkind with
  | worker hgone hparent =>
    apply Reaped.of_not_returned
    intro outcome houtcome
    rw [hparent] at houtcome
    have hother := hs.1 outcome houtcome
    rw [hgone] at hother
    contradiction
  | talk hworker hbefore hafter | serve call result hworker hbefore hafter =>
    apply Reaped.of_not_returned
    intro outcome houtcome
    rw [houtcome] at hafter
    contradiction
  | dispatch call hworker hbefore hafter | refuse call hworker hbefore hafter
  | abandon call hworker hbefore hafter | giveUp result reason hworker hbefore hafter =>
    apply Reaped.of_not_returned
    intro outcome houtcome
    rw [houtcome] at hafter
    contradiction
  | leave hworker hbefore hafter =>
    apply Reaped.of_not_returned
    intro outcome houtcome
    rw [houtcome] at hafter
    rcases hafter with ⟨reason, hafter⟩ | ⟨result, hafter⟩ <;> contradiction
  | late call hworker hparent => exact hsame hworker hparent
  | succeed result hbefore hsuccess hworker hafter =>
    rw [hsuccess] at hworker
    unfold Reaped
    rw [hworker]
    exact ⟨fun _ _ => rfl, fun _ _ => rfl⟩
  | fail error hbefore hworker hafter =>
    refine ⟨fun _ _ => hworker, ?_⟩
    intro result hresult
    rw [hafter] at hresult
    cases hresult

end Hosts

end StuntDouble.ScriptWorker
