import StuntDouble.LineReads
import StuntDouble.WorkerRuns

/-!
The exchange of a run, byte by byte, and the exchange as one function of all that the worker
wrote. A run in which the parent gets a result is a call of that function: it returns the same
result, with the same calls dispatched, the same messages sent and the same host.
-/
namespace StuntDouble.ScriptWorker

open Channels LineReader Machine Script Transitions

section Sessions

variable {decode : String → Option Wire} {H : Type} {dispatch : H → HostCall → H × Option Json}
  {fates : Fates} {reader : Reader}

theorem readLimitedLine_isLine {limit : ℕ} {line rest : Bytes} (hline : IsLine limit line)
    (hbytes : reader.bytes = line ++ rest) :
    (readLimitedLine limit reader).1 = decodeLine line ∧
      (readLimitedLine limit reader).2.bytes = rest := by
  obtain ⟨hshort, body, rfl, hbody⟩ := hline
  obtain ⟨hread, hnext⟩ := readLimitedLine_toAsync limit reader
  have hterminated := readLimitedLineAsync_terminated limit hbody
    (by rw [Reader.toAsync_bytes, hbytes, List.append_assoc, List.singleton_append])
  rw [if_neg (by omega), ← hnext, Reader.toAsync_bytes, ← hread] at hterminated
  exact hterminated

theorem readLimitedLine_isUnterminated {limit : ℕ} {line : Bytes}
    (hline : IsUnterminated limit line) (hbytes : reader.bytes = line)
    (htail : reader.tail = .eof) :
    (readLimitedLine limit reader).1 = decodeLine line ∧
      (readLimitedLine limit reader).2.bytes = [] := by
  obtain ⟨hshort, -, hnot⟩ := hline
  obtain ⟨hread, hnext⟩ := readLimitedLine_toAsync limit reader
  have hrest := readLimitedLineAsync_rest limit
    (by rw [Reader.toAsync_bytes, hbytes]; exact hnot)
  rw [Reader.toAsync_bytes, hbytes, if_neg (by omega), ← hnext, Reader.toAsync_bytes,
    ← hread] at hrest
  have hlast : lastRead reader.toAsync.tail line = decodeLine line := by
    show lastRead reader.tail line = decodeLine line
    rw [htail]
    rfl
  rw [hlast] at hrest
  exact hrest

/-- A reader of these bytes, which end there. -/
theorem exists_reader (bytes : Bytes) : ∃ reader : Reader, reader.bytes = bytes ∧
    reader.tail = .eof := by
  cases bytes with
  | nil => exact ⟨⟨[], .eof⟩, rfl, rfl⟩
  | cons b rest => exact ⟨⟨[⟨b :: rest, by simp⟩], .eof⟩, by simp [Reader.bytes], rfl⟩

/-- A line that ends with a newline, or with the stream. -/
theorem readLimitedLine_whole {limit : ℕ} {line rest : Bytes}
    (hline : IsLine limit line ∨ (IsUnterminated limit line ∧ rest = [] ∧ reader.tail = .eof))
    (hbytes : reader.bytes = line ++ rest) :
    (readLimitedLine limit reader).1 = decodeLine line ∧
      (readLimitedLine limit reader).2.bytes = rest := by
  rcases hline with hline | ⟨hline, rfl, htail⟩
  · exact readLimitedLine_isLine hline hbytes
  · exact readLimitedLine_isUnterminated hline (hbytes.trans (List.append_nil line)) htail

theorem readLimitedLine_nothing {limit : ℕ} (hbytes : reader.bytes = [])
    (htail : reader.tail = .eof) : (readLimitedLine limit reader).1 = .eof := by
  obtain ⟨hread, -⟩ := readLimitedLine_toAsync limit reader
  have hrest := readLimitedLineAsync_rest limit
    (by rw [Reader.toAsync_bytes, hbytes]; simp)
  rw [Reader.toAsync_bytes, hbytes, if_neg (by simp), ← hread] at hrest
  rw [hrest.1]
  show lastRead reader.tail [] = .eof
  rw [htail]
  rfl

/-- Every await of the exchange ends in time, and no write breaks. -/
def Calm (fates : Fates) : Prop := ∀ n, fates.elapses n = false ∧ fates.breaks n = false

/-- The same of the first awaits. -/
def CalmTo (fates : Fates) (bound : ℕ) : Prop :=
  ∀ n < bound, fates.elapses n = false ∧ fates.breaks n = false

theorem Calm.to (h : Calm fates) (bound : ℕ) : CalmTo fates bound := fun n _ => h n

theorem CalmTo.mono {bound more : ℕ} (h : CalmTo fates more) (hle : bound ≤ more) :
    CalmTo fates bound := fun n hn => h n (by omega)

theorem decodeLine_told {line : Bytes} {message : WorkerMessage} (hne : line ≠ [])
    (h : Says decode line message) :
    ∃ text, decodeLine line = .line text ∧
      (decode text).bind WorkerMessage.ofWire = some message := by
  obtain ⟨text, htext, hmessage⟩ := h
  refine ⟨text, ?_, hmessage⟩
  cases line with
  | nil => exact absurd rfl hne
  | cons b rest =>
    unfold decodeLine
    rw [htext]

theorem isLine_ne_nil {limit : ℕ} {line : Bytes} (h : IsLine limit line) : line ≠ [] := by
  obtain ⟨-, body, hbody, -⟩ := h
  simp [hbody]

/-- A turn of the exchange in time: a call is served and answered. -/
theorem exchangeLoop_call (pump : Pump H) (hcalm : CalmTo fates (pump.awaits + 3)) {text : String}
    {name : BridgeName} {payload result : Json} {host : H} (hnone : pump.finalResult = none)
    (hread : (readLimitedLine maxProtocolLineBytes reader).1 = .line text)
    (hmessage : (decode text).bind WorkerMessage.ofWire = some (.hostCall name payload))
    (hdispatch : dispatch pump.host ⟨name, payload⟩ = (host, some result)) :
    exchangeLoop decode dispatch fates pump reader =
      exchangeLoop decode dispatch fates
        { pump with
          host := host
          awaits := pump.awaits + 3
          dispatched := pump.dispatched ++ [⟨name, payload⟩]
          sent := pump.sent ++ [.hostResult result] }
        (readLimitedLine maxProtocolLineBytes reader).2 := by
  rw [exchangeLoop, if_neg (by rw [(hcalm _ (by omega)).1]; simp)]
  split
  all_goals
    rename_i hother
    rw [hread] at hother
    cases hother
  simp only [hnone, hmessage, answerCall, (hcalm (pump.awaits + 1) (by omega)).1,
    hcalm (pump.awaits + 2) (by omega), hdispatch]
  rfl

/-- A turn of the exchange in time: the result is held. -/
theorem exchangeLoop_result (pump : Pump H) (hcalm : CalmTo fates (pump.awaits + 1)) {text : String}
    {result : FinalResult} (hnone : pump.finalResult = none)
    (hread : (readLimitedLine maxProtocolLineBytes reader).1 = .line text)
    (hmessage : (decode text).bind WorkerMessage.ofWire = some (.finalResult result)) :
    exchangeLoop decode dispatch fates pump reader =
      exchangeLoop decode dispatch fates
        { pump with finalResult := some result, awaits := pump.awaits + 1 }
        (readLimitedLine maxProtocolLineBytes reader).2 := by
  rw [exchangeLoop, if_neg (by rw [(hcalm _ (by omega)).1]; simp)]
  split
  all_goals
    rename_i hother
    rw [hread] at hother
    cases hother
  simp only [hnone, hmessage]

theorem exchangeLoop_eof (pump : Pump H) (hcalm : CalmTo fates (pump.awaits + 1))
    {result : FinalResult}
    (hheld : pump.finalResult = some result)
    (hread : (readLimitedLine maxProtocolLineBytes reader).1 = .eof) :
    exchangeLoop decode dispatch fates pump reader = (.final result, pump) := by
  rw [exchangeLoop, if_neg (by rw [(hcalm _ (by omega)).1]; simp)]
  split
  all_goals
    rename_i hother
    rw [hread] at hother
    cases hother
  simp only [hheld]

/-- Lines of host calls. -/
inductive CallLines (decode : String → Option Wire) : Bytes → List HostCall → Prop
  | nil : CallLines decode [] []
  | snoc {front line : Bytes} {calls : List HostCall} {call : HostCall}
      (h : CallLines decode front calls) (hline : IsLine maxProtocolLineBytes line)
      (hspeaks : Says decode line (.hostCall call.name call.payload)) :
      CallLines decode (front ++ line) (calls ++ [call])

/-- Of calls that were all answered the last one was. -/
theorem answers_snoc {first : H} {calls : List HostCall} {call : HostCall} {results : List Json}
    (h : outputs dispatch first (calls ++ [call]) = results.map some) :
    ∃ before answer, results = before ++ [answer] ∧
      outputs dispatch first calls = before.map some ∧
        dispatch (final dispatch first calls) call =
          (final dispatch first (calls ++ [call]), some answer) := by
  rw [outputs, history_append, List.map_append] at h
  obtain ⟨before, after, hsplit, hbefore, hafter⟩ := List.map_eq_append_iff.mp h.symm
  simp only [history, List.map_cons, List.map_nil] at hafter
  obtain ⟨answer, rfl, hanswer⟩ := List.map_eq_singleton_iff.mp hafter
  refine ⟨before, answer, hsplit, hbefore.symm, ?_⟩
  rw [final_append, hanswer]
  rfl

/-- Lines of host calls are served and answered, one behind the other. -/
theorem exchangeLoop_of_callLines {front rest : Bytes} {calls : List HostCall}
    (h : CallLines decode front calls) (pump : Pump H)
    (hcalm : CalmTo fates (pump.awaits + 3 * calls.length)) {results : List Json}
    (hnone : pump.finalResult = none) (hbytes : reader.bytes = front ++ rest)
    (hresults : outputs dispatch pump.host calls = results.map some) :
    ∃ next : Reader, next.bytes = rest ∧ next.tail = reader.tail ∧
      exchangeLoop decode dispatch fates pump reader =
        exchangeLoop decode dispatch fates
          { pump with
            host := final dispatch pump.host calls
            awaits := pump.awaits + 3 * calls.length
            dispatched := pump.dispatched ++ calls
            sent := pump.sent ++ results.map .hostResult } next := by
  induction h generalizing rest results with
  | nil =>
    cases results with
    | nil => exact ⟨reader, hbytes, rfl, by simp [final]⟩
    | cons answer results => simp [outputs, history] at hresults
  | @snoc front line calls call h hline hspeaks ih =>
    obtain ⟨before, answer, rfl, hbefore, hdispatch⟩ := answers_snoc hresults
    rw [List.length_append, List.length_singleton] at hcalm ⊢
    have hfront : reader.bytes = front ++ (line ++ rest) := by rw [hbytes, List.append_assoc]
    obtain ⟨next, hnext, htail, hloop⟩ := ih (hcalm.mono (by omega)) hfront hbefore
    obtain ⟨text, htext, hmessage⟩ := decodeLine_told (isLine_ne_nil hline) hspeaks
    obtain ⟨hread, hafter⟩ := readLimitedLine_isLine hline hnext
    rw [htext] at hread
    refine ⟨_, hafter, (readLimitedLine_tail _ _).trans htail, hloop.trans ?_⟩
    refine (exchangeLoop_call ⟨final dispatch pump.host calls, pump.awaits + 3 * calls.length,
      pump.finalResult, pump.dispatched ++ calls, pump.sent ++ before.map .hostResult,
      pump.orphan⟩ ?_ hnone hread hmessage hdispatch).trans ?_
    · apply hcalm.mono
      show pump.awaits + 3 * calls.length + 3 ≤ _
      omega
    · congr 1
      simp [Nat.mul_add, Nat.add_assoc]

/-- Behind the calls the result is held. -/
theorem exchangeLoop_of_result {front last rest : Bytes} {calls : List HostCall}
    {result : FinalResult} (h : CallLines decode front calls)
    (hlast : IsLine maxProtocolLineBytes last ∨
      (IsUnterminated maxProtocolLineBytes last ∧ rest = [] ∧ reader.tail = .eof))
    (hspeaks : Says decode last (.finalResult result)) (pump : Pump H)
    (hcalm : CalmTo fates (pump.awaits + 3 * calls.length + 1)) {results : List Json}
    (hnone : pump.finalResult = none) (hbytes : reader.bytes = front ++ (last ++ rest))
    (hresults : outputs dispatch pump.host calls = results.map some) :
    ∃ next : Reader, next.bytes = rest ∧ next.tail = reader.tail ∧
      exchangeLoop decode dispatch fates pump reader =
        exchangeLoop decode dispatch fates
          { pump with
            host := final dispatch pump.host calls
            awaits := pump.awaits + 3 * calls.length + 1
            finalResult := some result
            dispatched := pump.dispatched ++ calls
            sent := pump.sent ++ results.map .hostResult } next := by
  obtain ⟨middle, hmiddle, htail, hloop⟩ :=
    exchangeLoop_of_callLines h pump (hcalm.mono (by omega)) hnone hbytes hresults
  obtain ⟨hread, hafter⟩ := readLimitedLine_whole (by rwa [htail]) hmiddle
  have hne : last ≠ [] := by
    rcases hlast with hlast | hlast
    · exact isLine_ne_nil hlast
    · exact hlast.1.2.1
  obtain ⟨text, htext, hmessage⟩ := decodeLine_told hne hspeaks
  rw [htext] at hread
  refine ⟨_, hafter, (readLimitedLine_tail _ _).trans htail, hloop.trans ?_⟩
  exact exchangeLoop_result _ hcalm hnone hread hmessage

end Sessions

section Streams

variable {E H : Type} {setup : Setup E H} {capacity : ℕ} {s next : State E H capacity}

def Parent.line : Parent → Bytes
  | .reading line => line
  | _ => []

/-- No call comes before the job, and a dispatch or a reply comes after one. -/
def Parent.Fits (calls : List HostCall) : Parent → Prop
  | .sendingJob _ => calls = []
  | .dispatching _ | .replying _ => calls ≠ []
  | _ => True

/-- The reading of messages that a setup has. -/
def Setup.decode (setup : Setup E H) : String → Option Wire := decodeWire setup.parse

/-- What a parent that has not given up read. A call without its newline is the last thing
that a worker writes, and no result can follow it. -/
inductive Heard (setup : Setup E H) (s : State E H capacity) : Prop
  | calling {front : Bytes} (htalks : s.parent.talks = true) (hfinal : s.finalResult = none)
      (hcalls : CallLines setup.decode front s.books.dispatched)
      (hreceived : s.toParent.received = front ++ s.parent.line)
      (hline : newline ∉ s.parent.line) (hshort : s.parent.line.length ≤ maxProtocolLineBytes)
      (hfits : s.parent.Fits s.books.dispatched)
  | ended {front line : Bytes} {calls : List HostCall} {call : HostCall}
      (htalks : s.parent.talks = true) (hfinal : s.finalResult = none)
      (hnothing : s.parent.line = []) (hqueue : s.toParent.queue = [])
      (hgone : s.worker.gone = true) (hfits : s.parent.Fits s.books.dispatched)
      (hcalls : CallLines setup.decode front calls)
      (hline : IsUnterminated maxProtocolLineBytes line)
      (hspeaks : Says setup.decode line (.hostCall call.name call.payload))
      (hdispatched : s.books.dispatched = calls ++ [call])
      (hreceived : s.toParent.received = front ++ line)
  | held {front last line : Bytes} {result : FinalResult} (hparent : s.parent = .reading line)
      (hfinal : s.finalResult = some result)
      (hcalls : CallLines setup.decode front s.books.dispatched)
      (hlast : IsLine maxProtocolLineBytes last ∨ (IsUnterminated maxProtocolLineBytes last ∧
        line = [] ∧ s.toParent.queue = [] ∧ s.worker.gone = true))
      (hspeaks : Says setup.decode last (.finalResult result))
      (hreceived : s.toParent.received = front ++ (last ++ line))
      (hline : newline ∉ line) (hshort : line.length ≤ maxProtocolLineBytes)
  | settled {front last : Bytes} {result : FinalResult}
      (hparent : s.parent = .reaping result ∨ s.parent = .returned (.ok result))
      (hcalls : CallLines setup.decode front s.books.dispatched)
      (hlast : IsLine maxProtocolLineBytes last ∨ IsUnterminated maxProtocolLineBytes last)
      (hspeaks : Says setup.decode last (.finalResult result))
      (hreceived : s.toParent.received = front ++ last) (hqueue : s.toParent.queue = [])
      (hgone : s.worker.gone = true)

/-- What a parent that has not given up wrote and read. -/
structure Relayed (setup : Setup E H) (s : State E H capacity) : Prop where
  told : s.toWorker.sent ++ s.parent.left =
    setup.jobLine ++ (s.books.answered.map setup.replyLine).flatten
  heard : Heard setup s

theorem start_relayed : Relayed setup (setup.start : State E H capacity) :=
  ⟨by simp [Setup.start, State.start, Setup.jobLine, Parent.left, Channel.new],
    .calling rfl rfl .nil rfl (by simp [Setup.start, State.start, Parent.line]) (by
      simp [Setup.start, State.start, Parent.line]) rfl⟩

/-- A step of a worker. -/
structure WorkerOnly (s next : State E H capacity) : Prop where
  alive : s.worker.gone = false
  parent : next.parent = s.parent
  finalResult : next.finalResult = s.finalResult
  host : next.host = s.host
  orphan : next.orphan = s.orphan
  received : next.toParent.received = s.toParent.received
  sent : next.toWorker.sent = s.toWorker.sent
  dispatched : next.books.dispatched = s.books.dispatched
  answered : next.books.answered = s.books.answered

theorem WorkerOnly.relayed (h : WorkerOnly s next) (hs : Relayed setup s) :
    Relayed setup next := by
  obtain ⟨halive, hparent, hfinal, -, -, hreceived, hsent, hdispatched, hanswered⟩ := h
  obtain ⟨htold, hheard⟩ := hs
  refine ⟨by rw [hsent, hparent, hanswered, htold], ?_⟩
  cases hheard with
  | calling htalks hnone hcalls hread hline hshort hfits =>
    refine .calling (by rw [hparent]; exact htalks) (by rw [hfinal]; exact hnone) ?_
      (by rw [hreceived, hparent]; exact hread) (by rw [hparent]; exact hline)
      (by rw [hparent]; exact hshort) (by rw [hparent, hdispatched]; exact hfits)
    rw [hdispatched]
    exact hcalls
  | @held front last line result hreading hsome hcalls hlast hspeaks hread hline hshort =>
    have hwhole : IsLine maxProtocolLineBytes last := by
      rcases hlast with hlast | ⟨-, -, -, hgone⟩
      · exact hlast
      · rw [halive] at hgone
        contradiction
    refine .held (by rw [hparent]; exact hreading) (by rw [hfinal]; exact hsome) ?_
      (Or.inl hwhole) hspeaks (by rw [hreceived]; exact hread) hline hshort
    rw [hdispatched]
    exact hcalls
  | ended htalks hnone hnothing hqueue hgone
  | settled hplace hcalls hlast hspeaks hread hqueue hgone =>
    rw [halive] at hgone
    contradiction

theorem WorkerOnly.exit (hgone : s.worker.gone = false) (success : Bool) :
    WorkerOnly s (s.exit success) := ⟨hgone, rfl, rfl, rfl, rfl, rfl, rfl, rfl, rfl⟩

theorem compute_only {floatText : UInt64 → String} {parse : List Char → Option Json}
    {wording : Wording} {engine : Engine E}
    (h : s.compute floatText parse wording engine = some next) : WorkerOnly s next := by
  unfold State.compute at h
  split at h
  · rename_i e hworker
    have hgone : s.worker.gone = false := by rw [hworker]; rfl
    split at h
    · cases h
      exact ⟨hgone, rfl, rfl, rfl, rfl, rfl, rfl, rfl, rfl⟩
    · cases h
      exact ⟨hgone, rfl, rfl, rfl, rfl, rfl, rfl, rfl, rfl⟩
    · split at h
      · cases h
        exact .exit hgone false
      · cases h
        exact ⟨hgone, rfl, rfl, rfl, rfl, rfl, rfl, rfl, rfl⟩
  · contradiction

theorem workerWrite_only {wording : Wording} {engine : Engine E}
    (h : s.workerWrite wording engine = some next) : WorkerOnly s next := by
  unfold State.workerWrite at h
  split at h
  · rename_i e call b left hworker
    have hgone : s.worker.gone = false := by rw [hworker]; rfl
    split at h
    · rename_i pipe hsend
      cases h
      exact ⟨hgone, rfl, rfl, rfl, rfl, (Channel.send_accepted hsend).received, rfl, rfl, rfl⟩
    · cases h
      exact ⟨hgone, rfl, rfl, rfl, rfl, rfl, rfl, rfl, rfl⟩
    · contradiction
  · rename_i b left hworker
    have hgone : s.worker.gone = false := by rw [hworker]; rfl
    split at h
    · rename_i pipe hsend
      cases h
      exact ⟨hgone, rfl, rfl, rfl, rfl, (Channel.send_accepted hsend).received, rfl, rfl, rfl⟩
    · cases h
      exact .exit hgone false
    · contradiction
  · contradiction

theorem takeJob_only {parse : List Char → Option Json} {engine : Engine E}
    (hgone : s.worker.gone = false) (line : Bytes) :
    WorkerOnly s (s.takeJob parse engine line) := by
  unfold State.takeJob
  split
  · exact ⟨hgone, rfl, rfl, rfl, rfl, rfl, rfl, rfl, rfl⟩
  · exact .exit hgone false

theorem takeResponse_only {floatText : UInt64 → String} {parse : List Char → Option Json}
    {wording : Wording} {engine : Engine E} (hgone : s.worker.gone = false) (e : E)
    (call : HostCall) (line : Bytes) :
    WorkerOnly s (s.takeResponse floatText parse wording engine e call line) := by
  unfold State.takeResponse
  split
  · exact ⟨hgone, rfl, rfl, rfl, rfl, rfl, rfl, rfl, rfl⟩
  · exact ⟨hgone, rfl, rfl, rfl, rfl, rfl, rfl, rfl, rfl⟩

/-- Taking a byte out of its pipe is nothing that the parent sees. -/
theorem WorkerOnly.of_received {b : UInt8} {pipe : Channel UInt8 capacity}
    (hreceive : s.toWorker.receive = .item b pipe)
    (h : WorkerOnly { s with toWorker := pipe } next) : WorkerOnly s next := by
  obtain ⟨halive, hparent, hfinal, hhost, horphan, hreceived, hsent, hdispatched, hanswered⟩ := h
  exact ⟨halive, hparent, hfinal, hhost, horphan, hreceived,
    hsent.trans (Channel.receive_item hreceive).sent, hdispatched, hanswered⟩

theorem workerRead_only {floatText : UInt64 → String} {parse : List Char → Option Json}
    {wording : Wording} {engine : Engine E}
    (h : s.workerRead floatText parse wording engine = some next) : WorkerOnly s next := by
  unfold State.workerRead at h
  split at h
  · rename_i line hworker
    have hgone : s.worker.gone = false := by rw [hworker]; rfl
    split at h
    · contradiction
    · cases h
      exact takeJob_only hgone line
    · rename_i b pipe hreceive
      apply WorkerOnly.of_received hreceive
      have hstill : ({ s with toWorker := pipe } : State E H capacity).worker.gone = false := hgone
      split at h
      · cases h
        exact .exit hstill false
      · split at h
        · cases h
          exact takeJob_only hstill _
        · cases h
          exact ⟨hgone, rfl, rfl, rfl, rfl, rfl, rfl, rfl, rfl⟩
  · rename_i e call line hworker
    have hgone : s.worker.gone = false := by rw [hworker]; rfl
    split at h
    · contradiction
    · cases h
      exact takeResponse_only hgone e call line
    · rename_i b pipe hreceive
      apply WorkerOnly.of_received hreceive
      have hstill : ({ s with toWorker := pipe } : State E H capacity).worker.gone = false := hgone
      split at h
      · cases h
        exact ⟨hgone, rfl, rfl, rfl, rfl, rfl, rfl, rfl, rfl⟩
      · split at h
        · cases h
          exact takeResponse_only hstill e call _
        · cases h
          exact ⟨hgone, rfl, rfl, rfl, rfl, rfl, rfl, rfl, rfl⟩
  · contradiction

theorem workerExit_only (h : s.workerExit = some next) : WorkerOnly s next := by
  unfold State.workerExit at h
  split at h
  · rename_i hworker
    cases h
    exact .exit (by rw [hworker]; rfl) true
  · contradiction

theorem crash_only {allocatorAbort : Bool} (h : s.crash allocatorAbort = some next) :
    WorkerOnly s next := by
  unfold State.crash at h
  split at h
  · contradiction
  · rename_i hworker
    cases h
    have hgone : s.worker.gone = false := by
      cases hwhere : s.worker with
      | exited success => exact absurd hwhere (hworker success)
      | _ => rfl
    exact ⟨hgone, rfl, rfl, rfl, rfl, rfl, rfl, rfl, rfl⟩

/-- A parent follows the exchange, or gave up. -/
def Follows (setup : Setup E H) (s : State E H capacity) : Prop :=
  Relayed setup s ∨ GivenUp s

theorem parentWrite_follows (hs : Relayed setup s) (h : s.parentWrite = some next) :
    Follows setup next := by
  obtain ⟨htold, hheard⟩ := hs
  have hwrote {b : UInt8} {left : Bytes} {pipe : Channel UInt8 capacity} {parent : Parent}
      (hbefore : s.parent.talks = true) (hline : s.parent.line = [])
      (hreads : ∀ line, s.parent ≠ .reading line) (hleft : s.parent.left = b :: left)
      (hsend : s.toWorker.send b = .accepted pipe) (hafter : parent.talks = true)
      (hnothing : parent.line = []) (hmore : parent.left = left)
      (hplace : ∀ calls, s.parent.Fits calls → parent.Fits calls) :
      Follows setup { s with toWorker := pipe, parent := parent } := by
    refine Or.inl ⟨?_, ?_⟩
    · show pipe.sent ++ parent.left = _
      rw [(Channel.send_accepted hsend).sent, hmore, List.append_assoc, ← htold, hleft]
      rfl
    · cases hheard with
      | calling htalks hfinal hcalls hreceived hno hshort hfits =>
        refine .calling hafter hfinal hcalls ?_ (by simp [hnothing]) (by simp [hnothing])
          (hplace _ hfits)
        rw [hreceived, hline]
        show _ = _ ++ parent.line
        rw [hnothing]
      | ended htalks hfinal hno hqueue hgone hfits hcalls hlast hspeaks hdispatched hreceived =>
        exact .ended hafter hfinal hnothing hqueue hgone (hplace _ hfits) hcalls hlast hspeaks
          hdispatched hreceived
      | held hparent => exact absurd hparent (hreads _)
      | settled hparent =>
        rcases hparent with hparent | hparent
        · rw [hparent] at hbefore
          contradiction
        · rw [hparent] at hbefore
          contradiction
  unfold State.parentWrite at h
  split at h
  all_goals
    first
    | contradiction
    | rename_i b left hparent
      split at h
      · rename_i pipe hsend
        cases h
        refine hwrote (by rw [hparent]; rfl) (by rw [hparent]; rfl)
          (by simp [hparent]) (by rw [hparent]; rfl) hsend ?_ ?_ ?_ ?_
        · split <;> rfl
        · split <;> rfl
        · split
          · rename_i hnil
            exact hnil.symm
          · rfl
        · rw [hparent]
          intro calls hfits
          split
          · trivial
          · exact hfits
      · cases h
        exact Or.inr (Or.inl ⟨_, rfl⟩)
      · contradiction

theorem says_of_decode {line : Bytes} {message : WorkerMessage}
    (h : WorkerMessage.decode setup.parse line = some message) :
    Says setup.decode line message := Option.bind_eq_some_iff.mp h

/-- A line that the parent has read to its end. -/
theorem takeMessage_follows {front line : Bytes} (hparent : s.parent = .reading line)
    (htold : s.toWorker.sent ++ s.parent.left =
      setup.jobLine ++ (s.books.answered.map setup.replyLine).flatten)
    (hcalls : s.finalResult = none → CallLines setup.decode front s.books.dispatched)
    {whole : Bytes} (hreceived : s.toParent.received = front ++ whole)
    (hline : IsLine maxProtocolLineBytes whole ∨ (IsUnterminated maxProtocolLineBytes whole ∧
      s.toParent.queue = [] ∧ s.worker.gone = true)) :
    Follows setup (s.takeMessage setup.parse whole) := by
  have hleft : s.parent.left = [] := by rw [hparent]; rfl
  rw [hleft, List.append_nil] at htold
  unfold State.takeMessage
  split
  · exact Or.inr (Or.inl ⟨_, rfl⟩)
  · rename_i hfinal
    split
    · exact Or.inr (Or.inl ⟨_, rfl⟩)
    · rename_i name payload hdecode
      refine Or.inl ⟨(List.append_nil _).trans htold, ?_⟩
      rcases hline with hline | ⟨hline, hqueue, hgone⟩
      · refine .calling rfl hfinal (.snoc (hcalls hfinal) hline (says_of_decode hdecode)) ?_
          (by simp [Parent.line]) (by simp [Parent.line]) (by simp [Parent.Fits])
        rw [hreceived]
        simp [Parent.line]
      · exact .ended rfl hfinal rfl hqueue hgone (by simp [Parent.Fits]) (hcalls hfinal) hline
          (says_of_decode hdecode) rfl hreceived
    · rename_i result hdecode
      refine Or.inl ⟨(List.append_nil _).trans htold, ?_⟩
      refine .held rfl rfl (hcalls hfinal) ?_ (says_of_decode hdecode)
        (by rw [hreceived, List.append_nil]) (by simp) (by simp)
      rcases hline with hline | ⟨hline, hqueue, hgone⟩
      · exact Or.inl hline
      · exact Or.inr ⟨hline, rfl, hqueue, hgone⟩

theorem parentRead_follows (hpipes : Ends s) (hs : Relayed setup s)
    (h : s.parentRead setup.parse = some next) : Follows setup next := by
  obtain ⟨htold, hheard⟩ := hs
  unfold State.parentRead at h
  split at h
  · rename_i line hparent
    have hlines : s.parent.line = line := by rw [hparent]; rfl
    split at h
    · contradiction
    · rename_i hreceive
      obtain ⟨hqueue, hended⟩ := Channel.receive_ended hreceive
      rw [hpipes.writes] at hended
      split at h
      · cases h
        exact Or.inr (Or.inl ⟨_, rfl⟩)
      · rename_i result hfinal
        cases h
        refine Or.inl ⟨?_, ?_⟩
        · rw [hparent] at htold
          exact htold
        · cases hheard with
          | calling htalks hnone | ended htalks hnone =>
            rw [hnone] at hfinal
            contradiction
          | held hreading hsome hcalls hlast hspeaks hreceived =>
            rw [hreading] at hparent
            cases hparent
            rw [hsome] at hfinal
            cases hfinal
            rw [List.append_nil] at hreceived
            refine .settled (Or.inl rfl) hcalls ?_ hspeaks hreceived hqueue hended
            rcases hlast with hlast | ⟨hlast, -⟩
            · exact Or.inl hlast
            · exact Or.inr hlast
          | settled hplace => simp [hparent] at hplace
      · cases h
        cases hheard with
        | @calling front htalks hnone hcalls hreceived hno hshort =>
          rw [hlines] at hreceived hno hshort
          exact takeMessage_follows hparent htold (fun _ => hcalls) hreceived
            (Or.inr ⟨⟨hshort, by simp, hno⟩, hqueue, hended⟩)
        | ended htalks hnone hnothing =>
          rw [hlines] at hnothing
          contradiction
        | held hreading hsome =>
          unfold State.takeMessage
          rw [hsome]
          exact Or.inr (Or.inl ⟨_, rfl⟩)
        | settled hplace => simp [hparent] at hplace
    · rename_i b pipe hreceive
      have hgives := Channel.receive_item hreceive
      have hsome : s.toParent.queue ≠ [] := by
        intro hqueue
        have hmore := hgives.queue
        rw [hqueue] at hmore
        contradiction
      split at h
      · cases h
        exact Or.inr (Or.inl ⟨_, rfl⟩)
      · rename_i longer happend
        obtain ⟨rfl, hshorter⟩ := appendProtocolChunk_some _ _ _ _ happend
        split at h
        · rename_i hb
          cases h
          cases hheard with
          | @calling front htalks hnone hcalls hreceived hno hshort =>
            rw [hlines] at hreceived hno
            refine takeMessage_follows (s := { s with toParent := pipe }) hparent htold
              (fun _ => hcalls) ?_ (Or.inl ⟨hshorter, line, by rw [hb], hno⟩)
            rw [hgives.received, hreceived, List.append_assoc]
          | ended htalks hnone hnothing hqueue => exact absurd hqueue hsome
          | held hreading hheld =>
            unfold State.takeMessage
            rw [hheld]
            exact Or.inr (Or.inl ⟨_, rfl⟩)
          | settled hplace => simp [hparent] at hplace
        · rename_i hb
          cases h
          have hnot (hno : newline ∉ line) : newline ∉ line ++ [b] := by
            simp only [List.mem_append, List.mem_singleton, not_or]
            exact ⟨hno, fun hnewline => hb hnewline.symm⟩
          refine Or.inl ⟨?_, ?_⟩
          · rw [hparent] at htold
            exact htold
          · cases hheard with
            | @calling front htalks hnone hcalls hreceived hno hshort =>
              rw [hlines] at hreceived hno
              refine .calling rfl hnone hcalls ?_ (hnot hno) hshorter trivial
              rw [hgives.received, hreceived, List.append_assoc]
              rfl
            | ended htalks hnone hnothing hqueue => exact absurd hqueue hsome
            | @held front last line result hreading hheld hcalls hlast hspeaks hreceived hno
                hshort =>
              rw [hreading] at hparent
              cases hparent
              have hwhole : IsLine maxProtocolLineBytes last := by
                rcases hlast with hlast | ⟨-, -, hqueue, -⟩
                · exact hlast
                · exact absurd hqueue hsome
              refine .held rfl hheld hcalls (Or.inl hwhole) hspeaks ?_ (hnot hno) hshorter
              rw [hgives.received, hreceived, List.append_assoc, List.append_assoc]
            | settled hplace => simp [hparent] at hplace
  · contradiction

theorem serve_follows (hs : Relayed setup s) (hnone : s.parent.talks = true → s.orphan = none)
    (h : s.serve setup.floatText setup.dispatch = some next) : Follows setup next := by
  obtain ⟨htold, hheard⟩ := hs
  unfold State.serve at h
  split at h
  · rename_i call horphan
    cases h
    refine Or.inl ⟨htold, ?_⟩
    cases hheard with
    | calling htalks | ended htalks =>
      rw [hnone htalks] at horphan
      contradiction
    | held hparent =>
      rw [hnone (by rw [hparent]; rfl)] at horphan
      contradiction
    | settled hplace hcalls hlast hspeaks hreceived hqueue hgone =>
      exact .settled hplace hcalls hlast hspeaks hreceived hqueue hgone
  · split at h
    · rename_i call hparent
      have hlines : s.parent.line = [] := by rw [hparent]; rfl
      split at h
      · cases h
        exact Or.inr (Or.inl ⟨_, rfl⟩)
      · rename_i host result hdispatch
        cases h
        rw [hparent] at htold
        refine Or.inl ⟨?_, ?_⟩
        · have htold := (List.append_nil _).symm.trans htold
          show s.toWorker.sent ++ setup.replyLine result = _
          rw [htold, List.map_append, List.flatten_append, List.append_assoc]
          simp
        · cases hheard with
          | calling htalks hfinal hcalls hreceived hno hshort hfits =>
            rw [hlines] at hreceived
            rw [hparent] at hfits
            exact .calling rfl hfinal hcalls hreceived (by simp [Parent.line])
              (by simp [Parent.line]) hfits
          | ended htalks hfinal hnothing hqueue hgone hfits hcalls hlast hspeaks hdispatched
              hreceived =>
            rw [hparent] at hfits
            exact .ended rfl hfinal rfl hqueue hgone hfits hcalls hlast hspeaks hdispatched
              hreceived
          | held hreading =>
            rw [hreading] at hparent
            contradiction
          | settled hplace => simp [hparent] at hplace
    · contradiction

theorem deadline_follows (h : s.deadline = some next) : GivenUp next := by
  unfold State.deadline at h
  split at h
  all_goals
    first
    | contradiction
    | cases h
      exact Or.inl ⟨_, rfl⟩

theorem waitError_follows (h : s.waitError = some next) : GivenUp next := by
  unfold State.waitError at h
  split at h
  · cases h
    exact Or.inl ⟨_, rfl⟩
  · contradiction

theorem reap_follows (hs : Relayed setup s) (h : s.reap setup.memoryBounded = some next) :
    Follows setup next := by
  obtain ⟨htold, hheard⟩ := hs
  unfold State.reap at h
  split at h
  · rename_i result hparent
    split at h
    · cases h
      refine Or.inl ⟨?_, ?_⟩
      · rw [hparent] at htold
        exact htold
      · cases hheard with
        | calling htalks | ended htalks =>
          rw [hparent] at htalks
          contradiction
        | held hreading =>
          rw [hreading] at hparent
          contradiction
        | settled hplace hcalls hlast hspeaks hreceived hqueue hgone =>
          simp only [hparent, Parent.reaping.injEq, reduceCtorEq, or_false] at hplace
          subst hplace
          exact .settled (Or.inr rfl) hcalls hlast hspeaks hreceived hqueue hgone
    · cases h
      exact Or.inr (Or.inr ⟨_, rfl⟩)
    · contradiction
  · cases h
    exact Or.inr (Or.inr ⟨_, rfl⟩)
  · contradiction

theorem step_follows (hpipes : Ends s) (hhosted : Hosted setup.dispatch setup.host s)
    (hs : Follows setup s) {a : Action} (hstep : setup.step s a = some next) :
    Follows setup next := by
  rcases hs with hs | hgiven
  · cases a with
    | compute => exact Or.inl ((compute_only hstep).relayed hs)
    | workerWrite => exact Or.inl ((workerWrite_only hstep).relayed hs)
    | workerRead => exact Or.inl ((workerRead_only hstep).relayed hs)
    | workerExit => exact Or.inl ((workerExit_only hstep).relayed hs)
    | crash allocatorAbort => exact Or.inl ((crash_only hstep).relayed hs)
    | parentWrite => exact parentWrite_follows hs hstep
    | parentRead => exact parentRead_follows hpipes hs hstep
    | serve => exact serve_follows hs hhosted.orphaned hstep
    | reap => exact reap_follows hs hstep
    | deadline => exact Or.inr (deadline_follows hstep)
    | waitError => exact Or.inr (waitError_follows hstep)
  · exact Or.inr (givenUp_step (step_kind hstep) hgiven)

/-- A parent that has not given up, and dispatches nothing now, has served every call. -/
theorem Hosted.allServed {dispatch : H → HostCall → H × Option Json} {first : H}
    (hs : Hosted dispatch first s) (htalks : s.parent.talks = true)
    (hnot : ∀ call, s.parent ≠ .dispatching call) :
    s.orphan = none ∧ s.host = final dispatch first s.books.dispatched ∧
      s.books.answered.map some = outputs dispatch first s.books.dispatched := by
  have hnone := hs.orphaned htalks
  obtain ⟨served, hserved, hhost, -, hall⟩ := hs.served
  rw [running_eq_orphan hnot, hnone] at hserved
  have hserved : s.books.dispatched = served := hserved.trans (List.append_nil served)
  rw [hserved]
  exact ⟨hnone, hhost, hall htalks⟩

/-- A parent with a result has served every call that it dispatched. -/
def Settled (dispatch : H → HostCall → H × Option Json) (first : H)
    (s : State E H capacity) : Prop :=
  ∀ result, s.parent = .reaping result ∨ s.parent = .returned (.ok result) →
    s.orphan = none ∧ s.host = final dispatch first s.books.dispatched ∧
      s.books.answered.map some = outputs dispatch first s.books.dispatched

theorem step_settled (hhosted : Hosted setup.dispatch setup.host s)
    (hs : Settled setup.dispatch setup.host s) {a : Action} (hstep : setup.step s a = some next) :
    Settled setup.dispatch setup.host next := by
  have hkind : Kind setup.dispatch s next := step_kind hstep
  have hnot (hbefore : ∀ result, next.parent ≠ .reaping result)
      (hafter : ∀ result, next.parent ≠ .returned (.ok result)) :
      Settled setup.dispatch setup.host next := by
    intro result hplace
    rcases hplace with hplace | hplace
    · exact absurd hplace (hbefore result)
    · exact absurd hplace (hafter result)
  have hbusy (hbefore : next.parent.busy = true) : Settled setup.dispatch setup.host next := by
    apply hnot
    · intro result hplace
      rw [hplace] at hbefore
      contradiction
    · intro result hplace
      rw [hplace] at hbefore
      contradiction
  cases hkind with
  | worker hgone hparent hhost horphan hmade hdispatched hanswered =>
    intro result hplace
    rw [hparent] at hplace
    rw [horphan, hhost, hdispatched, hanswered]
    exact hs result hplace
  | talk hworker hbefore hafter => exact hbusy hafter
  | serve call result hworker hbefore hafter => exact hbusy hafter
  | dispatch call hworker hbefore hafter => exact hnot (by simp [hafter]) (by simp [hafter])
  | refuse call hworker hbefore hafter | abandon call hworker hbefore hafter
  | giveUp result reason hworker hbefore hafter =>
    exact hnot (by simp [hafter]) (by simp [hafter])
  | fail error hbefore hworker hafter => exact hnot (by simp [hafter]) (by simp [hafter])
  | late call hworker hparent hhost hrunning =>
    intro result hplace
    rw [hparent] at hplace
    have hnone := (hs result hplace).1
    rw [hrunning] at hnone
    contradiction
  | leave hworker hbefore hafter hhost horphan hbooks =>
    intro result hplace
    rw [horphan, hhost, hbooks]
    exact hhosted.allServed (Parent.talks_of_busy hbefore) (Parent.not_dispatching_of_busy hbefore)
  | succeed result hbefore hsuccess hworker hafter hhost horphan hbooks =>
    intro other hplace
    rw [horphan, hhost, hbooks]
    exact hs result (Or.inl hbefore)

/-- What a run keeps, whatever is written on the pipes. -/
structure Accounted (setup : Setup E H) (s : State E H capacity) : Prop where
  ends : Ends s
  hosted : Hosted setup.dispatch setup.host s
  settled : Settled setup.dispatch setup.host s
  follows : Follows setup s

theorem step_accounted (hs : Accounted setup s) {a : Action} (hstep : setup.step s a = some next) :
    Accounted setup next := by
  obtain ⟨hpipes, hhosted, hsettled, hfollows⟩ := hs
  exact ⟨step_ends hpipes hstep, step_hosted hhosted hstep, step_settled hhosted hsettled hstep,
    step_follows hpipes hhosted hfollows hstep⟩

theorem start_accounted : Accounted setup (setup.start : State E H capacity) :=
  ⟨start_ends setup.job setup.host, start_hosted setup.job,
    fun result hplace => by rcases hplace with hplace | hplace <;> contradiction,
    Or.inl start_relayed⟩

theorem run_accounted {as : List Action}
    (h : run setup.step (setup.start : State E H capacity) as = some s) : Accounted setup s :=
  run_invariant (Accounted setup) (fun _ => True) (fun _ _ _ _ hs hstep => step_accounted hs hstep)
    (fun _ _ => trivial) start_accounted h

/-- A parent with a result has what the exchange makes of all that the worker wrote. -/
theorem Accounted.finished (hs : Accounted setup s) {result : FinalResult}
    (hresult : s.parent = .reaping result ∨ s.parent = .returned (.ok result)) {reader : Reader}
    (hbytes : reader.bytes = s.toParent.sent) (htail : reader.tail = .eof) {fates : Fates}
    (hcalm : Calm fates) :
    s.toParent.sent = s.toParent.received ∧
      ∃ pump, exchange setup.decode setup.dispatch fates setup.job setup.host reader =
          (.final result, pump) ∧
        pump.dispatched = s.books.dispatched ∧ pump.host = s.host ∧
          pump.sent = setup.job :: s.books.answered.map .hostResult ∧ pump.orphan = s.orphan ∧
            s.toWorker.sent =
              (pump.sent.map fun message => writeLine setup.floatText message.toJson).flatten := by
  obtain ⟨-, -, hsettled, hfollows⟩ := hs
  obtain ⟨-, hhost, hanswers⟩ := hsettled result hresult
  have hright : Relayed setup s := by
    rcases hfollows with hfollows | ⟨reason, hgiven⟩ | ⟨error, hgiven⟩
    · exact hfollows
    · simp [hgiven] at hresult
    · simp [hgiven] at hresult
  obtain ⟨htold, hheard⟩ := hright
  have hquiet : s.parent.talks = false ∧ s.parent.left = [] := by
    rcases hresult with hparent | hparent
    · rw [hparent]
      exact ⟨rfl, rfl⟩
    · rw [hparent]
      exact ⟨rfl, rfl⟩
  cases hheard with
  | calling htalks | ended htalks =>
    rw [hquiet.1] at htalks
    contradiction
  | held hparent =>
    rw [hparent] at hquiet
    exact absurd hquiet.1 (by simp [Parent.talks])
  | @settled front last found hplace hcalls hlast hspeaks hreceived hqueue hgone =>
    have hsame : found = result := by
      rcases hplace with hplace | hplace
      · simpa [hplace] using hresult
      · simpa [hplace] using hresult
    subst hsame
    have hsent : s.toParent.sent = s.toParent.received := by
      rw [s.toParent.order, hqueue, List.append_nil]
    rw [hsent, hreceived] at hbytes
    have hend : IsLine maxProtocolLineBytes last ∨
        (IsUnterminated maxProtocolLineBytes last ∧ ([] : Bytes) = [] ∧ reader.tail = .eof) := by
      rcases hlast with hlast | hlast
      · exact Or.inl hlast
      · exact Or.inr ⟨hlast, rfl, htail⟩
    obtain ⟨behind, hbehind, htailBehind, hloop⟩ :=
      exchangeLoop_of_result hcalls hend hspeaks
        { startPump setup.host with awaits := 1, sent := [setup.job] } (hcalm.to _) rfl
        (hbytes.trans (by rw [List.append_nil])) hanswers.symm
    have heof : (readLimitedLine maxProtocolLineBytes behind).1 = .eof :=
      readLimitedLine_nothing hbehind (htailBehind.trans htail)
    rw [exchange, if_neg (by rw [(hcalm _).2]; simp), hloop]
    refine ⟨hsent, _, exchangeLoop_eof _ (hcalm.to _) rfl heof, rfl, hhost.symm, rfl,
      (hsettled _ hresult).1.symm, ?_⟩
    rw [hquiet.2, List.append_nil] at htold
    rw [htold]
    simp only [List.cons_append, List.nil_append, List.map_cons, List.map_map, List.flatten_cons]
    rfl

/-- A run in which the parent gets a result, whatever the worker wrote and however the two were
interleaved, is the exchange of all that the worker wrote: it gives the same result, with the
same calls dispatched, the same host behind them, and the job and the answers on the pipe to
the worker. -/
theorem result_of_exchange {as : List Action}
    (h : run setup.step (setup.start : State E H capacity) as = some s) {result : FinalResult}
    (hresult : s.parent = .reaping result ∨ s.parent = .returned (.ok result)) {reader : Reader}
    (hbytes : reader.bytes = s.toParent.sent) (htail : reader.tail = .eof) {fates : Fates}
    (hcalm : Calm fates) :
    ∃ pump, exchange setup.decode setup.dispatch fates setup.job setup.host reader =
        (.final result, pump) ∧
      pump.dispatched = s.books.dispatched ∧ pump.host = s.host ∧
        pump.sent = setup.job :: s.books.answered.map .hostResult ∧
          s.toWorker.sent =
            (pump.sent.map fun message => writeLine setup.floatText message.toJson).flatten := by
  obtain ⟨-, pump, hpump, hdispatched, hhost, hsent, -, htold⟩ :=
    (run_accounted h).finished hresult hbytes htail hcalm
  exact ⟨pump, hpump, hdispatched, hhost, hsent, htold⟩

/-- The bytes of a run that returns null, read in one piece. -/
theorem result_of_exchange_once :
    ∃ (reader : Reader) (pump : Pump ℕ), exchange askingOnce.decode askingOnce.dispatch
        ⟨fun _ => false, fun _ => false⟩ askingOnce.job 0 reader =
          (.final (.success .null), pump) := by
  obtain ⟨s, hrun, hparent⟩ := askingOnce_ends
  obtain ⟨reader, hreader, htail⟩ := exists_reader s.toParent.sent
  have hcalm : Calm ⟨fun _ => false, fun _ => false⟩ := fun _ => ⟨rfl, rfl⟩
  obtain ⟨pump, hpump, -⟩ := result_of_exchange hrun (Or.inr hparent) hreader htail hcalm
  exact ⟨reader, pump, hpump⟩

end Streams

end StuntDouble.ScriptWorker
