import StuntDouble.LineReader
import StuntDouble.Protocol
import StuntDouble.Machine

/-!
The parent's side of the worker protocol. A run of the exchange is fixed by the
byte stream of the worker, the behaviour of the host and the fate of every
await: it ends in time, the deadline passes first, or a write breaks. The pump
records what was dispatched and what was sent.
-/
namespace StuntDouble.Script

open LineReader Machine

def maxProtocolLineBytes : ℕ := 64 * 1024 * 1024

structure HostCall where
  name : BridgeName
  payload : Json

inductive WorkerReply
  | final (result : FinalResult)
  | timedOut
  | unexpected

/-- How the awaits of one exchange end, by their number. -/
structure Fates where
  elapses : ℕ → Bool
  breaks : ℕ → Bool

/-- The state of the pump: `orphan` is a call still running when the deadline passed. -/
structure Pump (H : Type) where
  host : H
  awaits : ℕ
  finalResult : Option FinalResult
  dispatched : List HostCall
  sent : List ParentMessage
  orphan : Option HostCall

variable {H : Type}

/-- The calls that were served: one that is still running was dispatched last. -/
def Pump.served (pump : Pump H) : List HostCall :=
  match pump.orphan with
  | none => pump.dispatched
  | some _ => pump.dispatched.dropLast

/-- Answer one host call; an exit of the exchange carries its reply. -/
def answerCall (dispatch : H → HostCall → H × Option Json) (fates : Fates) (pump : Pump H)
    (call : HostCall) : Except WorkerReply Unit × Pump H :=
  let started := { pump with dispatched := pump.dispatched ++ [call] }
  if fates.elapses (pump.awaits + 1) then
    (.error .timedOut, { started with orphan := some call })
  else
    match dispatch pump.host call with
    | (host, none) => (.error .unexpected, { started with host := host })
    | (host, some result) =>
      if fates.elapses (pump.awaits + 2) then (.error .timedOut, { started with host := host })
      else if fates.breaks (pump.awaits + 2) then
        (.error .unexpected, { started with host := host })
      else
        (.ok (), { started with
          host := host
          awaits := pump.awaits + 3
          sent := pump.sent ++ [.hostResult result] })

/-- Pump host calls until the end of the stream, which has to follow a final result. -/
def exchangeLoop (decode : String → Option Wire) (dispatch : H → HostCall → H × Option Json)
    (fates : Fates) (pump : Pump H) (reader : Reader) : WorkerReply × Pump H :=
  if fates.elapses pump.awaits then (.timedOut, pump)
  else
    match _hread : (readLimitedLine maxProtocolLineBytes reader).1 with
    | .silent => (.timedOut, pump)
    | .failure => (.unexpected, pump)
    | .eof =>
      match pump.finalResult with
      | none => (.unexpected, pump)
      | some result => (.final result, pump)
    | .line text =>
      match pump.finalResult with
      | some _ => (.unexpected, pump)
      | none =>
        match (decode text).bind WorkerMessage.ofWire with
        | none => (.unexpected, pump)
        | some (.hostCall name payload) =>
          match answerCall dispatch fates pump ⟨name, payload⟩ with
          | (.error reply, pump) => (reply, pump)
          | (.ok (), pump) =>
            exchangeLoop decode dispatch fates pump (readLimitedLine maxProtocolLineBytes reader).2
        | some (.finalResult result) =>
          exchangeLoop decode dispatch fates
            { pump with finalResult := some result, awaits := pump.awaits + 1 }
            (readLimitedLine maxProtocolLineBytes reader).2
  termination_by reader.bytes.length
  decreasing_by all_goals exact readLimitedLine_length_lt text _hread

def startPump (host : H) : Pump H := ⟨host, 0, none, [], [], none⟩

def exchange (decode : String → Option Wire) (dispatch : H → HostCall → H × Option Json)
    (fates : Fates) (job : ParentMessage) (host : H) (reader : Reader) : WorkerReply × Pump H :=
  if fates.breaks 0 then (.unexpected, startPump host)
  else exchangeLoop decode dispatch fates
    { startPump host with awaits := 1, sent := [job] } reader

section Sessions

variable (decode : String → Option Wire)

/-- A line of the stream is one well-formed message. -/
def Says (line : Bytes) (message : WorkerMessage) : Prop :=
  ∃ text, Utf8.decode line = some text ∧ (decode text).bind WorkerMessage.ofWire = some message

/-- A whole stream: lines of host calls, then one final result, which alone may
lack its newline. -/
inductive Session : Bytes → List HostCall → FinalResult → Prop
  | final (line : Bytes) (result : FinalResult)
      (hline : IsLine maxProtocolLineBytes line ∨ IsUnterminated maxProtocolLineBytes line)
      (hspeaks : Says decode line (.finalResult result)) : Session line [] result
  | call (line rest : Bytes) (call : HostCall) (calls : List HostCall) (result : FinalResult)
      (hline : IsLine maxProtocolLineBytes line)
      (hspeaks : Says decode line (.hostCall call.name call.payload))
      (hrest : Session rest calls result) : Session (line ++ rest) (call :: calls) result

/-- The lines a stream begins with are these host calls. -/
inductive BeginsWith : Bytes → List HostCall → Prop
  | nil (bytes : Bytes) : BeginsWith bytes []
  | cons (line rest : Bytes) (call : HostCall) (calls : List HostCall)
      (hline : IsLine maxProtocolLineBytes line ∨
        (IsUnterminated maxProtocolLineBytes line ∧ rest = []))
      (hspeaks : Says decode line (.hostCall call.name call.payload))
      (hrest : BeginsWith rest calls) : BeginsWith (line ++ rest) (call :: calls)

theorem Session.ne_nil {bytes : Bytes} {calls : List HostCall} {result : FinalResult}
    (h : Session decode bytes calls result) : bytes ≠ [] := by
  have hline : ∀ line, IsLine maxProtocolLineBytes line → line ≠ [] := by
    intro line h
    obtain ⟨-, body, hbody, -⟩ := h
    simp [hbody]
  cases h with
  | final line result hshape hspeaks =>
    rcases hshape with hshape | hshape
    · exact hline bytes hshape
    · exact hshape.2.1
  | call line rest call calls result hshape hspeaks hrest =>
    simp [hline line hshape]

theorem Says.unique {line : Bytes} {message message' : WorkerMessage}
    (h : Says decode line message) (h' : Says decode line message') : message = message' := by
  obtain ⟨text, htext, hmessage⟩ := h
  obtain ⟨text', htext', hmessage'⟩ := h'
  obtain rfl := Option.some.inj (htext.symm.trans htext')
  exact Option.some.inj (hmessage.symm.trans hmessage')

/-- A line that a stream begins with is its first line. -/
theorem BeginsWith.first_line {line rest : Bytes} {calls : List HostCall} {call : HostCall}
    (hline : IsLine maxProtocolLineBytes line)
    (h : BeginsWith decode (line ++ rest) (call :: calls)) :
    Says decode line (.hostCall call.name call.payload) ∧ BeginsWith decode rest calls := by
  generalize hbytes : line ++ rest = bytes at h
  cases h with
  | cons line' rest' call calls hshape hspeaks hrest =>
    rcases hshape with hline' | ⟨hlast, rfl⟩
    · obtain ⟨rfl, rfl⟩ := hline.unique hline' hbytes
      exact ⟨hspeaks, hrest⟩
    · rw [List.append_nil] at hbytes
      exact absurd (by rw [← hbytes]; simp [hline.newline_mem]) hlast.2.2

/-- No host call behind a complete session is among those a stream begins with. -/
theorem BeginsWith.prefix_of_session {bytes rest : Bytes} {calls calls' : List HostCall}
    {result : FinalResult} (h : Session decode bytes calls result)
    (hcomplete : newline ∈ bytes.getLast?) (hbegins : BeginsWith decode (bytes ++ rest) calls') :
    calls' <+: calls := by
  induction h generalizing calls' with
  | final line result hline hspeaks =>
    have hline : IsLine maxProtocolLineBytes line := by
      rcases hline with hline | hlast
      · exact hline
      · exact absurd (List.mem_of_mem_getLast? hcomplete) hlast.2.2
    cases calls' with
    | nil => exact List.prefix_rfl
    | cons call calls' =>
      have hcall := (hbegins.first_line decode hline).1
      have hclash := hspeaks.unique decode hcall
      contradiction
  | call line rest' call calls result hline hspeaks hrest ih =>
    cases calls' with
    | nil => exact List.nil_prefix
    | cons call' calls' =>
      rw [List.append_assoc] at hbegins
      obtain ⟨hcall, hothers⟩ := hbegins.first_line decode hline
      have hsame := hspeaks.unique decode hcall
      have hcall' : call = call' := by
        cases call
        cases call'
        simp at hsame
        simp [hsame]
      subst hcall'
      have hlast : newline ∈ rest'.getLast? := by
        rw [List.getLast?_append_of_ne_nil _ (hrest.ne_nil decode)] at hcomplete
        exact hcomplete
      rw [List.cons_prefix_cons]
      exact ⟨rfl, ih hlast hothers⟩

end Sessions

section Spec

variable (decode : String → Option Wire) (dispatch : H → HostCall → H × Option Json)
  (fates : Fates)

/-- Serving a call to its end dispatches it and sends its result, and nothing else. -/
theorem answerCall_ok (pump pump' : Pump H) (call : HostCall)
    (h : answerCall dispatch fates pump call = (.ok (), pump')) :
    ∃ result, (dispatch pump.host call).2 = some result ∧
      pump'.host = (dispatch pump.host call).1 ∧ pump'.finalResult = pump.finalResult ∧
        pump'.dispatched = pump.dispatched ++ [call] ∧
          pump'.sent = pump.sent ++ [.hostResult result] := by
  unfold answerCall at h
  cases hdispatch : dispatch pump.host call with
  | mk host result =>
    cases result with
    | none =>
      simp only [hdispatch] at h
      split at h <;> simp at h
    | some result =>
      simp only [hdispatch] at h
      split at h
      · simp at h
      · split at h
        · simp at h
        · split at h
          · simp at h
          · obtain rfl := (Prod.mk.inj h).2
            exact ⟨result, rfl, rfl, rfl, rfl, rfl⟩

/-- Every way to answer a call dispatches it once, and no exit is a final result. -/
theorem answerCall_dispatched (pump : Pump H) (call : HostCall) :
    (answerCall dispatch fates pump call).2.dispatched = pump.dispatched ++ [call] ∧
      ∀ result, (answerCall dispatch fates pump call).1 ≠ .error (.final result) := by
  unfold answerCall
  split
  · simp
  · split
    · simp
    · split
      · simp
      · split <;> simp

/-- Once a final result is held, the stream has to end. -/
theorem exchangeLoop_held (pump : Pump H) (reader : Reader) (held : FinalResult)
    (hheld : pump.finalResult = some held) :
    (exchangeLoop decode dispatch fates pump reader).2 = pump ∧
      ∀ result, (exchangeLoop decode dispatch fates pump reader).1 = .final result →
        result = held ∧ reader.bytes = [] ∧ reader.tail = .eof := by
  unfold exchangeLoop
  split
  · simp
  · split
    · simp
    · simp
    · rename_i heof
      rw [hheld]
      refine ⟨rfl, ?_⟩
      intro result h
      exact ⟨(WorkerReply.final.inj h).symm, readLimitedLine_eof heof⟩
    · simp [hheld]

/-- One turn of the loop before a final result: it ends, or answers one call and
goes on or not, or takes the final result. -/
theorem exchangeLoop_turn (pump : Pump H) (reader : Reader) (hnone : pump.finalResult = none) :
    (∃ reply, exchangeLoop decode dispatch fates pump reader = (reply, pump) ∧
      ∀ result, reply ≠ .final result) ∨
    ∃ text message, (readLimitedLine maxProtocolLineBytes reader).1 = .line text ∧
      (decode text).bind WorkerMessage.ofWire = some message ∧
        match message with
        | .hostCall name payload =>
          (∃ reply, (answerCall dispatch fates pump ⟨name, payload⟩).1 = .error reply ∧
            exchangeLoop decode dispatch fates pump reader =
              (reply, (answerCall dispatch fates pump ⟨name, payload⟩).2)) ∨
          ((answerCall dispatch fates pump ⟨name, payload⟩).1 = .ok () ∧
            exchangeLoop decode dispatch fates pump reader =
              exchangeLoop decode dispatch fates (answerCall dispatch fates pump ⟨name, payload⟩).2
                (readLimitedLine maxProtocolLineBytes reader).2)
        | .finalResult result =>
          exchangeLoop decode dispatch fates pump reader =
            exchangeLoop decode dispatch fates
              { pump with finalResult := some result, awaits := pump.awaits + 1 }
              (readLimitedLine maxProtocolLineBytes reader).2 := by
  rw [exchangeLoop]
  by_cases hlate : fates.elapses pump.awaits = true
  · exact Or.inl ⟨.timedOut, if_pos hlate, by simp⟩
  · rw [if_neg hlate]
    split
    · exact Or.inl ⟨.timedOut, rfl, by simp⟩
    · exact Or.inl ⟨.unexpected, rfl, by simp⟩
    · exact Or.inl ⟨.unexpected, by rw [hnone], by simp⟩
    · rename_i text hread
      rw [hnone]
      cases hmessage : (decode text).bind WorkerMessage.ofWire with
      | none => exact Or.inl ⟨.unexpected, rfl, by simp⟩
      | some message =>
        refine Or.inr ⟨text, message, hread, hmessage, ?_⟩
        cases message with
        | hostCall name payload =>
          simp only
          cases hanswer : answerCall dispatch fates pump ⟨name, payload⟩ with
          | mk exit pump' =>
            cases exit with
            | error reply => exact Or.inl ⟨reply, rfl, rfl⟩
            | ok u => exact Or.inr ⟨rfl, rfl⟩
        | finalResult result => rfl

/-- What a run of the loop that ends with a final result has read, dispatched and sent. -/
theorem exchangeLoop_final (pump : Pump H) (reader : Reader) (result : FinalResult)
    (hnone : pump.finalResult = none)
    (h : (exchangeLoop decode dispatch fates pump reader).1 = .final result) :
    ∃ (calls : List HostCall) (results : List Json), reader.tail = .eof ∧
      Session decode reader.bytes calls result ∧
      outputs dispatch pump.host calls = results.map some ∧
      (exchangeLoop decode dispatch fates pump reader).2.dispatched = pump.dispatched ++ calls ∧
      (exchangeLoop decode dispatch fates pump reader).2.sent =
        pump.sent ++ results.map .hostResult := by
  induction hsize : reader.bytes.length using Nat.strongRecOn
    generalizing pump reader with
  | _ size ih =>
    rcases exchangeLoop_turn decode dispatch fates pump reader hnone with
      ⟨reply, heq, hreply⟩ | ⟨text, message, hread, hmessage, hturn⟩
    · rw [heq] at h
      exact absurd h (hreply result)
    · obtain ⟨line, hbytes, htext, hshape⟩ := readLimitedLine_line text hread
      have hspeaks : Says decode line message := ⟨text, htext, hmessage⟩
      have hlt := readLimitedLine_length_lt text hread
      cases message with
      | hostCall name payload =>
        rcases hturn with ⟨reply, hanswer, heq⟩ | ⟨hanswer, heq⟩
        · rw [heq] at h
          have hreply : reply = .final result := h
          rw [hreply] at hanswer
          exact absurd hanswer ((answerCall_dispatched dispatch fates pump
            ⟨name, payload⟩).2 result)
        · obtain ⟨value, hvalue, hhost, hfinal, hdispatched, hsent⟩ :=
            answerCall_ok dispatch fates pump _ ⟨name, payload⟩ (Prod.ext hanswer rfl)
          rw [heq] at h ⊢
          obtain ⟨calls, results, htail, hsession, hresults, hcalls, hmessages⟩ :=
            ih _ (hsize ▸ hlt) _ _ (hfinal.trans hnone) h rfl
          have hline : IsLine maxProtocolLineBytes line := by
            rcases hshape with hline | ⟨-, -, hempty⟩
            · exact hline
            · exact absurd hempty (hsession.ne_nil decode)
          refine ⟨⟨name, payload⟩ :: calls, value :: results, htail, ?_, ?_, ?_, ?_⟩
          · rw [hbytes]
            exact .call line _ ⟨name, payload⟩ calls result hline hspeaks hsession
          · rw [hhost] at hresults
            rw [outputs_cons, hresults, hvalue, List.map_cons]
          · rw [hcalls, hdispatched, List.append_assoc, List.singleton_append]
          · rw [hmessages, hsent, List.append_assoc, List.singleton_append, List.map_cons]
      | finalResult taken =>
        have hturn : exchangeLoop decode dispatch fates pump reader = _ := hturn
        rw [hturn] at h ⊢
        obtain ⟨hpump, hheld⟩ := exchangeLoop_held decode dispatch fates
          { pump with finalResult := some taken, awaits := pump.awaits + 1 }
          (readLimitedLine maxProtocolLineBytes reader).2 taken rfl
        obtain ⟨rfl, hempty, htail⟩ := hheld result h
        refine ⟨[], [], htail, ?_, rfl, ?_, ?_⟩
        · rw [hbytes, hempty, List.append_nil]
          refine .final line result ?_ hspeaks
          rcases hshape with hline | ⟨hlast, -, -⟩
          · exact Or.inl hline
          · exact Or.inr hlast
        · rw [hpump, List.append_nil]
        · rw [hpump, List.map_nil, List.append_nil]

/-- Whatever the reply, the calls dispatched are those the stream begins with. -/
theorem exchangeLoop_dispatched (pump : Pump H) (reader : Reader)
    (hnone : pump.finalResult = none) :
    ∃ calls, BeginsWith decode reader.bytes calls ∧
      (exchangeLoop decode dispatch fates pump reader).2.dispatched =
        pump.dispatched ++ calls := by
  induction hsize : reader.bytes.length using Nat.strongRecOn
    generalizing pump reader with
  | _ size ih =>
    rcases exchangeLoop_turn decode dispatch fates pump reader hnone with
      ⟨reply, heq, -⟩ | ⟨text, message, hread, hmessage, hturn⟩
    · exact ⟨[], .nil _, by rw [heq, List.append_nil]⟩
    · obtain ⟨line, hbytes, htext, hshape⟩ := readLimitedLine_line text hread
      have hspeaks : Says decode line message := ⟨text, htext, hmessage⟩
      have hlt := readLimitedLine_length_lt text hread
      have hline : IsLine maxProtocolLineBytes line ∨ (IsUnterminated maxProtocolLineBytes line ∧
          (readLimitedLine maxProtocolLineBytes reader).2.bytes = []) := by
        rcases hshape with hline | ⟨hlast, -, hempty⟩
        · exact Or.inl hline
        · exact Or.inr ⟨hlast, hempty⟩
      cases message with
      | hostCall name payload =>
        have hcall := (answerCall_dispatched dispatch fates pump
          ⟨name, payload⟩).1
        rcases hturn with ⟨reply, -, heq⟩ | ⟨hanswer, heq⟩
        · refine ⟨[⟨name, payload⟩], ?_, by rw [heq, hcall]⟩
          rw [hbytes]
          exact .cons line _ ⟨name, payload⟩ [] hline hspeaks (.nil _)
        · obtain ⟨-, -, -, hfinal, -, -⟩ :=
            answerCall_ok dispatch fates pump _ ⟨name, payload⟩ (Prod.ext hanswer rfl)
          obtain ⟨calls, hbegins, hcalls⟩ := ih _ (hsize ▸ hlt) _ _ (hfinal.trans hnone) rfl
          refine ⟨⟨name, payload⟩ :: calls, ?_, ?_⟩
          · rw [hbytes]
            exact .cons line _ ⟨name, payload⟩ calls hline hspeaks hbegins
          · rw [heq, hcalls, hcall, List.append_assoc, List.singleton_append]
      | finalResult taken =>
        have hturn : exchangeLoop decode dispatch fates pump reader = _ := hturn
        have hpump := (exchangeLoop_held decode dispatch fates
          { pump with finalResult := some taken, awaits := pump.awaits + 1 }
          (readLimitedLine maxProtocolLineBytes reader).2 taken rfl).1
        exact ⟨[], .nil _, by rw [hturn, hpump, List.append_nil]⟩

/-- The host is where the served calls lead. -/
def Pump.Led (host : H) (pump : Pump H) : Prop := pump.host = final dispatch host pump.served

theorem Pump.served_of_none {pump : Pump H} (h : pump.orphan = none) :
    pump.served = pump.dispatched := by
  unfold Pump.served
  rw [h]

/-- Answering a call serves it or leaves it running, and only the deadline does the latter. -/
theorem answerCall_host (host : H) (pump : Pump H) (call : HostCall) (horphan : pump.orphan = none)
    (hled : pump.Led dispatch host) :
    (answerCall dispatch fates pump call).2.Led dispatch host ∧
      ((answerCall dispatch fates pump call).1 ≠ .error .timedOut →
        (answerCall dispatch fates pump call).2.orphan = none) := by
  unfold Pump.Led at hled ⊢
  rw [Pump.served_of_none horphan] at hled
  have hserved (next : H) (result : Option Json) (h : dispatch pump.host call = (next, result)) :
      next = final dispatch host (pump.dispatched ++ [call]) := by
    rw [final_append, ← hled, final, final, h]
  unfold answerCall
  split
  · simp [Pump.served, hled]
  · split
    · rename_i next hdispatch
      simp [Pump.served, horphan, hserved next none hdispatch]
    · rename_i next result hdispatch
      have hnext := hserved next (some result) hdispatch
      split
      · simp [Pump.served, horphan, hnext]
      · split
        · simp [Pump.served, horphan, hnext]
        · simp [Pump.served, horphan, hnext]

/-- The host of a run is where its served calls lead, and only the deadline leaves a call
running. -/
theorem exchangeLoop_host (host : H) (pump : Pump H) (reader : Reader)
    (hnone : pump.finalResult = none) (horphan : pump.orphan = none)
    (hled : pump.Led dispatch host) :
    (exchangeLoop decode dispatch fates pump reader).2.Led dispatch host ∧
      ((exchangeLoop decode dispatch fates pump reader).1 ≠ .timedOut →
        (exchangeLoop decode dispatch fates pump reader).2.orphan = none) := by
  induction hsize : reader.bytes.length using Nat.strongRecOn
    generalizing pump reader with
  | _ size ih =>
    rcases exchangeLoop_turn decode dispatch fates pump reader hnone with
      ⟨reply, heq, -⟩ | ⟨text, message, hread, hmessage, hturn⟩
    · rw [heq]
      exact ⟨hled, fun _ => horphan⟩
    · have hlt := readLimitedLine_length_lt text hread
      cases message with
      | hostCall name payload =>
        obtain ⟨hnext, hstill⟩ := answerCall_host dispatch fates host pump ⟨name, payload⟩ horphan
          hled
        rcases hturn with ⟨reply, hanswer, heq⟩ | ⟨hanswer, heq⟩
        · rw [heq]
          refine ⟨hnext, ?_⟩
          intro hreply
          apply hstill
          rw [hanswer]
          intro h
          exact hreply (Except.error.inj h)
        · obtain ⟨-, -, -, hfinal, -, -⟩ :=
            answerCall_ok dispatch fates pump _ ⟨name, payload⟩ (Prod.ext hanswer rfl)
          have hgoing := hstill (by rw [hanswer]; simp)
          rw [heq]
          exact ih _ (hsize ▸ hlt) _ _ (hfinal.trans hnone) hgoing hnext rfl
      | finalResult taken =>
        have hturn : exchangeLoop decode dispatch fates pump reader = _ := hturn
        have hpump := (exchangeLoop_held decode dispatch fates
          { pump with finalResult := some taken, awaits := pump.awaits + 1 }
          (readLimitedLine maxProtocolLineBytes reader).2 taken rfl).1
        rw [hturn, hpump]
        exact ⟨hled, fun _ => horphan⟩

end Spec

end StuntDouble.Script
