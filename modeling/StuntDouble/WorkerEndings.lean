import StuntDouble.WorkerExchange

/-!
Runs however they end. A parent that gives its worker up has read some bytes, and there is an
await at which the exchange of these bytes ends the same way: so each run is one call of
`run_worker` on a process, with the same outcome, calls and host.
-/
namespace StuntDouble.ScriptWorker

open Channels LineReader Machine Script Transitions

section Turns

variable {decode : String → Option Wire} {H : Type} {dispatch : H → HostCall → H × Option Json}
  {fates : Fates} {reader : Reader} {pump : Pump H}

/-- The deadline passes at the await of this number. -/
def lateAt (bound : ℕ) : Fates := ⟨fun n => n = bound, fun _ => false⟩

/-- The write of this number breaks. -/
def brokenAt (bound : ℕ) : Fates := ⟨fun _ => false, fun n => n = bound⟩

def inTime : Fates := ⟨fun _ => false, fun _ => false⟩

theorem lateAt_calmTo (bound : ℕ) : CalmTo (lateAt bound) bound := by
  intro n hn
  exact ⟨decide_eq_false (by omega), rfl⟩

theorem brokenAt_calmTo (bound : ℕ) : CalmTo (brokenAt bound) bound := by
  intro n hn
  exact ⟨rfl, decide_eq_false (by omega)⟩

theorem inTime_calm : Calm inTime := fun _ => ⟨rfl, rfl⟩

theorem exchangeLoop_elapsed (h : fates.elapses pump.awaits = true) :
    exchangeLoop decode dispatch fates pump reader = (.timedOut, pump) := by
  rw [exchangeLoop, if_pos h]

/-- What is read ends the exchange without a result. -/
def Refuses (decode : String → Option Wire) (held : Option FinalResult) : LineRead → Prop
  | .line text => held ≠ none ∨ (decode text).bind WorkerMessage.ofWire = none
  | .eof => held = none
  | .failure => True
  | .silent => False

theorem exchangeLoop_refused (hin : fates.elapses pump.awaits = false)
    (h : Refuses decode pump.finalResult (readLimitedLine maxProtocolLineBytes reader).1) :
    exchangeLoop decode dispatch fates pump reader = (.unexpected, pump) := by
  rw [exchangeLoop, if_neg (by simp [hin])]
  split
  · rename_i hread
    rw [hread] at h
    contradiction
  · rfl
  · rename_i hread
    rw [hread] at h
    have hnone : pump.finalResult = none := h
    simp only [hnone]
  · rename_i text hread
    rw [hread] at h
    cases hheld : pump.finalResult with
    | some result => rfl
    | none =>
      have hmessage : (decode text).bind WorkerMessage.ofWire = none := by
        rcases h with h | h
        · exact absurd hheld h
        · exact h
      simp only [hmessage]

/-- A call is dispatched, and the exchange ends before it is answered. -/
theorem exchangeLoop_stopped {text : String} {call : HostCall} {reply : WorkerReply}
    {next : Pump H} (hin : fates.elapses pump.awaits = false) (hnone : pump.finalResult = none)
    (hread : (readLimitedLine maxProtocolLineBytes reader).1 = .line text)
    (hmessage : (decode text).bind WorkerMessage.ofWire =
      some (.hostCall call.name call.payload))
    (hanswer : answerCall dispatch fates pump call = (.error reply, next)) :
    exchangeLoop decode dispatch fates pump reader = (reply, next) := by
  rw [exchangeLoop, if_neg (by simp [hin])]
  split
  all_goals
    rename_i hfound
    rw [hread] at hfound
    cases hfound
  simp only [hnone, hmessage, hanswer]

theorem answerCall_late (call : HostCall) :
    answerCall dispatch (lateAt (pump.awaits + 1)) pump call = (.error .timedOut,
      { pump with dispatched := pump.dispatched ++ [call], orphan := some call }) := by
  simp [answerCall, lateAt]

theorem answerCall_unanswered {call : HostCall} {host : H}
    (h : dispatch pump.host call = (host, none)) :
    answerCall dispatch inTime pump call = (.error .unexpected,
      { pump with dispatched := pump.dispatched ++ [call], host := host }) := by
  simp [answerCall, inTime, h]

theorem answerCall_lateReply {call : HostCall} {host : H} {result : Json}
    (h : dispatch pump.host call = (host, some result)) :
    answerCall dispatch (lateAt (pump.awaits + 2)) pump call = (.error .timedOut,
      { pump with dispatched := pump.dispatched ++ [call], host := host }) := by
  simp [answerCall, lateAt, h]

theorem answerCall_brokenReply {call : HostCall} {host : H} {result : Json}
    (h : dispatch pump.host call = (host, some result)) :
    answerCall dispatch (brokenAt (pump.awaits + 2)) pump call = (.error .unexpected,
      { pump with dispatched := pump.dispatched ++ [call], host := host }) := by
  simp [answerCall, brokenAt, h]

end Turns

section Giving

variable {E H : Type} {setup : Setup E H} {capacity : ℕ} {s next : State E H capacity}

/-- The exchange of a setup, unless the deadline passes before the job is written. -/
def Setup.race (setup : Setup E H) (fates : Fates) (reader : Reader) : WorkerReply × Pump H :=
  if fates.elapses 0 then (.timedOut, startPump setup.host)
  else exchange setup.decode setup.dispatch fates setup.job setup.host reader

/-- All of the messages, or all but the last. -/
def SentUpTo (sent messages : List ParentMessage) : Prop :=
  sent = messages ∨ ∃ last, sent ++ [last] = messages

/-- The pump and the parent did the same. The last message may not have been sent, and a call
that runs on after the deadline may have come to its end since. -/
structure Tallies (setup : Setup E H) (pump : Pump H) (s : State E H capacity) : Prop where
  dispatched : pump.dispatched = s.books.dispatched
  sent : SentUpTo pump.sent (setup.job :: s.books.answered.map .hostResult)
  host : (pump.orphan = s.orphan ∧ pump.host = s.host) ∨
    ∃ call, pump.orphan = some call ∧ s.orphan = none ∧
      s.host = (setup.dispatch pump.host call).1

/-- Why a worker is given up, by the reply of the exchange and the exit of the worker. -/
inductive Gives : WorkerReply → Exit → Reason → Prop
  | timedOut (exit : Exit) : Gives .timedOut exit .timedOut
  | unexpected (exit : Exit) : Gives .unexpected exit .unexpected
  | failed (result : FinalResult) : Gives (.final result) .failure .unexpected
  | lost (result : FinalResult) : Gives (.final result) .waitError .waitFailed
  | lingering (result : FinalResult) : Gives (.final result) .timedOut .timedOut

/-- The exchange of what the parent read ends in a way that gives the worker up. -/
def Replayed (setup : Setup E H) (s : State E H capacity) (reason : Reason) : Prop :=
  ∃ (reader : Reader) (fates : Fates) (exit : Exit) (reply : WorkerReply) (pump : Pump H),
    reader.bytes = s.toParent.received ∧ setup.race fates reader = (reply, pump) ∧
      Gives reply exit reason ∧ Tallies setup pump s

theorem Replayed.same {reason : Reason} (h : Replayed setup s reason)
    (hreceived : next.toParent.received = s.toParent.received)
    (hdispatched : next.books.dispatched = s.books.dispatched)
    (hanswered : next.books.answered = s.books.answered) (hhost : next.host = s.host)
    (horphan : next.orphan = s.orphan) : Replayed setup next reason := by
  obtain ⟨reader, fates, exit, reply, pump, hbytes, hrace, hgives, hpump, hsent, hleft⟩ := h
  refine ⟨reader, fates, exit, reply, pump, hbytes.trans hreceived.symm, hrace, hgives,
    hpump.trans hdispatched.symm, by rw [hanswered]; exact hsent, ?_⟩
  rw [horphan, hhost]
  exact hleft

theorem Setup.race_eq {fates : Fates} {bound : ℕ} (hcalm : CalmTo fates bound) (h : 0 < bound)
    (reader : Reader) :
    setup.race fates reader = exchangeLoop setup.decode setup.dispatch fates
      ⟨setup.host, 1, none, [], [setup.job], none⟩ reader := by
  obtain ⟨hin, hwhole⟩ := hcalm 0 h
  rw [Setup.race, if_neg (by simp [hin]), exchange, if_neg (by simp [hwhole])]
  rfl

/-- The pump behind these calls, which were all answered. -/
def Setup.afterCalls (setup : Setup E H) (calls : List HostCall) (results : List Json) : Pump H :=
  ⟨final setup.dispatch setup.host calls, 1 + 3 * calls.length, none, calls,
    [setup.job] ++ results.map .hostResult, none⟩

/-- As long as nothing goes wrong, the exchange gets behind the lines of calls. -/
theorem Setup.race_of_callLines {front rest : Bytes} {calls : List HostCall}
    (hcalls : CallLines setup.decode front calls) {results : List Json}
    (hresults : outputs setup.dispatch setup.host calls = results.map some) {fates : Fates}
    (hcalm : CalmTo fates (setup.afterCalls calls results).awaits) {reader : Reader}
    (hbytes : reader.bytes = front ++ rest) :
    ∃ next : Reader, next.bytes = rest ∧ next.tail = reader.tail ∧
      setup.race fates reader = exchangeLoop setup.decode setup.dispatch fates
        (setup.afterCalls calls results) next := by
  obtain ⟨next, hnext, htail, hloop⟩ := exchangeLoop_of_callLines hcalls
    ⟨setup.host, 1, none, [], [setup.job], none⟩ hcalm rfl hbytes hresults
  refine ⟨next, hnext, htail, ?_⟩
  rw [Setup.race_eq hcalm (by simp [Setup.afterCalls]), hloop]
  rfl

/-- Where the exchange stands while the parent reads a line. -/
structure Paused (setup : Setup E H) (s : State E H capacity) (pump : Pump H) (line : Bytes) :
    Prop where
  tallies : Tallies setup pump s
  finalResult : pump.finalResult = s.finalResult
  before : ∀ fates, CalmTo fates pump.awaits → ∀ (reader : Reader) (rest : Bytes),
    reader.bytes = s.toParent.received ++ rest → reader.tail = .eof →
      (s.toParent.queue = [] → rest = []) →
        ∃ next : Reader, next.bytes = line ++ rest ∧ next.tail = .eof ∧
          setup.race fates reader =
            exchangeLoop setup.decode setup.dispatch fates pump next

/-- Where the exchange stands when the line of a call is next. -/
structure Asking (setup : Setup E H) (s : State E H capacity) (pump : Pump H)
    (call : HostCall) : Prop where
  dispatched : s.books.dispatched = pump.dispatched ++ [call]
  finalResult : pump.finalResult = none
  orphan : pump.orphan = none
  before : ∀ fates, CalmTo fates pump.awaits → ∀ reader : Reader,
    reader.bytes = s.toParent.received → reader.tail = .eof →
      ∃ (next : Reader) (text : String),
        (readLimitedLine maxProtocolLineBytes next).1 = .line text ∧
          (setup.decode text).bind WorkerMessage.ofWire =
            some (.hostCall call.name call.payload) ∧
          setup.race fates reader =
            exchangeLoop setup.decode setup.dispatch fates pump next

theorem Accounted.relayed (hs : Accounted setup s) (htalks : s.parent.talks = true) :
    Relayed setup s := by
  rcases hs.follows with hfollows | ⟨reason, hgiven⟩ | ⟨error, hgiven⟩
  · exact hfollows
  · rw [hgiven] at htalks
    contradiction
  · rw [hgiven] at htalks
    contradiction

theorem Accounted.paused (hs : Accounted setup s) {line : Bytes}
    (hparent : s.parent = .reading line) : ∃ pump, Paused setup s pump line := by
  have htalks : s.parent.talks = true := by rw [hparent]; rfl
  obtain ⟨-, hheard⟩ := hs.relayed htalks
  obtain ⟨hnone, hhost, hanswers⟩ := hs.hosted.allServed htalks (by simp [hparent])
  cases hheard with
  | @calling front htalks hfinal hcalls hreceived =>
    have hline : s.parent.line = line := by rw [hparent]; rfl
    rw [hline] at hreceived
    refine ⟨setup.afterCalls s.books.dispatched s.books.answered,
      ⟨rfl, Or.inl rfl, Or.inl ⟨hnone.symm, hhost.symm⟩⟩, hfinal.symm, ?_⟩
    intro fates hcalm reader rest hbytes htail _
    obtain ⟨next, hnext, hlast, hrace⟩ := Setup.race_of_callLines hcalls hanswers.symm hcalm
      (hbytes.trans (by rw [hreceived, List.append_assoc]))
    exact ⟨next, hnext, hlast.trans htail, hrace⟩
  | @ended front last calls call htalks hfinal hnothing hqueue hgone hfits hcalls hlast hspeaks
      hdispatched hreceived =>
    have hline : line = [] := by
      rw [hparent] at hnothing
      exact hnothing
    subst hline
    rw [hdispatched] at hanswers
    obtain ⟨before, answer, hsplit, hbefore, hanswer⟩ := answers_snoc hanswers.symm
    rw [hdispatched] at hhost
    refine ⟨⟨s.host, 1 + 3 * calls.length + 3, none, calls ++ [call],
      [setup.job] ++ before.map .hostResult ++ [.hostResult answer], none⟩,
      ⟨hdispatched.symm, Or.inl (by rw [hsplit]; simp), Or.inl ⟨hnone.symm, rfl⟩⟩, hfinal.symm, ?_⟩
    intro fates hcalm reader rest hbytes htail hrest
    -- The line of the last call ended with the stream, so nothing can follow it.
    obtain rfl := hrest hqueue
    rw [List.append_nil, hreceived] at hbytes
    obtain ⟨middle, hmiddle, hmiddleTail, hrace⟩ :=
      Setup.race_of_callLines hcalls hbefore (hcalm.mono (by simp [Setup.afterCalls])) hbytes
    obtain ⟨hread, hnext⟩ := readLimitedLine_isUnterminated hlast hmiddle
      (hmiddleTail.trans htail)
    obtain ⟨text, htext, hmessage⟩ := decodeLine_told hlast.2.1 hspeaks
    rw [htext] at hread
    refine ⟨_, hnext, (readLimitedLine_tail _ _).trans (hmiddleTail.trans htail), ?_⟩
    rw [hrace, exchangeLoop_call (setup.afterCalls calls before) hcalm rfl hread hmessage hanswer,
      hhost]
    rfl
  | @held front last line' result hreading hfinal hcalls hlast hspeaks hreceived =>
    rw [hparent] at hreading
    obtain rfl : line = line' := Parent.reading.inj hreading
    refine ⟨⟨s.host, 1 + 3 * s.books.dispatched.length + 1, some result, s.books.dispatched,
      [setup.job] ++ s.books.answered.map .hostResult, none⟩,
      ⟨rfl, Or.inl rfl, Or.inl ⟨hnone.symm, rfl⟩⟩, hfinal.symm, ?_⟩
    intro fates hcalm reader rest hbytes htail hrest
    have hend : IsLine maxProtocolLineBytes last ∨ (IsUnterminated maxProtocolLineBytes last ∧
        line ++ rest = [] ∧ reader.tail = .eof) := by
      rcases hlast with hlast | ⟨hlast, rfl, hqueue, -⟩
      · exact Or.inl hlast
      · exact Or.inr ⟨hlast, hrest hqueue, htail⟩
    obtain ⟨next, hnext, hlast, hloop⟩ := exchangeLoop_of_result hcalls hend hspeaks
      ⟨setup.host, 1, none, [], [setup.job], none⟩ hcalm rfl
      (hbytes.trans (by rw [hreceived]; simp)) hanswers.symm
    refine ⟨next, hnext, hlast.trans htail, ?_⟩
    rw [Setup.race_eq hcalm (by simp), hloop, hhost]
    rfl
  | settled hplace => simp [hparent] at hplace

theorem CallLines.last {decode : String → Option Wire} {front : Bytes} {calls : List HostCall}
    (h : CallLines decode front calls) (hne : calls ≠ []) :
    ∃ before line others call, front = before ++ line ∧ calls = others ++ [call] ∧
      CallLines decode before others ∧ IsLine maxProtocolLineBytes line ∧
        Says decode line (.hostCall call.name call.payload) := by
  cases h with
  | nil => exact absurd rfl hne
  | snoc h hline hspeaks => exact ⟨_, _, _, _, rfl, rfl, h, hline, hspeaks⟩

/-- The line of the last call ends what was read. -/
theorem Heard.lastCall (h : Heard setup s) (htalks : s.parent.talks = true)
    (hnothing : s.parent.line = []) (hreads : ∀ line, s.parent ≠ .reading line)
    (hfits : ∀ calls, s.parent.Fits calls → calls ≠ []) :
    ∃ front line calls call, s.toParent.received = front ++ line ∧
      s.books.dispatched = calls ++ [call] ∧ CallLines setup.decode front calls ∧
        (IsLine maxProtocolLineBytes line ∨ IsUnterminated maxProtocolLineBytes line) ∧
          Says setup.decode line (.hostCall call.name call.payload) := by
  cases h with
  | calling htalks hfinal hcalls hreceived hno hshort hplace =>
    obtain ⟨before, line, calls, call, rfl, hdispatched, hcalls, hline, hspeaks⟩ :=
      hcalls.last (hfits _ hplace)
    rw [hnothing, List.append_nil] at hreceived
    exact ⟨before, line, calls, call, hreceived, hdispatched, hcalls, Or.inl hline, hspeaks⟩
  | ended htalks hfinal hnothing hqueue hgone hplace hcalls hline hspeaks hdispatched hreceived =>
    exact ⟨_, _, _, _, hreceived, hdispatched, hcalls, Or.inr hline, hspeaks⟩
  | held hparent => exact absurd hparent (hreads _)
  | settled hparent =>
    rcases hparent with hparent | hparent
    · rw [hparent] at htalks
      contradiction
    · rw [hparent] at htalks
      contradiction

theorem asking_of_lines {front line : Bytes} {calls : List HostCall} {call : HostCall}
    {results : List Json} (hreceived : s.toParent.received = front ++ line)
    (hdispatched : s.books.dispatched = calls ++ [call])
    (hcalls : CallLines setup.decode front calls)
    (hline : IsLine maxProtocolLineBytes line ∨ IsUnterminated maxProtocolLineBytes line)
    (hspeaks : Says setup.decode line (.hostCall call.name call.payload))
    (hresults : outputs setup.dispatch setup.host calls = results.map some) :
    Asking setup s (setup.afterCalls calls results) call := by
  refine ⟨hdispatched, rfl, rfl, ?_⟩
  intro fates hcalm reader hbytes htail
  obtain ⟨next, hnext, hnextTail, hrace⟩ :=
    Setup.race_of_callLines hcalls hresults hcalm (hbytes.trans hreceived)
  have hend : IsLine maxProtocolLineBytes line ∨ (IsUnterminated maxProtocolLineBytes line ∧
      ([] : Bytes) = [] ∧ next.tail = .eof) := by
    rcases hline with hline | hline
    · exact Or.inl hline
    · exact Or.inr ⟨hline, rfl, hnextTail.trans htail⟩
  have hne : line ≠ [] := by
    rcases hline with hline | hline
    · exact isLine_ne_nil hline
    · exact hline.2.1
  obtain ⟨hread, -⟩ := readLimitedLine_whole hend (hnext.trans (List.append_nil line).symm)
  obtain ⟨text, htext, hmessage⟩ := decodeLine_told hne hspeaks
  rw [htext] at hread
  exact ⟨next, text, hread, hmessage, hrace⟩

/-- The call that is dispatched is the last one that was read, and all before it were served. -/
theorem Accounted.dispatching (hs : Accounted setup s) {call : HostCall}
    (hparent : s.parent = .dispatching call) :
    ∃ pump, Asking setup s pump call ∧ pump.host = s.host ∧ s.orphan = none ∧
      pump.sent = setup.job :: s.books.answered.map .hostResult := by
  have htalks : s.parent.talks = true := by rw [hparent]; rfl
  have hnone := hs.hosted.orphaned htalks
  obtain ⟨served, hserved, hhost, -, hall⟩ := hs.hosted.served
  rw [running_of_dispatching hnone hparent] at hserved
  obtain ⟨front, line, calls, last, hreceived, hdispatched, hcalls, hline, hspeaks⟩ :=
    (hs.relayed htalks).heard.lastCall htalks (by rw [hparent]; rfl) (by simp [hparent])
      (by simp [hparent, Parent.Fits])
  obtain ⟨rfl, hlast⟩ := List.append_inj' (hdispatched.symm.trans hserved) rfl
  obtain rfl : last = call := List.cons.inj hlast |>.1
  exact ⟨_, asking_of_lines hreceived hdispatched hcalls hline hspeaks (hall htalks).symm,
    hhost.symm, hnone, rfl⟩

/-- The reply that is written answers the last call that was read. -/
theorem Accounted.replying (hs : Accounted setup s) {left : Bytes}
    (hparent : s.parent = .replying left) :
    ∃ pump call answer, Asking setup s pump call ∧ s.orphan = none ∧
      setup.dispatch pump.host call = (s.host, some answer) ∧
        SentUpTo pump.sent (setup.job :: s.books.answered.map .hostResult) := by
  have htalks : s.parent.talks = true := by rw [hparent]; rfl
  obtain ⟨hnone, hhost, hanswers⟩ := hs.hosted.allServed htalks (by simp [hparent])
  obtain ⟨front, line, calls, call, hreceived, hdispatched, hcalls, hline, hspeaks⟩ :=
    (hs.relayed htalks).heard.lastCall htalks (by rw [hparent]; rfl) (by simp [hparent])
      (by simp [hparent, Parent.Fits])
  rw [hdispatched] at hhost hanswers
  obtain ⟨before, answer, hsplit, hbefore, hanswer⟩ := answers_snoc hanswers.symm
  refine ⟨_, call, answer, asking_of_lines hreceived hdispatched hcalls hline hspeaks hbefore,
    hnone, ?_, ?_⟩
  · rw [hhost]
    exact hanswer
  · rw [hsplit, List.map_append, ← List.cons_append]
    exact Or.inr ⟨_, rfl⟩

/-- Before the job is written nothing else has happened. -/
theorem Accounted.sendingJob (hs : Accounted setup s) {left : Bytes}
    (hparent : s.parent = .sendingJob left) :
    s.toParent.received = [] ∧ Tallies setup (startPump setup.host) s := by
  have htalks : s.parent.talks = true := by rw [hparent]; rfl
  obtain ⟨hnone, hhost, hanswers⟩ := hs.hosted.allServed htalks (by simp [hparent])
  obtain ⟨hreceived, hdispatched⟩ :
      s.toParent.received = [] ∧ s.books.dispatched = [] := by
    have hplace (calls : List HostCall) (hfits : s.parent.Fits calls) : calls = [] := by
      rw [hparent] at hfits
      exact hfits
    cases (hs.relayed htalks).heard with
    | calling htalks hfinal hcalls hreceived hno hshort hfits =>
      have hdispatched := hplace _ hfits
      rw [hdispatched] at hcalls
      generalize hempty : ([] : List HostCall) = calls at hcalls
      cases hcalls with
      | nil =>
        rw [hparent] at hreceived
        exact ⟨hreceived, hdispatched⟩
      | snoc h hline hspeaks => simp at hempty
    | ended htalks hfinal hnothing hqueue hgone hfits hcalls hline hspeaks hdispatched =>
      have hempty := hplace _ hfits
      rw [hdispatched] at hempty
      simp at hempty
    | held hreading => simp [hparent] at hreading
    | settled hsettled => simp [hparent] at hsettled
  rw [hdispatched] at hhost hanswers
  have hanswered : s.books.answered = [] := List.map_eq_nil_iff.mp hanswers
  refine ⟨hreceived, hdispatched.symm, Or.inr ⟨setup.job, ?_⟩, Or.inl ⟨hnone.symm, hhost.symm⟩⟩
  rw [hanswered]
  rfl

/-- A result was read, and the worker is given up before it counts. -/
theorem Accounted.resultLost (hs : Accounted setup s) {result : FinalResult}
    (hparent : s.parent = .reaping result) {exit : Exit} {reason : Reason}
    (hgives : Gives (.final result) exit reason) : Replayed setup s reason := by
  obtain ⟨reader, hbytes, htail⟩ := exists_reader s.toParent.sent
  obtain ⟨hread, pump, hpump, hdispatched, hhost, hsent, horphan, -⟩ :=
    hs.finished (Or.inl hparent) hbytes htail inTime_calm
  refine ⟨reader, inTime, exit, .final result, pump, hbytes.trans hread, ?_, hgives, hdispatched,
    ?_, Or.inl ⟨horphan, hhost⟩⟩
  · rw [Setup.race, if_neg (by simp [inTime]), hpump]
  · exact Or.inl hsent

/-- The call that was read last is not answered in time. -/
theorem Asking.stopped {pump stopped : Pump H} {call : HostCall} {reply : WorkerReply}
    {exit : Exit} {reason : Reason} (h : Asking setup s pump call) {fates : Fates}
    (hcalm : CalmTo fates (pump.awaits + 1))
    (hanswer : answerCall setup.dispatch fates pump call = (.error reply, stopped))
    (hgives : Gives reply exit reason)
    (hreceived : next.toParent.received = s.toParent.received)
    (htallies : Tallies setup stopped next) : Replayed setup next reason := by
  obtain ⟨reader, hbytes, htail⟩ := exists_reader s.toParent.received
  obtain ⟨behind, text, hread, hmessage, hrace⟩ :=
    h.before fates (hcalm.mono (by omega)) reader hbytes htail
  refine ⟨reader, fates, exit, reply, stopped, hbytes.trans hreceived.symm, hrace.trans ?_, hgives,
    htallies⟩
  exact exchangeLoop_stopped (hcalm _ (by omega)).1 h.finalResult hread hmessage hanswer

theorem deadline_replayed (hs : Accounted setup s) (h : s.deadline = some next) :
    next.parent = .terminating .timedOut ∧ Replayed setup next .timedOut := by
  unfold State.deadline at h
  -- In each place the deadline passes at the await at which the exchange stands there.
  split at h
  · rename_i left hparent
    cases h
    refine ⟨rfl, ?_⟩
    obtain ⟨hreceived, htallies⟩ := hs.sendingJob hparent
    obtain ⟨reader, hbytes, -⟩ := exists_reader []
    refine ⟨reader, lateAt 0, .timedOut, .timedOut, _, hbytes.trans hreceived.symm, ?_,
      .timedOut _, htallies.dispatched, htallies.sent, htallies.host⟩
    rw [Setup.race, if_pos (by simp [lateAt])]
  · rename_i line hparent
    cases h
    refine ⟨rfl, ?_⟩
    obtain ⟨pump, hpaused⟩ := hs.paused hparent
    obtain ⟨reader, hbytes, htail⟩ := exists_reader s.toParent.received
    obtain ⟨behind, -, -, hrace⟩ := hpaused.before (lateAt pump.awaits) (lateAt_calmTo _) reader []
      (hbytes.trans (List.append_nil _).symm) htail (fun _ => rfl)
    have htallies := hpaused.tallies
    refine ⟨reader, lateAt pump.awaits, .timedOut, .timedOut, pump, hbytes, hrace.trans ?_,
      .timedOut _, htallies.dispatched, htallies.sent, htallies.host⟩
    exact exchangeLoop_elapsed (by simp [lateAt])
  · rename_i left hparent
    cases h
    refine ⟨rfl, ?_⟩
    obtain ⟨pump, call, answer, hasking, hnone, hdispatch, hsent⟩ := hs.replying hparent
    exact hasking.stopped ((lateAt_calmTo (pump.awaits + 2)).mono (by omega))
      (answerCall_lateReply hdispatch) (.timedOut .timedOut) rfl
      ⟨hasking.dispatched.symm, hsent, Or.inl ⟨hasking.orphan.trans hnone.symm, rfl⟩⟩
  · rename_i call hparent
    cases h
    refine ⟨rfl, ?_⟩
    obtain ⟨pump, hasking, hhost, hnone, hsent⟩ := hs.dispatching hparent
    exact hasking.stopped (lateAt_calmTo (pump.awaits + 1)) (answerCall_late call)
      (.timedOut .timedOut) rfl ⟨hasking.dispatched.symm, Or.inl hsent, Or.inl ⟨rfl, hhost⟩⟩
  · rename_i result hparent
    cases h
    exact ⟨rfl, (hs.resultLost hparent (.lingering result)).same rfl rfl rfl rfl rfl⟩
  · contradiction
  · contradiction

theorem parentWrite_replayed (hs : Accounted setup s) (h : s.parentWrite = some next) :
    next.parent.talks = true ∨
      next.parent = .terminating .unexpected ∧ Replayed setup next .unexpected := by
  unfold State.parentWrite at h
  split at h
  · rename_i b left hparent
    split at h
    · cases h
      left
      show Parent.talks (if left = [] then .reading [] else .sendingJob left) = true
      split <;> rfl
    · cases h
      refine Or.inr ⟨rfl, ?_⟩
      obtain ⟨hreceived, htallies⟩ := hs.sendingJob hparent
      obtain ⟨reader, hbytes, -⟩ := exists_reader []
      refine ⟨reader, brokenAt 0, .failure, .unexpected, _, hbytes.trans hreceived.symm, ?_,
        .unexpected _, htallies.dispatched, htallies.sent, htallies.host⟩
      rw [Setup.race, if_neg (by simp [brokenAt]), exchange, if_pos (by simp [brokenAt])]
    · contradiction
  · rename_i b left hparent
    split at h
    · cases h
      left
      show Parent.talks (if left = [] then .reading [] else .replying left) = true
      split <;> rfl
    · cases h
      refine Or.inr ⟨rfl, ?_⟩
      obtain ⟨pump, call, answer, hasking, hnone, hdispatch, hsent⟩ := hs.replying hparent
      exact hasking.stopped ((brokenAt_calmTo (pump.awaits + 2)).mono (by omega))
        (answerCall_brokenReply hdispatch) (.unexpected .failure) rfl
        ⟨hasking.dispatched.symm, hsent, Or.inl ⟨hasking.orphan.trans hnone.symm, rfl⟩⟩
    · contradiction
  · contradiction

/-- What the parent reads next ends the exchange. -/
theorem Paused.refused {pump : Pump H} {line rest : Bytes} (h : Paused setup s pump line)
    (hrest : s.toParent.queue = [] → rest = [])
    (hrefuses : ∀ reader : Reader, reader.bytes = line ++ rest → reader.tail = .eof →
      Refuses setup.decode s.finalResult (readLimitedLine maxProtocolLineBytes reader).1)
    (hreceived : next.toParent.received = s.toParent.received ++ rest)
    (hbooks : next.books = s.books) (hhost : next.host = s.host)
    (horphan : next.orphan = s.orphan) : Replayed setup next .unexpected := by
  have htallies : Tallies setup pump next := by
    obtain ⟨hdispatched, hsent, hleft⟩ := h.tallies
    exact ⟨by rw [hbooks]; exact hdispatched, by rw [hbooks]; exact hsent,
      by rw [horphan, hhost]; exact hleft⟩
  obtain ⟨reader, hbytes, htail⟩ := exists_reader next.toParent.received
  obtain ⟨behind, hbehind, hbehindTail, hrace⟩ := h.before inTime (inTime_calm.to _) reader rest
    (hbytes.trans hreceived) htail hrest
  refine ⟨reader, inTime, .failure, .unexpected, pump, hbytes, hrace.trans ?_, .unexpected _,
    htallies⟩
  apply exchangeLoop_refused rfl
  rw [h.finalResult]
  exact hrefuses behind hbehind hbehindTail

/-- A line is a message that the parent goes on with, or it ends the exchange. -/
theorem takeMessage_cases (setup : Setup E H) (s : State E H capacity) {line : Bytes}
    (hne : line ≠ []) :
    (s.takeMessage setup.parse line).parent.talks = true ∨
      s.takeMessage setup.parse line = s.leave (.terminating .unexpected) ∧
        Refuses setup.decode s.finalResult (decodeLine line) := by
  have hdecoded : Utf8.decode line = none → decodeLine line = .failure := by
    intro hnone
    cases line with
    | nil => exact absurd rfl hne
    | cons b rest =>
      unfold decodeLine
      rw [hnone]
  have htext (text : String) : Utf8.decode line = some text → decodeLine line = .line text := by
    intro hsome
    cases line with
    | nil => exact absurd rfl hne
    | cons b rest =>
      unfold decodeLine
      rw [hsome]
  unfold State.takeMessage
  cases hfinal : s.finalResult with
  | some result =>
    refine Or.inr ⟨rfl, ?_⟩
    cases hread : Utf8.decode line with
    | none =>
      rw [hdecoded hread]
      trivial
    | some text =>
      rw [htext text hread]
      exact Or.inl (by simp)
  | none =>
    cases hmessage : WorkerMessage.decode setup.parse line with
    | some message =>
      left
      cases message <;> rfl
    | none =>
      refine Or.inr ⟨rfl, ?_⟩
      cases hread : Utf8.decode line with
      | none =>
        rw [hdecoded hread]
        trivial
      | some text =>
        rw [htext text hread]
        right
        have hbind : (Utf8.decode line).bind
          (fun text => (setup.decode text).bind WorkerMessage.ofWire) = none := hmessage
        rwa [hread] at hbind

/-- A line that is being read has no newline yet, and is not too long. -/
theorem Accounted.line_short (hs : Accounted setup s) {line : Bytes}
    (hparent : s.parent = .reading line) :
    newline ∉ line ∧ line.length ≤ maxProtocolLineBytes := by
  cases (hs.relayed (by rw [hparent]; rfl)).heard with
  | calling htalks hfinal hcalls hreceived hno hshort =>
    rw [hparent] at hno hshort
    exact ⟨hno, hshort⟩
  | ended htalks hfinal hnothing =>
    rw [hparent] at hnothing
    obtain rfl : line = [] := hnothing
    exact ⟨by simp, by simp⟩
  | held hreading hfinal hcalls hlast hspeaks hreceived hno hshort =>
    rw [hparent] at hreading
    obtain rfl := Parent.reading.inj hreading
    exact ⟨hno, hshort⟩
  | settled hplace => simp [hparent] at hplace

/-- A line that is too long fails to be read. -/
theorem readLimitedLine_long {reader : Reader} {limit : ℕ} {line : Bytes} {b : UInt8}
    (hno : newline ∉ line) (hbytes : reader.bytes = line ++ [b])
    (hlong : limit < (line ++ [b]).length) : (readLimitedLine limit reader).1 = .failure := by
  rw [(readLimitedLine_toAsync limit reader).1]
  by_cases hb : b = newline
  · subst hb
    have hread := readLimitedLineAsync_terminated limit hno
      (show reader.toAsync.bytes = line ++ newline :: [] by rw [Reader.toAsync_bytes, hbytes])
    rwa [if_pos hlong] at hread
  · have hread := readLimitedLineAsync_rest limit (show newline ∉ reader.toAsync.bytes by
      rw [Reader.toAsync_bytes, hbytes]
      simp [hno, Ne.symm hb])
    rwa [Reader.toAsync_bytes, hbytes, if_pos hlong] at hread

theorem parentRead_replayed (hs : Accounted setup s) (h : s.parentRead setup.parse = some next) :
    next.parent.talks = true ∨ (∃ result, next.parent = .reaping result) ∨
      next.parent = .terminating .unexpected ∧ Replayed setup next .unexpected := by
  unfold State.parentRead at h
  split at h
  · rename_i line hparent
    obtain ⟨pump, hpaused⟩ := hs.paused hparent
    obtain ⟨hno, hshort⟩ := hs.line_short hparent
    split at h
    · contradiction
    · rename_i hreceive
      split at h
      · rename_i hfinal
        cases h
        refine Or.inr (Or.inr ⟨rfl, ?_⟩)
        refine hpaused.refused (fun _ => rfl) ?_ (List.append_nil _).symm rfl rfl rfl
        intro reader hbytes htail
        rw [readLimitedLine_nothing hbytes htail]
        exact hfinal
      · cases h
        exact Or.inr (Or.inl ⟨_, rfl⟩)
      · rename_i b rest
        cases h
        rcases takeMessage_cases setup s (List.cons_ne_nil b rest) with
          htalks | ⟨hleaves, hrefuses⟩
        · exact Or.inl htalks
        · rw [hleaves]
          refine Or.inr (Or.inr ⟨rfl, ?_⟩)
          refine hpaused.refused (fun _ => rfl) ?_ (List.append_nil _).symm rfl rfl rfl
          intro reader hbytes htail
          rw [List.append_nil] at hbytes
          rw [(readLimitedLine_isUnterminated ⟨hshort, List.cons_ne_nil b rest, hno⟩ hbytes
            htail).1]
          exact hrefuses
    · rename_i b pipe hreceive
      have hgives := Channel.receive_item hreceive
      -- The pipe still held this byte, so the parent is not at the end of what was written.
      have hmore (hqueue : s.toParent.queue = []) : [b] = [] := by
        have hqueued := hgives.queue
        rw [hqueue] at hqueued
        contradiction
      split at h
      · rename_i hlong
        cases h
        refine Or.inr (Or.inr ⟨rfl, ?_⟩)
        refine hpaused.refused hmore ?_ hgives.received rfl rfl rfl
        intro reader hbytes htail
        rw [readLimitedLine_long hno hbytes ?_]
        · trivial
        · unfold appendProtocolChunk at hlong
          split at hlong
          · rwa [List.length_append]
          · contradiction
      · rename_i longer happend
        obtain ⟨rfl, hshorter⟩ := appendProtocolChunk_some _ _ _ _ happend
        split at h
        · rename_i hb
          cases h
          rcases takeMessage_cases setup { s with toParent := pipe }
            (show line ++ [b] ≠ [] by simp) with htalks | ⟨hleaves, hrefuses⟩
          · exact Or.inl htalks
          · rw [hleaves]
            refine Or.inr (Or.inr ⟨rfl, ?_⟩)
            refine hpaused.refused hmore ?_ hgives.received rfl rfl rfl
            intro reader hbytes htail
            rw [(readLimitedLine_isLine ⟨hshorter, line, by rw [hb], hno⟩
              (hbytes.trans (List.append_nil _).symm)).1]
            exact hrefuses
        · cases h
          exact Or.inl rfl
  · contradiction

/-- A call is not answered, or it is and the answer is written. -/
theorem serve_replayed (hs : Accounted setup s) (hnone : s.orphan = none)
    (h : s.serve setup.floatText setup.dispatch = some next) :
    next.parent.talks = true ∨
      next.parent = .terminating .unexpected ∧ Replayed setup next .unexpected := by
  unfold State.serve at h
  rw [hnone] at h
  dsimp only at h
  split at h
  · rename_i call hparent
    split at h
    · rename_i host hdispatch
      cases h
      refine Or.inr ⟨rfl, ?_⟩
      obtain ⟨pump, hasking, hhost, -, hsent⟩ := hs.dispatching hparent
      rw [← hhost] at hdispatch
      exact hasking.stopped (inTime_calm.to _) (answerCall_unanswered hdispatch)
        (.unexpected .failure) rfl
        ⟨hasking.dispatched.symm, Or.inl hsent, Or.inl ⟨hasking.orphan, rfl⟩⟩
    · cases h
      exact Or.inl rfl
  · contradiction

/-- How the parent came to give the worker up, and what it makes of that. -/
def Explained (setup : Setup E H) (s : State E H capacity) : Prop :=
  (∀ reason, s.parent = .terminating reason → Replayed setup s reason) ∧
    ∀ error, s.parent = .returned (.error error) → s.worker.gone = true ∧
      ∃ reason, Replayed setup s reason ∧
        error = givenUp setup.memoryBounded reason s.allocatorAbort

theorem Explained.of_talks (h : next.parent.talks = true) : Explained setup next := by
  constructor
  · intro reason hparent
    rw [hparent] at h
    contradiction
  · intro error hparent
    rw [hparent] at h
    contradiction

theorem Explained.of_terminating {reason : Reason} (hparent : next.parent = .terminating reason)
    (h : Replayed setup next reason) : Explained setup next := by
  constructor
  · intro other hother
    rw [hparent] at hother
    cases hother
    exact h
  · intro error hother
    rw [hparent] at hother
    contradiction

theorem Explained.of_returned {error : Error} {reason : Reason}
    (hparent : next.parent = .returned (.error error)) (hgone : next.worker.gone = true)
    (h : Replayed setup next reason)
    (herror : error = givenUp setup.memoryBounded reason next.allocatorAbort) :
    Explained setup next := by
  constructor
  · intro other hother
    rw [hparent] at hother
    contradiction
  · intro other hother
    rw [hparent] at hother
    cases hother
    exact ⟨hgone, reason, h, herror⟩

/-- What the worker does the parent does not see any more. -/
theorem WorkerOnly.explained (h : WorkerOnly s next) (hs : Explained setup s) :
    Explained setup next := by
  obtain ⟨halive, hparent, -, hhost, horphan, hreceived, -, hdispatched, hanswered⟩ := h
  obtain ⟨hgiven, hfailed⟩ := hs
  constructor
  · intro reason hreason
    rw [hparent] at hreason
    exact (hgiven reason hreason).same hreceived hdispatched hanswered hhost horphan
  · intro error herror
    rw [hparent] at herror
    rw [(hfailed error herror).1] at halive
    contradiction

/-- A call that runs on after the deadline comes to its end. -/
theorem Replayed.late {reason : Reason} {call : HostCall} (h : Replayed setup s reason)
    (horphan : s.orphan = some call) :
    Replayed setup { s with host := (setup.dispatch s.host call).1, orphan := none } reason := by
  obtain ⟨reader, fates, exit, reply, pump, hbytes, hrace, hgives, hpump, hsent, hleft⟩ := h
  refine ⟨reader, fates, exit, reply, pump, hbytes, hrace, hgives, hpump, hsent, Or.inr ?_⟩
  rcases hleft with ⟨hsame, hhost⟩ | ⟨other, -, hnone, -⟩
  · exact ⟨call, hsame.trans horphan, rfl, by rw [hhost]⟩
  · rw [hnone] at horphan
    contradiction

theorem serve_explained (hs : Accounted setup s) (hexplained : Explained setup s)
    (h : s.serve setup.floatText setup.dispatch = some next) : Explained setup next := by
  cases horphan : s.orphan with
  | none =>
    rcases serve_replayed hs horphan h with htalks | ⟨hparent, hreplayed⟩
    · exact .of_talks htalks
    · exact .of_terminating hparent hreplayed
  | some call =>
    unfold State.serve at h
    rw [horphan] at h
    cases h
    obtain ⟨hgiven, hfailed⟩ := hexplained
    constructor
    · intro reason hreason
      exact (hgiven reason hreason).late horphan
    · intro error herror
      obtain ⟨hgone, reason, hreplayed, hwhy⟩ := hfailed error herror
      exact ⟨hgone, reason, hreplayed.late horphan, hwhy⟩

theorem waitError_explained (hs : Accounted setup s) (h : s.waitError = some next) :
    Explained setup next := by
  unfold State.waitError at h
  split at h
  · rename_i result hparent
    cases h
    exact .of_terminating rfl ((hs.resultLost hparent (.lost result)).same rfl rfl rfl rfl rfl)
  · contradiction

theorem reap_explained (hs : Accounted setup s) (hexplained : Explained setup s)
    (h : s.reap setup.memoryBounded = some next) : Explained setup next := by
  unfold State.reap at h
  split at h
  · rename_i result hparent
    split at h
    · cases h
      exact ⟨by simp, by simp⟩
    · rename_i hworker
      cases h
      refine .of_returned rfl ?_
        ((hs.resultLost hparent (.failed result)).same rfl rfl rfl rfl rfl) rfl
      show s.worker.gone = true
      rw [hworker]
      rfl
    · contradiction
  · rename_i reason hparent
    have hreplayed := hexplained.1 reason hparent
    cases h
    cases hworker : s.worker with
    | exited success =>
      exact .of_returned rfl (by simp only [hworker]; rfl)
        (hreplayed.same rfl rfl rfl rfl rfl) rfl
    | _ => exact .of_returned rfl rfl (hreplayed.same rfl rfl rfl rfl rfl) rfl
  · contradiction

theorem step_explained (hs : Accounted setup s) (hexplained : Explained setup s) {a : Action}
    (hstep : setup.step s a = some next) : Explained setup next := by
  cases a with
  | compute => exact (compute_only hstep).explained hexplained
  | workerWrite => exact (workerWrite_only hstep).explained hexplained
  | workerRead => exact (workerRead_only hstep).explained hexplained
  | workerExit => exact (workerExit_only hstep).explained hexplained
  | crash allocatorAbort => exact (crash_only hstep).explained hexplained
  | parentWrite =>
    rcases parentWrite_replayed hs hstep with htalks | ⟨hparent, hreplayed⟩
    · exact .of_talks htalks
    · exact .of_terminating hparent hreplayed
  | parentRead =>
    rcases parentRead_replayed hs hstep with htalks | ⟨result, hparent⟩ | ⟨hparent, hreplayed⟩
    · exact .of_talks htalks
    · exact ⟨by simp [hparent], by simp [hparent]⟩
    · exact .of_terminating hparent hreplayed
  | serve => exact serve_explained hs hexplained hstep
  | reap => exact reap_explained hs hexplained hstep
  | deadline =>
    obtain ⟨hparent, hreplayed⟩ := deadline_replayed hs hstep
    exact .of_terminating hparent hreplayed
  | waitError => exact waitError_explained hs hstep

/-- What holds of a run beside the ways in which it can end. -/
theorem run_explained {as : List Action}
    (h : run setup.step (setup.start : State E H capacity) as = some s) :
    Accounted setup s ∧ Explained setup s := by
  refine run_invariant (fun s => Accounted setup s ∧ Explained setup s) (fun _ => True) ?_
    (fun _ _ => trivial) ⟨start_accounted, .of_talks rfl⟩ h
  intro s a next _ hs hstep
  exact ⟨step_accounted hs.1 hstep, step_explained hs.1 hs.2 hstep⟩

end Giving

section Endings

variable {E H Pipe File : Type} {setup : Setup E H} {capacity : ℕ} {s : State E H capacity}

/-- A worker that started, wrote what this reader gives, and exited. The line is the one of an
allocator that aborts. -/
def processOf (reader : Reader) (fates : Fates) (exit : Exit) (allocatorAbort : Bool) :
    Process where
  executable := true
  spawn := .started
  jobAssigned := true
  stdin := true
  stdout := some reader
  stderr := true
  fates := fates
  exit := exit
  stderrLines := some (if allocatorAbort then ["memory allocation of 0 bytes failed"] else [])

/-- The end of a run of `run_worker` by the outcome of its exchange. -/
def endOf (ops : HostOps H Pipe File) : Except Error FinalResult → Pump H → Ran H Pipe File
  | .ok result, pump => finishOutcome ops result pump
  | .error error, pump => .failed error pump

theorem unexpectedError_of_lines (memoryBounded allocatorAbort : Bool) :
    unexpectedWorkerError memoryBounded
        (some (if allocatorAbort then ["memory allocation of 0 bytes failed"] else [])) =
      unexpectedError memoryBounded allocatorAbort := by
  have hlines : memoryAllocationFailed
      (some (if allocatorAbort then ["memory allocation of 0 bytes failed"] else [])) =
        allocatorAbort := by
    cases allocatorAbort with
    | false => rfl
    | true => decide +kernel
  rw [unexpectedWorkerError, hlines]
  rfl

/-- A worker that is given up for a reason ends the run with the error of that reason. -/
theorem runWorker_of_gives {ops : HostOps H Pipe File} (hops : ops.dispatch = setup.dispatch)
    {reader : Reader} {fates : Fates} {exit : Exit} {reply : WorkerReply} {pump : Pump H}
    {reason : Reason} (hrace : setup.race fates reader = (reply, pump))
    (hgives : Gives reply exit reason) (allocatorAbort : Bool) :
    runWorker setup.decode ops setup.memoryBounded setup.job setup.host
        (processOf reader fates exit allocatorAbort) =
      .failed (givenUp setup.memoryBounded reason allocatorAbort) pump := by
  have hdeadline : raceDeadline setup.decode ops fates setup.job setup.host reader =
      (reply, pump) := by
    rw [raceDeadline, hops]
    exact hrace
  cases hgives with
  | timedOut | lost | lingering => simp [runWorker, processOf, hdeadline, givenUp]
  | unexpected | failed =>
    simp [runWorker, processOf, hdeadline, givenUp, unexpectedError_of_lines]

theorem runWorker_of_result {ops : HostOps H Pipe File} (hops : ops.dispatch = setup.dispatch)
    {reader : Reader} {fates : Fates} {result : FinalResult} {pump : Pump H}
    (hrace : setup.race fates reader = (.final result, pump)) (allocatorAbort : Bool) :
    runWorker setup.decode ops setup.memoryBounded setup.job setup.host
        (processOf reader fates .success allocatorAbort) = finishOutcome ops result pump := by
  have hdeadline : raceDeadline setup.decode ops fates setup.job setup.host reader =
      (.final result, pump) := by
    rw [raceDeadline, hops]
    exact hrace
  simp [runWorker, processOf, hdeadline]

/-- Every run that returns, however the two were interleaved, whatever the worker wrote and
whenever it died, the deadline passed or the host failed, is one call of `run_worker` on a
process that wrote what the parent read: the two end alike, they dispatched the same calls and
left the same host, but for a call that ran on, and sent the job and the answers in order, but
for one that was not written to its end. -/
theorem returned_of_runWorker {as : List Action}
    (h : run setup.step (setup.start : State E H capacity) as = some s)
    {outcome : Except Error FinalResult} (hreturned : s.parent = .returned outcome)
    {ops : HostOps H Pipe File} (hops : ops.dispatch = setup.dispatch) :
    ∃ reader fates exit pump, reader.bytes = s.toParent.received ∧ Tallies setup pump s ∧
      runWorker setup.decode ops setup.memoryBounded setup.job setup.host
          (processOf reader fates exit s.allocatorAbort) = endOf ops outcome pump := by
  obtain ⟨haccounted, hexplained⟩ := run_explained h
  cases outcome with
  | ok result =>
    obtain ⟨reader, hbytes, htail⟩ := exists_reader s.toParent.sent
    obtain ⟨hread, pump, hpump, hdispatched, hhost, hsent, horphan, -⟩ :=
      haccounted.finished (Or.inr hreturned) hbytes htail inTime_calm
    have hrace : setup.race inTime reader = (.final result, pump) := by
      rw [Setup.race, if_neg (by simp [inTime]), hpump]
    exact ⟨reader, inTime, .success, pump, hbytes.trans hread,
      ⟨hdispatched, Or.inl hsent, Or.inl ⟨horphan, hhost⟩⟩, runWorker_of_result hops hrace _⟩
  | error error =>
    obtain ⟨-, reason, hreplayed, rfl⟩ := hexplained.2 error hreturned
    obtain ⟨reader, fates, exit, reply, pump, hbytes, hrace, hgives, htallies⟩ := hreplayed
    exact ⟨reader, fates, exit, pump, hbytes, htallies, runWorker_of_gives hops hrace hgives _⟩

/-- The deadline passes while the call is served, which then comes to its end. -/
def askingLateRun : List Action :=
  downward askingOnce.jobLine ++ upward (askingOnce.messageLine (.hostCall .state .null)) ++
    [.deadline, .serve, .reap]

def Parent.isLate : Parent → Bool
  | .returned (.error .timedOut) => true
  | _ => false

theorem Parent.isLate_eq {parent : Parent} (h : parent.isLate = true) :
    parent = .returned (.error .timedOut) := by
  unfold Parent.isLate at h
  split at h
  · rfl
  · contradiction

theorem askingLate_ends : ∃ s : State Bool ℕ 128,
    run askingOnce.step askingOnce.start askingLateRun = some s ∧
      s.parent = .returned (.error .timedOut) := by
  have hend : ((run askingOnce.step (askingOnce.start : State Bool ℕ 128) askingLateRun).map
      fun s => s.parent.isLate) = some true := by decide +kernel
  obtain ⟨s, hs, hlate⟩ := Option.map_eq_some_iff.mp hend
  exact ⟨s, hs, Parent.isLate_eq hlate⟩

theorem returned_of_runWorker_late :
    ∃ (s : State Bool ℕ 128) (process : Process) (pump : Pump ℕ),
      s.parent = .returned (.error .timedOut) ∧ Tallies askingOnce pump s ∧
        runWorker askingOnce.decode
            (⟨askingOnce.dispatch, fun n => ((none, none, none), n), fun n _ _ => n⟩ :
              HostOps ℕ Unit Unit) true askingOnce.job 0 process = .failed .timedOut pump := by
  obtain ⟨s, hrun, hparent⟩ := askingLate_ends
  obtain ⟨reader, fates, exit, pump, -, htallies, hran⟩ := returned_of_runWorker hrun hparent
    (show (⟨askingOnce.dispatch, fun n => ((none, none, none), n), fun n _ _ => n⟩ :
      HostOps ℕ Unit Unit).dispatch = askingOnce.dispatch from rfl)
  exact ⟨s, _, pump, hparent, htallies, hran⟩

end Endings

end StuntDouble.ScriptWorker
