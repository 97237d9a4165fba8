import StuntDouble.PipeRelay

/-!
Runs of the relay. Whatever the order of the steps, the client gets the beginning of the
body, and the count, the outcome and the one log line agree with what it got. Every run is
short, and when nothing is possible but that the client closes, the relay is done.
-/
namespace StuntDouble.PipeRelay

open Channels RequestLog Server Transitions Upstream

section Invariant

variable {p : Setup} {s next : State}

/-- The relay goes on, and the pump does not notice. -/
theorem Pumped.relayStep (h : Pumped p.reads s) (hpump : next.pump = s.pump)
    (hsent : next.upstream.sent = s.upstream.sent)
    (hended : next.upstream.ended = s.upstream.ended)
    (hclosed : next.upstream.closed = false → s.upstream.closed = false) :
    Pumped p.reads next := by
  refine ⟨?_, ?_, ?_⟩
  · rw [hended, hpump]
    exact h.ended
  · rw [hsent, hpump]
    exact h.begun
  · intro hopen
    rw [hsent, hpump]
    exact h.all (hclosed hopen)

theorem Pumped.recv (h : Pumped p.reads s) (hstep : Stepped p s .recv next) :
    Pumped p.reads next := by
  cases hstep with
  | recvEnd hrelay hqueue hended => exact h.relayStep rfl rfl rfl id
  | recvChunk hrelay chunk upstream hgives =>
    exact h.relayStep rfl hgives.sent hgives.ended (fun hopen => hgives.closed ▸ hopen)
  | recvFailed hrelay error upstream hgives =>
    exact h.relayStep rfl hgives.sent hgives.ended (fun hopen => hgives.closed ▸ hopen)

/-- A step of the relay or the client that leaves the pump and its channel alone, or closes
the channel. -/
structure Apart (s next : State) : Prop where
  pump : next.pump = s.pump
  upstream : next.upstream = s.upstream ∨ next.upstream = s.upstream.close

theorem Pumped.apart (h : Pumped p.reads s) (hapart : Apart s next) : Pumped p.reads next := by
  rcases hapart.upstream with hsame | hclose
  · exact h.relayStep hapart.pump (by rw [hsame]) (by rw [hsame]) (fun hopen => hsame ▸ hopen)
  · refine h.relayStep hapart.pump (by rw [hclose]; rfl) (by rw [hclose]; rfl) ?_
    rw [hclose, Channel.close_closed]
    nofun

/-- Only the pump sends to the relay, and only in front of its `select` the relay receives. -/
theorem Stepped.apart {a : Action} (h : Stepped p s a next) (hread : a ≠ .read)
    (hsend : a ≠ .pumpSend) (hrecv : a ≠ .recv) : Apart s next := by
  cases h with
  | readEnd rest hpump hend => exact absurd rfl hread
  | readData b bytes rest hpump => exact absurd rfl hread
  | interrupted rest hpump => exact absurd rfl hread
  | readFailed error rest hpump => exact absurd rfl hread
  | pumpRefused item rest hpump hclosed => exact absurd rfl hsend
  | pumpChunk bytes rest hpump upstream hsent => exact absurd rfl hsend
  | pumpFailed error rest hpump upstream hsent => exact absurd rfl hsend
  | recvEnd hrelay hqueue hended => exact absurd rfl hrecv
  | recvChunk hrelay chunk upstream hgives => exact absurd rfl hrecv
  | recvFailed hrelay error upstream hgives => exact absurd rfl hrecv
  | forwardNone now hrelay herror => exact ⟨rfl, Or.inr rfl⟩
  | forwardRefused now hrelay hclosed => exact ⟨rfl, Or.inr rfl⟩
  | forwardFailed now hrelay error herror client hsent => exact ⟨rfl, Or.inr rfl⟩
  | _ => exact ⟨rfl, Or.inl rfl⟩

def Inv (p : Setup) (s : State) : Prop :=
  Pumped p.reads s ∧ ∃ frames forwarded, RelayInv p s frames forwarded

theorem inv_start (p : Setup) : Inv p (State.start p) :=
  ⟨pumped_start p, [], [], relayInv_start p⟩

theorem inv_step (s : State) (a : Action) (next : State) (h : Inv p s)
    (hstep : step p s a = some next) : Inv p next := by
  obtain ⟨hp, frames, forwarded, hr⟩ := h
  have hstepped := step_stepped hstep
  cases a with
  | read =>
    have hpump := hstepped.read_pump
    exact ⟨hp.pumpStep hpump, _, _, hr.pumpStep hp hpump⟩
  | pumpSend =>
    have hpump := hstepped.send_pump hp
    exact ⟨hp.pumpStep hpump, _, _, hr.pumpStep hp hpump⟩
  | recv => exact ⟨hp.recv hstepped, _, _, hr.recv hp hstepped⟩
  | closed => exact ⟨hp.apart (hstepped.apart nofun nofun nofun), _, _, hr.closedBranch hstepped⟩
  | send =>
    obtain ⟨accepted, hnext⟩ := hr.send hstepped
    exact ⟨hp.apart (hstepped.apart nofun nofun nofun), _, _, hnext⟩
  | finish now =>
    exact ⟨hp.apart (hstepped.apart nofun nofun nofun), _, _, hr.finish hstepped⟩
  | forward now =>
    obtain ⟨more, hnext⟩ := hr.forward hstepped
    exact ⟨hp.apart (hstepped.apart nofun nofun nofun), _, _, hnext⟩
  | take =>
    refine ⟨hp.apart (hstepped.apart nofun nofun nofun), frames, forwarded, ?_⟩
    cases hstepped with
    | take hopen item client hgives =>
      exact hr.client client hgives.sent (fun hclosed => hgives.closed.trans hclosed)
  | close =>
    refine ⟨hp.apart (hstepped.apart nofun nofun nofun), frames, forwarded, ?_⟩
    cases hstepped with
    | close hopen => exact hr.client s.client.close rfl (fun _ => rfl)

/-- The invariant holds after every run. -/
theorem inv_run {as : List Action} (h : run (step p) (State.start p) as = some s) : Inv p s :=
  run_invariant (Inv p) (fun _ => True) (fun s a next _ hs hnext => inv_step s a next hs hnext)
    (fun _ _ => trivial) (inv_start p) h

end Invariant

section Progress

variable {p : Setup} {s next : State}

def Pump.measure : Pump → ℕ
  | .reading rest => 6 * rest.length + 1
  | .sending _ rest => 6 * rest.length + 5
  | .done => 0

def Relay.measure : Relay → ℕ
  | .selecting => 4
  | .sending _ => 6
  | .ended => 3
  | .logged => 2
  | .done => 0

/-- How many steps there still may be. -/
def State.measure (s : State) : ℕ :=
  s.pump.measure + 3 * s.upstream.queue.length + s.relay.measure + s.client.queue.length +
    (!s.client.closed).toNat

theorem stopPump_measure (h : 0 < s.pump.measure) : s.stopPump.measure < s.measure := by
  have hdone : Pump.measure .done = 0 := rfl
  simp only [State.measure, State.stopPump, hdone, Channel.finish_queue]
  omega

theorem stopRelay_measure (hrelay : s.relay = .logged) (now : ℕ) :
    (s.stopRelay p now).measure < s.measure := by
  simp only [State.measure, State.stopRelay, hrelay, Relay.measure, Channel.close_queue,
    Channel.finish_queue, Channel.finish_closed]
  omega

/-- Every step leaves fewer steps to do. -/
theorem Stepped.measure {a : Action} (h : Stepped p s a next) : next.measure < s.measure := by
  cases h with
  | readEnd rest hpump hend => exact stopPump_measure (by rw [hpump]; exact Nat.succ_pos _)
  | readData b bytes rest hpump =>
    simp only [State.measure, hpump, Pump.measure, List.length_cons]
    omega
  | interrupted rest hpump =>
    simp only [State.measure, hpump, Pump.measure, List.length_cons]
    omega
  | readFailed error rest hpump =>
    simp only [State.measure, hpump, Pump.measure, List.length_cons]
    omega
  | pumpRefused item rest hpump hclosed =>
    exact stopPump_measure (by rw [hpump]; exact Nat.succ_pos _)
  | pumpChunk bytes rest hpump upstream hsent =>
    simp only [State.measure, hpump, Pump.measure, hsent.queue, List.length_append,
      List.length_singleton]
    omega
  | pumpFailed error rest hpump upstream hsent =>
    simp only [State.measure, State.stopPump, hpump, Pump.measure, Channel.finish_queue,
      hsent.queue, List.length_append, List.length_singleton]
    omega
  | recvEnd hrelay hqueue hended =>
    simp only [State.measure, State.leave, hrelay, Relay.measure]
    omega
  | recvChunk hrelay chunk upstream hgives =>
    simp only [State.measure, hrelay, Relay.measure, hgives.queue, List.length_cons]
    omega
  | recvFailed hrelay error upstream hgives =>
    simp only [State.measure, State.leave, hrelay, Relay.measure, hgives.queue, List.length_cons]
    omega
  | closed hrelay hclosed =>
    simp only [State.measure, State.leave, hrelay, Relay.measure]
    omega
  | sendRefused chunk hrelay hclosed =>
    simp only [State.measure, State.leave, hrelay, Relay.measure]
    omega
  | sendChunk chunk hrelay client hsent =>
    simp only [State.measure, hrelay, Relay.measure, hsent.queue, hsent.closed,
      List.length_append, List.length_singleton]
    omega
  | finish now hrelay =>
    simp only [State.measure, hrelay, Relay.measure]
    omega
  | forwardNone now hrelay herror => exact stopRelay_measure hrelay now
  | forwardRefused now hrelay hclosed => exact stopRelay_measure hrelay now
  | forwardFailed now hrelay error herror client hsent =>
    simp only [State.measure, State.stopRelay, hrelay, Relay.measure, Channel.close_queue,
      Channel.finish_queue, Channel.finish_closed, hsent.queue, hsent.closed,
      List.length_append, List.length_singleton]
    omega
  | take hopen item client hgives =>
    simp only [State.measure, hgives.queue, hgives.closed, List.length_cons]
    omega
  | close hopen => simp [State.measure, hopen]

theorem step_measure (s : State) (a : Action) (next : State) (hstep : step p s a = some next) :
    next.measure < s.measure :=
  (step_stepped hstep).measure

theorem not_full (htake : s.take = none) (item : Item) : s.client.send item ≠ .full := by
  intro hfull
  obtain ⟨hopen, hlong⟩ := Channel.send_full hfull
  have hsome : s.client.queue ≠ [] := by
    intro hnil
    rw [hnil] at hlong
    exact absurd hlong (by decide)
  obtain ⟨a, client, hitem⟩ := Channel.receive_some hsome
  rw [State.take, hopen, if_neg (by decide), hitem] at htake
  cases htake

theorem reading_read {rest : List Read} (hpump : s.pump = .reading rest) (hread : s.read = none) :
    False := by
  rw [State.read, hpump] at hread
  match rest with
  | [] => cases hread
  | .data [] :: _ => cases hread
  | .data (_ :: _) :: _ => cases hread
  | .interrupted :: _ => cases hread
  | .failed _ :: _ => cases hread

/-- A relay that waits for the upstream sees a pump that goes on. -/
theorem not_empty (hp : Pumped p.reads s) (hread : s.read = none) (hsend : s.pumpSend = none)
    (hempty : s.upstream.receive = .empty) : False := by
  obtain ⟨hqueue, hended⟩ := Channel.receive_empty hempty
  have hgoing := hp.ended
  rw [hended] at hgoing
  cases hpump : s.pump with
  | done =>
    rw [hpump] at hgoing
    cases hgoing
  | reading rest => exact reading_read hpump hread
  | sending item rest =>
    rw [State.pumpSend, hpump] at hsend
    cases hresult : s.upstream.send item with
    | full =>
      obtain ⟨-, hlong⟩ := Channel.send_full hresult
      rw [hqueue] at hlong
      exact absurd hlong (by decide)
    | refused => simp [hresult] at hsend
    | accepted upstream =>
      cases item with
      | chunk bytes => simp [hresult] at hsend
      | failed error => simp [hresult] at hsend

/-- A relay with nothing to do is done. -/
theorem quiet_relay (hp : Pumped p.reads s) (hquiet : Quiet (step p) (· ≠ .close) s) :
    s.relay = .done := by
  have hread : s.read = none := hquiet .read nofun
  have hpumpSend : s.pumpSend = none := hquiet .pumpSend nofun
  have hrecv : s.recv = none := hquiet .recv nofun
  have hsend : s.send p = none := hquiet .send nofun
  have hfinish : s.finish p 0 = none := hquiet (.finish 0) nofun
  have hforward : s.forward p 0 = none := hquiet (.forward 0) nofun
  have htake : s.take = none := hquiet .take nofun
  cases hrelay : s.relay with
  | selecting =>
    rw [State.recv, hrelay] at hrecv
    cases hresult : s.upstream.receive with
    | empty => exact (not_empty hp hread hpumpSend hresult).elim
    | ended => simp [hresult] at hrecv
    | item item upstream =>
      cases item with
      | chunk bytes => simp [hresult] at hrecv
      | failed error => simp [hresult] at hrecv
  | sending chunk =>
    rw [State.send, hrelay] at hsend
    cases hresult : s.client.send (.chunk chunk) with
    | full => exact absurd hresult (not_full htake _)
    | refused => simp [hresult] at hsend
    | accepted client => simp [hresult] at hsend
  | ended =>
    rw [State.finish, hrelay] at hfinish
    cases hfinish
  | logged =>
    cases herror : s.terminalError with
    | none => simp [State.forward, hrelay, herror] at hforward
    | some error =>
      cases hresult : s.client.send (.failed error) with
      | full => exact absurd hresult (not_full htake _)
      | refused => simp [State.forward, hrelay, herror, hresult] at hforward
      | accepted client => simp [State.forward, hrelay, herror, hresult] at hforward
  | done => rfl

/-- When nothing is possible but that the client closes, the relay and the pump are done. -/
theorem quiet_done (h : Inv p s) (hquiet : Quiet (step p) (· ≠ .close) s) :
    s.relay = .done ∧ s.pump = .done := by
  obtain ⟨hp, frames, forwarded, hr⟩ := h
  have hread : s.read = none := hquiet .read nofun
  have hpumpSend : s.pumpSend = none := hquiet .pumpSend nofun
  have hrelay := quiet_relay hp hquiet
  refine ⟨hrelay, ?_⟩
  have hclosed : s.upstream.closed = true := by
    rw [hr.closed, hrelay]
    rfl
  cases hpump : s.pump with
  | done => rfl
  | reading rest => exact (reading_read hpump hread).elim
  | sending item rest =>
    have hrefused : s.upstream.send item = .refused := by
      rw [Channel.send, if_pos hclosed]
    rw [State.pumpSend, hpump] at hpumpSend
    simp [hrefused] at hpumpSend

end Progress

section Totals

def exactTotal (frames : List Bytes) : ℕ := (frames.map List.length).sum

/-- The total length of some frames, as an unsigned 64-bit integer that saturates. -/
def saturatedTotal (frames : List Bytes) : ℕ := min (exactTotal frames) (2 ^ 64 - 1)

theorem countBytes_eq (frames : List Bytes) : countBytes frames = saturatedTotal frames := by
  induction frames using List.reverseRecOn with
  | nil => rfl
  | append_singleton frames chunk ih =>
    rw [countBytes_append, ih]
    simp only [saturatedTotal, exactTotal, saturatingAdd, List.map_append, List.sum_append,
      List.map_cons, List.map_nil, List.sum_cons, List.sum_nil]
    omega

theorem filterMap_chunks (frames : List Bytes) : (chunks frames).filterMap Item.frame = frames := by
  rw [chunks, List.filterMap_map]
  exact List.filterMap_some

/-- An error of the upstream is the last item of its body. -/
theorem bodyItems_failed {reads : List Read} {frames : List Bytes} {error : String}
    (h : chunks frames ++ [.failed error] <+: bodyItems reads) :
    bodyItems reads = chunks frames ++ [.failed error] := by
  fun_induction bodyItems reads generalizing frames with
  | case1 => simp at h
  | case2 rest => simp at h
  | case3 b bytes rest ih =>
    cases frames with
    | nil =>
      obtain ⟨hhead, -⟩ := List.cons_prefix_cons.mp h
      cases hhead
    | cons frame frames =>
      obtain ⟨hhead, htail⟩ := List.cons_prefix_cons.mp h
      rw [ih htail, ← hhead]
      rfl
  | case4 rest ih => exact ih h
  | case5 failure rest =>
    cases frames with
    | nil =>
      obtain ⟨hhead, -⟩ := List.cons_prefix_cons.mp h
      rw [← hhead]
      rfl
    | cons frame frames =>
      obtain ⟨hhead, -⟩ := List.cons_prefix_cons.mp h
      cases hhead

end Totals

/-- What holds of a relay at any time, for a way to add up the accepted frames. The ending is
how its loop was left. -/
structure Accounted (p : Setup) (total : List Bytes → ℕ) (s : State) : Prop where
  accepted : s.frames <+: bodyFrames p.reads
  delivered : s.client.received <+: s.client.sent
  errorLast : ∀ error, .failed error ∈ s.client.sent →
    s.client.sent = chunks (bodyFrames p.reads) ++ [.failed error]
  once : (s.call.finished = false ∧ s.calls = p.calls ∧ s.lines = [] ∧ s.relay ≠ .done) ∨
    (s.call.finished = true ∧ ∃ now,
      s.calls = finishStream p.elapsedMs now (total s.frames) s.outcome p.calls p.call ∧
        s.lines = [completed p now (total s.frames) s.outcome s.calls])
  ended : s.relay = .done →
    (s.ending = some .upstreamEnd ∧ s.upstream.ended = true ∧ s.frames = bodyFrames p.reads) ∨
      (s.ending = some .clientClosed ∧ s.client.closed = true) ∨
      ∃ error, s.ending = some (.upstreamError error) ∧ .failed error ∈ s.upstream.received
  upstreamError : s.relay = .done →
    (s.outcome = .upstreamError ↔ ∃ error, .failed error ∈ s.upstream.received)
  complete : s.relay = .done →
    (s.outcome = .complete ↔ s.ending = some .upstreamEnd ∨
      s.ending = some .clientClosed ∧ p.announced = some (total s.frames))
  disconnected : s.relay = .done →
    (s.outcome = .clientDisconnected ↔
      s.ending = some .clientClosed ∧ p.announced ≠ some (total s.frames))
  forwarded : s.relay = .done → s.outcome = .upstreamError → s.client.closed = false →
    ∃ error, .failed error ∈ s.client.sent
  whole : s.relay = .done → s.client.closed = false → (∀ error, .failed error ∉ bodyItems p.reads) →
    s.frames = bodyFrames p.reads

section Accounting

variable {p : Setup} {s : State} {frames : List Bytes} {forwarded : List Item}

theorem RelayInv.frames_eq (h : RelayInv p s frames forwarded) : s.frames = frames := by
  rw [State.frames, h.sent, List.filterMap_append, filterMap_chunks]
  rcases h.forwarded with ⟨rfl, -⟩ | ⟨error, -, -, rfl⟩
  · exact List.append_nil frames
  · exact List.append_nil frames

/-- How the loop was left, once it was. -/
theorem RelayInv.left (h : RelayInv p s frames forwarded) (hdone : s.relay = .done) :
    ∃ ending, s.ending = some ending ∧ Explains p s frames ending := by
  have hphase := h.phase
  rw [hdone] at hphase
  exact hphase.1

/-- The relay has received the frames, and perhaps one item more. -/
theorem RelayInv.received (h : RelayInv p s frames forwarded) :
    chunks frames <+: s.upstream.received := by
  have hleft (hleft : Left p s frames) : chunks frames <+: s.upstream.received := by
    obtain ⟨ending, -, hending⟩ := hleft
    cases ending with
    | upstreamError error =>
      rw [hending.2.2]
      exact List.prefix_append _ _
    | upstreamEnd => rw [hending.2.2.1]
    | clientClosed =>
      rcases hending.2.2.2 with hitems | ⟨chunk, hitems⟩
      · rw [hitems]
      · rw [hitems]
        exact List.prefix_append _ _
  have hphase := h.phase
  cases hrelay : s.relay with
  | selecting =>
    rw [hrelay] at hphase
    rw [hphase.1]
  | sending chunk =>
    rw [hrelay] at hphase
    rw [hphase.1]
    exact List.prefix_append _ _
  | ended =>
    rw [hrelay] at hphase
    exact hleft hphase.1
  | logged =>
    rw [hrelay] at hphase
    exact hleft hphase.1
  | done =>
    rw [hrelay] at hphase
    exact hleft hphase.1

/-- What the relay has received is the beginning of the body. -/
theorem received_body (hp : Pumped p.reads s) : s.upstream.received <+: bodyItems p.reads :=
  s.upstream.received_prefix.trans ((List.prefix_append _ _).trans hp.begun)

theorem failed_not_chunks {error : String} : Item.failed error ∉ chunks frames := by
  intro hmem
  obtain ⟨bytes, -, hitem⟩ := List.mem_map.mp hmem
  cases hitem

/-- The relay has taken an error exactly when that is how its loop was left. -/
theorem RelayInv.taken (h : RelayInv p s frames forwarded) (hdone : s.relay = .done) :
    (∃ error, s.ending = some (.upstreamError error)) ↔
      ∃ error, .failed error ∈ s.upstream.received := by
  obtain ⟨ending, hsome, hending⟩ := h.left hdone
  cases ending with
  | upstreamError error =>
    refine iff_of_true ⟨error, hsome⟩ ⟨error, ?_⟩
    rw [hending.2.2]
    exact List.mem_append_right _ (List.mem_singleton.mpr rfl)
  | upstreamEnd =>
    refine iff_of_false ?_ ?_
    · rintro ⟨error, herror⟩
      rw [hsome] at herror
      cases herror
    · rintro ⟨error, hmem⟩
      rw [hending.2.2.1] at hmem
      exact failed_not_chunks hmem
  | clientClosed =>
    refine iff_of_false ?_ ?_
    · rintro ⟨error, herror⟩
      rw [hsome] at herror
      cases herror
    · rintro ⟨error, hmem⟩
      rcases hending.2.2.2 with hitems | ⟨chunk, hitems⟩
      · rw [hitems] at hmem
        exact failed_not_chunks hmem
      · rw [hitems, List.mem_append, List.mem_singleton] at hmem
        rcases hmem with hmem | hmem
        · exact failed_not_chunks hmem
        · cases hmem

/-- The outcome, by how the loop was left. -/
theorem RelayInv.outcome_eq (h : RelayInv p s frames forwarded) (hdone : s.relay = .done) :
    (s.outcome = .upstreamError ↔ ∃ error, s.ending = some (.upstreamError error)) ∧
      (s.outcome = .complete ↔ s.ending = some .upstreamEnd ∨
        s.ending = some .clientClosed ∧ p.announced = some s.bytes) ∧
      (s.outcome = .clientDisconnected ↔
        s.ending = some .clientClosed ∧ p.announced ≠ some s.bytes) := by
  obtain ⟨ending, hsome, hending⟩ := h.left hdone
  cases ending with
  | upstreamError error => simp [hsome, hending.1]
  | upstreamEnd => simp [hsome, hending.1]
  | clientClosed =>
    rw [hsome, hending.1, StreamOutcome.fromChannelClose]
    by_cases hannounced : p.announced = some s.bytes
    · simp [hannounced]
    · simp [hannounced]

theorem RelayInv.once (h : RelayInv p s frames forwarded) :
    (s.call.finished = false ∧ s.calls = p.calls ∧ s.lines = [] ∧ s.relay ≠ .done) ∨
      Logged p s := by
  have hunlogged (hunlogged : Unlogged p s) (hgoing : s.relay ≠ .done) :
      s.call.finished = false ∧ s.calls = p.calls ∧ s.lines = [] ∧ s.relay ≠ .done := by
    obtain ⟨hcall, hcalls, hlines⟩ := hunlogged
    exact ⟨by rw [hcall, p.fresh], hcalls, hlines, hgoing⟩
  have hphase := h.phase
  cases hrelay : s.relay with
  | selecting =>
    rw [hrelay] at hphase hunlogged
    exact Or.inl (hunlogged hphase.2.2 nofun)
  | sending chunk =>
    rw [hrelay] at hphase hunlogged
    exact Or.inl (hunlogged hphase.2.2 nofun)
  | ended =>
    rw [hrelay] at hphase hunlogged
    exact Or.inl (hunlogged hphase.2 nofun)
  | logged =>
    rw [hrelay] at hphase
    exact Or.inr hphase.2
  | done =>
    rw [hrelay] at hphase
    exact Or.inr hphase.2

/-- An error that was sent is the last item of the body, and everything before it was sent. -/
theorem RelayInv.error_last (hp : Pumped p.reads s) (h : RelayInv p s frames forwarded)
    {error : String} (hmem : .failed error ∈ s.client.sent) :
    s.client.sent = chunks (bodyFrames p.reads) ++ [.failed error] := by
  rw [h.sent, List.mem_append] at hmem
  rcases hmem with hmem | hmem
  · exact absurd hmem failed_not_chunks
  · rcases h.forwarded with ⟨rfl, -⟩ | ⟨failure, hdone, herror, rfl⟩
    · cases hmem
    · cases List.mem_singleton.mp hmem
      obtain ⟨ending, -, hending⟩ := h.left hdone
      cases ending with
      | upstreamError taken =>
        obtain ⟨-, hterminal, hreceived⟩ := hending
        obtain rfl := Option.some.inj (herror.symm.trans hterminal)
        have hbody := received_body hp
        rw [hreceived] at hbody
        have hall : bodyFrames p.reads = frames := by
          rw [bodyFrames, bodyItems_failed hbody, List.filterMap_append, filterMap_chunks]
          exact List.append_nil frames
        rw [h.sent, hall]
      | upstreamEnd => cases herror.symm.trans hending.2.1
      | clientClosed => cases herror.symm.trans hending.2.1

theorem RelayInv.ended_by (h : RelayInv p s frames forwarded) (hdone : s.relay = .done) :
    (s.ending = some .upstreamEnd ∧ s.upstream.ended = true ∧ s.frames = bodyFrames p.reads) ∨
      (s.ending = some .clientClosed ∧ s.client.closed = true) ∨
      ∃ error, s.ending = some (.upstreamError error) ∧ .failed error ∈ s.upstream.received := by
  obtain ⟨ending, hsome, hending⟩ := h.left hdone
  cases ending with
  | upstreamError error =>
    refine Or.inr (Or.inr ⟨error, hsome, ?_⟩)
    rw [hending.2.2]
    exact List.mem_append_right _ (List.mem_singleton.mpr rfl)
  | upstreamEnd =>
    refine Or.inl ⟨hsome, hending.2.2.2.1, ?_⟩
    rw [h.frames_eq, bodyFrames, hending.2.2.2.2, filterMap_chunks]
  | clientClosed => exact Or.inr (Or.inl ⟨hsome, hending.2.2.1⟩)

/-- A client that has not closed gets the error that the relay has taken. -/
theorem RelayInv.error_sent (h : RelayInv p s frames forwarded) (hdone : s.relay = .done)
    (houtcome : s.outcome = .upstreamError) (hopen : s.client.closed = false) :
    ∃ error, .failed error ∈ s.client.sent := by
  rcases h.forwarded with ⟨-, hgone⟩ | ⟨error, -, -, rfl⟩
  · obtain ⟨error, herror⟩ := (h.outcome_eq hdone).1.mp houtcome
    obtain ⟨ending, hsome, hending⟩ := h.left hdone
    obtain rfl := Option.some.inj (hsome.symm.trans herror)
    have hclosed := hgone hdone (by rw [hending.2.1]; exact Option.some_ne_none _)
    rw [hopen] at hclosed
    cases hclosed
  · refine ⟨error, ?_⟩
    rw [h.sent]
    exact List.mem_append_right _ (List.mem_singleton.mpr rfl)

/-- A client that has not closed gets the whole of a body without an error. -/
theorem RelayInv.whole_body (hp : Pumped p.reads s) (h : RelayInv p s frames forwarded)
    (hdone : s.relay = .done) (hopen : s.client.closed = false)
    (hnone : ∀ error, .failed error ∉ bodyItems p.reads) : s.frames = bodyFrames p.reads := by
  rcases h.ended_by hdone with ⟨-, -, hframes⟩ | ⟨-, hclosed⟩ | ⟨error, -, hmem⟩
  · exact hframes
  · rw [hopen] at hclosed
    cases hclosed
  · exact absurd ((received_body hp).subset hmem) (hnone error)

theorem Inv.accounted (h : Inv p s) : Accounted p saturatedTotal s := by
  obtain ⟨hp, frames, forwarded, hr⟩ := h
  have hframes := hr.frames_eq
  have hbytes : s.bytes = saturatedTotal s.frames := by
    rw [hr.count, countBytes_eq, hframes]
  refine
    { accepted := ?_
      delivered := s.client.received_prefix
      errorLast := fun _ hmem => hr.error_last hp hmem
      once := ?_
      ended := hr.ended_by
      upstreamError := fun hdone => (hr.outcome_eq hdone).1.trans (hr.taken hdone)
      complete := ?_
      disconnected := ?_
      forwarded := hr.error_sent
      whole := hr.whole_body hp }
  · rw [hframes, ← filterMap_chunks frames]
    exact (hr.received.trans (received_body hp)).filterMap _
  · rw [← hbytes]
    exact hr.once
  · rw [← hbytes]
    exact fun hdone => (hr.outcome_eq hdone).2.1
  · rw [← hbytes]
    exact fun hdone => (hr.outcome_eq hdone).2.2

end Accounting

/-- Whatever the order of the steps, the relay is accounted for, its runs are short, and it is
done when nothing is possible but that the client closes. -/
theorem pipe_relay (p : Setup) (as : List Action) (s : State)
    (h : run (step p) (State.start p) as = some s) :
    Accounted p saturatedTotal s ∧ as.length ≤ 6 * p.reads.length + 6 ∧
      (Quiet (step p) (· ≠ .close) s → s.relay = .done ∧ s.pump = .done) := by
  refine ⟨(inv_run h).accounted, ?_, quiet_done (inv_run h)⟩
  have hlength := run_length_le (fun s a next hstep => step_measure (p := p) s a next hstep) h
  have hstart : (State.start p).measure = 6 * p.reads.length + 6 := rfl
  omega

section Sequential

variable {p : Setup} {s : State}

/-- The loop goes through the frames while the client is there. -/
theorem pipeLoop_frames (fates : StreamFates) (announced : Option ℕ) (front : List Bytes)
    (rest : List (Option Bytes)) (turn bytes : ℕ) (frames : List Bytes)
    (hclosed : ∀ i < front.length, fates.closed (turn + i) = false)
    (haccept : ∀ i < front.length, fates.accept (turn + i) = true) :
    pipeLoop fates announced turn bytes frames (front.map some ++ rest) =
      pipeLoop fates announced (turn + front.length)
        (front.foldl (fun bytes frame => saturatingAdd bytes frame.length) bytes)
        (frames ++ front) rest := by
  induction front generalizing turn bytes frames with
  | nil => simp
  | cons chunk front ih =>
    have hopen := hclosed 0 (by simp)
    have htaken := haccept 0 (by simp)
    rw [Nat.add_zero] at hopen htaken
    have hshift (i : ℕ) : turn + 1 + i = turn + (i + 1) := by omega
    rw [List.map_cons, List.cons_append, pipeLoop]
    simp only [hopen, htaken, Bool.false_eq_true, if_false, if_true]
    rw [ih (turn + 1) _ _
      (fun i hi => by rw [hshift]; exact hclosed (i + 1) (by simpa using hi))
      (fun i hi => by rw [hshift]; exact haccept (i + 1) (by simpa using hi)),
      List.append_assoc, List.foldl_cons, List.length_cons, hshift]
    rfl

/-- A relay that is done did what the sequential loop does for some client. -/
theorem Inv.pipeLoop_eq (h : Inv p s) (hdone : s.relay = .done) :
    ∃ fates : StreamFates, pipeLoop fates p.announced 0 0 [] ((bodyItems p.reads).map Item.frame) =
      ⟨s.frames, s.bytes, s.outcome⟩ := by
  obtain ⟨hp, frames, forwarded, hr⟩ := h
  have hframes := hr.frames_eq
  obtain ⟨rest, hrest⟩ := hr.received.trans (received_body hp)
  have hitems : (bodyItems p.reads).map Item.frame = frames.map some ++ rest.map Item.frame := by
    rw [← hrest, List.map_append, chunks, List.map_map]
    rfl
  have hloop (closed : ℕ → Bool) (hclosed : ∀ i < frames.length, closed i = false) :
      pipeLoop ⟨closed, fun _ => true⟩ p.announced 0 0 [] ((bodyItems p.reads).map Item.frame) =
        pipeLoop ⟨closed, fun _ => true⟩ p.announced frames.length s.bytes frames
          (rest.map Item.frame) := by
    rw [hitems, pipeLoop_frames _ _ _ _ _ _ _ (fun i hi => by rw [Nat.zero_add]; exact hclosed i hi)
      (fun _ _ => rfl), Nat.zero_add, hr.count]
    rfl
  obtain ⟨ending, -, hending⟩ := hr.left hdone
  rw [hframes]
  cases ending with
  | upstreamError error =>
    refine ⟨⟨fun _ => false, fun _ => true⟩, ?_⟩
    have hbody := received_body hp
    rw [hending.2.2] at hbody
    have hlast : rest = [.failed error] :=
      List.append_cancel_left (hrest.trans (bodyItems_failed hbody))
    rw [hloop _ (fun _ _ => rfl), hlast, hending.1]
    rfl
  | upstreamEnd =>
    refine ⟨⟨fun _ => false, fun _ => true⟩, ?_⟩
    have hnone : rest = [] := by
      rw [hending.2.2.2.2] at hrest
      exact List.append_right_eq_self.mp hrest
    rw [hloop _ (fun _ _ => rfl), hnone, hending.1]
    rfl
  | clientClosed =>
    refine ⟨⟨fun turn => decide (frames.length ≤ turn), fun _ => true⟩, ?_⟩
    rw [hloop _ (fun i hi => decide_eq_false (by omega)), hending.1]
    cases rest with
    | nil => simp [pipeLoop]
    | cons item rest => simp [pipeLoop]

/-- The line and the frames of the sequential relay are those of a run. -/
theorem relayStream_run {as : List Action} (h : run (step p) (State.start p) as = some s)
    (hdone : s.relay = .done) :
    ∃ fates now, ∀ (env : Env) (times : Times), env.elapsedMs = p.elapsedMs →
      times.started = p.started → times.ended = now →
      ∃ line, s.lines = [line] ∧
        relayStream fates p.announced env times
          ⟨⟨(bodyItems p.reads).map Item.frame, p.call⟩, p.calls⟩ p.line = (s.frames, line) := by
  have hinv := inv_run h
  obtain ⟨fates, hloop⟩ := hinv.pipeLoop_eq hdone
  obtain ⟨hp, frames, forwarded, hr⟩ := hinv
  rcases hr.once with ⟨-, -, -, hgoing⟩ | ⟨-, now, hcalls, hlines⟩
  · exact absurd hdone hgoing
  · refine ⟨fates, now, ?_⟩
    intro env times helapsed hstarted hended
    refine ⟨_, hlines, ?_⟩
    unfold relayStream
    simp only [hloop, helapsed, hstarted, hended, ← hcalls]
    rfl

end Sequential

section Sample

/-- A relay of some reads, with an empty line to complete. -/
def sample (reads : List Read) : Setup where
  reads := reads
  announced := none
  elapsedMs := fun _ => 0
  started := 0
  line := ⟨"id", "route", "GET", "/", 200, "none", 0, none, none, [], [], [], [], .null, ∅, none,
    "host", []⟩
  call := ⟨0, 0, false⟩
  calls := []
  fresh := rfl

theorem pipe_relay_one : ∃ s,
    run (step (sample [.data [1, 2]])) (State.start (sample [.data [1, 2]]))
      [.read, .pumpSend, .recv, .send, .take, .read, .recv, .finish 5, .forward 5] = some s ∧
    Accounted (sample [.data [1, 2]]) saturatedTotal s ∧ s.relay = .done :=
  ⟨_, rfl, (pipe_relay (sample [.data [1, 2]])
    [.read, .pumpSend, .recv, .send, .take, .read, .recv, .finish 5, .forward 5] _ rfl).1, rfl⟩

end Sample

section Overflow

variable {p : Setup} {s next : State}

/-- Only the client closes. -/
theorem step_open (s : State) (a : Action) (next : State) (ha : a ≠ .close)
    (hopen : s.client.closed = false) (hstep : step p s a = some next) :
    next.client.closed = false := by
  cases step_stepped hstep with
  | sendChunk chunk hrelay client hsent => exact hsent.closed.trans hopen
  | forwardFailed now hrelay error herror client hsent => exact hsent.closed.trans hopen
  | take hopen' item client hgives => exact hgives.closed.trans hopen
  | close hopen' => exact absurd rfl ha
  | _ => exact hopen

/-- A body of which nothing is an error goes through as a whole, when the client stays. -/
theorem exists_whole (p : Setup) (hnone : ∀ error, .failed error ∉ bodyItems p.reads) :
    ∃ as s, run (step p) (State.start p) as = some s ∧ s.relay = .done ∧
      s.frames = bodyFrames p.reads := by
  obtain ⟨as, s, has, hrun, hquiet⟩ := exists_quiet
    (fun s a next hstep => step_measure (p := p) s a next hstep) (· ≠ .close) (State.start p)
  have hopen : s.client.closed = false :=
    run_invariant (fun s => s.client.closed = false) (· ≠ .close)
      (fun s a next ha hs hnext => step_open s a next ha hs hnext) has rfl hrun
  have hdone := (quiet_done (inv_run hrun) hquiet).1
  exact ⟨as, s, hrun, hdone, (inv_run hrun).accounted.whole hdone hopen hnone⟩

/-- The count is not exact when the frames of the body are 2^64 bytes or more. -/
theorem not_exact (p : Setup) (hnone : ∀ error, .failed error ∉ bodyItems p.reads)
    (hlong : 2 ^ 64 ≤ exactTotal (bodyFrames p.reads)) :
    ¬ ∀ as s, run (step p) (State.start p) as = some s → Accounted p exactTotal s := by
  intro hall
  obtain ⟨as, s, hrun, hdone, hframes⟩ := exists_whole p hnone
  rcases (hall as s hrun).once with ⟨-, -, -, hgoing⟩ | ⟨-, now, -, hexact⟩
  · exact hgoing hdone
  · rcases (inv_run hrun).accounted.once with ⟨-, -, -, hgoing⟩ | ⟨-, later, -, hsaturated⟩
    · exact hgoing hdone
    · have hlines := hexact.symm.trans hsaturated
      have hbytes := congrArg (fun lines => lines.map LogLine.responseBodyBytes) hlines
      have hsame : exactTotal s.frames = saturatedTotal s.frames :=
        Option.some.inj (List.cons.inj hbytes).1
      rw [hframes, saturatedTotal] at hsame
      omega

theorem bodyItems_replicate (n : ℕ) {bytes : Bytes} (hne : bytes ≠ []) :
    bodyItems (List.replicate n (.data bytes)) = chunks (List.replicate n bytes) := by
  cases bytes with
  | nil => exact absurd rfl hne
  | cons b bytes =>
    induction n with
    | zero => rfl
    | succ n ih =>
      rw [List.replicate_succ, bodyItems, ih]
      rfl

theorem exactTotal_replicate (n : ℕ) (bytes : Bytes) :
    exactTotal (List.replicate n bytes) = n * bytes.length := by
  rw [exactTotal, List.map_replicate, List.sum_replicate_nat]

/-- A body of 2^64 bytes, in reads of 64 KiB, is logged one byte short. -/
theorem pipe_relay_long :
    ¬ ∀ as s,
      run (step (sample (List.replicate (2 ^ 48) (.data (List.replicate 65536 0)))))
          (State.start (sample (List.replicate (2 ^ 48) (.data (List.replicate 65536 0))))) as =
        some s →
      Accounted (sample (List.replicate (2 ^ 48) (.data (List.replicate 65536 0)))) exactTotal
        s := by
  have hne : List.replicate 65536 (0 : UInt8) ≠ [] := by
    intro hnil
    have hlength := congrArg List.length hnil
    rw [List.length_replicate] at hlength
    cases hlength
  have hitems := bodyItems_replicate (2 ^ 48) hne
  apply not_exact
  · intro error hmem
    change Item.failed error ∈ bodyItems (List.replicate (2 ^ 48) (.data _)) at hmem
    rw [hitems] at hmem
    exact failed_not_chunks hmem
  · change 2 ^ 64 ≤ exactTotal (bodyFrames (List.replicate (2 ^ 48) (.data _)))
    rw [bodyFrames, hitems, filterMap_chunks, exactTotal_replicate, List.length_replicate]
    decide

end Overflow

end StuntDouble.PipeRelay
