import StuntDouble.Channels
import StuntDouble.Handler
import StuntDouble.Transitions

/-!
A piped body on its way to the client, with its three parties: the pump that reads the body
of the upstream, the relay between the two bounded channels, and the client, which may close
at any moment. Each action is one step of one party, and they may come in any order.
-/
namespace StuntDouble.PipeRelay

open Channels RequestLog Server Upstream

def pipeChannelCapacity : ℕ := 4

def streamChannelCapacity : ℕ := 4

/-- What one read of the body comes to; no bytes are its end. -/
inductive Read
  | data (bytes : Bytes)
  | interrupted
  | failed (error : String)

inductive Item
  | chunk (bytes : Bytes)
  | failed (error : String)

inductive Pump
  | reading (rest : List Read)
  | sending (item : Item) (rest : List Read)
  | done

inductive Relay
  | selecting
  | sending (chunk : Bytes)
  | ended
  | logged
  | done

/-- How the loop of the relay ended. -/
inductive Ending
  | upstreamError (error : String)
  | upstreamEnd
  | clientClosed

/-- What a relay is started with; its call is not finalized yet. -/
structure Setup where
  reads : List Read
  announced : Option ℕ
  elapsedMs : ℕ → Ms
  started : ℕ
  line : LogLine
  call : Pending
  calls : CallLog
  fresh : call.finished = false

/-- The parties and their channels, with the variables of the relay. The ending is kept for
the statements only. -/
structure State where
  pump : Pump
  upstream : Channel Item pipeChannelCapacity
  relay : Relay
  bytes : ℕ
  outcome : StreamOutcome
  terminalError : Option String
  client : Channel Item streamChannelCapacity
  call : Pending
  calls : CallLog
  lines : List LogLine
  ending : Option Ending

/-- A step of the pump, of the relay, or of the client. In front of its `select` the relay
may go on with either branch that is ready. -/
inductive Action
  | read
  | pumpSend
  | recv
  | closed
  | send
  | finish (now : ℕ)
  | forward (now : ℕ)
  | take
  | close
deriving DecidableEq, Repr

def State.start (p : Setup) : State :=
  ⟨.reading p.reads, .new, .selecting, 0, .complete, none, .new, p.call, p.calls, [], none⟩

section Steps

/-- The pump stops, and its sender goes with it. -/
def State.stopPump (s : State) : State :=
  { s with pump := .done, upstream := s.upstream.finish }

def State.read (s : State) : Option State :=
  match s.pump with
  | .reading [] => some s.stopPump
  | .reading (.data [] :: _) => some s.stopPump
  | .reading (.data (b :: bytes) :: rest) =>
    some { s with pump := .sending (.chunk (b :: bytes)) rest }
  | .reading (.interrupted :: rest) => some { s with pump := .reading rest }
  | .reading (.failed error :: rest) => some { s with pump := .sending (.failed error) rest }
  | _ => none

def State.pumpSend (s : State) : Option State :=
  match s.pump with
  | .sending item rest =>
    match s.upstream.send item, item with
    | .full, _ => none
    | .refused, _ => some s.stopPump
    | .accepted upstream, .chunk _ =>
      some { s with pump := .reading rest, upstream := upstream }
    | .accepted upstream, .failed _ => some { s with upstream := upstream }.stopPump
  | _ => none

/-- The loop of the relay is left. -/
def State.leave (s : State) (outcome : StreamOutcome) (terminalError : Option String)
    (ending : Ending) : State :=
  { s with relay := .ended, outcome := outcome, terminalError := terminalError,
           ending := some ending }

def State.recv (s : State) : Option State :=
  match s.relay with
  | .selecting =>
    match s.upstream.receive with
    | .empty => none
    | .ended => some (s.leave s.outcome none .upstreamEnd)
    | .item (.chunk chunk) upstream =>
      some { s with relay := .sending chunk, upstream := upstream }
    | .item (.failed error) upstream =>
      some ({ s with upstream := upstream }.leave .upstreamError (some error)
        (.upstreamError error))
  | _ => none

variable (p : Setup)

def State.closed (s : State) : Option State :=
  match s.relay with
  | .selecting =>
    if s.client.closed then
      some (s.leave (.fromChannelClose s.bytes p.announced) none .clientClosed)
    else none
  | _ => none

def State.send (s : State) : Option State :=
  match s.relay with
  | .sending chunk =>
    match s.client.send (.chunk chunk) with
    | .full => none
    | .refused => some (s.leave (.fromChannelClose s.bytes p.announced) none .clientClosed)
    | .accepted client =>
      some { s with relay := .selecting, client := client,
                    bytes := saturatingAdd s.bytes chunk.length }
  | _ => none

/-- The line of the request, completed with what the relay knows. -/
def completed (now bytes : ℕ) (outcome : StreamOutcome) (calls : CallLog) : LogLine :=
  { p.line with
    responseBodyBytes := some bytes
    elapsed := p.elapsedMs (now - p.started)
    upstreamCalls := calls.snapshot
    error := outcome.errorClass.getD p.line.error }

/-- The call is finalized and the line logged. -/
def State.finish (s : State) (now : ℕ) : Option State :=
  match s.relay with
  | .ended =>
    let calls := finishStream p.elapsedMs now s.bytes s.outcome s.calls s.call
    some { s with
      relay := .logged
      call := { s.call with finished := true }
      calls := calls
      lines := s.lines ++ [completed p now s.bytes s.outcome calls] }
  | _ => none

/-- The relay is over: its ends of the channels and its handle go. -/
def State.stopRelay (s : State) (now : ℕ) : State :=
  { s with
    relay := .done
    upstream := s.upstream.close
    client := s.client.finish
    calls := s.call.drop p.elapsedMs now s.calls }

def State.forward (s : State) (now : ℕ) : Option State :=
  match s.relay, s.terminalError with
  | .logged, none => some (s.stopRelay p now)
  | .logged, some error =>
    match s.client.send (.failed error) with
    | .full => none
    | .refused => some (s.stopRelay p now)
    | .accepted client => some ({ s with client := client }.stopRelay p now)
  | _, _ => none

def State.take (s : State) : Option State :=
  if s.client.closed then none
  else
    match s.client.receive with
    | .item _ client => some { s with client := client }
    | _ => none

def State.close (s : State) : Option State :=
  if s.client.closed then none else some { s with client := s.client.close }

def step (s : State) : Action → Option State
  | .read => s.read
  | .pumpSend => s.pumpSend
  | .recv => s.recv
  | .closed => s.closed p
  | .send => s.send p
  | .finish now => s.finish p now
  | .forward now => s.forward p now
  | .take => s.take
  | .close => s.close

end Steps

section Body

/-- What the pump puts into its channel for some reads, if nothing stops it. -/
def bodyItems : List Read → List Item
  | [] => []
  | .data [] :: _ => []
  | .data (b :: bytes) :: rest => .chunk (b :: bytes) :: bodyItems rest
  | .interrupted :: rest => bodyItems rest
  | .failed error :: _ => [.failed error]

def Item.frame : Item → Option Bytes
  | .chunk bytes => some bytes
  | .failed _ => none

/-- The frames that are read from the upstream. -/
def bodyFrames (reads : List Read) : List Bytes := (bodyItems reads).filterMap Item.frame

/-- The frames that were accepted for the client. -/
def State.frames (s : State) : List Bytes := s.client.sent.filterMap Item.frame

/-- The count of the relay for some frames. -/
def countBytes (frames : List Bytes) : ℕ :=
  frames.foldl (fun bytes frame => saturatingAdd bytes frame.length) 0

end Body

section Cases

variable (p : Setup) (s : State)

/-- What a step does, by the branches of the three parties. -/
inductive Stepped : Action → State → Prop
  | readEnd (rest : List Read) (hpump : s.pump = .reading rest) (hend : bodyItems rest = []) :
      Stepped .read s.stopPump
  | readData (b : UInt8) (bytes : Bytes) (rest : List Read)
      (hpump : s.pump = .reading (.data (b :: bytes) :: rest)) :
      Stepped .read { s with pump := .sending (.chunk (b :: bytes)) rest }
  | interrupted (rest : List Read) (hpump : s.pump = .reading (.interrupted :: rest)) :
      Stepped .read { s with pump := .reading rest }
  | readFailed (error : String) (rest : List Read)
      (hpump : s.pump = .reading (.failed error :: rest)) :
      Stepped .read { s with pump := .sending (.failed error) rest }
  | pumpRefused (item : Item) (rest : List Read) (hpump : s.pump = .sending item rest)
      (hclosed : s.upstream.closed = true) : Stepped .pumpSend s.stopPump
  | pumpChunk (bytes : Bytes) (rest : List Read) (hpump : s.pump = .sending (.chunk bytes) rest)
      (upstream : Channel Item pipeChannelCapacity)
      (hsent : s.upstream.Accepts (.chunk bytes) upstream) :
      Stepped .pumpSend { s with pump := .reading rest, upstream := upstream }
  | pumpFailed (error : String) (rest : List Read)
      (hpump : s.pump = .sending (.failed error) rest)
      (upstream : Channel Item pipeChannelCapacity)
      (hsent : s.upstream.Accepts (.failed error) upstream) :
      Stepped .pumpSend { s with upstream := upstream }.stopPump
  | recvEnd (hrelay : s.relay = .selecting) (hqueue : s.upstream.queue = [])
      (hended : s.upstream.ended = true) :
      Stepped .recv (s.leave s.outcome none .upstreamEnd)
  | recvChunk (hrelay : s.relay = .selecting) (chunk : Bytes)
      (upstream : Channel Item pipeChannelCapacity)
      (hgives : s.upstream.Gives (.chunk chunk) upstream) :
      Stepped .recv { s with relay := .sending chunk, upstream := upstream }
  | recvFailed (hrelay : s.relay = .selecting) (error : String)
      (upstream : Channel Item pipeChannelCapacity)
      (hgives : s.upstream.Gives (.failed error) upstream) :
      Stepped .recv ({ s with upstream := upstream }.leave .upstreamError (some error)
        (.upstreamError error))
  | closed (hrelay : s.relay = .selecting) (hclosed : s.client.closed = true) :
      Stepped .closed
        (s.leave (.fromChannelClose s.bytes p.announced) none .clientClosed)
  | sendRefused (chunk : Bytes) (hrelay : s.relay = .sending chunk)
      (hclosed : s.client.closed = true) :
      Stepped .send (s.leave (.fromChannelClose s.bytes p.announced) none .clientClosed)
  | sendChunk (chunk : Bytes) (hrelay : s.relay = .sending chunk)
      (client : Channel Item streamChannelCapacity)
      (hsent : s.client.Accepts (.chunk chunk) client) :
      Stepped .send { s with relay := .selecting, client := client,
                             bytes := saturatingAdd s.bytes chunk.length }
  | finish (now : ℕ) (hrelay : s.relay = .ended) :
      Stepped (.finish now) { s with
        relay := .logged
        call := { s.call with finished := true }
        calls := finishStream p.elapsedMs now s.bytes s.outcome s.calls s.call
        lines := s.lines ++ [completed p now s.bytes s.outcome
          (finishStream p.elapsedMs now s.bytes s.outcome s.calls s.call)] }
  | forwardNone (now : ℕ) (hrelay : s.relay = .logged) (herror : s.terminalError = none) :
      Stepped (.forward now) (s.stopRelay p now)
  | forwardRefused (now : ℕ) (hrelay : s.relay = .logged) (hclosed : s.client.closed = true) :
      Stepped (.forward now) (s.stopRelay p now)
  | forwardFailed (now : ℕ) (hrelay : s.relay = .logged) (error : String)
      (herror : s.terminalError = some error) (client : Channel Item streamChannelCapacity)
      (hsent : s.client.Accepts (.failed error) client) :
      Stepped (.forward now) ({ s with client := client }.stopRelay p now)
  | take (hopen : s.client.closed = false) (item : Item)
      (client : Channel Item streamChannelCapacity) (hgives : s.client.Gives item client) :
      Stepped .take { s with client := client }
  | close (hopen : s.client.closed = false) :
      Stepped .close { s with client := s.client.close }

variable {p s} {next : State}

theorem read_stepped (h : s.read = some next) : Stepped p s .read next := by
  unfold State.read at h
  split at h
  · rename_i hpump
    cases h
    exact .readEnd [] hpump rfl
  · rename_i rest hpump
    cases h
    exact .readEnd (.data [] :: rest) hpump rfl
  · rename_i hpump
    cases h
    exact .readData _ _ _ hpump
  · rename_i hpump
    cases h
    exact .interrupted _ hpump
  · rename_i hpump
    cases h
    exact .readFailed _ _ hpump
  · cases h

theorem pumpSend_stepped (h : s.pumpSend = some next) : Stepped p s .pumpSend next := by
  unfold State.pumpSend at h
  split at h
  · rename_i rest hpump
    split at h
    · cases h
    · rename_i hrefused
      cases h
      exact .pumpRefused _ rest hpump (Channel.send_refused hrefused)
    · rename_i haccepted
      cases h
      exact .pumpChunk _ rest hpump _ (Channel.send_accepted haccepted)
    · rename_i haccepted
      cases h
      exact .pumpFailed _ rest hpump _ (Channel.send_accepted haccepted)
  · cases h

theorem recv_stepped (h : s.recv = some next) : Stepped p s .recv next := by
  unfold State.recv at h
  split at h
  · rename_i hrelay
    split at h
    · cases h
    · rename_i hend
      cases h
      obtain ⟨hqueue, hended⟩ := Channel.receive_ended hend
      exact .recvEnd hrelay hqueue hended
    · rename_i hitem
      cases h
      exact .recvChunk hrelay _ _ (Channel.receive_item hitem)
    · rename_i hitem
      cases h
      exact .recvFailed hrelay _ _ (Channel.receive_item hitem)
  · cases h

theorem closed_stepped (h : s.closed p = some next) : Stepped p s .closed next := by
  unfold State.closed at h
  split at h
  · rename_i hrelay
    split at h
    · rename_i hclosed
      cases h
      exact .closed hrelay hclosed
    · cases h
  · cases h

theorem send_stepped (h : s.send p = some next) : Stepped p s .send next := by
  unfold State.send at h
  split at h
  · rename_i chunk hrelay
    split at h
    · cases h
    · rename_i hrefused
      cases h
      exact .sendRefused chunk hrelay (Channel.send_refused hrefused)
    · rename_i haccepted
      cases h
      exact .sendChunk chunk hrelay _ (Channel.send_accepted haccepted)
  · cases h

theorem finish_stepped {now : ℕ} (h : s.finish p now = some next) :
    Stepped p s (.finish now) next := by
  unfold State.finish at h
  split at h
  · rename_i hrelay
    cases h
    exact .finish now hrelay
  · cases h

theorem forward_stepped {now : ℕ} (h : s.forward p now = some next) :
    Stepped p s (.forward now) next := by
  unfold State.forward at h
  split at h
  · rename_i hrelay herror
    cases h
    exact .forwardNone now hrelay herror
  · rename_i error hrelay herror
    split at h
    · cases h
    · rename_i hrefused
      cases h
      exact .forwardRefused now hrelay (Channel.send_refused hrefused)
    · rename_i haccepted
      cases h
      exact .forwardFailed now hrelay error herror _ (Channel.send_accepted haccepted)
  · cases h

theorem take_stepped (h : s.take = some next) : Stepped p s .take next := by
  unfold State.take at h
  split at h
  · cases h
  · rename_i hopen
    split at h
    · rename_i hitem
      cases h
      exact .take (Bool.eq_false_iff.mpr hopen) _ _ (Channel.receive_item hitem)
    · cases h

theorem close_stepped (h : s.close = some next) : Stepped p s .close next := by
  unfold State.close at h
  split at h
  · cases h
  · rename_i hopen
    cases h
    exact .close (Bool.eq_false_iff.mpr hopen)

/-- Every step is one of these. -/
theorem step_stepped {a : Action} (h : step p s a = some next) : Stepped p s a next := by
  cases a with
  | read => exact read_stepped h
  | pumpSend => exact pumpSend_stepped h
  | recv => exact recv_stepped h
  | closed => exact closed_stepped h
  | send => exact send_stepped h
  | finish now => exact finish_stepped h
  | forward now => exact forward_stepped h
  | take => exact take_stepped h
  | close => exact close_stepped h

end Cases

section Pumping

/-- What the pump still puts into its channel, if nothing stops it. -/
def Pump.pending : Pump → List Item
  | .reading rest => bodyItems rest
  | .sending (.chunk bytes) rest => .chunk bytes :: bodyItems rest
  | .sending (.failed error) _ => [.failed error]
  | .done => []

def Pump.isDone : Pump → Bool
  | .done => true
  | _ => false

/-- The pump puts the items of the body into its channel, all of them unless the relay is
gone. -/
structure Pumped (reads : List Read) (s : State) : Prop where
  ended : s.upstream.ended = s.pump.isDone
  begun : s.upstream.sent ++ s.pump.pending <+: bodyItems reads
  all : s.upstream.closed = false → s.upstream.sent ++ s.pump.pending = bodyItems reads

variable {p : Setup} {s next : State}

theorem pumped_start (p : Setup) : Pumped p.reads (State.start p) :=
  ⟨rfl, List.prefix_rfl, fun _ => rfl⟩

/-- A pump whose sender is gone has nothing more to send. -/
theorem Pumped.finished (h : Pumped p.reads s) (hended : s.upstream.ended = true) :
    s.pump.pending = [] := by
  have hdone := h.ended
  rw [hended] at hdone
  cases hpump : s.pump with
  | done => rfl
  | reading rest =>
    rw [hpump] at hdone
    cases hdone
  | sending item rest =>
    rw [hpump] at hdone
    cases hdone

/-- A pump that stops leaves out what it has not sent. -/
theorem Pumped.stop (h : Pumped p.reads s)
    (hclosed : s.pump.pending = [] ∨ s.upstream.closed = true) : Pumped p.reads s.stopPump := by
  refine ⟨rfl, ?_, ?_⟩
  · exact List.IsPrefix.trans (by simp [State.stopPump, Pump.pending]) h.begun
  · intro hopen
    have hopen' : s.upstream.closed = false := hopen
    rcases hclosed with hpending | hclosed
    · have hall := h.all hopen'
      rw [hpending] at hall
      exact hall
    · rw [hclosed] at hopen'
      cases hopen'

/-- A step of the pump: it reads, or it has sent an item. -/
inductive PumpStep (s : State) : State → Prop
  | read (pump : Pump) (hpending : pump.pending = s.pump.pending) (hgoing : s.pump.isDone = false)
      (hdone : pump.isDone = false) : PumpStep s { s with pump := pump }
  | stop (hgoing : s.pump.isDone = false)
      (hclosed : s.pump.pending = [] ∨ s.upstream.closed = true) : PumpStep s s.stopPump
  | sent (item : Item) (rest : List Read) (hpump : s.pump = .sending item rest)
      (upstream : Channel Item pipeChannelCapacity) (hsent : s.upstream.Accepts item upstream)
      (pump : Pump) (hpending : item :: pump.pending = s.pump.pending)
      (hended : upstream.ended = false) :
      PumpStep s { s with
        pump := pump
        upstream := if pump.isDone then upstream.finish else upstream }

theorem Stepped.read_pump (h : Stepped p s .read next) : PumpStep s next := by
  cases h with
  | readEnd rest hpump hend => exact .stop (by rw [hpump]; rfl) (Or.inl (by rw [hpump]; exact hend))
  | readData b bytes rest hpump => exact .read _ (by rw [hpump]; rfl) (by rw [hpump]; rfl) rfl
  | interrupted rest hpump => exact .read _ (by rw [hpump]; rfl) (by rw [hpump]; rfl) rfl
  | readFailed error rest hpump => exact .read _ (by rw [hpump]; rfl) (by rw [hpump]; rfl) rfl

theorem Stepped.send_pump (hp : Pumped p.reads s) (h : Stepped p s .pumpSend next) :
    PumpStep s next := by
  cases h with
  | pumpRefused item rest hpump hclosed => exact .stop (by rw [hpump]; rfl) (Or.inr hclosed)
  | pumpChunk bytes rest hpump upstream hsent =>
    exact .sent _ rest hpump upstream hsent (.reading rest) (by rw [hpump]; rfl)
      (by rw [hsent.ended, hp.ended, hpump]; rfl)
  | pumpFailed error rest hpump upstream hsent =>
    exact .sent _ rest hpump upstream hsent .done (by rw [hpump]; rfl)
      (by rw [hsent.ended, hp.ended, hpump]; rfl)

theorem Pumped.pumpStep (h : Pumped p.reads s) (hstep : PumpStep s next) : Pumped p.reads next := by
  cases hstep with
  | read pump hpending hgoing hdone =>
    refine ⟨?_, ?_, ?_⟩
    · rw [hdone, ← hgoing]
      exact h.ended
    · simp only [hpending]
      exact h.begun
    · simp only [hpending]
      exact h.all
  | stop _ hclosed => exact h.stop hclosed
  | sent item rest hpump upstream hsent pump hpending hended =>
    have hitems : upstream.sent ++ pump.pending = s.upstream.sent ++ s.pump.pending := by
      rw [hsent.sent, ← hpending, List.append_assoc]
      rfl
    have hclosed : upstream.closed = s.upstream.closed := hsent.closed
    cases hdone : pump.isDone with
    | true =>
      refine ⟨by simp [hdone], ?_, ?_⟩
      · simp only [if_true, Channel.finish_sent, hitems]
        exact h.begun
      · simp only [if_true, Channel.finish_sent, Channel.finish_closed, hitems, hclosed]
        exact h.all
    | false =>
      refine ⟨by simp [hdone, hended], ?_, ?_⟩
      · simp only [Bool.false_eq_true, if_false, hitems]
        exact h.begun
      · simp only [Bool.false_eq_true, if_false, hitems, hclosed]
        exact h.all

end Pumping

section Relaying

def chunks (frames : List Bytes) : List Item := frames.map .chunk

variable (p : Setup)

/-- How the loop ended, and what the relay makes of it. -/
def Explains (s : State) (frames : List Bytes) : Ending → Prop
  | .upstreamError error =>
    s.outcome = .upstreamError ∧ s.terminalError = some error ∧
      s.upstream.received = chunks frames ++ [.failed error]
  | .upstreamEnd =>
    s.outcome = .complete ∧ s.terminalError = none ∧ s.upstream.received = chunks frames ∧
      s.upstream.ended = true ∧ bodyItems p.reads = chunks frames
  | .clientClosed =>
    s.outcome = .fromChannelClose s.bytes p.announced ∧ s.terminalError = none ∧
      s.client.closed = true ∧
      (s.upstream.received = chunks frames ∨
        ∃ chunk, s.upstream.received = chunks frames ++ [.chunk chunk])

def Left (s : State) (frames : List Bytes) : Prop :=
  ∃ ending, s.ending = some ending ∧ Explains p s frames ending

/-- Nothing was finalized or logged. -/
def Unlogged (s : State) : Prop := s.call = p.call ∧ s.calls = p.calls ∧ s.lines = []

/-- The call was finalized once, and the one line logged, both with the count of the relay. -/
def Logged (s : State) : Prop :=
  s.call.finished = true ∧ ∃ now,
    s.calls = finishStream p.elapsedMs now s.bytes s.outcome p.calls p.call ∧
      s.lines = [completed p now s.bytes s.outcome s.calls]

/-- The relay has taken what it has passed on, and perhaps one item more. -/
def RelayAt (s : State) (frames : List Bytes) : Relay → Prop
  | .selecting =>
    s.upstream.received = chunks frames ∧ s.outcome = .complete ∧ Unlogged p s
  | .sending chunk =>
    s.upstream.received = chunks frames ++ [.chunk chunk] ∧ s.outcome = .complete ∧ Unlogged p s
  | .ended => Left p s frames ∧ Unlogged p s
  | .logged => Left p s frames ∧ Logged p s
  | .done => Left p s frames ∧ Logged p s

def Relay.isDone : Relay → Bool
  | .done => true
  | _ => false

/-- What was forwarded behind the frames: the error of the upstream, when the relay is done
and the client was there. -/
def Forwarded (s : State) (forwarded : List Item) : Prop :=
  (forwarded = [] ∧ (s.relay = .done → s.terminalError ≠ none → s.client.closed = true)) ∨
    ∃ error, s.relay = .done ∧ s.terminalError = some error ∧ forwarded = [.failed error]

structure RelayInv (s : State) (frames : List Bytes) (forwarded : List Item) : Prop where
  closed : s.upstream.closed = s.relay.isDone
  sent : s.client.sent = chunks frames ++ forwarded
  count : s.bytes = countBytes frames
  forwarded : Forwarded s forwarded
  phase : RelayAt p s frames s.relay

variable {p} {s next : State} {frames : List Bytes} {forwarded : List Item}

theorem relayInv_start (p : Setup) : RelayInv p (State.start p) [] [] :=
  ⟨rfl, rfl, rfl, Or.inl ⟨rfl, nofun⟩, rfl, rfl, rfl, rfl, rfl⟩

/-- What the relay has taken and done is still the same. -/
theorem RelayAt.same {relay : Relay} (h : RelayAt p s frames relay) {other : State}
    (hreceived : other.upstream.received = s.upstream.received)
    (houtcome : other.outcome = s.outcome) (hunlogged : Unlogged p s → Unlogged p other)
    (hlogged : Logged p s → Logged p other) (hleft : Left p s frames → Left p other frames) :
    RelayAt p other frames relay := by
  cases relay with
  | selecting =>
    obtain ⟨htaken, hcomplete, hcall⟩ := h
    exact ⟨hreceived.trans htaken, houtcome.trans hcomplete, hunlogged hcall⟩
  | sending chunk =>
    obtain ⟨htaken, hcomplete, hcall⟩ := h
    exact ⟨hreceived.trans htaken, houtcome.trans hcomplete, hunlogged hcall⟩
  | ended => exact ⟨hleft h.1, hunlogged h.2⟩
  | logged => exact ⟨hleft h.1, hlogged h.2⟩
  | done => exact ⟨hleft h.1, hlogged h.2⟩

/-- The pump goes on, and the relay does not notice. -/
theorem RelayInv.upstream (h : RelayInv p s frames forwarded) (pump : Pump)
    (upstream : Channel Item pipeChannelCapacity)
    (hreceived : upstream.received = s.upstream.received)
    (hclosed : upstream.closed = s.upstream.closed) (hended : s.upstream.ended = false) :
    RelayInv p { s with pump := pump, upstream := upstream } frames forwarded := by
  have hleft (hleft : Left p s frames) :
      Left p { s with pump := pump, upstream := upstream } frames := by
    obtain ⟨ending, hsome, hending⟩ := hleft
    refine ⟨ending, hsome, ?_⟩
    cases ending with
    | upstreamError error =>
      obtain ⟨houtcome, herror, hitems⟩ := hending
      exact ⟨houtcome, herror, hreceived.trans hitems⟩
    | upstreamEnd =>
      obtain ⟨-, -, -, htrue, -⟩ := hending
      rw [hended] at htrue
      cases htrue
    | clientClosed =>
      obtain ⟨houtcome, herror, hclient, hitems⟩ := hending
      refine ⟨houtcome, herror, hclient, ?_⟩
      simp only [hreceived]
      exact hitems
  exact ⟨hclosed.trans h.closed, h.sent, h.count, h.forwarded,
    h.phase.same hreceived rfl id id hleft⟩

theorem RelayInv.pumpStep (h : RelayInv p s frames forwarded) (hp : Pumped p.reads s)
    (hstep : PumpStep s next) : RelayInv p next frames forwarded := by
  have hended (hgoing : s.pump.isDone = false) : s.upstream.ended = false :=
    hp.ended.trans hgoing
  cases hstep with
  | read pump _ hgoing _ => exact h.upstream pump s.upstream rfl rfl (hended hgoing)
  | stop hgoing _ => exact h.upstream .done s.upstream.finish rfl rfl (hended hgoing)
  | sent item rest hpump upstream hsent pump _ _ =>
    apply h.upstream pump _ _ _ (hended (by rw [hpump]; rfl))
    · split
      · exact hsent.received
      · exact hsent.received
    · split
      · exact hsent.closed
      · exact hsent.closed

/-- The client takes a frame or closes, and the relay has not noticed. -/
theorem RelayInv.client (h : RelayInv p s frames forwarded)
    (client : Channel Item streamChannelCapacity) (hsent : client.sent = s.client.sent)
    (hclosed : s.client.closed = true → client.closed = true) :
    RelayInv p { s with client := client } frames forwarded := by
  have hleft (hleft : Left p s frames) : Left p { s with client := client } frames := by
    obtain ⟨ending, hsome, hending⟩ := hleft
    refine ⟨ending, hsome, ?_⟩
    cases ending with
    | upstreamError error => exact hending
    | upstreamEnd => exact hending
    | clientClosed =>
      obtain ⟨houtcome, herror, hclient, hitems⟩ := hending
      exact ⟨houtcome, herror, hclosed hclient, hitems⟩
  refine ⟨h.closed, hsent.trans h.sent, h.count, ?_, ?_⟩
  · rcases h.forwarded with ⟨hnone, hgone⟩ | herror
    · exact Or.inl ⟨hnone, fun hdone hsome => hclosed (hgone hdone hsome)⟩
    · exact Or.inr herror
  · exact h.phase.same rfl rfl id id hleft

/-- Nothing but frames is sent before the relay is done. -/
theorem RelayInv.going (h : RelayInv p s frames forwarded) (hgoing : s.relay ≠ .done) :
    forwarded = [] := by
  rcases h.forwarded with ⟨hnone, -⟩ | ⟨error, hdone, -⟩
  · exact hnone
  · exact absurd hdone hgoing

/-- The loop is left while nothing has been forwarded. -/
theorem RelayInv.leave (h : RelayInv p s frames forwarded)
    (upstream : Channel Item pipeChannelCapacity) (hclosed : upstream.closed = s.upstream.closed)
    (outcome : StreamOutcome) (error : Option String) (ending : Ending) (hgoing : s.relay ≠ .done)
    (hending : Explains p ({ s with upstream := upstream }.leave outcome error ending) frames
      ending) (hunlogged : Unlogged p s) :
    RelayInv p ({ s with upstream := upstream }.leave outcome error ending) frames [] := by
  have hopen : s.relay.isDone = false := by
    cases hrelay : s.relay with
    | done => exact absurd hrelay hgoing
    | _ => rfl
  obtain rfl := h.going hgoing
  exact ⟨hclosed.trans (h.closed.trans hopen), h.sent, h.count, Or.inl ⟨rfl, nofun⟩,
    ⟨ending, rfl, hending⟩, hunlogged⟩

/-- What holds of a relay in front of its `select`. -/
theorem RelayInv.selecting (h : RelayInv p s frames forwarded) (hrelay : s.relay = .selecting) :
    s.upstream.received = chunks frames ∧ s.outcome = .complete ∧ Unlogged p s ∧
      s.relay ≠ .done := by
  have hphase := h.phase
  rw [hrelay] at hphase
  exact ⟨hphase.1, hphase.2.1, hphase.2.2, by rw [hrelay]; nofun⟩

theorem RelayInv.recv (h : RelayInv p s frames forwarded) (hp : Pumped p.reads s)
    (hstep : Stepped p s .recv next) : RelayInv p next frames [] := by
  cases hstep with
  | recvEnd hrelay hqueue hended =>
    obtain ⟨hreceived, houtcome, hunlogged, hgoing⟩ := h.selecting hrelay
    have hall := hp.all (by rw [h.closed, hrelay]; rfl)
    rw [hp.finished hended, List.append_nil, s.upstream.order, hqueue, List.append_nil] at hall
    exact h.leave s.upstream rfl _ _ _ hgoing
      ⟨houtcome, rfl, hreceived, hended, hall.symm.trans hreceived⟩ hunlogged
  | recvChunk hrelay chunk upstream hgives =>
    obtain ⟨hreceived, houtcome, hunlogged, hgoing⟩ := h.selecting hrelay
    obtain rfl := h.going hgoing
    refine ⟨?_, h.sent, h.count, Or.inl ⟨rfl, nofun⟩, ?_, houtcome, hunlogged⟩
    · rw [hgives.closed, h.closed, hrelay]
      rfl
    · rw [hgives.received, hreceived]
  | recvFailed hrelay error upstream hgives =>
    obtain ⟨hreceived, -, hunlogged, hgoing⟩ := h.selecting hrelay
    refine h.leave upstream hgives.closed _ _ _ hgoing ⟨rfl, rfl, ?_⟩ hunlogged
    exact hgives.received.trans (by rw [hreceived])

theorem RelayInv.closedBranch (h : RelayInv p s frames forwarded)
    (hstep : Stepped p s .closed next) : RelayInv p next frames [] := by
  cases hstep with
  | closed hrelay hclosed =>
    obtain ⟨hreceived, -, hunlogged, hgoing⟩ := h.selecting hrelay
    exact h.leave s.upstream rfl _ _ _ hgoing ⟨rfl, rfl, hclosed, Or.inl hreceived⟩ hunlogged

theorem chunks_append (front : List Bytes) (chunk : Bytes) :
    chunks (front ++ [chunk]) = chunks front ++ [.chunk chunk] := List.map_append

theorem countBytes_append (front : List Bytes) (chunk : Bytes) :
    countBytes (front ++ [chunk]) = saturatingAdd (countBytes front) chunk.length :=
  List.foldl_append

theorem RelayInv.send (h : RelayInv p s frames forwarded) (hstep : Stepped p s .send next) :
    ∃ frames, RelayInv p next frames [] := by
  have hphase := h.phase
  cases hstep with
  | sendRefused chunk hrelay hclosed =>
    rw [hrelay] at hphase
    obtain ⟨hreceived, -, hunlogged⟩ := hphase
    exact ⟨frames, h.leave s.upstream rfl _ _ _ (by rw [hrelay]; nofun)
      ⟨rfl, rfl, hclosed, Or.inr ⟨chunk, hreceived⟩⟩ hunlogged⟩
  | sendChunk chunk hrelay client hsent =>
    rw [hrelay] at hphase
    obtain ⟨hreceived, houtcome, hunlogged⟩ := hphase
    obtain rfl := h.going (by rw [hrelay]; nofun)
    refine ⟨frames ++ [chunk], ?_, ?_, ?_, Or.inl ⟨rfl, nofun⟩, ?_, houtcome, hunlogged⟩
    · rw [h.closed, hrelay]
      rfl
    · rw [hsent.sent, h.sent, chunks_append, List.append_nil, List.append_nil]
    · rw [h.count, countBytes_append]
    · rw [hreceived, chunks_append]

theorem RelayInv.finish (h : RelayInv p s frames forwarded) {now : ℕ}
    (hstep : Stepped p s (.finish now) next) : RelayInv p next frames [] := by
  cases hstep with
  | finish now hrelay =>
    have hphase := h.phase
    rw [hrelay] at hphase
    obtain ⟨hleft, hcall, hcalls, hlines⟩ := hphase
    obtain rfl := h.going (by rw [hrelay]; nofun)
    refine ⟨?_, h.sent, h.count, Or.inl ⟨rfl, nofun⟩, hleft, rfl, now, ?_, ?_⟩
    · rw [h.closed, hrelay]
      rfl
    · rw [hcall, hcalls]
    · rw [hlines]
      rfl

/-- The handle is dropped when its call is finalized, and nothing happens. -/
theorem drop_finished (elapsedMs : ℕ → Ms) (now : ℕ) (calls : CallLog) {call : Pending}
    (h : call.finished = true) : call.drop elapsedMs now calls = calls := by
  rw [Pending.drop, Pending.finishWith, if_pos h]

theorem RelayInv.stop (h : RelayInv p s frames forwarded) (hrelay : s.relay = .logged)
    (client : Channel Item streamChannelCapacity) (more : List Item) (now : ℕ)
    (hsent : client.sent = s.client.sent ++ more)
    (hclosed : client.closed = s.client.closed)
    (hmore : (more = [] ∧ (s.terminalError ≠ none → s.client.closed = true)) ∨
      ∃ error, s.terminalError = some error ∧ more = [.failed error]) :
    RelayInv p ({ s with client := client }.stopRelay p now) frames more := by
  have hphase := h.phase
  rw [hrelay] at hphase
  obtain ⟨⟨ending, hsome, hending⟩, hfinished, at', hcalls, hlines⟩ := hphase
  obtain rfl := h.going (by rw [hrelay]; nofun)
  have hdropped := drop_finished p.elapsedMs now s.calls hfinished
  refine ⟨rfl, ?_, h.count, ?_, ⟨ending, hsome, ?_⟩, hfinished, at', ?_, ?_⟩
  · rw [State.stopRelay, Channel.finish_sent, hsent, h.sent, List.append_nil]
  · rcases hmore with ⟨hnone, hgone⟩ | ⟨error, herror, hmore⟩
    · exact Or.inl ⟨hnone, fun _ herror => hclosed.trans (hgone herror)⟩
    · exact Or.inr ⟨error, rfl, herror, hmore⟩
  · cases ending with
    | upstreamError error => exact hending
    | upstreamEnd => exact hending
    | clientClosed =>
      obtain ⟨houtcome, herror, hclient, hitems⟩ := hending
      exact ⟨houtcome, herror, hclosed.trans hclient, hitems⟩
  · exact hdropped.trans hcalls
  · rw [State.stopRelay]
    simp only [hdropped]
    exact hlines

theorem RelayInv.forward (h : RelayInv p s frames forwarded) {now : ℕ}
    (hstep : Stepped p s (.forward now) next) : ∃ more, RelayInv p next frames more := by
  cases hstep with
  | forwardNone now hrelay herror =>
    exact ⟨[], h.stop hrelay s.client [] now (List.append_nil _).symm rfl
      (Or.inl ⟨rfl, fun hsome => absurd herror hsome⟩)⟩
  | forwardRefused now hrelay hclosed =>
    exact ⟨[], h.stop hrelay s.client [] now (List.append_nil _).symm rfl
      (Or.inl ⟨rfl, fun _ => hclosed⟩)⟩
  | forwardFailed now hrelay error herror client hsent =>
    exact ⟨[.failed error], h.stop hrelay client [.failed error] now hsent.sent hsent.closed
      (Or.inr ⟨error, herror, rfl⟩)⟩

end Relaying

end StuntDouble.PipeRelay
