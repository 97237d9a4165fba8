import StuntDouble.Transitions
import Mathlib.Data.List.Perm.Basic

/-!
The server while it serves. Each connection has a task of its own, and a script runs only
while it holds one of a fixed number of slots. The first signal ends the accepting, after
which each connection ends with the request it is in; a second signal ends the process.
Signals, clients and tasks take their steps in any order.
-/
namespace StuntDouble.Serving

open Transitions

def scriptWorkerLimit (parallelism : Option ℕ) : ℕ := parallelism.elim 4 fun n => min (max n 4) 16

inductive ShutdownSignal
  | interrupt
  | terminate
deriving DecidableEq, Repr

def ShutdownSignal.forcedExitCode : ShutdownSignal → ℕ
  | .interrupt => 130
  | .terminate => 143

/-- Where a request is: its body is read, a worker runs its script, or its answer is on its way. -/
inductive Stage
  | preparing
  | running
  | answering
deriving DecidableEq, Repr

/-- A connection without a request waits for the head of one. -/
inductive Link
  | waiting
  | handling (request : ℕ) (stage : Stage)
  | closed
deriving DecidableEq, Repr

/-- `draining` is set when the task has asked for a graceful shutdown. -/
structure Connection where
  link : Link
  draining : Bool
deriving DecidableEq, Repr

inductive Phase
  | serving
  | draining
  | returned (ok : Bool)
deriving DecidableEq, Repr

inductive Event
  | accepted
  | received (request : ℕ)
  | refused (request running : ℕ)
  | answered (request : ℕ)
  | left (request : ℕ)
  | noticed (signal : ShutdownSignal)
deriving DecidableEq, Repr

/-- The process; the events are kept for the statements only. -/
structure State where
  phase : Phase
  connections : List Connection
  slots : ℕ
  sequence : ℕ
  interrupt : Bool
  terminate : Bool
  exit : Option ℕ
  events : List Event
deriving DecidableEq, Repr

def State.start (slots : ℕ) : State := ⟨.serving, [], slots, 0, false, false, none, []⟩

/-- What happens on one connection. A client leaves by closing it; a `reply` is an answer that
needs no worker, and one to a script that cannot be read. -/
inductive Move
  | head
  | headTimeout
  | leave
  | drain (partialHead : Bool)
  | reply
  | start
  | finish
  | answered (keepAlive : Bool)
deriving DecidableEq, Repr

inductive Action
  | signal (signal : ShutdownSignal)
  | notice (signal : ShutdownSignal)
  | accept
  | acceptFails
  | move (index : ℕ) (move : Move)
  | drained
  | leave
deriving DecidableEq, Repr

section Steps

def Connection.running (connection : Connection) : Bool :=
  match connection.link with
  | .handling _ .running => true
  | _ => false

def Connection.closed (connection : Connection) : Bool := connection.link == .closed

/-- The workers that hold a slot. -/
def State.running (s : State) : ℕ := s.connections.countP Connection.running

def State.put (s : State) (index : ℕ) (connection : Connection) : State :=
  { s with connections := s.connections.set index connection }

def State.record (s : State) (event : Event) : State := { s with events := s.events ++ [event] }

def State.move (s : State) (index : ℕ) (c : Connection) : Move → Option State
  | .head =>
    if c.link = .waiting then
      some { (s.put index ⟨.handling s.sequence .preparing, c.draining⟩).record
        (.received s.sequence) with sequence := s.sequence + 1 }
    else none
  | .headTimeout => if c.link = .waiting then some (s.put index ⟨.closed, c.draining⟩) else none
  | .leave =>
    match c.link with
    | .waiting => some (s.put index ⟨.closed, c.draining⟩)
    | .handling request stage =>
      some { (s.put index ⟨.closed, c.draining⟩).record (.left request) with
        slots := s.slots + if stage = .running then 1 else 0 }
    | .closed => none
  | .drain partialHead =>
    if s.phase = .draining ∧ c.draining = false then
      match c.link with
      | .waiting => some (s.put index ⟨if partialHead then .waiting else .closed, true⟩)
      | .handling request stage => some (s.put index ⟨.handling request stage, true⟩)
      | .closed => none
    else none
  | .reply =>
    match c.link with
    | .handling request .preparing => some (s.put index ⟨.handling request .answering, c.draining⟩)
    | _ => none
  | .start =>
    match c.link with
    | .handling request .preparing =>
      match s.slots with
      | 0 => some ((s.put index ⟨.handling request .answering, c.draining⟩).record
          (.refused request s.running))
      | slots + 1 =>
        some { s.put index ⟨.handling request .running, c.draining⟩ with slots := slots }
    | _ => none
  | .finish =>
    match c.link with
    | .handling request .running =>
      some { s.put index ⟨.handling request .answering, c.draining⟩ with slots := s.slots + 1 }
    | _ => none
  | .answered keepAlive =>
    match c.link with
    | .handling request .answering =>
      some ((s.put index ⟨if keepAlive && !c.draining then .waiting else .closed,
        c.draining⟩).record (.answered request))
    | _ => none

def State.pending (s : State) : ShutdownSignal → Bool
  | .interrupt => s.interrupt
  | .terminate => s.terminate

def State.setPending (s : State) (pending : Bool) : ShutdownSignal → State
  | .interrupt => { s with interrupt := pending }
  | .terminate => { s with terminate := pending }

/-- The first signal ends the loop of `serve_connections`; a later one ends the process. -/
def State.notice (s : State) (signal : ShutdownSignal) : Option State :=
  if s.pending signal = true then
    match s.phase with
    | .serving => some { (s.setPending false signal).record (.noticed signal) with
        phase := .draining }
    | .draining | .returned true => some { (s.setPending false signal).record (.noticed signal) with
        exit := some signal.forcedExitCode }
    | .returned false => none
  else none

/-- An error of the listener ends the server at once, with the tasks of all connections. -/
def State.acceptFails (s : State) : State :=
  { s with
    phase := .returned false
    slots := s.slots + s.running
    connections := s.connections.map fun c => ⟨.closed, c.draining⟩ }

def step (s : State) (a : Action) : Option State :=
  if s.exit.isSome then none
  else match a with
    | .signal signal => some (s.setPending true signal)
    | .notice signal => s.notice signal
    | .accept =>
      if s.phase = .serving then
        some { s.record .accepted with connections := s.connections ++ [⟨.waiting, false⟩] }
      else none
    | .acceptFails => if s.phase = .serving then some s.acceptFails else none
    | .move index move => s.connections[index]?.bind fun c => s.move index c move
    | .drained =>
      if s.phase = .draining ∧ s.connections.all Connection.closed = true then
        some { s with phase := .returned true }
      else none
    | .leave =>
      match s.phase with
      | .returned ok => some { s with exit := some (if ok then 0 else 1) }
      | _ => none

end Steps

section Moves

variable {s next : State}

def Connection.request (connection : Connection) : Option ℕ :=
  match connection.link with
  | .handling request _ => some request
  | _ => none

def receivedOf (events : List Event) : List ℕ :=
  events.filterMap fun
    | .received request => some request
    | _ => none

def answeredOf (events : List Event) : List ℕ :=
  events.filterMap fun
    | .answered request => some request
    | _ => none

def leftOf (events : List Event) : List ℕ :=
  events.filterMap fun
    | .left request => some request
    | _ => none

/-- The requests that are being handled. -/
def State.handled (s : State) : List ℕ := s.connections.filterMap Connection.request

/-- What a connection has left to do, at most, when no more requests follow this one. -/
def Connection.weight (connection : Connection) : ℕ :=
  match connection.link with
  | .closed => 0
  | .handling _ .answering => 1 + if connection.draining then 0 else 1
  | .handling _ .running => 2 + if connection.draining then 0 else 1
  | .handling _ .preparing => 3 + if connection.draining then 0 else 1
  | .waiting => 4 + if connection.draining then 0 else 1

/-- An answer that keeps its connection alive lets another request follow. -/
def Move.credit : Move → ℕ
  | .answered true => 4
  | _ => 0

/-- What a move does with its connection `c`: to the connection, the slots, the next id and
the events. Only an answer that keeps a connection alive leaves it with more to do. -/
structure Moved (s : State) (c : Connection) (m : Move) (next : State) (after : Connection)
    (events : List Event) : Prop where
  phase : next.phase = s.phase
  exit : next.exit = s.exit
  pending : next.interrupt = s.interrupt ∧ next.terminate = s.terminate
  events_eq : next.events = s.events ++ events
  sequence : List.range next.sequence = List.range s.sequence ++ receivedOf events
  slots : next.slots + after.running.toNat = s.slots + c.running.toNat
  requests : (receivedOf events ++ c.request.toList).Perm
    (answeredOf events ++ leftOf events ++ after.request.toList)
  refused : ∀ request running, .refused request running ∈ events → s.slots = 0 ∧ running = s.running
  quiet : ∀ signal, .accepted ∉ events ∧ .noticed signal ∉ events
  closed : c.closed = false
  lighter : after.weight < c.weight + m.credit

theorem moved_silent {index slots : ℕ} {c after : Connection} {m : Move}
    (hslots : slots + after.running.toNat = s.slots + c.running.toNat)
    (hrequest : after.request = c.request) (hopen : c.closed = false)
    (hless : after.weight < c.weight) :
    Moved s c m { s.put index after with slots := slots } after [] where
  phase := rfl
  exit := rfl
  pending := ⟨rfl, rfl⟩
  events_eq := (List.append_nil _).symm
  sequence := (List.append_nil _).symm
  slots := hslots
  requests := by rw [hrequest]; rfl
  refused := by simp
  quiet := by simp
  closed := hopen
  lighter := Nat.lt_add_right _ hless

theorem moved_recording {index slots : ℕ} {c after : Connection} {m : Move} {event : Event}
    (hslots : slots + after.running.toNat = s.slots + c.running.toNat)
    (hreceived : receivedOf [event] = [])
    (hrequest : c.request.toList =
      answeredOf [event] ++ leftOf [event] ++ after.request.toList)
    (hrefused : ∀ request running, event = .refused request running →
      s.slots = 0 ∧ running = s.running)
    (hquiet : ∀ signal, event ≠ .accepted ∧ event ≠ .noticed signal) (hopen : c.closed = false)
    (hless : after.weight < c.weight + m.credit) :
    Moved s c m { (s.put index after).record event with slots := slots } after [event] where
  phase := rfl
  exit := rfl
  pending := ⟨rfl, rfl⟩
  events_eq := rfl
  sequence := by rw [hreceived]; exact (List.append_nil _).symm
  slots := hslots
  requests := by rw [hreceived, hrequest]; rfl
  refused request running h := hrefused request running (List.mem_singleton.mp h).symm
  quiet signal := by
    obtain ⟨haccepted, hnoticed⟩ := hquiet signal
    simp [haccepted.symm, hnoticed.symm]
  closed := hopen
  lighter := hless

theorem weight_pos {c : Connection} (h : c.closed = false) : 0 < c.weight := by
  obtain ⟨link, draining⟩ := c
  cases link with
  | waiting => exact Nat.lt_of_lt_of_le (Nat.succ_pos 3) (Nat.le_add_right _ _)
  | handling request stage =>
    cases stage <;> exact Nat.lt_of_lt_of_le (Nat.succ_pos _) (Nat.le_add_right _ _)
  | closed => cases h

/-- What a move can do. -/
theorem move_cases {index : ℕ} {c : Connection} {m : Move} (h : s.move index c m = some next) :
    ∃ after events, next.connections = s.connections.set index after ∧
      Moved s c m next after events := by
  obtain ⟨link, draining⟩ := c
  cases m with
  | head =>
    rw [State.move] at h
    split at h
    · rename_i hlink
      cases h
      cases hlink
      refine ⟨_, [.received s.sequence], rfl, rfl, rfl, ⟨rfl, rfl⟩, rfl, ?_, rfl, ?_, ?_, ?_, rfl,
        ?_⟩
      · exact List.range_succ
      · simp [receivedOf, answeredOf, leftOf, Connection.request]
      · simp
      · simp
      · exact Nat.add_lt_add_right (Nat.lt_succ_self 3) _
    · cases h
  | headTimeout =>
    rw [State.move] at h
    split at h
    · rename_i hlink
      cases h
      cases hlink
      exact ⟨_, _, rfl, moved_silent rfl rfl rfl (weight_pos rfl)⟩
    · cases h
  | leave =>
    cases link with
    | waiting =>
      cases h
      exact ⟨_, _, rfl, moved_silent rfl rfl rfl (weight_pos rfl)⟩
    | handling request stage =>
      cases h
      refine ⟨_, _, rfl, moved_recording ?_ rfl rfl (by simp) (by simp) rfl
        (weight_pos rfl)⟩
      cases stage <;> rfl
    | closed => cases h
  | drain partialHead =>
    rw [State.move] at h
    split at h
    · rename_i hdrain
      obtain ⟨-, rfl⟩ := hdrain
      cases link with
      | waiting =>
        cases h
        cases partialHead with
        | false => exact ⟨_, _, rfl, moved_silent rfl rfl rfl (weight_pos rfl)⟩
        | true => exact ⟨_, _, rfl, moved_silent rfl rfl rfl (Nat.lt_succ_self 4)⟩
      | handling request stage =>
        cases h
        refine ⟨_, _, rfl, moved_silent ?_ rfl rfl ?_⟩
        · cases stage <;> rfl
        · cases stage <;> exact Nat.lt_succ_self _
      | closed => cases h
    · cases h
  | reply =>
    cases link with
    | waiting => cases h
    | handling request stage =>
      cases stage with
      | preparing =>
        cases h
        refine ⟨_, _, rfl, moved_silent rfl rfl rfl ?_⟩
        exact Nat.add_lt_add_right (by omega : 1 < 3) _
      | running => cases h
      | answering => cases h
    | closed => cases h
  | start =>
    cases link with
    | waiting => cases h
    | handling request stage =>
      cases stage with
      | preparing =>
        simp only [State.move] at h
        split at h
        · rename_i hslots
          cases h
          refine ⟨_, _, rfl, moved_recording rfl rfl rfl ?_ (by simp) rfl ?_⟩
          · intro request' running heq
            cases heq
            exact ⟨hslots, rfl⟩
          · exact Nat.add_lt_add_right (by omega : 1 < 3) _
        · rename_i slots hslots
          cases h
          refine ⟨_, _, rfl, moved_silent ?_ rfl rfl ?_⟩
          · rw [hslots]
            rfl
          · exact Nat.add_lt_add_right (by omega : 2 < 3) _
      | running => cases h
      | answering => cases h
    | closed => cases h
  | finish =>
    cases link with
    | waiting => cases h
    | handling request stage =>
      cases stage with
      | preparing => cases h
      | running =>
        cases h
        refine ⟨_, _, rfl, moved_silent rfl rfl rfl ?_⟩
        exact Nat.add_lt_add_right (by omega : 1 < 2) _
      | answering => cases h
    | closed => cases h
  | answered keepAlive =>
    cases link with
    | waiting => cases h
    | handling request stage =>
      cases stage with
      | preparing => cases h
      | running => cases h
      | answering =>
        cases h
        refine ⟨_, _, rfl, moved_recording ?_ rfl ?_ (by simp) (by simp) rfl ?_⟩
        · cases keepAlive <;> cases draining <;> rfl
        · cases keepAlive <;> cases draining <;> rfl
        · cases keepAlive <;> cases draining <;> simp [Connection.weight, Move.credit]
    | closed => cases h

end Moves

section Kept

variable {limit : ℕ} {s next : State}

def noticedOf (events : List Event) : List ShutdownSignal :=
  events.filterMap fun
    | .noticed signal => some signal
    | _ => none

/-- How the process stands after the signals that it noticed. -/
inductive Signalled : Phase → Option ℕ → List ShutdownSignal → Prop
  | serving : Signalled .serving none []
  | draining (first : ShutdownSignal) : Signalled .draining none [first]
  | returned (first : ShutdownSignal) : Signalled (.returned true) none [first]
  | failed : Signalled (.returned false) none []
  | drained (first : ShutdownSignal) : Signalled (.returned true) (some 0) [first]
  | broken : Signalled (.returned false) (some 1) []
  | forced (phase : Phase) (first second : ShutdownSignal)
      (hphase : phase = .draining ∨ phase = .returned true) :
      Signalled phase (some second.forcedExitCode) [first, second]

/-- A connection is not accepted after a signal. -/
def InOrder (earlier later : Event) : Prop :=
  (∃ signal, earlier = .noticed signal) → later ≠ .accepted

structure Kept (limit : ℕ) (s : State) : Prop where
  slots : s.slots + s.running = limit
  refused : ∀ request running, .refused request running ∈ s.events → running = limit
  received : receivedOf s.events = List.range s.sequence
  requests : s.phase ≠ .returned false →
    (List.range s.sequence).Perm (answeredOf s.events ++ leftOf s.events ++ s.handled)
  closed : ∀ ok, s.phase = .returned ok → s.connections.all Connection.closed = true
  ordered : s.events.Pairwise InOrder
  signalled : Signalled s.phase s.exit (noticedOf s.events)

theorem kept_start (slots : ℕ) : Kept slots (State.start slots) where
  slots := rfl
  refused := by simp [State.start]
  received := rfl
  requests _ := List.Perm.refl []
  closed := by simp [State.start]
  ordered := List.Pairwise.nil
  signalled := .serving

theorem set_split {A : Type} {l : List A} {index : ℕ} {a : A} (h : l[index]? = some a) :
    ∃ front back, l = front ++ a :: back ∧ ∀ b, l.set index b = front ++ b :: back := by
  obtain ⟨hlt, rfl⟩ := List.getElem?_eq_some_iff.mp h
  refine ⟨l.take index, l.drop (index + 1), ?_, ?_⟩
  · rw [List.getElem_cons_drop, List.take_append_drop]
  · intro b
    exact List.set_eq_take_append_cons_drop.trans (if_pos hlt)

theorem handled_split (front back : List Connection) (c : Connection) :
    (front ++ c :: back).filterMap Connection.request =
      front.filterMap Connection.request ++
        (c.request.toList ++ back.filterMap Connection.request) := by
  rw [List.filterMap_append]
  cases h : c.request <;> simp [h]

theorem running_split (front back : List Connection) (c : Connection) :
    (front ++ c :: back).countP Connection.running =
      front.countP Connection.running + back.countP Connection.running + c.running.toNat := by
  rw [List.countP_append, List.countP_cons]
  cases c.running with
  | false => rfl
  | true =>
    show _ + (_ + 1) = _ + _ + 1
    omega

theorem Moved.kept {c after : Connection} {m : Move} {index : ℕ} {events : List Event}
    (h : Moved s c m next after events) (hget : s.connections[index]? = some c)
    (hset : next.connections = s.connections.set index after) (hkept : Kept limit s) :
    Kept limit next := by
  obtain ⟨front, back, hfront, hback⟩ := set_split hget
  rw [hback] at hset
  have hrunning : s.running = front.countP Connection.running +
      back.countP Connection.running + c.running.toNat := by
    rw [State.running, hfront, running_split]
  refine ⟨?_, ?_, ?_, ?_, ?_, ?_, ?_⟩
  · have hslots := h.slots
    have hbefore := hkept.slots
    rw [State.running, hset, running_split]
    omega
  · intro request running hmem
    rw [h.events_eq, List.mem_append] at hmem
    rcases hmem with hmem | hmem
    · exact hkept.refused request running hmem
    · obtain ⟨hslots, hcount⟩ := h.refused request running hmem
      have hbefore := hkept.slots
      omega
  · rw [h.events_eq, receivedOf, List.filterMap_append, ← receivedOf, hkept.received, h.sequence]
    rfl
  · intro hphase
    rw [h.phase] at hphase
    have hbefore := List.perm_iff_count.mp (hkept.requests hphase)
    have hmove := List.perm_iff_count.mp h.requests
    rw [State.handled, hfront, handled_split] at hbefore
    apply List.perm_iff_count.mpr
    intro request
    have hbefore := hbefore request
    have hmove := hmove request
    rw [State.handled, hset, handled_split, h.sequence, h.events_eq, answeredOf, leftOf,
      List.filterMap_append, List.filterMap_append, ← answeredOf, ← answeredOf, ← leftOf, ← leftOf]
    simp only [List.count_append] at hbefore hmove ⊢
    omega
  · intro ok hphase
    rw [h.phase] at hphase
    have hall := hkept.closed ok hphase
    rw [hfront, List.all_append, List.all_cons, h.closed] at hall
    simp at hall
  · have hnew : ∀ earlier, ∀ later ∈ events, InOrder earlier later := by
      intro earlier later hlater _ heq
      rw [heq] at hlater
      exact (h.quiet .interrupt).1 hlater
    rw [h.events_eq, List.pairwise_append]
    refine ⟨hkept.ordered, ?_, fun earlier _ => hnew earlier⟩
    exact List.pairwise_of_forall_mem_list fun earlier _ => hnew earlier
  · have hnone : noticedOf events = [] := by
      apply List.filterMap_eq_nil_iff.mpr
      intro event hevent
      cases event with
      | noticed signal => exact absurd hevent (h.quiet signal).2
      | _ => rfl
    rw [h.phase, h.exit, h.events_eq, noticedOf, List.filterMap_append, ← noticedOf, ← noticedOf,
      hnone, List.append_nil]
    exact hkept.signalled

theorem noticedOf_concat (events : List Event) (signal : ShutdownSignal) :
    noticedOf (events ++ [.noticed signal]) = noticedOf events ++ [signal] := by
  rw [noticedOf, List.filterMap_append]
  rfl

/-- What is kept when a signal is noticed, whatever becomes of the server then. -/
theorem kept_noticed (signal : ShutdownSignal) {phase : Phase} {exit : Option ℕ}
    (hkept : Kept limit s) (hphase : phase = .draining ∨ phase = s.phase)
    (hserving : s.phase ≠ .returned false)
    (hsignalled : Signalled phase exit (noticedOf s.events ++ [signal])) :
    Kept limit { (s.setPending false signal).record (.noticed signal) with
      phase := phase, exit := exit } := by
  have hordered : (s.events ++ [Event.noticed signal]).Pairwise InOrder := by
    rw [List.pairwise_append]
    refine ⟨hkept.ordered, List.pairwise_singleton _ _, ?_⟩
    intro earlier _ later hlater _ heq
    rw [List.mem_singleton.mp hlater] at heq
    cases heq
  have hrefused : ∀ request running, .refused request running ∈ s.events ++ [.noticed signal] →
      running = limit := by
    intro request running hmem
    exact hkept.refused request running (by simpa using hmem)
  have hreceived : receivedOf (s.events ++ [.noticed signal]) = List.range s.sequence := by
    rw [receivedOf, List.filterMap_append, ← receivedOf, hkept.received]
    exact List.append_nil _
  have hrequests : (List.range s.sequence).Perm (answeredOf (s.events ++ [.noticed signal]) ++
      leftOf (s.events ++ [.noticed signal]) ++ s.handled) := by
    have hbefore := hkept.requests hserving
    rw [answeredOf, leftOf, List.filterMap_append, List.filterMap_append, ← answeredOf, ← leftOf]
    simpa using hbefore
  have hclosed : ∀ ok, phase = .returned ok → s.connections.all Connection.closed = true := by
    intro ok hok
    rcases hphase with hphase | hphase
    · rw [hphase] at hok
      cases hok
    · exact hkept.closed ok (hphase.symm.trans hok)
  rw [← noticedOf_concat] at hsignalled
  cases signal <;>
    exact ⟨hkept.slots, hrefused, hreceived, fun _ => hrequests, hclosed, hordered, hsignalled⟩

theorem setPending_exit (s : State) (pending : Bool) (signal : ShutdownSignal) :
    (s.setPending pending signal).exit = s.exit := by
  cases signal <;> rfl

theorem setPending_phase (s : State) (pending : Bool) (signal : ShutdownSignal) :
    (s.setPending pending signal).phase = s.phase := by
  cases signal <;> rfl

theorem kept_notice {signal : ShutdownSignal} (hexit : s.exit = none)
    (h : s.notice signal = some next) (hkept : Kept limit s) : Kept limit next := by
  have hsignalled := hkept.signalled
  rw [hexit] at hsignalled
  generalize hsignals : noticedOf s.events = signals at hsignalled
  have hnext := @kept_noticed limit s signal
  rw [hsignals] at hnext
  rw [State.notice] at h
  split at h
  · cases hphase : s.phase with
    | serving =>
      rw [hphase] at h hsignalled
      cases h
      cases hsignalled
      have hdraining := hnext hkept (.inl rfl) (by simp [hphase]) (.draining signal)
      rw [← hexit, ← setPending_exit s false signal] at hdraining
      exact hdraining
    | draining =>
      rw [hphase] at h hsignalled
      cases h
      cases hsignalled with
      | draining first =>
        have hforced := hnext hkept (.inl rfl) (by simp [hphase])
          (.forced _ first signal (.inl rfl))
        rw [← hphase, ← setPending_phase s false signal] at hforced
        exact hforced
    | returned ok =>
      rw [hphase] at h hsignalled
      cases hsignalled with
      | returned first =>
        cases h
        have hforced := hnext hkept (.inr rfl) (by simp [hphase])
          (.forced _ first signal (.inr hphase))
        rw [← setPending_phase s false signal] at hforced
        exact hforced
      | failed => cases h
  · cases h

theorem kept_accept (hphase : s.phase = .serving) (hexit : s.exit = none)
    (hkept : Kept limit s) :
    Kept limit { s.record .accepted with
      connections := s.connections ++ [⟨.waiting, false⟩] } := by
  have hsignalled := hkept.signalled
  rw [hphase, hexit] at hsignalled
  generalize hsignals : noticedOf s.events = signals at hsignalled
  cases hsignalled
  refine ⟨?_, ?_, ?_, ?_, ?_, ?_, ?_⟩
  · have hslots := hkept.slots
    show s.slots + (s.connections ++ [_]).countP Connection.running = limit
    rw [List.countP_append]
    exact hslots
  · intro request running hmem
    apply hkept.refused request running
    simpa [State.record] using hmem
  · show receivedOf (s.events ++ [Event.accepted]) = List.range s.sequence
    rw [receivedOf, List.filterMap_append, ← receivedOf, hkept.received]
    exact List.append_nil _
  · intro hopen
    have hbefore := hkept.requests hopen
    show (List.range s.sequence).Perm (answeredOf (s.events ++ [Event.accepted]) ++
      leftOf (s.events ++ [Event.accepted]) ++ (s.connections ++ [_]).filterMap Connection.request)
    rw [answeredOf, leftOf, List.filterMap_append, List.filterMap_append, List.filterMap_append,
      ← answeredOf, ← leftOf]
    simpa [Connection.request, State.handled, List.filterMap_cons] using hbefore
  · intro ok hok
    rw [show s.phase = .returned ok from hok] at hphase
    cases hphase
  · show (s.events ++ [Event.accepted]).Pairwise InOrder
    rw [List.pairwise_append]
    refine ⟨hkept.ordered, List.pairwise_singleton _ _, ?_⟩
    rintro earlier hearlier later - ⟨signal, rfl⟩
    have hmem : signal ∈ noticedOf s.events := List.mem_filterMap.mpr ⟨_, hearlier, rfl⟩
    rw [hsignals] at hmem
    cases hmem
  · show Signalled s.phase s.exit (noticedOf (s.events ++ [Event.accepted]))
    rw [noticedOf, List.filterMap_append, ← noticedOf, hsignals, hphase, hexit]
    exact .serving

theorem kept_acceptFails (hphase : s.phase = .serving) (hexit : s.exit = none)
    (hkept : Kept limit s) : Kept limit s.acceptFails := by
  have hsignalled := hkept.signalled
  rw [hphase, hexit] at hsignalled
  generalize hsignals : noticedOf s.events = signals at hsignalled
  cases hsignalled
  refine ⟨?_, hkept.refused, hkept.received, fun hopen => absurd rfl hopen, ?_, hkept.ordered, ?_⟩
  · have hslots := hkept.slots
    have hnone : (s.connections.map fun c => (⟨.closed, c.draining⟩ : Connection)).countP
        Connection.running = 0 := by
      rw [List.countP_map, List.countP_eq_zero]
      intro c _ hc
      cases hc
    show s.slots + s.running + List.countP _ (s.connections.map _) = limit
    rw [hnone]
    exact hslots
  · intro ok _
    show (s.connections.map fun c => (⟨.closed, c.draining⟩ : Connection)).all _ = true
    rw [List.all_map]
    exact List.all_eq_true.mpr fun _ _ => rfl
  · show Signalled _ s.exit (noticedOf s.events)
    rw [hexit, hsignals]
    exact .failed

/-- Every step keeps the invariant. -/
theorem kept_step {a : Action} (h : step s a = some next) (hkept : Kept limit s) :
    Kept limit next := by
  unfold step at h
  split at h
  · cases h
  rename_i hexit
  have hnone : s.exit = none := by simpa using hexit
  cases a with
  | signal signal =>
    cases h
    cases signal <;>
      exact ⟨hkept.slots, hkept.refused, hkept.received, hkept.requests, hkept.closed,
        hkept.ordered, hkept.signalled⟩
  | notice signal => exact kept_notice hnone h hkept
  | accept =>
    simp only at h
    split at h
    · cases h
      exact kept_accept ‹_› hnone hkept
    · cases h
  | acceptFails =>
    simp only at h
    split at h
    · cases h
      exact kept_acceptFails ‹_› hnone hkept
    · cases h
  | move index move =>
    obtain ⟨c, hget, hmove⟩ := Option.bind_eq_some_iff.mp h
    obtain ⟨after, events, hset, hmoved⟩ := move_cases hmove
    exact hmoved.kept hget hset hkept
  | drained =>
    simp only at h
    split at h
    · rename_i hdone
      cases h
      have hsignalled := hkept.signalled
      rw [hdone.1, hnone] at hsignalled
      refine ⟨hkept.slots, hkept.refused, hkept.received, ?_, fun _ _ => hdone.2, hkept.ordered, ?_⟩
      · intro _
        exact hkept.requests (by simp [hdone.1])
      · show Signalled _ s.exit (noticedOf s.events)
        rw [hnone]
        generalize noticedOf s.events = signals at hsignalled
        cases hsignalled with
        | draining first => exact .returned first
    · cases h
  | leave =>
    simp only at h
    split at h
    · rename_i ok hphase
      cases h
      have hsignalled := hkept.signalled
      rw [hphase, hnone] at hsignalled
      refine ⟨hkept.slots, hkept.refused, hkept.received, hkept.requests, hkept.closed,
        hkept.ordered, ?_⟩
      show Signalled s.phase _ (noticedOf s.events)
      rw [hphase]
      generalize noticedOf s.events = signals at hsignalled
      cases hsignalled with
      | returned first => exact .drained first
      | failed => exact .broken
    · cases h

end Kept

end StuntDouble.Serving
