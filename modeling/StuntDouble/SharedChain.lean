import StuntDouble.Handler
import StuntDouble.Transitions

/-!
One chain and its handles, shared by any number of holders. Each action is one atomic step
of some holder: what is done under the lock of the chain, or the swap of the flag of a handle.
The finish that comes first is two steps, and so is a drop without a finish; anything may
happen between the two. A lock that a panic has poisoned is taken all the same.
-/
namespace StuntDouble.SharedChain

open RequestLog Transitions

/-- A record whose count of bytes can be read back. -/
class ByteRecord (T : Type) extends LogRecord T where
  bytes : T → Option ℕ
  bytes_set : ∀ record n, bytes (setBytes record n) = some n

instance : ByteRecord Upstream.CallRecord where
  bytes record := record.responseBytes
  bytes_set _ _ := rfl

instance : ByteRecord Files.CallRecord where
  bytes record := record.bytes
  bytes_set _ _ := rfl

/-- What `finish_with` is called with. -/
structure Finish (T : Type) where
  bytes : ℕ
  update : T → T

/-- How far a handle is; the flag of one that is finishing or dropping is set, and its record
is not written yet. -/
inductive Stage (T : Type)
  | held
  | finishing (finish : Finish T)
  | dropping
  | gone

structure Handle (T : Type) where
  pending : Pending
  stage : Stage T

/-- What a handle wrote. -/
structure Final (T : Type) where
  index : ℕ
  ms : Ms
  finish : Finish T

inductive Event (T : Type)
  | begun (index : ℕ) (record : T)
  | updated (index : ℕ) (update : T → T)
  | asked (handle : ℕ) (finish : Finish T)
  | finalized (handle : ℕ) (final : Final T)

/-- The chain and the handles that were made for it. The events are kept for the statements
only. -/
structure State (T : Type) where
  chain : Chain T
  handles : List (Handle T)
  events : List (Event T)

/-- A step of a holder. A finish reaches the flag of its handle, and so does a drop; the write
is the rest of the one that found the flag clear. -/
inductive Action (T : Type)
  | beginCall (record : T)
  | update (index : ℕ) (update : T → T)
  | watch (index started : ℕ)
  | finish (handle : ℕ) (finish : Finish T)
  | drop (handle : ℕ)
  | write (handle now : ℕ)

section Steps

variable {T : Type}

def State.start : State T := ⟨[], [], []⟩

def State.beginCall (s : State T) (record : T) : State T :=
  { s with
    chain := (s.chain.beginCall record).1
    events := s.events ++ [.begun (s.chain.beginCall record).2 record] }

def State.update (s : State T) (index : ℕ) (update : T → T) : State T :=
  { s with
    chain := s.chain.update index update
    events := s.events ++ [.updated index update] }

/-- `Pending::new`, of any index. -/
def State.watch (s : State T) (index started : ℕ) : State T :=
  { s with handles := s.handles ++ [⟨⟨index, started, false⟩, .held⟩] }

/-- A finish borrows its handle, so the handle is not being dropped. -/
def Stage.alive : Stage T → Bool
  | .held => true
  | .finishing _ => true
  | .dropping => false
  | .gone => false

/-- The flag is swapped; whoever found it clear goes on. -/
def Handle.claim (handle : Handle T) (stage : Stage T) : Handle T :=
  ⟨{ handle.pending with finished := true }, stage⟩

theorem claim_of_finished (handle : Handle T) (h : handle.pending.finished = true)
    (stage : Stage T) : handle.claim stage = ⟨handle.pending, stage⟩ := by
  rw [Handle.claim, ← h]

def State.finish (s : State T) (handle : ℕ) (finish : Finish T) : Option (State T) :=
  match s.handles[handle]? with
  | none => none
  | some found =>
    if found.stage.alive then
      some { s with
        handles :=
          if found.pending.finished then s.handles
          else s.handles.set handle (found.claim (.finishing finish))
        events := s.events ++ [.asked handle finish] }
    else none

/-- A handle is dropped when no finish borrows it. -/
def State.drop (s : State T) (handle : ℕ) : Option (State T) :=
  match s.handles[handle]? with
  | some ⟨pending, .held⟩ =>
    some { s with
      handles := s.handles.set handle
        (Handle.claim ⟨pending, .held⟩ (if pending.finished then .gone else .dropping)) }
  | _ => none

variable [LogRecord T] (elapsedMs : ℕ → Ms)

/-- What is done to the record under the lock. -/
def Finish.apply (finish : Finish T) (ms : Ms) (record : T) : T :=
  finish.update (LogRecord.setBytes (LogRecord.setDurationMs record ms) finish.bytes)

def Finish.abandoned : Finish T := ⟨0, id⟩

def State.finalize (s : State T) (handle : ℕ) (pending : Pending) (finish : Finish T) (now : ℕ)
    (stage : Stage T) : State T :=
  let ms := elapsedMs (now - pending.started)
  { chain := s.chain.update pending.index (finish.apply ms)
    handles := s.handles.set handle ⟨pending, stage⟩
    events := s.events ++ [.finalized handle ⟨pending.index, ms, finish⟩] }

def State.write (s : State T) (handle now : ℕ) : Option (State T) :=
  match s.handles[handle]? with
  | some ⟨pending, .finishing finish⟩ => some (s.finalize elapsedMs handle pending finish now .held)
  | some ⟨pending, .dropping⟩ => some (s.finalize elapsedMs handle pending .abandoned now .gone)
  | _ => none

def step (s : State T) : Action T → Option (State T)
  | .beginCall record => some (s.beginCall record)
  | .update index update => some (s.update index update)
  | .watch index started => some (s.watch index started)
  | .finish handle finish => s.finish handle finish
  | .drop handle => s.drop handle
  | .write handle now => s.write elapsedMs handle now

end Steps

section Cases

variable {T : Type} [LogRecord T] (elapsedMs : ℕ → Ms) (s : State T)

/-- What a step does, by what it finds of the handle. -/
inductive Stepped : Action T → State T → Prop
  | begun (record : T) : Stepped (.beginCall record) (s.beginCall record)
  | updated (index : ℕ) (update : T → T) : Stepped (.update index update) (s.update index update)
  | watched (index started : ℕ) : Stepped (.watch index started) (s.watch index started)
  | lost (k : ℕ) (finish : Finish T) (handle : Handle T) (hget : s.handles[k]? = some handle)
      (halive : handle.stage.alive = true) (hflag : handle.pending.finished = true) :
      Stepped (.finish k finish) { s with events := s.events ++ [.asked k finish] }
  | won (k : ℕ) (finish : Finish T) (handle : Handle T) (hget : s.handles[k]? = some handle)
      (halive : handle.stage.alive = true) (hflag : handle.pending.finished = false) :
      Stepped (.finish k finish) { s with
        handles := s.handles.set k (handle.claim (.finishing finish))
        events := s.events ++ [.asked k finish] }
  | dropped (k : ℕ) (pending : Pending) (hget : s.handles[k]? = some ⟨pending, .held⟩)
      (hflag : pending.finished = true) :
      Stepped (.drop k)
        { s with handles := s.handles.set k (Handle.claim ⟨pending, .held⟩ .gone) }
  | dropping (k : ℕ) (pending : Pending) (hget : s.handles[k]? = some ⟨pending, .held⟩)
      (hflag : pending.finished = false) :
      Stepped (.drop k)
        { s with handles := s.handles.set k (Handle.claim ⟨pending, .held⟩ .dropping) }
  | wrote (k now : ℕ) (pending : Pending) (finish : Finish T)
      (hget : s.handles[k]? = some ⟨pending, .finishing finish⟩) :
      Stepped (.write k now) (s.finalize elapsedMs k pending finish now .held)
  | abandoned (k now : ℕ) (pending : Pending)
      (hget : s.handles[k]? = some ⟨pending, .dropping⟩) :
      Stepped (.write k now) (s.finalize elapsedMs k pending .abandoned now .gone)

variable {elapsedMs s} {next : State T}

theorem finish_stepped {k : ℕ} {finish : Finish T} (h : s.finish k finish = some next) :
    Stepped elapsedMs s (.finish k finish) next := by
  unfold State.finish at h
  split at h
  · cases h
  · rename_i handle hget
    split at h
    · rename_i halive
      cases h
      by_cases hflag : handle.pending.finished = true
      · rw [if_pos hflag]
        exact .lost k finish handle hget halive hflag
      · rw [if_neg hflag]
        exact .won k finish handle hget halive (Bool.eq_false_iff.mpr hflag)
    · cases h

theorem drop_stepped {k : ℕ} (h : s.drop k = some next) : Stepped elapsedMs s (.drop k) next := by
  unfold State.drop at h
  split at h
  · rename_i pending hget
    cases h
    by_cases hflag : pending.finished = true
    · rw [if_pos hflag]
      exact .dropped k pending hget hflag
    · rw [if_neg hflag]
      exact .dropping k pending hget (Bool.eq_false_iff.mpr hflag)
  · cases h

theorem write_stepped {k now : ℕ} (h : s.write elapsedMs k now = some next) :
    Stepped elapsedMs s (.write k now) next := by
  unfold State.write at h
  split at h
  · rename_i hget
    cases h
    exact .wrote k now _ _ hget
  · rename_i hget
    cases h
    exact .abandoned k now _ hget
  · cases h

theorem step_stepped {action : Action T} (h : step elapsedMs s action = some next) :
    Stepped elapsedMs s action next := by
  cases action with
  | beginCall record =>
    cases h
    exact .begun record
  | update index update =>
    cases h
    exact .updated index update
  | watch index started =>
    cases h
    exact .watched index started
  | finish k finish => exact finish_stepped h
  | drop k => exact drop_stepped h
  | write k now => exact write_stepped h

end Cases

section Alone

variable {T : Type} [LogRecord T] (elapsedMs : ℕ → Ms) {s : State T} {k : ℕ} {pending : Pending}

/-- A first finish that nothing comes between is the finish of one holder. -/
theorem finish_alone (hget : s.handles[k]? = some ⟨pending, .held⟩)
    (hflag : pending.finished = false) (finish : Finish T) (now : ℕ) :
    ∃ next, run (step elapsedMs) s [.finish k finish, .write k now] = some next ∧
      pending.finishWith elapsedMs now finish.bytes finish.update s.chain =
        (next.chain, { pending with finished := true }) ∧
      next.handles[k]? = some ⟨{ pending with finished := true }, .held⟩ := by
  have hlt := (List.getElem?_eq_some_iff.mp hget).1
  let asked : State T := { s with
    handles := s.handles.set k (Handle.claim ⟨pending, .held⟩ (.finishing finish))
    events := s.events ++ [.asked k finish] }
  have hfinish : s.finish k finish = some asked := by
    simp [State.finish, hget, hflag, Stage.alive, asked]
  have hwrite : asked.write elapsedMs k now =
      some (asked.finalize elapsedMs k { pending with finished := true } finish now .held) := by
    simp [State.write, asked, hlt, Handle.claim]
  refine ⟨_, run_cons.mpr ⟨asked, hfinish, run_cons.mpr ⟨_, hwrite, rfl⟩⟩, ?_, ?_⟩
  · rw [Pending.finishWith, if_neg (by simp [hflag])]
    rfl
  · simp [State.finalize, asked, hlt]

/-- And so is a drop without a finish. -/
theorem drop_alone (hget : s.handles[k]? = some ⟨pending, .held⟩)
    (hflag : pending.finished = false) (now : ℕ) :
    ∃ next, run (step elapsedMs) s [.drop k, .write k now] = some next ∧
      pending.drop elapsedMs now s.chain = next.chain ∧
      next.handles[k]? = some ⟨{ pending with finished := true }, .gone⟩ := by
  have hlt := (List.getElem?_eq_some_iff.mp hget).1
  let dropping : State T :=
    { s with handles := s.handles.set k (Handle.claim ⟨pending, .held⟩ .dropping) }
  have hdrop : s.drop k = some dropping := by simp [State.drop, hget, hflag, dropping]
  have hwrite : dropping.write elapsedMs k now =
      some (dropping.finalize elapsedMs k { pending with finished := true } .abandoned now
        .gone) := by
    simp [State.write, dropping, hlt, Handle.claim]
  refine ⟨_, run_cons.mpr ⟨dropping, hdrop, run_cons.mpr ⟨_, hwrite, rfl⟩⟩, ?_, ?_⟩
  · rw [Pending.drop, Pending.finishWith, if_neg (by simp [hflag])]
    rfl
  · simp [State.finalize, dropping, hlt]

/-- A later finish, and a drop after one, are over when they have seen the flag. -/
theorem finished_alone (hget : s.handles[k]? = some ⟨pending, .held⟩)
    (hflag : pending.finished = true) (finish : Finish T) (now : ℕ) :
    (∃ next, s.finish k finish = some next ∧ next.handles = s.handles ∧
      pending.finishWith elapsedMs now finish.bytes finish.update s.chain =
        (next.chain, pending)) ∧
    ∃ next, s.drop k = some next ∧ pending.drop elapsedMs now s.chain = next.chain ∧
      next.handles[k]? = some ⟨pending, .gone⟩ := by
  have hlt := (List.getElem?_eq_some_iff.mp hget).1
  have hsame (now bytes : ℕ) (update : T → T) :
      pending.finishWith elapsedMs now bytes update s.chain = (s.chain, pending) := by
    rw [Pending.finishWith, if_pos hflag]
  constructor
  · refine ⟨{ s with events := s.events ++ [.asked k finish] }, ?_, rfl, hsame _ _ _⟩
    simp [State.finish, hget, hflag, Stage.alive]
  · refine ⟨{ s with handles := s.handles.set k ⟨pending, .gone⟩ }, ?_, ?_, ?_⟩
    · have hclaim := claim_of_finished (⟨pending, .held⟩ : Handle T) hflag .gone
      simp [State.drop, hget, hflag, hclaim]
    · rw [Pending.drop, hsame]
    · simp [hlt]

end Alone

end StuntDouble.SharedChain
