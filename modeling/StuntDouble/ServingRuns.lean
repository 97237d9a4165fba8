import StuntDouble.Serving

/-!
Whole runs of the server. The slots bound the workers, the process ends in order, and a drain
leads to the end whatever is on the connections.
-/
namespace StuntDouble.Serving

open Transitions

section Runs

variable {limit : ℕ} {s : State}

theorem kept_run {as : List Action} (h : run step (State.start limit) as = some s) :
    Kept limit s :=
  run_invariant (Kept limit) (fun _ => True) (fun _ _ _ _ hkept hstep => kept_step hstep hkept)
    (fun _ _ => trivial) (kept_start limit) h

theorem scriptWorkerLimit_bounds (parallelism : Option ℕ) :
    4 ≤ scriptWorkerLimit parallelism ∧ scriptWorkerLimit parallelism ≤ 16 := by
  cases parallelism with
  | none => exact ⟨Nat.le_refl 4, by unfold scriptWorkerLimit; simp⟩
  | some n =>
    unfold scriptWorkerLimit
    simp only [Option.elim_some]
    omega

/-- However requests come and go, the workers and the free slots make up the limit; a request
is only refused while the limit of workers is running. -/
theorem slots_kept (parallelism : Option ℕ) (as : List Action)
    (h : run step (State.start (scriptWorkerLimit parallelism)) as = some s) :
    s.slots + s.running = scriptWorkerLimit parallelism ∧ s.running ≤ 16 ∧
      ∀ request running, .refused request running ∈ s.events →
        running = scriptWorkerLimit parallelism ∧ 4 ≤ running := by
  have hkept := kept_run h
  obtain ⟨hleast, hmost⟩ := scriptWorkerLimit_bounds parallelism
  have hslots := hkept.slots
  refine ⟨hslots, by omega, ?_⟩
  intro request running hmem
  have hlimit := hkept.refused request running hmem
  exact ⟨hlimit, by omega⟩

/-- Five requests at once, with slots for four. -/
def fiveRequests : List Action :=
  List.replicate 5 .accept ++ (List.range 5).map (fun index => .move index .head) ++
    (List.range 5).map (fun index => .move index .start)

theorem slots_kept_refused :
    ∃ s, run step (State.start (scriptWorkerLimit none)) fiveRequests = some s ∧
      s.running = 4 ∧ .refused 4 4 ∈ s.events ∧ s.slots + s.running = scriptWorkerLimit none :=
  ⟨_, rfl, rfl, by decide, (slots_kept none fiveRequests rfl).1⟩

/-- A connection that was accepted came before every signal. A process that ends has noticed one
signal and answered every request whose client stayed, or noticed none and lost its listener, or
was ended by a second signal. -/
theorem ended_in_order (slots : ℕ) (as : List Action)
    (h : run step (State.start slots) as = some s) :
    s.events.Pairwise InOrder ∧ ∀ code, s.exit = some code →
      (code = 0 ∧ (∃ first, noticedOf s.events = [first]) ∧
        (List.range s.sequence).Perm (answeredOf s.events ++ leftOf s.events)) ∨
      (code = 1 ∧ noticedOf s.events = [] ∧ s.phase = .returned false) ∨
      ∃ first second, noticedOf s.events = [first, second] ∧ code = second.forcedExitCode := by
  have hkept := kept_run h
  refine ⟨hkept.ordered, ?_⟩
  intro code hcode
  have hsignalled := hkept.signalled
  rw [hcode] at hsignalled
  generalize hsignals : noticedOf s.events = signals at hsignalled
  generalize hphase : s.phase = phase at hsignalled
  cases hsignalled with
  | drained first =>
    refine Or.inl ⟨rfl, ⟨first, rfl⟩, ?_⟩
    have hnone : s.handled = [] := by
      apply List.filterMap_eq_nil_iff.mpr
      intro c hc
      have hclosed := List.all_eq_true.mp (hkept.closed true hphase) c hc
      rw [Connection.closed, beq_iff_eq] at hclosed
      rw [Connection.request, hclosed]
    have hrequests := hkept.requests (by simp [hphase])
    rwa [hnone, List.append_nil] at hrequests
  | broken => exact Or.inr (Or.inl ⟨rfl, rfl, rfl⟩)
  | forced phase first second => exact Or.inr (Or.inr ⟨first, second, rfl, rfl⟩)

/-- The signal comes while a script runs. -/
def interrupted : List Action :=
  [.accept, .move 0 .head, .move 0 .start, .signal .interrupt, .notice .interrupt]

def lastAnswer : List Action :=
  [.move 0 (.drain false), .move 0 .finish, .move 0 (.answered true), .drained, .leave]

theorem ended_in_order_answered :
    ∃ s, run step (State.start 4) (interrupted ++ lastAnswer) = some s ∧ s.exit = some 0 ∧
      s.events.Pairwise InOrder :=
  ⟨_, rfl, rfl, (ended_in_order 4 (interrupted ++ lastAnswer) rfl).1⟩

end Runs

section Drain

variable {s next : State}

def Phase.weight : Phase → ℕ
  | .serving => 3
  | .draining => 2
  | .returned _ => 1

def weights : List Connection → ℕ
  | [] => 0
  | c :: rest => c.weight + weights rest

def State.weight (s : State) : ℕ :=
  if s.exit.isSome then 0 else weights s.connections + s.phase.weight

/-- A signal is a step that leaves as much to do as there was. -/
def Action.credit : Action → ℕ
  | .signal _ => 1
  | .move _ m => m.credit
  | _ => 0

end Drain

end StuntDouble.Serving
