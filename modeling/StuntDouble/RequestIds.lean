import StuntDouble.Numerals
import StuntDouble.Transitions

/-!
The ids of the requests. A handler reads the clock, takes the next number of the sequence and
writes both as one text. Any number of handlers do so at once, and what the clock says is
not to be relied on.
-/
namespace StuntDouble.RequestIds

open Numerals Transitions

/-- The nanoseconds since the epoch in 64 bits; a clock before the epoch has no reading. -/
def clockNanos (reading : Option ℕ) : UInt64 :=
  match reading with
  | some nanos => UInt64.ofNat nanos
  | none => 0

/-- `{nanos:016x}{seq:08x}` -/
def formatId (nanos seq : UInt64) : String :=
  String.ofList (padded 16 16 nanos.toNat ++ padded 16 8 seq.toNat)

/-- `AppState::request_id`, with the sequence it leaves. -/
def requestId (sequence : UInt64) (reading : Option ℕ) : String × UInt64 :=
  (formatId (clockNanos reading) sequence, sequence + 1)

/-- How far a handler is with the id of its request. -/
inductive Handler
  | entered
  | read (nanos : UInt64)
  | named (nanos seq : UInt64)
deriving DecidableEq, Repr

/-- The sequence, and a handler for each request that has come. -/
structure State where
  sequence : UInt64
  handlers : List Handler
deriving DecidableEq, Repr

inductive Action
  | request
  | clock (handler : ℕ) (reading : Option ℕ)
  | count (handler : ℕ)
deriving DecidableEq, Repr

def State.start : State := ⟨0, []⟩

def State.clock (s : State) (handler : ℕ) (reading : Option ℕ) : Option State :=
  match s.handlers[handler]? with
  | some .entered =>
    some { s with handlers := s.handlers.set handler (.read (clockNanos reading)) }
  | _ => none

/-- `fetch_add`, which wraps around. -/
def State.count (s : State) (handler : ℕ) : Option State :=
  match s.handlers[handler]? with
  | some (.read nanos) =>
    some ⟨s.sequence + 1, s.handlers.set handler (.named nanos s.sequence)⟩
  | _ => none

def step (s : State) : Action → Option State
  | .request => some { s with handlers := s.handlers ++ [.entered] }
  | .clock handler reading => s.clock handler reading
  | .count handler => s.count handler

/-- The two parts of an id, once it is there. -/
def Handler.parts : Handler → Option (UInt64 × UInt64)
  | .named nanos seq => some (nanos, seq)
  | _ => none

def Handler.id (handler : Handler) : Option String :=
  handler.parts.map (fun parts => formatId parts.1 parts.2)

/-- The ids that were returned. -/
def State.ids (s : State) : List String := s.handlers.filterMap Handler.id

def State.named (s : State) : List (UInt64 × UInt64) := s.handlers.filterMap Handler.parts

theorem ids_eq (s : State) : s.ids = s.named.map (fun parts => formatId parts.1 parts.2) :=
  List.map_filterMap.symm

/-- The clock fills its sixteen digits, so the sequence stands behind them, however long it
has become. -/
theorem formatId_inj {nanos seq nanos' seq' : UInt64} :
    formatId nanos seq = formatId nanos' seq' ↔ nanos = nanos' ∧ seq = seq' := by
  have hfits (nanos : UInt64) : nanos.toNat < 16 ^ 16 := nanos.toNat_lt
  constructor
  · intro h
    obtain ⟨hnanos, hseq⟩ := padded_append_inj (by omega) (by omega) (by omega) 8
      (hfits nanos) (hfits nanos') (String.ofList_injective h)
    exact ⟨UInt64.toNat_inj.mp hnanos, UInt64.toNat_inj.mp hseq⟩
  · intro h
    rw [h.1, h.2]

section Cases

variable (s : State)

/-- What a step does, by how far its handler is. -/
inductive Stepped : Action → State → Prop
  | request : Stepped .request { s with handlers := s.handlers ++ [.entered] }
  | clock (k : ℕ) (reading : Option ℕ) (hget : s.handlers[k]? = some .entered) :
      Stepped (.clock k reading)
        { s with handlers := s.handlers.set k (.read (clockNanos reading)) }
  | count (k : ℕ) (nanos : UInt64) (hget : s.handlers[k]? = some (.read nanos)) :
      Stepped (.count k) ⟨s.sequence + 1, s.handlers.set k (.named nanos s.sequence)⟩

variable {s} {next : State}

theorem step_stepped {action : Action} (h : step s action = some next) :
    Stepped s action next := by
  cases action with
  | request =>
    cases h
    exact .request
  | clock k reading =>
    simp only [step, State.clock] at h
    split at h
    · rename_i hget
      cases h
      exact .clock k reading hget
    · cases h
  | count k =>
    simp only [step, State.count] at h
    split at h
    · rename_i nanos hget
      cases h
      exact .count k nanos hget
    · cases h

end Cases

/-- A handler that nothing comes between does what `request_id` does alone. -/
theorem requestId_alone {s : State} {k : ℕ} (hget : s.handlers[k]? = some .entered)
    (reading : Option ℕ) :
    ∃ next, run step s [.clock k reading, .count k] = some next ∧
      next.handlers[k]?.bind Handler.id = some (requestId s.sequence reading).1 ∧
      next.sequence = (requestId s.sequence reading).2 := by
  have hlt := (List.getElem?_eq_some_iff.mp hget).1
  let read : State := { s with handlers := s.handlers.set k (.read (clockNanos reading)) }
  have hclock : step s (.clock k reading) = some read := by
    simp [step, State.clock, hget, read]
  have hcount : step read (.count k) =
      some ⟨s.sequence + 1, read.handlers.set k (.named (clockNanos reading) s.sequence)⟩ := by
    simp [step, State.count, hlt, read]
  refine ⟨_, run_cons.mpr ⟨read, hclock, run_cons.mpr ⟨_, hcount, rfl⟩⟩, ?_, rfl⟩
  simp [read, hlt, Handler.id, Handler.parts, requestId]

section Distinct

/-- An element that gets a value adds it to those there are. -/
theorem filterMap_set {α β : Type} {f : α → Option β} {l : List α} {k : ℕ} {a b : α}
    (hget : l[k]? = some a) (ha : f a = none) :
    ((l.set k b).filterMap f).Perm ((f b).toList ++ l.filterMap f) := by
  induction l generalizing k with
  | nil => cases hget
  | cons head tail ih =>
    cases k with
    | zero =>
      cases hget
      rw [List.set_cons_zero, List.filterMap_cons_none ha]
      cases hb : f b with
      | none => rw [List.filterMap_cons_none hb]; rfl
      | some value => rw [List.filterMap_cons_some hb]; rfl
    | succ k =>
      have htail := ih hget
      rw [List.set_cons_succ]
      cases hhead : f head with
      | none =>
        rw [List.filterMap_cons_none hhead, List.filterMap_cons_none hhead]
        exact htail
      | some value =>
        rw [List.filterMap_cons_some hhead, List.filterMap_cons_some hhead]
        exact (htail.cons value).trans List.perm_middle.symm

/-- The numbers that were taken are those below the sequence, each taken once. -/
structure Counted (s : State) : Prop where
  sequence : s.sequence = UInt64.ofNat s.named.length
  below : ∀ parts ∈ s.named, parts.2.toNat < s.named.length
  apart : (s.named.map Prod.snd).Nodup

variable {s next : State}

theorem named_length_le (s : State) : s.named.length ≤ s.handlers.length :=
  List.length_filterMap_le _ _

/-- A handler goes on without a number. -/
theorem Counted.same (h : Counted s) {handlers : List Handler}
    (hnamed : (State.named ⟨s.sequence, handlers⟩).Perm s.named) :
    Counted ⟨s.sequence, handlers⟩ := by
  refine ⟨?_, ?_, ?_⟩
  · rw [hnamed.length_eq]
    exact h.sequence
  · intro parts hparts
    rw [hnamed.length_eq]
    exact h.below parts (hnamed.mem_iff.mp hparts)
  · exact (hnamed.map Prod.snd).nodup_iff.mpr h.apart

/-- A handler takes the next number, which nobody has as long as the sequence does not wrap. -/
theorem Counted.count (h : Counted s) {k : ℕ} {nanos : UInt64}
    (hget : s.handlers[k]? = some (.read nanos)) (hrequests : s.handlers.length ≤ 2 ^ 64) :
    Counted ⟨s.sequence + 1, s.handlers.set k (.named nanos s.sequence)⟩ := by
  have hperm : (State.named ⟨s.sequence + 1, s.handlers.set k (.named nanos s.sequence)⟩).Perm
      ((nanos, s.sequence) :: s.named) := filterMap_set hget rfl
  have hlength := hperm.length_eq
  rw [List.length_cons] at hlength
  have hroom : s.named.length < 2 ^ 64 := by
    have hle := named_length_le ⟨s.sequence + 1, s.handlers.set k (.named nanos s.sequence)⟩
    rw [hlength, List.length_set] at hle
    omega
  have hnext : s.sequence.toNat = s.named.length := by
    rw [h.sequence, UInt64.toNat_ofNat_of_lt' hroom]
  refine ⟨?_, ?_, ?_⟩
  · rw [hlength, UInt64.ofNat_add, ← h.sequence]
    rfl
  · intro parts hparts
    rw [hlength]
    rcases List.mem_cons.mp (hperm.mem_iff.mp hparts) with rfl | hold
    · simp only [hnext]
      omega
    · have hbelow := h.below parts hold
      omega
  · rw [(hperm.map Prod.snd).nodup_iff, List.map_cons, List.nodup_cons]
    refine ⟨?_, h.apart⟩
    intro hmem
    obtain ⟨parts, hparts, hseq⟩ := List.mem_map.mp hmem
    have hbelow := h.below parts hparts
    rw [hseq, hnext] at hbelow
    omega

theorem counted_step {action : Action} (h : s.handlers.length ≤ 2 ^ 64 → Counted s)
    (hstep : Stepped s action next) : next.handlers.length ≤ 2 ^ 64 → Counted next := by
  intro hrequests
  cases hstep with
  | request =>
    simp only [List.length_append, List.length_singleton] at hrequests
    apply (h (by omega)).same
    have hnone : List.filterMap Handler.parts [.entered] = [] := rfl
    rw [State.named, List.filterMap_append, hnone, List.append_nil]
    rfl
  | clock k reading hget =>
    simp only [List.length_set] at hrequests
    exact (h hrequests).same (filterMap_set hget rfl)
  | count k nanos hget =>
    simp only [List.length_set] at hrequests
    exact (h hrequests).count hget hrequests

theorem counted_run {actions : List Action} (h : run step .start actions = some s)
    (hrequests : s.handlers.length ≤ 2 ^ 64) : Counted s := by
  refine run_invariant (fun s => s.handlers.length ≤ 2 ^ 64 → Counted s) (fun _ => True) ?_
    (fun _ _ => trivial) ?_ h hrequests
  · intro s action next _ hs hstep
    exact counted_step hs (step_stepped hstep)
  · intro _
    exact ⟨rfl, by simp [State.start, State.named], by simp [State.start, State.named]⟩

/-- Ids are distinct when their numbers are. -/
theorem Counted.ids (h : Counted s) : s.ids.Nodup := by
  have hapart := List.pairwise_map.mp h.apart
  rw [ids_eq]
  apply List.pairwise_map.mpr
  apply hapart.imp
  intro parts other hne hsame
  exact hne (formatId_inj.mp hsame).2

/-- No two requests of a server get the same id, however its handlers are interleaved and
whatever their clock says, unless there are more than the sequence can count. -/
theorem ids_nodup_of_run (actions : List Action) (s : State)
    (h : run step .start actions = some s) (hrequests : s.handlers.length < 2 ^ 64) :
    s.ids.Nodup :=
  (counted_run h (by omega)).ids

/-- Three handlers, whose clocks stand still, are before the epoch and past 64 bits. -/
theorem ids_nodup_of_clocks :
    ∃ s : State,
      run step .start
        [.request, .request, .clock 0 (some 7), .request, .clock 1 none,
          .clock 2 (some (2 ^ 64 + 7)), .count 2, .count 0, .count 1] = some s ∧
      s.ids = ["000000000000000700000001", "000000000000000000000002",
        "000000000000000700000000"] ∧ s.ids.Nodup := by
  have hrun := Eq.refl (run step .start
    [.request, .request, .clock 0 (some 7), .request, .clock 1 none,
      .clock 2 (some (2 ^ 64 + 7)), .count 2, .count 0, .count 1])
  exact ⟨_, hrun, rfl, ids_nodup_of_run _ _ hrun (by decide)⟩

end Distinct

end StuntDouble.RequestIds
