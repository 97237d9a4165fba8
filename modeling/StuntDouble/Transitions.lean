import Mathlib.Order.Basic

/-!
Systems of parties that take steps in any order. A step is an action that is possible in a
state; a run is a list of actions that are possible one after the other. When every step
makes a measure smaller, runs are short, and each can be continued until nothing is possible
any more.
-/
namespace StuntDouble.Transitions

variable {S A : Type*} (step : S → A → Option S)

def run : S → List A → Option S
  | s, [] => some s
  | s, a :: rest => (step s a).bind (fun next => run next rest)

/-- Every action of a run is promised in the state it is taken in. -/
def Along (promised : S → A → Prop) : S → List A → Prop
  | _, [] => True
  | s, a :: rest => promised s a ∧ ∀ next, step s a = some next → Along promised next rest

/-- Nothing that is allowed is possible. -/
def Quiet (allowed : A → Prop) (s : S) : Prop := ∀ a, allowed a → step s a = none

variable {step}

theorem run_cons {s last : S} {a : A} {rest : List A} :
    run step s (a :: rest) = some last ↔
      ∃ next, step s a = some next ∧ run step next rest = some last :=
  Option.bind_eq_some_iff

theorem along_cons {promised : S → A → Prop} {s next : S} {a : A} {rest : List A}
    (h : step s a = some next) :
    Along step promised s (a :: rest) ↔ promised s a ∧ Along step promised next rest := by
  constructor
  · intro halong
    exact ⟨halong.1, halong.2 next h⟩
  · intro halong
    refine ⟨halong.1, ?_⟩
    intro other hother
    obtain rfl := Option.some.inj (h.symm.trans hother)
    exact halong.2

/-- What every promised step preserves holds after every run of promised steps. -/
theorem run_along (Inv : S → Prop) (promised : S → A → Prop)
    (hstep : ∀ s a next, promised s a → Inv s → step s a = some next → Inv next) {s last : S}
    {as : List A} (has : Along step promised s as) (hs : Inv s) (h : run step s as = some last) :
    Inv last := by
  induction as generalizing s with
  | nil =>
    cases h
    exact hs
  | cons a rest ih =>
    obtain ⟨next, hnext, hrest⟩ := run_cons.mp h
    exact ih (has.2 next hnext) (hstep s a next has.1 hs hnext) hrest

theorem along_of_forall {ok : A → Prop} {as : List A} (has : ∀ a ∈ as, ok a) (s : S) :
    Along step (fun _ => ok) s as := by
  induction as generalizing s with
  | nil => trivial
  | cons a rest ih =>
    refine ⟨has a List.mem_cons_self, ?_⟩
    intro next _
    exact ih (fun b hb => has b (List.mem_cons_of_mem a hb)) next

/-- What every admitted step preserves holds after every run of admitted actions. -/
theorem run_invariant (Inv : S → Prop) (ok : A → Prop)
    (hstep : ∀ s a next, ok a → Inv s → step s a = some next → Inv next) {s last : S} {as : List A}
    (has : ∀ a ∈ as, ok a) (hs : Inv s) (h : run step s as = some last) : Inv last :=
  run_along Inv (fun _ => ok) hstep (along_of_forall has s) hs h

section Measure

/-- What the actions of a run give back of a measure, each its own part. -/
def credits (credit : A → ℕ) : List A → ℕ
  | [] => 0
  | a :: rest => credit a + credits credit rest

/-- When every step makes the measure smaller, but for what its action gives back, a run is not
longer than the measure and all that is given back. -/
theorem run_length_le_credits {measure : S → ℕ} {credit : A → ℕ} (Inv : S → Prop)
    (hstep : ∀ s a next, Inv s → step s a = some next →
      Inv next ∧ measure next < measure s + credit a) {s last : S} {as : List A} (hs : Inv s)
    (h : run step s as = some last) :
    Inv last ∧ as.length + measure last ≤ measure s + credits credit as := by
  induction as generalizing s with
  | nil =>
    cases h
    exact ⟨hs, by simp [credits]⟩
  | cons a rest ih =>
    obtain ⟨next, hnext, hrest⟩ := run_cons.mp h
    obtain ⟨hkept, hless⟩ := hstep s a next hs hnext
    obtain ⟨hlast, hle⟩ := ih hkept hrest
    refine ⟨hlast, ?_⟩
    rw [List.length_cons, credits]
    omega

variable {measure : S → ℕ}
  (hmeasure : ∀ s a next, step s a = some next → measure next < measure s)

include hmeasure

theorem run_length_le {s last : S} {as : List A} (h : run step s as = some last) :
    as.length + measure last ≤ measure s := by
  have hzero (as : List A) : credits (fun _ => 0) as = 0 := by
    induction as with
    | nil => rfl
    | cons a rest ih => exact (Nat.zero_add _).trans ih
  have hstep : ∀ s a next, True → step s a = some next →
      True ∧ measure next < measure s + (fun _ : A => 0) a :=
    fun s a next _ hnext => ⟨trivial, hmeasure s a next hnext⟩
  have hle := (run_length_le_credits (fun _ => True) hstep trivial h).2
  rwa [hzero, Nat.add_zero] at hle

/-- Every state has a run of allowed actions to one where none is possible. -/
theorem exists_quiet (allowed : A → Prop) (s : S) :
    ∃ as last, (∀ a ∈ as, allowed a) ∧ run step s as = some last ∧ Quiet step allowed last := by
  induction hn : measure s using Nat.strongRecOn generalizing s with
  | _ n ih =>
    by_cases hquiet : Quiet step allowed s
    · exact ⟨[], s, by simp, rfl, hquiet⟩
    · simp only [Quiet, not_forall] at hquiet
      obtain ⟨a, ha, hpossible⟩ := hquiet
      obtain ⟨next, hnext⟩ := Option.ne_none_iff_exists'.mp hpossible
      have hless := hmeasure s a next hnext
      obtain ⟨as, last, has, hrun, hlast⟩ := ih (measure next) (by omega) next rfl
      refine ⟨a :: as, last, ?_, run_cons.mpr ⟨next, hnext, hrun⟩, hlast⟩
      intro b hb
      rcases List.mem_cons.mp hb with rfl | hb
      · exact ha
      · exact has b hb

end Measure

end StuntDouble.Transitions
