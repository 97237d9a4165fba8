import Mathlib.Data.List.Basic
import Mathlib.Order.Basic

/-!
Deterministic machines that answer every input with an output. A run is a list
of inputs; its history pairs each input with the answer given to it. The rules
of this module turn a fact about one step into a fact about whole runs: an
invariant of the state, an invariant of the state and the history so far, and a
simulation of one machine by another whose relation may only move forward in
time.
-/
namespace StuntDouble.Machine

variable {S S' A R : Type*}

/-- The state after a run. -/
def final (step : S → A → S × R) : S → List A → S
  | s, [] => s
  | s, a :: rest => final step (step s a).1 rest

/-- Every input of a run with the answer it got, oldest first. -/
def history (step : S → A → S × R) : S → List A → List (A × R)
  | _, [] => []
  | s, a :: rest => (a, (step s a).2) :: history step (step s a).1 rest

/-- The answers of a run, oldest first. -/
def outputs (step : S → A → S × R) (s : S) (as : List A) : List R :=
  (history step s as).map Prod.snd

@[simp] theorem outputs_nil (step : S → A → S × R) (s : S) : outputs step s [] = [] := rfl

@[simp] theorem outputs_cons (step : S → A → S × R) (s : S) (a : A) (rest : List A) :
    outputs step s (a :: rest) = (step s a).2 :: outputs step (step s a).1 rest := rfl

theorem final_append (step : S → A → S × R) (s : S) (as bs : List A) :
    final step s (as ++ bs) = final step (final step s as) bs := by
  induction as generalizing s with
  | nil => rfl
  | cons a rest ih => exact ih (step s a).1

theorem history_append (step : S → A → S × R) (s : S) (as bs : List A) :
    history step s (as ++ bs) = history step s as ++ history step (final step s as) bs := by
  induction as generalizing s with
  | nil => rfl
  | cons a rest ih => exact congrArg (List.cons (a, (step s a).2)) (ih (step s a).1)

/-- A point of the history splits the run at the same point. -/
theorem history_split (step : S → A → S × R) (s : S) (as : List A)
    (before after : List (A × R)) (e : A × R)
    (h : history step s as = before ++ e :: after) :
    ∃ past future, as = past ++ e.1 :: future ∧ before = history step s past ∧
      e.2 = (step (final step s past) e.1).2 := by
  induction before generalizing s as with
  | nil =>
    cases as with
    | nil => simp [history] at h
    | cons a rest =>
      simp only [history, List.nil_append, List.cons.injEq] at h
      obtain ⟨rfl, -⟩ := h
      exact ⟨[], rest, rfl, rfl, rfl⟩
  | cons b before ih =>
    cases as with
    | nil => simp [history] at h
    | cons a rest =>
      simp only [history, List.cons_append, List.cons.injEq] at h
      obtain ⟨rfl, hrest⟩ := h
      obtain ⟨past, future, hpast, hbefore, hanswer⟩ := ih (step s a).1 rest hrest
      refine ⟨a :: past, future, by rw [hpast]; rfl, ?_, hanswer⟩
      rw [hbefore]
      rfl

/-- A property of the history and the state that every step extends holds after every run. -/
theorem history_invariant (step : S → A → S × R) (Inv : List (A × R) → S → Prop)
    (hstep : ∀ past s a, Inv past s → Inv (past ++ [(a, (step s a).2)]) (step s a).1)
    (s : S) (hs : Inv [] s) (as : List A) : Inv (history step s as) (final step s as) := by
  have haux : ∀ past s, Inv past s → Inv (past ++ history step s as) (final step s as) := by
    induction as with
    | nil =>
      intro past s h
      simpa [history, final] using h
    | cons a rest ih =>
      intro past s h
      have hnext := ih _ _ (hstep past s a h)
      simpa [history, final] using hnext
  simpa using haux [] s hs

/-- A property that every admitted step preserves holds after every run of admitted inputs. -/
theorem final_invariant (step : S → A → S × R) (Inv : S → Prop) (ok : A → Prop)
    (hstep : ∀ s a, ok a → Inv s → Inv (step s a).1)
    (s : S) (hs : Inv s) (as : List A) (has : ∀ a ∈ as, ok a) : Inv (final step s as) := by
  induction as generalizing s with
  | nil => exact hs
  | cons a rest ih =>
    exact ih (step s a).1 (hstep s a (has a (by simp)) hs) (fun b hb => has b (by simp [hb]))

/-- Every input of a run is promised in the state that it is given in. -/
def Along (step : S → A → S × R) (promised : S → A → Prop) : S → List A → Prop
  | _, [] => True
  | s, a :: rest => promised s a ∧ Along step promised (step s a).1 rest

theorem along_append {step : S → A → S × R} {promised : S → A → Prop} {s : S} {as bs : List A} :
    Along step promised s (as ++ bs) ↔
      Along step promised s as ∧ Along step promised (final step s as) bs := by
  induction as generalizing s with
  | nil => simp [Along, final]
  | cons a rest ih =>
    rw [List.cons_append, Along, Along, ih, final, and_assoc]

theorem Along.imp {step : S → A → S × R} {promised weaker : S → A → Prop}
    (himp : ∀ s a, promised s a → weaker s a) {s : S} {as : List A}
    (h : Along step promised s as) : Along step weaker s as := by
  induction as generalizing s with
  | nil => trivial
  | cons a rest ih => exact ⟨himp s a h.1, ih h.2⟩

/-- What every promised step preserves holds after every run of promised inputs. -/
theorem final_along {step : S → A → S × R} {promised : S → A → Prop} (Inv : S → Prop)
    (hstep : ∀ s a, promised s a → Inv s → Inv (step s a).1) {s : S} {as : List A}
    (has : Along step promised s as) (hs : Inv s) : Inv (final step s as) := by
  induction as generalizing s with
  | nil => exact hs
  | cons a rest ih => exact ih has.2 (hstep s a has.1 hs)

/-- A property of the answers that every admitted step from an invariant state has. -/
theorem outputs_forall (step : S → A → S × R) (Inv : S → Prop) (ok : A → Prop)
    (good : R → Prop) (hstep : ∀ s a, ok a → Inv s → Inv (step s a).1)
    (hgood : ∀ s a, ok a → Inv s → good (step s a).2)
    (s : S) (hs : Inv s) (as : List A) (has : ∀ a ∈ as, ok a) :
    ∀ r ∈ outputs step s as, good r := by
  induction as generalizing s with
  | nil => simp
  | cons a rest ih =>
    intro r hr
    rw [outputs_cons, List.mem_cons] at hr
    rcases hr with rfl | hr
    · exact hgood s a (has a (by simp)) hs
    · exact ih (step s a).1 (hstep s a (has a (by simp)) hs)
        (fun b hb => has b (by simp [hb])) r hr

section Timed

variable {T : Type*} [Preorder T] (time : A → T)

/-- The clock readings of the inputs never decrease. -/
def Forward (as : List A) : Prop := as.Pairwise (fun a b => time a ≤ time b)

theorem Forward.of_append {as bs : List A} (h : Forward time (as ++ bs)) : Forward time as :=
  (List.pairwise_append.mp h).1

theorem Forward.last_le {as bs : List A} {a b : A} (h : Forward time (as ++ b :: bs))
    (ha : a ∈ as) : time a ≤ time b :=
  (List.pairwise_append.mp h).2.2 a ha b (by simp)

/-- A relation between two machines that holds at a time and that every later
common step preserves, moving to the time of the step. -/
def TimedSimulation (step : S → A → S × R) (step' : S' → A → S' × R)
    (Rel : T → S → S' → Prop) : Prop :=
  ∀ t s s' a, Rel t s s' → t ≤ time a →
    (step s a).2 = (step' s' a).2 ∧ Rel (time a) (step s a).1 (step' s' a).1

variable {time} {step : S → A → S × R} {step' : S' → A → S' × R} {Rel : T → S → S' → Prop}

/-- Machines in a timed simulation have the same history along every run whose
readings start at the time of the relation and never decrease. -/
theorem TimedSimulation.history_eq (hsim : TimedSimulation time step step' Rel)
    (t : T) (s : S) (s' : S') (hrel : Rel t s s') (as : List A)
    (hfrom : ∀ a ∈ as, t ≤ time a) (hforward : Forward time as) :
    history step s as = history step' s' as := by
  induction as generalizing t s s' with
  | nil => rfl
  | cons a rest ih =>
    obtain ⟨hout, hnext⟩ := hsim t s s' a hrel (hfrom a (by simp))
    obtain ⟨hle, hrest⟩ := List.pairwise_cons.mp hforward
    rw [history, history, hout, ih (time a) _ _ hnext hle hrest]

theorem TimedSimulation.outputs_eq (hsim : TimedSimulation time step step' Rel)
    (t : T) (s : S) (s' : S') (hrel : Rel t s s') (as : List A)
    (hfrom : ∀ a ∈ as, t ≤ time a) (hforward : Forward time as) :
    outputs step s as = outputs step' s' as :=
  congrArg (List.map Prod.snd) (hsim.history_eq t s s' hrel as hfrom hforward)

/-- The relation survives the run, at any time no earlier than its last reading. -/
theorem TimedSimulation.final_rel (hsim : TimedSimulation time step step' Rel)
    (hmono : ∀ t u s s', t ≤ u → Rel t s s' → Rel u s s')
    (t u : T) (s : S) (s' : S') (hrel : Rel t s s') (as : List A)
    (hfrom : ∀ a ∈ as, t ≤ time a) (hforward : Forward time as)
    (htu : t ≤ u) (hlast : ∀ a ∈ as, time a ≤ u) :
    Rel u (final step s as) (final step' s' as) := by
  induction as generalizing t s s' with
  | nil => exact hmono t u s s' htu hrel
  | cons a rest ih =>
    obtain ⟨-, hnext⟩ := hsim t s s' a hrel (hfrom a (by simp))
    obtain ⟨hle, hrest⟩ := List.pairwise_cons.mp hforward
    exact ih (time a) _ _ hnext hle hrest (hlast a (by simp))
      (fun b hb => hlast b (by simp [hb]))

end Timed

/-- Two lists that are the same, at least up to an entry of the first that stops. -/
inductive AgreeUntil (stops : A → Prop) : List A → List A → Prop
  | nil : AgreeUntil stops [] []
  | cons (a : A) {as bs : List A} (h : AgreeUntil stops as bs) :
      AgreeUntil stops (a :: as) (a :: bs)
  | stop {a : A} (hstops : stops a) (as bs : List A) : AgreeUntil stops (a :: as) bs

theorem AgreeUntil.eq {stops : A → Prop} {as bs : List A} (h : AgreeUntil stops as bs)
    (hnone : ∀ a ∈ as, ¬ stops a) : as = bs := by
  induction h with
  | nil => rfl
  | cons a h ih => rw [ih fun b hb => hnone b (List.mem_cons_of_mem a hb)]
  | stop hstops as bs => exact absurd hstops (hnone _ List.mem_cons_self)

section Parts

variable {T : Type*} [Preorder T] (time : A → T)

/-- The second machine gets some of the inputs of the first. The relation survives what else
the first one gets, and a common input is answered alike, unless the first refuses it. -/
def PartialSimulation (step : S → A → S × R) (step' : S' → A → S' × R) (common : A → Bool)
    (refused : R → Prop) (Rel : T → S → S' → Prop) : Prop :=
  ∀ t s s' a, Rel t s s' → t ≤ time a →
    (common a = false → Rel (time a) (step s a).1 s') ∧
    (common a = true → refused (step s a).2 ∨
      (step s a).2 = (step' s' a).2 ∧ Rel (time a) (step s a).1 (step' s' a).1)

variable {time} {step : S → A → S × R} {step' : S' → A → S' × R} {common : A → Bool}
  {refused : R → Prop} {Rel : T → S → S' → Prop}

/-- The common inputs have the same history in both machines, up to the first one refused. -/
theorem PartialSimulation.agreeUntil
    (hsim : PartialSimulation time step step' common refused Rel)
    (t : T) (s : S) (s' : S') (hrel : Rel t s s') (as : List A)
    (hfrom : ∀ a ∈ as, t ≤ time a) (hforward : Forward time as) :
    AgreeUntil (fun e => refused e.2) ((history step s as).filter fun e => common e.1)
      (history step' s' (as.filter common)) := by
  induction as generalizing t s s' with
  | nil => exact .nil
  | cons a rest ih =>
    obtain ⟨hother, hsame⟩ := hsim t s s' a hrel (hfrom a (by simp))
    obtain ⟨hle, hrest⟩ := List.pairwise_cons.mp hforward
    cases hcommon : common a with
    | false =>
      simp only [history, List.filter_cons, hcommon, Bool.false_eq_true, if_false]
      exact ih (time a) _ s' (hother hcommon) hle hrest
    | true =>
      simp only [history, List.filter_cons, hcommon, if_true]
      rcases hsame hcommon with hrefused | ⟨hout, hnext⟩
      · apply AgreeUntil.stop
        exact hrefused
      · rw [← hout]
        exact .cons _ (ih (time a) _ _ hnext hle hrest)

end Parts

end StuntDouble.Machine
