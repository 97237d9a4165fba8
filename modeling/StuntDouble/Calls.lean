import StuntDouble.Machine

/-!
Programs that make calls. A program goes on by itself, asks for an answer, or ends, and an
answer lets it go on. Its runs against a server that answers every call on the spot are what
any other way of carrying the calls has to agree with.
-/
namespace StuntDouble.Calls

open Machine

inductive Turn (P C R : Type*)
  | goOn (next : P)
  | call (c : C)
  | ended (r : R)

structure Program (P C A R : Type*) where
  turn : P → Turn P C R
  resume : P → A → P

variable {P C A R H : Type*} (program : Program P C A R) (serve : H → C → H × Option A)

/-- What a program reaches when its calls are answered on the spot, with the calls made so
far and their answers. -/
inductive Reached (first : H) (start : P) : List (C × A) → H → P → Prop
  | start : Reached first start [] first start
  | goOn {log : List (C × A)} {host : H} {p next : P} (h : Reached first start log host p)
      (hturn : program.turn p = .goOn next) : Reached first start log host next
  | call {log : List (C × A)} {host host' : H} {p : P} {c : C} {a : A}
      (h : Reached first start log host p) (hturn : program.turn p = .call c)
      (hserve : serve host c = (host', some a)) :
      Reached first start (log ++ [(c, a)]) host' (program.resume p a)

/-- A program that ends, after a number of steps in which a call and an end have a weight. -/
inductive Finishes (weight : C → A → ℕ) (last : R → ℕ) :
    H → P → ℕ → List (C × A) → H → R → Prop
  | ended {host : H} {p : P} {r : R} (hturn : program.turn p = .ended r) :
      Finishes weight last host p (last r) [] host r
  | goOn {host host' : H} {p next : P} {n : ℕ} {log : List (C × A)} {r : R}
      (hturn : program.turn p = .goOn next)
      (hrest : Finishes weight last host next n log host' r) :
      Finishes weight last host p (n + 1) log host' r
  | call {host host₁ host' : H} {p : P} {c : C} {a : A} {n : ℕ} {log : List (C × A)} {r : R}
      (hturn : program.turn p = .call c) (hserve : serve host c = (host₁, some a))
      (hrest : Finishes weight last host₁ (program.resume p a) n log host' r) :
      Finishes weight last host p (weight c a + n) ((c, a) :: log) host' r

variable {program serve}

section Ends

variable {weight : C → A → ℕ} {last : R → ℕ} {host host' : H} {p : P} {n : ℕ}
  {log : List (C × A)} {r : R}

theorem Finishes.of_ended (h : Finishes program serve weight last host p n log host' r) {found : R}
    (hturn : program.turn p = .ended found) :
    n = last r ∧ log = [] ∧ host' = host ∧ r = found := by
  cases h with
  | ended hother =>
    rw [hturn] at hother
    cases hother
    exact ⟨rfl, rfl, rfl, rfl⟩
  | goOn hother =>
    rw [hturn] at hother
    contradiction
  | call hother =>
    rw [hturn] at hother
    contradiction

theorem Finishes.of_goOn (h : Finishes program serve weight last host p n log host' r) {next : P}
    (hturn : program.turn p = .goOn next) :
    ∃ m, n = m + 1 ∧ Finishes program serve weight last host next m log host' r := by
  cases h with
  | ended hother =>
    rw [hturn] at hother
    contradiction
  | goOn hother hrest =>
    rw [hturn] at hother
    cases hother
    exact ⟨_, rfl, hrest⟩
  | call hother =>
    rw [hturn] at hother
    contradiction

theorem Finishes.of_call (h : Finishes program serve weight last host p n log host' r) {c : C}
    (hturn : program.turn p = .call c) :
    ∃ host₁ a m rest, serve host c = (host₁, some a) ∧ n = weight c a + m ∧
      log = (c, a) :: rest ∧
        Finishes program serve weight last host₁ (program.resume p a) m rest host' r := by
  cases h with
  | ended hother =>
    rw [hturn] at hother
    contradiction
  | goOn hother =>
    rw [hturn] at hother
    contradiction
  | call hother hserve hrest =>
    rw [hturn] at hother
    cases hother
    exact ⟨_, _, _, _, hserve, rfl, rfl, hrest⟩

/-- What ends from a state that is reached ends from the start. -/
theorem Reached.finishes {first : H} {start : P} {before : List (C × A)}
    (h : Reached program serve first start before host p)
    (hends : Finishes program serve weight last host p n log host' r) :
    ∃ m, Finishes program serve weight last first start m (before ++ log) host' r := by
  induction h generalizing n log with
  | start => exact ⟨n, hends⟩
  | goOn h hturn ih => exact ih (.goOn hturn hends)
  | call h hturn hserve ih =>
    obtain ⟨m, hm⟩ := ih (.call hturn hserve hends)
    refine ⟨m, ?_⟩
    rw [List.append_assoc]
    exact hm

end Ends

end StuntDouble.Calls
