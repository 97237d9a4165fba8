import Mathlib.Algebra.BigOperators.Finprod
import Mathlib.Data.List.AList
import Mathlib.Data.Set.Card

/-!
Finite tables whose entries may carry an expiry. What a table shows at a time is
the partial function of its live entries; a table is collected lazily, so the
entries it stores and the entries it shows differ most of the time. The lemmas
relate the stored table (its size, the sum of the weights of its entries) to
the function it shows, and say that erasing expired entries, in any order and
at any moment, changes nothing that is shown later.
-/
namespace StuntDouble.ExpiringMaps

variable {K E F T : Type*}

/-- A finite map from keys to entries, with each key stored once. -/
abbrev Table (K E : Type*) := AList (fun _ : K => E)

section Showing

variable [LinearOrder T] (expiry : E → Option T)

/-- An entry is live strictly before its expiry; without one it is always live. -/
def live (now : T) (e : E) : Bool :=
  match expiry e with
  | none => true
  | some deadline => decide (now < deadline)

/-- The part of a partial map that is live at a time. -/
def seen (now : T) (m : K → Option E) : K → Option E :=
  fun k => (m k).filter (live expiry now)

theorem live_antitone {now later : T} (h : now ≤ later) (e : E)
    (hlive : live expiry later e = true) : live expiry now e = true := by
  unfold live at *
  cases hexp : expiry e with
  | none => rfl
  | some deadline =>
    rw [hexp] at hlive
    exact decide_eq_true (lt_of_le_of_lt h (of_decide_eq_true hlive))

theorem seen_seen {now later : T} (h : now ≤ later) (m : K → Option E) :
    seen expiry later (seen expiry now m) = seen expiry later m := by
  funext k
  simp only [seen]
  cases m k with
  | none => rfl
  | some e =>
    cases hlater : live expiry later e with
    | true => simp [Option.filter, live_antitone expiry h e hlater, hlater]
    | false => cases hnow : live expiry now e <;> simp [Option.filter, hnow, hlater]

/-- Maps that show the same at a time show the same ever after. -/
theorem seen_congr {now later : T} (h : now ≤ later) {m m' : K → Option E}
    (heq : seen expiry now m = seen expiry now m') :
    seen expiry later m = seen expiry later m' := by
  rw [← seen_seen expiry h m, heq, seen_seen expiry h m']

/-- Rewriting the entry of one key. -/
theorem seen_update [DecidableEq K] (now : T) (m : K → Option E) (k : K) (e : Option E) :
    seen expiry now (Function.update m k e) =
      Function.update (seen expiry now m) k (e.filter (live expiry now)) := by
  funext j
  by_cases hj : j = k
  · subst j
    simp [seen]
  · simp [seen, hj]

/-- Projecting the entries does not change what is shown when it keeps the expiry. -/
theorem seen_map (f : E → F) (expiry' : F → Option T) (hf : ∀ e, expiry' (f e) = expiry e)
    (now : T) (m : K → Option E) :
    seen expiry' now (fun k => (m k).map f) = fun k => (seen expiry now m k).map f := by
  funext k
  have hlive : ∀ e, live expiry' now (f e) = live expiry now e := by
    intro e
    simp [live, hf]
  simp only [seen]
  cases m k with
  | none => rfl
  | some e => cases h : live expiry now e <;> simp [Option.filter, hlive, h]

end Showing

section Weights

variable (w : K → E → ℕ)

/-- The sum of the weights of the stored entries. -/
def total (m : Table K E) : ℕ := (m.entries.map (fun p => w p.1 p.2)).sum

variable [DecidableEq K]

theorem erase_of_lookup_none {m : Table K E} {k : K} (h : m.lookup k = none) :
    m.erase k = m := by
  apply AList.ext
  exact List.kerase_of_notMem_keys (AList.lookup_eq_none.mp h)

private theorem sum_kerase (l : List (Σ _ : K, E)) (k : K) (e : E)
    (h : l.dlookup k = some e) :
    ((l.kerase k).map (fun p => w p.1 p.2)).sum + w k e = (l.map (fun p => w p.1 p.2)).sum := by
  induction l with
  | nil => simp at h
  | cons p rest ih =>
    by_cases hp : k = p.1
    · obtain ⟨j, f⟩ := p
      subst hp
      rw [List.dlookup_cons_eq] at h
      cases h
      have hkerase : List.kerase k (⟨k, e⟩ :: rest : List (Σ _ : K, E)) = rest :=
        List.kerase_cons_eq rfl
      rw [hkerase, List.map_cons, List.sum_cons]
      exact Nat.add_comm _ _
    · rw [List.dlookup_cons_ne _ _ hp] at h
      rw [List.kerase_cons_ne hp, List.map_cons, List.sum_cons, List.map_cons, List.sum_cons,
        ← ih h]
      omega

theorem total_erase {m : Table K E} {k : K} {e : E} (h : m.lookup k = some e) :
    total w (m.erase k) + w k e = total w m := sum_kerase w m.entries k e h

theorem weight_le_total {m : Table K E} {k : K} {e : E} (h : m.lookup k = some e) :
    w k e ≤ total w m := by
  rw [← total_erase w h]
  omega

theorem total_insert (m : Table K E) (k : K) (e : E) :
    total w (m.insert k e) = total w (m.erase k) + w k e := by
  simp only [total, AList.entries_insert, List.map_cons, List.sum_cons]
  rw [Nat.add_comm]
  rfl

theorem length_erase {m : Table K E} {k : K} {e : E} (h : m.lookup k = some e) :
    (m.erase k).entries.length + 1 = m.entries.length := by
  have hcount := total_erase (fun _ _ => 1) h
  simpa [total] using hcount

theorem length_erase_le (m : Table K E) (k : K) :
    (m.erase k).entries.length ≤ m.entries.length := by
  cases h : m.lookup k with
  | none => rw [erase_of_lookup_none h]
  | some e =>
    have := length_erase h
    omega

theorem total_erase_le (m : Table K E) (k : K) : total w (m.erase k) ≤ total w m := by
  cases h : m.lookup k with
  | none => rw [erase_of_lookup_none h]
  | some e =>
    have := total_erase w h
    omega

theorem length_insert (m : Table K E) (k : K) (e : E) :
    (m.insert k e).entries.length = (m.erase k).entries.length + 1 := by
  rw [AList.entries_insert, List.length_cons]
  rfl

/-- The stored keys, counted as a set of keys with an entry. -/
theorem length_eq_ncard (m : Table K E) :
    m.entries.length = {k | (m.lookup k).isSome}.ncard := by
  have hset : {k | (m.lookup k).isSome} = (m.keys.toFinset : Set K) := by
    ext k
    simp [AList.lookup_isSome, AList.mem_keys]
  rw [hset, Set.ncard_coe_finset, List.toFinset_card_of_nodup m.keys_nodup]
  simp [AList.keys, List.keys]

/-- The stored total, summed over all keys with an entry. -/
theorem total_eq_finsum (m : Table K E) :
    total w m = ∑ᶠ k, (m.lookup k).elim 0 (w k) := by
  have hsupp : (Function.support fun k => (m.lookup k).elim 0 (w k)) ⊆
      (m.keys.toFinset : Set K) := by
    intro k hk
    by_contra hnot
    have hnone : m.lookup k = none := by
      rw [AList.lookup_eq_none, AList.mem_keys]
      simpa using hnot
    simp [hnone] at hk
  have hentry : ∀ p ∈ m.entries, (m.lookup p.1).elim 0 (w p.1) = w p.1 p.2 := by
    rintro ⟨k, e⟩ hp
    have hlookup : m.lookup k = some e := List.mem_dlookup m.nodupKeys hp
    simp [hlookup]
  rw [finsum_eq_sum_of_support_subset _ hsupp, List.sum_toFinset _ m.keys_nodup]
  simp only [total, AList.keys, List.keys, List.map_map]
  exact congrArg List.sum (List.map_congr_left fun p hp => (hentry p hp).symm)

end Weights

section Collecting

variable [DecidableEq K]

/-- Erase a list of keys, one after the other. -/
def eraseAll (m : Table K E) (ks : List K) : Table K E := ks.foldl (fun m k => m.erase k) m

theorem lookup_eraseAll (m : Table K E) (ks : List K) (k : K) :
    (eraseAll m ks).lookup k = if k ∈ ks then none else m.lookup k := by
  induction ks generalizing m with
  | nil => rfl
  | cons j rest ih =>
    change (eraseAll (m.erase j) rest).lookup k = _
    rw [ih (m.erase j)]
    by_cases hrest : k ∈ rest
    · simp [hrest]
    · by_cases hj : k = j
      · subst j
        simp [hrest]
      · simp [hrest, hj, AList.lookup_erase_ne hj]

variable [LinearOrder T] (expiry : E → Option T)

/-- The keys of the stored entries that are no longer live. -/
def expiredKeys (now : T) (m : Table K E) : List K :=
  (m.entries.filter (fun p => !live expiry now p.2)).map (fun p => p.1)

theorem mem_expiredKeys {now : T} {m : Table K E} {k : K} :
    k ∈ expiredKeys expiry now m ↔ ∃ e, m.lookup k = some e ∧ live expiry now e = false := by
  simp only [expiredKeys, List.mem_map, List.mem_filter, Bool.not_eq_true']
  constructor
  · rintro ⟨⟨j, e⟩, ⟨hmem, hdead⟩, rfl⟩
    exact ⟨e, List.mem_dlookup m.nodupKeys hmem, hdead⟩
  · rintro ⟨e, hlookup, hdead⟩
    exact ⟨⟨k, e⟩, ⟨List.of_mem_dlookup hlookup, hdead⟩, rfl⟩

/-- Erasing every expired entry leaves exactly what the table shows. -/
theorem lookup_eraseAll_expired (now : T) (m : Table K E) :
    (eraseAll m (expiredKeys expiry now m)).lookup = seen expiry now m.lookup := by
  funext k
  rw [lookup_eraseAll]
  simp only [seen]
  cases hlookup : m.lookup k with
  | none => simp
  | some e =>
    cases hlive : live expiry now e with
    | true =>
      have hnot : k ∉ expiredKeys expiry now m := by
        rw [mem_expiredKeys]
        rintro ⟨e', he', hdead⟩
        rw [hlookup] at he'
        cases he'
        rw [hlive] at hdead
        contradiction
      simp [hnot, Option.filter, hlive]
    | false =>
      have hmem : k ∈ expiredKeys expiry now m := mem_expiredKeys expiry |>.mpr ⟨e, hlookup, hlive⟩
      simp [hmem, Option.filter, hlive]

/-- Erasing one expired entry changes nothing that is shown from then on. -/
theorem seen_erase_expired {now : T} {m : Table K E} {k : K} {e : E}
    (h : m.lookup k = some e) (hdead : live expiry now e = false) :
    seen expiry now (m.erase k).lookup = seen expiry now m.lookup := by
  funext j
  simp only [seen]
  by_cases hj : j = k
  · subst j
    simp [h, Option.filter, hdead]
  · rw [AList.lookup_erase_ne hj]

end Collecting

end StuntDouble.ExpiringMaps
