import StuntDouble.StateInvariant

/-!
The reference for the state store: a map from keys to the value last written
and its expiry, in which an entry stops existing exactly at its expiry instant.
Nothing is ever collected and nothing is counted on the side: the capacities are
the number of live keys and the sum of the costs of the other live entries. The
store refines it, call by call, along every run whose clock never goes back.
-/
namespace StuntDouble.State

open ExpiringMaps Machine

structure RefEntry where
  value : Json
  expiresAt : Option ℕ

abbrev RefMap := String → Option RefEntry

namespace RefMap

def empty : RefMap := fun _ => none

/-- The entries that exist at an instant. -/
def liveAt (m : RefMap) (now : ℕ) : RefMap := seen RefEntry.expiresAt now m

noncomputable def liveKeys (m : RefMap) (now : ℕ) : ℕ := {key | (m.liveAt now key).isSome}.ncard

/-- The summed cost of the live entries of the other keys. -/
noncomputable def otherBytes (p : Platform) (m : RefMap) (now : ℕ) (key : String) : ℕ :=
  ∑ᶠ k, if k = key then 0
    else (m.liveAt now k).elim 0 (fun e => k.utf8ByteSize + e.value.compactLen p.floatText)

def Full (p : Platform) (m : RefMap) (now : ℕ) (key : String) (value : Json) : Prop :=
  (m.liveAt now key = none ∧ 1024 ≤ m.liveKeys now) ∨
    8 * 1024 * 1024 <
      m.otherBytes p now key + (key.utf8ByteSize + value.compactLen p.floatText)

/-- The expiry of a write, when the platform can represent it. -/
def expiry (p : Platform) (now : ℕ) : Option ℕ → Option (Option ℕ)
  | none => some none
  | some ttl => if now + ttl ≤ p.instantMax then some (some (now + ttl)) else none

open Classical in
noncomputable def write (p : Platform) (m : RefMap) (now : ℕ) (key : String) (value : Json)
    (ttl : Option ℕ) (answer : Answer) : RefMap × Reply :=
  if m.Full p now key value then (m, .error .capacityExceeded)
  else match expiry p now ttl with
    | none => (m, .error .internal)
    | some expiresAt => (Function.update m key (some ⟨value, expiresAt⟩), .ok answer)

noncomputable def call (p : Platform) (m : RefMap) (c : Call) : RefMap × Reply :=
  match c.op with
  | .get key =>
    if BadKey key then (m, .error .invalidInput)
    else (m, .ok (.found ((m.liveAt c.now key).map RefEntry.value)))
  | .set key value ttl =>
    if BadWrite p key value ttl then (m, .error .invalidInput)
    else m.write p c.now key value ttl .done
  | .take key =>
    if BadKey key then (m, .error .invalidInput)
    else match m.liveAt c.now key with
      | none => (m, .ok (.found none))
      | some e => (Function.update m key none, .ok (.found (some e.value)))
  | .setIfAbsent key value ttl =>
    if BadWrite p key value ttl then (m, .error .invalidInput)
    else match m.liveAt c.now key with
      | some _ => (m, .ok (.stored false))
      | none => m.write p c.now key value ttl (.stored true)

end RefMap

def Entry.ref (entry : Entry) : RefEntry := ⟨entry.value, entry.expiresAt⟩

/-- The table of a store, without the recorded lengths. -/
def Store.shown (s : Store) : RefMap := fun key => (s.entries.lookup key).map Entry.ref

/-- The store and the reference show the same entries at an instant. -/
def Shows (now : ℕ) (s : Store) (m : RefMap) : Prop := RefMap.liveAt s.shown now = m.liveAt now

theorem Shows.refl (now : ℕ) (s : Store) : Shows now s s.shown := rfl

theorem Shows.later {now later : ℕ} {s : Store} {m : RefMap} (h : Shows now s m)
    (hle : now ≤ later) : Shows later s m := seen_congr RefEntry.expiresAt hle h

theorem shown_liveAt (s : Store) (now : ℕ) :
    RefMap.liveAt s.shown now =
      fun key => (seen Entry.expiresAt now s.entries.lookup key).map Entry.ref :=
  seen_map Entry.expiresAt Entry.ref RefEntry.expiresAt (fun _ => rfl) now s.entries.lookup

theorem liveAt_liveAt (m : RefMap) (now : ℕ) : RefMap.liveAt (m.liveAt now) now = m.liveAt now :=
  seen_seen RefEntry.expiresAt (le_refl now) m

theorem update_liveAt (m : RefMap) (now : ℕ) (key : String) (e : Option RefEntry) :
    RefMap.liveAt (Function.update m key e) now =
      Function.update (m.liveAt now) key (e.filter (live RefEntry.expiresAt now)) :=
  seen_update RefEntry.expiresAt now m key e

theorem shown_insert (entries : Table String Entry) (key : String) (entry : Entry) :
    (ofTable (entries.insert key entry)).shown =
      Function.update (ofTable entries).shown key (some entry.ref) := by
  funext k
  by_cases hk : k = key
  · subst k
    simp [Store.shown, ofTable]
  · simp [Store.shown, ofTable, hk]

theorem shown_erase (entries : Table String Entry) (key : String) :
    (ofTable (entries.erase key)).shown = Function.update (ofTable entries).shown key none := by
  funext k
  by_cases hk : k = key
  · subst k
    simp [Store.shown, ofTable]
  · simp [Store.shown, ofTable, hk]

section Capacity

variable {p : Platform} {entries : Table String Entry} {m : RefMap} {now : ℕ}

theorem length_eq_liveKeys (h : (ofTable entries).shown = m.liveAt now) :
    entries.entries.length = m.liveKeys now := by
  rw [length_eq_ncard, RefMap.liveKeys, ← h]
  simp [Store.shown, ofTable]

theorem total_eq_otherBytes (hwf : (ofTable entries).WellFormed p)
    (h : (ofTable entries).shown = m.liveAt now) (key : String) :
    total cost (entries.erase key) = m.otherBytes p now key := by
  rw [total_eq_finsum, RefMap.otherBytes, ← h]
  apply finsum_congr
  intro k
  by_cases hk : k = key
  · subst k
    simp
  · rw [if_neg hk, AList.lookup_erase_ne hk]
    simp only [Store.shown, ofTable]
    cases hlookup : entries.lookup k with
    | none => rfl
    | some entry =>
      have hbytes := hwf.bytes_eq k entry hlookup
      simp only [Option.elim_some, Option.map_some, Entry.ref, cost, hbytes]

theorem noRoom_iff_full (hwf : (ofTable entries).WellFormed p)
    (h : (ofTable entries).shown = m.liveAt now) (key : String) (value : Json) :
    (ofTable entries).NoRoom key (key.utf8ByteSize + value.compactLen p.floatText) ↔
      m.Full p now key value := by
  have hnone : ((ofTable entries).entries.lookup key).isNone ↔ m.liveAt now key = none := by
    rw [← h]
    simp [Store.shown]
  unfold Store.NoRoom RefMap.Full
  rw [hnone, ← length_eq_liveKeys h, ← total_eq_otherBytes hwf h key]
  rfl

end Capacity

/-- What a call of the store owes to the same call of the reference. -/
structure Agrees (p : Platform) (now : ℕ) (r : Store × Reply) (r' : RefMap × Reply) : Prop where
  reply_eq : r.2 = r'.2
  wellFormed : r.1.WellFormed p
  shows : Shows now r.1 r'.1

section Steps

variable {p : Platform} {s : Store} {m : RefMap} {now : ℕ}

theorem isExpired_lookup (s : Store) (key : String) (now : ℕ) (entry : Entry)
    (hlookup : s.entries.lookup key = some entry) :
    RefMap.liveAt s.shown now key =
      if entry.isExpired now then none else some entry.ref := by
  rw [shown_liveAt]
  simp only [seen, hlookup, isExpired_eq]
  cases hlive : live Entry.expiresAt now entry <;> simp [Option.filter, hlive]

/-- Looking a key up removes its entry exactly when it has expired, which shows nothing. -/
theorem removeIfExpired_spec (hwf : s.WellFormed p) (key : String) (now : ℕ) :
    ∃ s' : Store, s'.WellFormed p ∧ RefMap.liveAt s'.shown now = RefMap.liveAt s.shown now ∧
      ((s.removeIfExpired key now = (s', .ok true) ∧ RefMap.liveAt s.shown now key = none) ∨
        (s.removeIfExpired key now = (s', .ok false) ∧
          s'.shown key = RefMap.liveAt s.shown now key)) := by
  rw [hwf.removeIfExpired_eq key now]
  cases hlookup : s.entries.lookup key with
  | none =>
    refine ⟨s, hwf, rfl, Or.inr ⟨by simp, ?_⟩⟩
    rw [shown_liveAt]
    simp [Store.shown, seen, hlookup]
  | some entry =>
    have hshown := isExpired_lookup s key now entry hlookup
    cases hexpired : entry.isExpired now with
    | true =>
      rw [hexpired] at hshown
      refine ⟨ofTable (s.entries.erase key), hwf.erase key, ?_, Or.inl ⟨by simp [hexpired], hshown⟩⟩
      have hdead : live Entry.expiresAt now entry = false := by
        rw [isExpired_eq] at hexpired
        simpa using hexpired
      rw [shown_liveAt, shown_liveAt]
      simp only [ofTable, seen_erase_expired Entry.expiresAt hlookup hdead]
    | false =>
      rw [hexpired] at hshown
      refine ⟨s, hwf, rfl, Or.inr ⟨by simp [hexpired], ?_⟩⟩
      rw [hshown]
      simp [Store.shown, hlookup]

theorem get_agrees (hwf : s.WellFormed p) (hshows : Shows now s m) (key : String) :
    Agrees p now (s.call p ⟨now, .get key⟩) (m.call p ⟨now, .get key⟩) := by
  simp only [Store.call, RefMap.call, Store.get, validateKey_eq]
  by_cases hkey : BadKey key
  · simp only [if_pos hkey]
    exact ⟨rfl, hwf, hshows⟩
  · simp only [if_neg hkey]
    obtain ⟨s', hwf', hlive, ⟨heq, hnone⟩ | ⟨heq, hsome⟩⟩ := removeIfExpired_spec hwf key now
    · rw [hshows] at hnone
      simp only [heq, hnone]
      exact ⟨rfl, hwf', hlive.trans hshows⟩
    · simp only [heq]
      rw [hshows] at hsome
      refine ⟨?_, hwf', hlive.trans hshows⟩
      simp only [← hsome, Store.shown, Option.map_map, Except.map]
      rfl

theorem take_agrees (hwf : s.WellFormed p) (hshows : Shows now s m) (key : String) :
    Agrees p now (s.call p ⟨now, .take key⟩) (m.call p ⟨now, .take key⟩) := by
  simp only [Store.call, RefMap.call, Store.take, validateKey_eq]
  by_cases hkey : BadKey key
  · simp only [if_pos hkey]
    exact ⟨rfl, hwf, hshows⟩
  · simp only [if_neg hkey]
    obtain ⟨s', hwf', hlive, ⟨heq, hnone⟩ | ⟨heq, hsome⟩⟩ := removeIfExpired_spec hwf key now
    · rw [hshows] at hnone
      simp only [heq, hnone]
      exact ⟨rfl, hwf', hlive.trans hshows⟩
    · simp only [heq, hwf'.removeEntry_eq key]
      rw [hshows] at hsome
      have hagree : Shows now s' m := hlive.trans hshows
      cases hlookup : s'.entries.lookup key with
      | none =>
        have hnone : m.liveAt now key = none := by
          rw [← hsome]
          simp [Store.shown, hlookup]
        simp only [hnone]
        rw [erase_of_lookup_none hlookup, ← hwf'.eq_ofTable]
        exact ⟨rfl, hwf', hagree⟩
      | some entry =>
        have hentry : m.liveAt now key = some entry.ref := by
          rw [← hsome]
          simp [Store.shown, hlookup]
        simp only [hentry]
        refine ⟨rfl, hwf'.erase key, ?_⟩
        unfold Shows
        rw [shown_erase, update_liveAt, update_liveAt, ← hagree, ← hwf'.eq_ofTable]

/-- Collecting every expired entry leaves a table that is what the reference shows. -/
theorem removeAllExpired_spec (hwf : s.WellFormed p) (hshows : Shows now s m) :
    ∃ entries : Table String Entry, s.removeAllExpired now = (ofTable entries, .ok ()) ∧
      (ofTable entries).WellFormed p ∧ (ofTable entries).shown = m.liveAt now := by
  obtain ⟨entries, heq, hwf', hlookup⟩ := hwf.removeAllExpired_eq now
  refine ⟨entries, heq, hwf', ?_⟩
  rw [← hshows, shown_liveAt, ← hlookup]
  rfl

theorem shows_of_collected {entries : Table String Entry}
    (h : (ofTable entries).shown = m.liveAt now) : Shows now (ofTable entries) m := by
  unfold Shows
  rw [h, liveAt_liveAt]

/-- A write to a collected store is the write to the reference. -/
theorem commitWrite_agrees {entries : Table String Entry} (hwf : (ofTable entries).WellFormed p)
    (h : (ofTable entries).shown = m.liveAt now) (key : String) (value : Json)
    (ttl : Option ℕ) (hgood : ¬ BadWrite p key value ttl) (answer : Answer) (r : Store × Reply)
    (hr : r = match (ofTable entries).commitWrite p key value (value.compactLen p.floatText)
        ttl now with
      | (s, .error e) => (s, .error e)
      | (s, .ok ()) => (s, .ok answer)) :
    Agrees p now r (m.write p now key value ttl answer) := by
  have hkey : key.utf8ByteSize ≤ maxKeyBytes := by
    by_contra hlong
    exact hgood (Or.inl (Or.inr (not_le.mp hlong)))
  have hvalue : value.compactLen p.floatText ≤ maxValueBytes := by
    by_contra hlong
    exact hgood (Or.inr (Or.inr (Or.inl (not_le.mp hlong))))
  have hsame : Shows now (ofTable entries) m := shows_of_collected h
  rw [hwf.commitWrite_eq key value _ ttl now hkey hvalue] at hr
  by_cases hroom : (ofTable entries).NoRoom key
      (key.utf8ByteSize + value.compactLen p.floatText)
  · rw [if_pos hroom] at hr
    rw [RefMap.write, if_pos ((noRoom_iff_full hwf h key value).mp hroom), hr]
    exact ⟨rfl, hwf, hsame⟩
  · rw [if_neg hroom] at hr
    rw [RefMap.write, if_neg (fun hfull => hroom ((noRoom_iff_full hwf h key value).mpr hfull))]
    have hwrite : ∀ expiresAt : Option ℕ, Agrees p now
        (ofTable (entries.insert key ⟨value, value.compactLen p.floatText, expiresAt⟩), .ok answer)
        (Function.update m key (some ⟨value, expiresAt⟩), .ok answer) := by
      intro expiresAt
      refine ⟨rfl, hwf.insert key value expiresAt hroom, ?_⟩
      unfold Shows
      rw [shown_insert, update_liveAt, update_liveAt, h, liveAt_liveAt]
      rfl
    cases ttl with
    | none =>
      rw [hr]
      exact hwrite none
    | some t =>
      simp only [expiresAt, Platform.instantAdd, RefMap.expiry] at hr ⊢
      by_cases hfits : now + t ≤ p.instantMax
      · rw [if_pos hfits] at hr ⊢
        rw [hr]
        exact hwrite (some (now + t))
      · rw [if_neg hfits] at hr ⊢
        rw [hr]
        exact ⟨rfl, hwf, hsame⟩

theorem set_agrees (hwf : s.WellFormed p) (hshows : Shows now s m) (key : String)
    (value : Json) (ttl : Option ℕ) :
    Agrees p now (s.call p ⟨now, .set key value ttl⟩) (m.call p ⟨now, .set key value ttl⟩) := by
  simp only [Store.call, RefMap.call, Store.set, validateWrite_eq]
  by_cases hbad : BadWrite p key value ttl
  · simp only [if_pos hbad]
    exact ⟨rfl, hwf, hshows⟩
  · obtain ⟨entries, heq, hwf', hshown⟩ := removeAllExpired_spec hwf hshows
    simp only [if_neg hbad, heq]
    apply commitWrite_agrees hwf' hshown key value ttl hbad .done
    rcases (ofTable entries).commitWrite p key value (value.compactLen p.floatText) ttl now with
      ⟨s', e | u⟩ <;> rfl

theorem setIfAbsent_agrees (hwf : s.WellFormed p) (hshows : Shows now s m) (key : String)
    (value : Json) (ttl : Option ℕ) :
    Agrees p now (s.call p ⟨now, .setIfAbsent key value ttl⟩)
      (m.call p ⟨now, .setIfAbsent key value ttl⟩) := by
  simp only [Store.call, RefMap.call, Store.setIfAbsent, validateWrite_eq]
  by_cases hbad : BadWrite p key value ttl
  · simp only [if_pos hbad]
    exact ⟨rfl, hwf, hshows⟩
  · obtain ⟨entries, heq, hwf', hshown⟩ := removeAllExpired_spec hwf hshows
    simp only [if_neg hbad, heq]
    cases hlookup : (ofTable entries).entries.lookup key with
    | some entry =>
      have hlive : m.liveAt now key = some entry.ref := by
        rw [← hshown]
        simp [Store.shown, hlookup]
      simp only [hlive]
      exact ⟨rfl, hwf', shows_of_collected hshown⟩
    | none =>
      have hlive : m.liveAt now key = none := by
        rw [← hshown]
        simp [Store.shown, hlookup]
      simp only [hlive]
      apply commitWrite_agrees hwf' hshown key value ttl hbad (.stored true)
      rcases (ofTable entries).commitWrite p key value (value.compactLen p.floatText) ttl now with
        ⟨s', e | u⟩ <;> rfl

theorem call_agrees (hwf : s.WellFormed p) (c : Call) (hshows : Shows c.now s m) :
    Agrees p c.now (s.call p c) (m.call p c) := by
  obtain ⟨now, op⟩ := c
  cases op with
  | get key => exact get_agrees hwf hshows key
  | set key value ttl => exact set_agrees hwf hshows key value ttl
  | take key => exact take_agrees hwf hshows key
  | setIfAbsent key value ttl => exact setIfAbsent_agrees hwf hshows key value ttl

/-- A failing call of the reference changes nothing. -/
theorem RefMap.call_error {c : Call} {e : StateError} (h : (m.call p c).2 = .error e) :
    (m.call p c).1 = m := by
  have hwrite : ∀ key value ttl answer,
      (m.write p c.now key value ttl answer).2 = .error e →
        (m.write p c.now key value ttl answer).1 = m := by
    intro key value ttl answer herr
    unfold RefMap.write at *
    split at herr
    · rw [if_pos ‹_›]
    · rw [if_neg ‹_›]
      cases hexpiry : RefMap.expiry p c.now ttl with
      | none => rfl
      | some expiresAt =>
        rw [hexpiry] at herr
        contradiction
  obtain ⟨now, op⟩ := c
  cases op with
  | get key =>
    simp only [RefMap.call]
    split <;> rfl
  | take key =>
    simp only [RefMap.call] at h ⊢
    split at h
    · rw [if_pos ‹_›]
    · rw [if_neg ‹_›]
      cases hlive : m.liveAt now key with
      | none => rfl
      | some entry =>
        rw [hlive] at h
        contradiction
  | set key value ttl =>
    simp only [RefMap.call] at h ⊢
    split at h
    · rw [if_pos ‹_›]
    · rw [if_neg ‹_›]
      exact hwrite key value ttl .done h
  | setIfAbsent key value ttl =>
    simp only [RefMap.call] at h ⊢
    split at h
    · rw [if_pos ‹_›]
    · rw [if_neg ‹_›]
      cases hlive : m.liveAt now key with
      | some entry => rfl
      | none =>
        rw [hlive] at h
        exact hwrite key value ttl (.stored true) h

/-- With room on the clock for the longest TTL, every accepted expiry is representable. -/
theorem RefMap.call_ne_internal (c : Call)
    (hclock : c.now + nanosOfMillis maxTtlMs ≤ p.instantMax) :
    (m.call p c).2 ≠ .error .internal := by
  have hwrite : ∀ key value ttl answer, ¬ BadWrite p key value ttl →
      (m.write p c.now key value ttl answer).2 ≠ .error .internal := by
    intro key value ttl answer hgood
    unfold RefMap.write
    split
    · simp
    · cases ttl with
      | none => simp [RefMap.expiry]
      | some t =>
        have ht : ¬ (t = 0 ∨ 7 * 24 * 3600 * 1000000000 < t) :=
          fun hbad => hgood (Or.inr (Or.inr (Or.inr ⟨t, rfl, hbad⟩)))
        have hfits : c.now + t ≤ p.instantMax := by
          unfold nanosOfMillis maxTtlMs at hclock
          omega
        simp [RefMap.expiry, hfits]
  obtain ⟨now, op⟩ := c
  cases op with
  | get key =>
    simp only [RefMap.call]
    split <;> simp
  | take key =>
    simp only [RefMap.call]
    split
    · simp
    · split <;> simp
  | set key value ttl =>
    simp only [RefMap.call]
    split
    · simp
    · exact hwrite key value ttl .done ‹_›
  | setIfAbsent key value ttl =>
    simp only [RefMap.call]
    split
    · simp
    · split
      · simp
      · exact hwrite key value ttl (.stored true) ‹_›

end Steps

/-- The relation kept along a run: the invariant, and the same entries shown. -/
def Refines (p : Platform) (now : ℕ) (s : Store) (m : RefMap) : Prop :=
  s.WellFormed p ∧ Shows now s m

theorem call_simulates (p : Platform) :
    TimedSimulation Call.now (Store.call p) (RefMap.call p) (Refines p) := by
  intro t s m c hrel hle
  have hagrees := call_agrees hrel.1 c (hrel.2.later hle)
  exact ⟨hagrees.reply_eq, hagrees.wellFormed, hagrees.shows⟩

theorem new_refines (p : Platform) (now : ℕ) : Refines p now new RefMap.empty :=
  ⟨new_wellFormed p, rfl⟩

/-- The relation after a run, at a reading that follows all of the run's. -/
theorem refines_of_run (p : Platform) (calls : List Call) (now : ℕ)
    (hclock : Forward Call.now calls) (hlast : ∀ c ∈ calls, c.now ≤ now) :
    Refines p now (final (Store.call p) new calls)
      (final (RefMap.call p) RefMap.empty calls) :=
  (call_simulates p).final_rel (fun _ _ _ _ hle h => ⟨h.1, h.2.later hle⟩) 0 now new RefMap.empty
    (new_refines p 0) calls (fun c _ => Nat.zero_le c.now) hclock (Nat.zero_le now) hlast

/-- Every call keeps the invariant, whatever the clock reads. -/
theorem call_wellFormed (p : Platform) (s : Store) (c : Call) (h : s.WellFormed p) :
    (s.call p c).1.WellFormed p :=
  (call_agrees h c (Shows.refl c.now s)).wellFormed

/-- The store answers every run as the reference does, a failing call leaves
every live entry as it was, and stores that show the same entries give the same
answers whichever expired entries they still hold. -/
theorem store_refines_reference (p : Platform) (calls : List Call)
    (hclock : Forward Call.now calls) :
    outputs (Store.call p) new calls = outputs (RefMap.call p) RefMap.empty calls ∧
      (∀ past c rest e, calls = past ++ c :: rest →
        ((final (Store.call p) new past).call p c).2 = .error e →
          ∀ later, c.now ≤ later →
            RefMap.liveAt ((final (Store.call p) new past).call p c).1.shown later =
              RefMap.liveAt (final (Store.call p) new past).shown later) ∧
      (∀ (t : ℕ) (s s' : Store), s.WellFormed p → s'.WellFormed p →
        RefMap.liveAt s.shown t = RefMap.liveAt s'.shown t → (∀ c ∈ calls, t ≤ c.now) →
          outputs (Store.call p) s calls = outputs (Store.call p) s' calls) := by
  refine ⟨?_, ?_, ?_⟩
  · exact (call_simulates p).outputs_eq 0 new RefMap.empty (new_refines p 0) calls
      (fun c _ => Nat.zero_le c.now) hclock
  · rintro past c rest e rfl herr later hlater
    have hpast := refines_of_run p past c.now (Forward.of_append Call.now hclock)
      (fun a ha => Forward.last_le Call.now hclock ha)
    have hagrees := call_agrees hpast.1 c hpast.2
    have hsame : Shows c.now ((final (Store.call p) new past).call p c).1
        (final (RefMap.call p) RefMap.empty past) := by
      have hm := RefMap.call_error (hagrees.reply_eq.symm.trans herr)
      simpa only [hm] using hagrees.shows
    exact seen_congr RefEntry.expiresAt hlater (hsame.trans hpast.2.symm)
  · intro t s s' hs hs' hsame hfrom
    calc
      outputs (Store.call p) s calls = outputs (RefMap.call p) s'.shown calls :=
        (call_simulates p).outputs_eq t s s'.shown ⟨hs, hsame⟩ calls hfrom hclock
      _ = outputs (Store.call p) s' calls :=
        ((call_simulates p).outputs_eq t s' s'.shown ⟨hs', rfl⟩ calls hfrom hclock).symm

/-- A write, a take at the expiry instant, and a second write to the freed key. -/
theorem store_refines_reference_expiring :
    Forward Call.now [⟨5, .set "code" (.string "x") (some 10)⟩, ⟨15, .take "code"⟩,
        ⟨15, .setIfAbsent "code" .null none⟩] ∧
      outputs (Store.call ⟨fun _ => "0.0", 1000⟩) new
          [⟨5, .set "code" (.string "x") (some 10)⟩, ⟨15, .take "code"⟩,
            ⟨15, .setIfAbsent "code" .null none⟩] =
        outputs (RefMap.call ⟨fun _ => "0.0", 1000⟩) RefMap.empty
          [⟨5, .set "code" (.string "x") (some 10)⟩, ⟨15, .take "code"⟩,
            ⟨15, .setIfAbsent "code" .null none⟩] :=
  ⟨by simp [Forward], (store_refines_reference ⟨fun _ => "0.0", 1000⟩ _ (by simp [Forward])).1⟩

/-- In every reachable store the counter is the sum of the stored costs, the
recorded lengths are right and the capacities hold; no call answers with an
internal error, and no removal and no write fails to subtract a stored cost. -/
theorem reachable_accounted (p : Platform) (calls : List Call)
    (hclock : ∀ c ∈ calls, c.now + nanosOfMillis maxTtlMs ≤ p.instantMax) :
    ((final (Store.call p) new calls).usedBytes =
        ((final (Store.call p) new calls).entries.entries.map
          (fun e => e.1.utf8ByteSize + e.2.valueBytes)).sum ∧
      (∀ key entry, (final (Store.call p) new calls).entries.lookup key = some entry →
        entry.valueBytes = (entry.value.compact p.floatText).utf8ByteSize) ∧
      (final (Store.call p) new calls).entries.entries.length ≤ 1024 ∧
      (final (Store.call p) new calls).usedBytes ≤ 8 * 1024 * 1024) ∧
    (∀ reply ∈ outputs (Store.call p) new calls, reply ≠ .error .internal) ∧
    (∀ key, ∃ removed, ((final (Store.call p) new calls).removeEntry key).2 = .ok removed) ∧
    (∀ now key, ∃ collected oldCost rest,
      (final (Store.call p) new calls).removeAllExpired now = (collected, .ok ()) ∧
        collected.oldCost key = some oldCost ∧
        checkedSub collected.usedBytes oldCost = some rest) := by
  have hstep : ∀ (s : Store) (c : Call), c.now + nanosOfMillis maxTtlMs ≤ p.instantMax →
      s.WellFormed p → (s.call p c).1.WellFormed p :=
    fun s c _ hs => call_wellFormed p s c hs
  have hwf := final_invariant (Store.call p) (Store.WellFormed p)
    (fun c => c.now + nanosOfMillis maxTtlMs ≤ p.instantMax) hstep new (new_wellFormed p)
    calls hclock
  refine ⟨⟨hwf.used_eq, hwf.bytes_eq, hwf.count_le, hwf.used_le⟩, ?_, ?_, ?_⟩
  · apply outputs_forall (Store.call p) (Store.WellFormed p)
      (fun c => c.now + nanosOfMillis maxTtlMs ≤ p.instantMax) (· ≠ .error .internal) hstep
      _ new (new_wellFormed p) calls hclock
    intro s c hc hs
    rw [(call_agrees hs c (Shows.refl c.now s)).reply_eq]
    exact RefMap.call_ne_internal c hc
  · intro key
    exact ⟨_, by rw [hwf.removeEntry_eq key]⟩
  · intro now key
    obtain ⟨entries, heq, hwf', -⟩ := hwf.removeAllExpired_eq now
    obtain ⟨oldCost, hold, hsub⟩ := hwf'.afterRemoval_eq key
    exact ⟨ofTable entries, oldCost, _, heq, hold, hsub⟩

/-- The clock may go back, and a replacement may shorten the value. -/
theorem reachable_accounted_backwards :
    (final (Store.call ⟨fun _ => "0.0", 10 ^ 18⟩) new
      [⟨50, .set "k" (.string "long") (some 7)⟩, ⟨3, .set "k" .null none⟩]).usedBytes = 5 ∧
    (final (Store.call ⟨fun _ => "0.0", 10 ^ 18⟩) new
      [⟨50, .set "k" (.string "long") (some 7)⟩, ⟨3, .set "k" .null none⟩]).usedBytes =
        ((final (Store.call ⟨fun _ => "0.0", 10 ^ 18⟩) new
          [⟨50, .set "k" (.string "long") (some 7)⟩, ⟨3, .set "k" .null none⟩]).entries.entries.map
            (fun e => e.1.utf8ByteSize + e.2.valueBytes)).sum :=
  ⟨by rfl, (reachable_accounted ⟨fun _ => "0.0", 10 ^ 18⟩
    [⟨50, .set "k" (.string "long") (some 7)⟩, ⟨3, .set "k" .null none⟩]
    (by simp [nanosOfMillis, maxTtlMs])).1.1⟩

end StuntDouble.State
