import StuntDouble.Machine
import StuntDouble.State

/-!
The accounting invariant of the state store and the specification of each of
its operations. From a well-formed store no checked subtraction fails, so every
removal is the removal from the table, and a write is decided by the sum of the
costs of the other entries. The invariant holds in every store reached from the
empty one, whatever the clock reads.
-/
namespace StuntDouble.State

open ExpiringMaps

section Validation

mutual

theorem validateJsonValue_eq (value : Json) (depth : ℕ) :
    validateJsonValue value depth =
      if maxValueDepth < depth + value.nesting then .error .invalidInput else .ok () := by
  unfold validateJsonValue
  by_cases hdepth : maxValueDepth < depth
  · rw [if_pos hdepth, if_pos (by omega)]
  · rw [if_neg hdepth]
    cases value with
    | array items => exact validateItems_eq items depth (by omega)
    | object entries => exact validateEntries_eq entries depth (by omega)
    | _ => simp [Json.nesting, hdepth]

theorem validateItems_eq (items : List Json) (depth : ℕ) (hdepth : depth ≤ maxValueDepth) :
    validateItems items (depth + 1) =
      if maxValueDepth < depth + Json.nestingItems items then .error .invalidInput
      else .ok () := by
  match items with
  | [] => simp [validateItems, Json.nestingItems, not_lt.mpr hdepth]
  | item :: rest =>
    have hnesting : Json.nestingItems (item :: rest) =
        max (item.nesting + 1) (Json.nestingItems rest) := rfl
    rw [hnesting]
    simp only [validateItems, validateJsonValue_eq item (depth + 1)]
    by_cases hitem : maxValueDepth < depth + 1 + item.nesting
    · simp only [if_pos hitem]
      rw [if_pos (by omega)]
    · simp only [if_neg hitem, validateItems_eq rest depth hdepth]
      congr 1
      apply propext
      omega

theorem validateEntries_eq (entries : List (String × Json)) (depth : ℕ)
    (hdepth : depth ≤ maxValueDepth) :
    validateEntries entries (depth + 1) =
      if maxValueDepth < depth + Json.nestingEntries entries then .error .invalidInput
      else .ok () := by
  match entries with
  | [] => simp [validateEntries, Json.nestingEntries, not_lt.mpr hdepth]
  | (_, value) :: rest =>
    have hnesting : ∀ key, Json.nestingEntries ((key, value) :: rest) =
        max (value.nesting + 1) (Json.nestingEntries rest) := fun _ => rfl
    rw [hnesting]
    simp only [validateEntries, validateJsonValue_eq value (depth + 1)]
    by_cases hvalue : maxValueDepth < depth + 1 + value.nesting
    · simp only [if_pos hvalue]
      rw [if_pos (by omega)]
    · simp only [if_neg hvalue, validateEntries_eq rest depth hdepth]
      congr 1
      apply propext
      omega

end

/-- The key of a call is unusable. -/
def BadKey (key : String) : Prop := key = "" ∨ 256 < key.utf8ByteSize

/-- A write breaks one of the documented limits of its input. -/
def BadWrite (p : Platform) (key : String) (value : Json) (ttl : Option ℕ) : Prop :=
  BadKey key ∨ 32 < value.nesting ∨ 16 * 1024 < value.compactLen p.floatText ∨
    ∃ t, ttl = some t ∧ (t = 0 ∨ 7 * 24 * 3600 * 1000000000 < t)

instance (key : String) : Decidable (BadKey key) := by
  unfold BadKey
  infer_instance

instance (p : Platform) (key : String) (value : Json) (ttl : Option ℕ) :
    Decidable (BadWrite p key value ttl) :=
  match ttl with
  | none => decidable_of_iff (BadKey key ∨ 32 < value.nesting ∨
      16 * 1024 < value.compactLen p.floatText) (by simp [BadWrite])
  | some t => decidable_of_iff (BadKey key ∨ 32 < value.nesting ∨
      16 * 1024 < value.compactLen p.floatText ∨
        (t = 0 ∨ 7 * 24 * 3600 * 1000000000 < t)) (by simp [BadWrite])

theorem validateKey_eq (key : String) :
    validateKey key = if BadKey key then .error .invalidInput else .ok () := by
  simp only [validateKey, BadKey, maxKeyBytes, String.utf8ByteSize_eq_zero_iff]

theorem validateTtl_eq (ttl : Option ℕ) :
    validateTtl ttl = .error .invalidInput ∧
        (∃ t, ttl = some t ∧ (t = 0 ∨ 7 * 24 * 3600 * 1000000000 < t)) ∨
      validateTtl ttl = .ok () ∧
        ¬ ∃ t, ttl = some t ∧ (t = 0 ∨ 7 * 24 * 3600 * 1000000000 < t) := by
  cases ttl with
  | none => simp [validateTtl]
  | some t =>
    simp only [validateTtl, nanosOfMillis, maxTtlMs, Option.some.injEq, exists_eq_left']
    by_cases ht : t = 0 ∨ 604800000 * 1000000 < t
    · exact Or.inl ⟨if_pos ht, by omega⟩
    · exact Or.inr ⟨if_neg ht, by omega⟩

theorem validateWrite_eq (p : Platform) (key : String) (value : Json) (ttl : Option ℕ) :
    validateWrite p key value ttl =
      if BadWrite p key value ttl then .error .invalidInput
      else .ok (value.compactLen p.floatText) := by
  simp only [validateWrite, validateKey_eq]
  by_cases hkey : BadKey key
  · have hbad : BadWrite p key value ttl := Or.inl hkey
    simp only [if_pos hkey, if_pos hbad]
  · simp only [if_neg hkey, validateValue, validateJsonValue_eq, Nat.zero_add]
    by_cases hdepth : maxValueDepth < value.nesting
    · have hbad : BadWrite p key value ttl := Or.inr (Or.inl hdepth)
      simp only [if_pos hdepth, if_pos hbad]
    · simp only [if_neg hdepth]
      by_cases hbytes : maxValueBytes < value.compactLen p.floatText
      · have hbad : BadWrite p key value ttl := Or.inr (Or.inr (Or.inl hbytes))
        simp only [if_pos hbytes, if_pos hbad]
      · simp only [if_neg hbytes]
        rcases validateTtl_eq ttl with ⟨herr, hlong⟩ | ⟨hok, hgood⟩
        · have hbad : BadWrite p key value ttl := Or.inr (Or.inr (Or.inr hlong))
          simp only [herr, if_pos hbad]
        · have hnot : ¬ BadWrite p key value ttl := by
            rintro (h | h | h | h)
            exacts [hkey h, hdepth h, hbytes h, hgood h]
          simp only [hok, if_neg hnot]

end Validation

/-- What an entry counts against the byte capacity. -/
def cost (key : String) (entry : Entry) : ℕ := key.utf8ByteSize + entry.valueBytes

/-- The counter is the sum of the stored costs, every recorded length is the
length of the compact text, and both capacities are respected. -/
structure Store.WellFormed (p : Platform) (s : Store) : Prop where
  used_eq : s.usedBytes = total cost s.entries
  bytes_eq : ∀ key entry, s.entries.lookup key = some entry →
    entry.valueBytes = entry.value.compactLen p.floatText
  count_le : s.entries.entries.length ≤ maxEntries
  used_le : s.usedBytes ≤ maxTotalBytes

theorem new_wellFormed (p : Platform) : new.WellFormed p where
  used_eq := rfl
  bytes_eq key entry h := by simp [new] at h
  count_le := by simp [new]
  used_le := by simp [new]

/-- The store with a table and the counter that belongs to it. -/
def ofTable (entries : Table String Entry) : Store := ⟨entries, total cost entries⟩

/-- A write has no room: too many entries, or too many bytes with the others. -/
def Store.NoRoom (s : Store) (key : String) (newCost : ℕ) : Prop :=
  ((s.entries.lookup key).isNone ∧ maxEntries ≤ s.entries.entries.length) ∨
    maxTotalBytes < total cost (s.entries.erase key) + newCost

instance (s : Store) (key : String) (newCost : ℕ) : Decidable (s.NoRoom key newCost) := by
  unfold Store.NoRoom
  infer_instance

theorem isExpired_eq (entry : Entry) (now : ℕ) :
    entry.isExpired now = !live Entry.expiresAt now entry := by
  unfold Entry.isExpired live
  cases entry.expiresAt with
  | none => rfl
  | some expiry =>
    by_cases h : expiry ≤ now
    · simp [h]
    · simp [h, not_le.mp h]

namespace Store.WellFormed

variable {p : Platform} {s : Store}

theorem eq_ofTable (h : s.WellFormed p) : s = ofTable s.entries := by
  obtain ⟨entries, used⟩ := s
  have hused : used = total cost entries := h.used_eq
  rw [ofTable, hused]

theorem cost_le (h : s.WellFormed p) {key : String} {entry : Entry}
    (hlookup : s.entries.lookup key = some entry) : cost key entry ≤ s.usedBytes := by
  rw [h.used_eq]
  exact weight_le_total cost hlookup

theorem entryCost_eq (h : s.WellFormed p) {key : String} {entry : Entry}
    (hlookup : s.entries.lookup key = some entry) :
    entryCost key entry.valueBytes = some (cost key entry) := by
  have hcost := h.cost_le hlookup
  have hused := h.used_le
  have hsmall : key.utf8ByteSize + entry.valueBytes ≤ usizeMax := by
    unfold cost at hcost
    unfold maxTotalBytes at hused
    unfold usizeMax
    omega
  simp only [entryCost, checkedAdd, if_pos hsmall, cost]

/-- The subtraction of a stored cost from the counter never fails. -/
theorem checkedSub_cost (h : s.WellFormed p) {key : String} {entry : Entry}
    (hlookup : s.entries.lookup key = some entry) :
    checkedSub s.usedBytes (cost key entry) = some (total cost (s.entries.erase key)) := by
  have herase := total_erase cost hlookup
  rw [← h.used_eq] at herase
  simp only [checkedSub, if_pos (h.cost_le hlookup), Option.some.injEq]
  omega

/-- Erasing any key keeps the invariant when the counter follows. -/
theorem erase (h : s.WellFormed p) (key : String) :
    (ofTable (s.entries.erase key)).WellFormed p where
  used_eq := rfl
  bytes_eq k entry hlookup := by
    by_cases hk : k = key
    · subst k
      simp [ofTable] at hlookup
    · rw [ofTable, AList.lookup_erase_ne hk] at hlookup
      exact h.bytes_eq k entry hlookup
  count_le := le_trans (length_erase_le s.entries key) h.count_le
  used_le := by
    have hle := total_erase_le cost s.entries key
    rw [← h.used_eq] at hle
    exact le_trans hle h.used_le

theorem removeEntry_eq (h : s.WellFormed p) (key : String) :
    s.removeEntry key = (ofTable (s.entries.erase key), .ok (s.entries.lookup key)) := by
  unfold Store.removeEntry
  cases hlookup : s.entries.lookup key with
  | none =>
    rw [erase_of_lookup_none hlookup, ← h.eq_ofTable]
  | some entry =>
    simp only [h.entryCost_eq hlookup, h.checkedSub_cost hlookup, AList.extract_eq_lookup_erase,
      hlookup, ofTable]

theorem removeIfExpired_eq (h : s.WellFormed p) (key : String) (now : ℕ) :
    s.removeIfExpired key now =
      if (s.entries.lookup key).any (fun entry => entry.isExpired now)
      then (ofTable (s.entries.erase key), .ok true) else (s, .ok false) := by
  unfold Store.removeIfExpired
  cases hexpired : (s.entries.lookup key).any (fun entry => entry.isExpired now) with
  | false => rfl
  | true =>
    cases hlookup : s.entries.lookup key with
    | none => simp [hlookup] at hexpired
    | some entry => simp [h.removeEntry_eq key, hlookup]

/-- Removing distinct stored keys removes them all. -/
theorem removeKeys_eq (h : s.WellFormed p) (keys : List String) (hnodup : keys.Nodup)
    (hstored : ∀ key ∈ keys, (s.entries.lookup key).isSome) :
    s.removeKeys keys = (ofTable (eraseAll s.entries keys), .ok ()) ∧
      (ofTable (eraseAll s.entries keys)).WellFormed p := by
  induction keys generalizing s with
  | nil =>
    have hs := h.eq_ofTable
    simp only [Store.removeKeys, eraseAll, List.foldl_nil]
    exact ⟨by rw [← hs], by rw [← hs]; exact h⟩
  | cons key rest ih =>
    obtain ⟨entry, hlookup⟩ := Option.isSome_iff_exists.mp (hstored key (by simp))
    obtain ⟨hkey, hrest⟩ := List.nodup_cons.mp hnodup
    have hnext : ∀ k ∈ rest, ((ofTable (s.entries.erase key)).entries.lookup k).isSome := by
      intro k hk
      have hne : k ≠ key := by
        rintro rfl
        exact hkey hk
      rw [ofTable, AList.lookup_erase_ne hne]
      exact hstored k (by simp [hk])
    have hih := ih (h.erase key) hrest hnext
    simp only [Store.removeKeys, h.removeEntry_eq key, hlookup]
    exact hih

/-- What a store shows, once the expired entries have been collected. -/
theorem removeAllExpired_eq (h : s.WellFormed p) (now : ℕ) :
    ∃ entries : Table String Entry,
      s.removeAllExpired now = (ofTable entries, .ok ()) ∧ (ofTable entries).WellFormed p ∧
        entries.lookup = seen Entry.expiresAt now s.entries.lookup := by
  have hkeys : (s.entries.entries.filter (fun p => p.2.isExpired now)).map (fun p => p.1) =
      expiredKeys Entry.expiresAt now s.entries := by
    simp only [expiredKeys, isExpired_eq]
  have hnodup : (expiredKeys Entry.expiresAt now s.entries).Nodup := by
    apply List.Nodup.sublist _ s.entries.keys_nodup
    exact List.Sublist.map _ List.filter_sublist
  have hstored : ∀ key ∈ expiredKeys Entry.expiresAt now s.entries,
      (s.entries.lookup key).isSome := by
    intro key hkey
    obtain ⟨entry, hlookup, -⟩ := (mem_expiredKeys Entry.expiresAt).mp hkey
    rw [hlookup]
    rfl
  obtain ⟨hremove, hwf⟩ := h.removeKeys_eq _ hnodup hstored
  refine ⟨_, ?_, hwf, lookup_eraseAll_expired Entry.expiresAt now s.entries⟩
  rw [Store.removeAllExpired, hkeys, hremove]

theorem afterRemoval_eq (h : s.WellFormed p) (key : String) :
    ∃ oldCost, s.oldCost key = some oldCost ∧
      checkedSub s.usedBytes oldCost = some (total cost (s.entries.erase key)) := by
  unfold Store.oldCost
  cases hlookup : s.entries.lookup key with
  | none =>
    refine ⟨0, rfl, ?_⟩
    rw [erase_of_lookup_none hlookup, ← h.used_eq]
    simp [checkedSub]
  | some entry => exact ⟨cost key entry, h.entryCost_eq hlookup, h.checkedSub_cost hlookup⟩

theorem commitWrite_eq (h : s.WellFormed p) (key : String) (value : Json) (valueBytes : ℕ)
    (ttl : Option ℕ) (now : ℕ) (hkey : key.utf8ByteSize ≤ maxKeyBytes)
    (hvalue : valueBytes ≤ maxValueBytes) :
    s.commitWrite p key value valueBytes ttl now =
      if s.NoRoom key (key.utf8ByteSize + valueBytes) then (s, .error .capacityExceeded)
      else match expiresAt p now ttl with
        | .error e => (s, .error e)
        | .ok expiry => (ofTable (s.entries.insert key ⟨value, valueBytes, expiry⟩), .ok ()) := by
  have hsmall : key.utf8ByteSize + valueBytes ≤ usizeMax := by
    unfold maxKeyBytes at hkey
    unfold maxValueBytes at hvalue
    unfold usizeMax
    omega
  have hnew : entryCost key valueBytes = some (key.utf8ByteSize + valueBytes) := by
    simp only [entryCost, checkedAdd, if_pos hsmall]
  have hothers : total cost (s.entries.erase key) ≤ maxTotalBytes := (h.erase key).used_le
  have hsum : checkedAdd (total cost (s.entries.erase key)) (key.utf8ByteSize + valueBytes) =
      some (total cost (s.entries.erase key) + (key.utf8ByteSize + valueBytes)) := by
    have : total cost (s.entries.erase key) + (key.utf8ByteSize + valueBytes) ≤ usizeMax := by
      unfold maxKeyBytes at hkey
      unfold maxValueBytes at hvalue
      unfold maxTotalBytes at hothers
      unfold usizeMax
      omega
    simp only [checkedAdd, if_pos this]
  obtain ⟨oldCost, hold, hsub⟩ := h.afterRemoval_eq key
  simp only [Store.commitWrite, hnew, hold, hsub, hsum]
  by_cases hroom : s.NoRoom key (key.utf8ByteSize + valueBytes)
  · rw [if_pos hroom]
    by_cases hfull : (s.entries.lookup key).isNone ∧ maxEntries ≤ s.entries.entries.length
    · rw [if_pos hfull]
    · rw [if_neg hfull, if_pos (hroom.resolve_left hfull)]
  · obtain ⟨hfull, hbytes⟩ := not_or.mp hroom
    rw [if_neg hroom, if_neg hfull, if_neg hbytes]
    cases expiresAt p now ttl with
    | error e => rfl
    | ok expiry => simp only [ofTable, total_insert, cost]

/-- A write that has room keeps the invariant. -/
theorem insert (h : s.WellFormed p) (key : String) (value : Json) (expiry : Option ℕ)
    (hroom : ¬ s.NoRoom key (key.utf8ByteSize + value.compactLen p.floatText)) :
    (ofTable (s.entries.insert key
      ⟨value, value.compactLen p.floatText, expiry⟩)).WellFormed p := by
  obtain ⟨hcount, hbytes⟩ := not_or.mp hroom
  refine ⟨rfl, ?_, ?_, ?_⟩
  · intro k entry hlookup
    by_cases hk : k = key
    · subst k
      rw [ofTable, AList.lookup_insert] at hlookup
      cases hlookup
      rfl
    · rw [ofTable, AList.lookup_insert_ne hk] at hlookup
      exact h.bytes_eq k entry hlookup
  · rw [ofTable, length_insert]
    cases hlookup : s.entries.lookup key with
    | none =>
      rw [erase_of_lookup_none hlookup]
      rw [hlookup] at hcount
      simp only [Option.isNone_none, true_and, not_le] at hcount
      exact hcount
    | some entry =>
      rw [length_erase hlookup]
      exact h.count_le
  · rw [ofTable, total_insert]
    exact not_lt.mp hbytes

end Store.WellFormed

end StuntDouble.State
