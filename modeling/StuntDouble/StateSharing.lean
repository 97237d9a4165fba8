import StuntDouble.StateBridge

/-!
The store as several workers share it. Calls that are about other keys cannot be told from
calls that were never made, as long as no write is refused for want of room: room is the one
thing that all keys have in common.
-/
namespace StuntDouble.State

open ExpiringMaps Machine

def Op.key : Op → String
  | .get key | .take key => key
  | .set key _ _ | .setIfAbsent key _ _ => key

/-- The call is an operation on one of these keys. -/
def HostCall.concerns (keys : String → Bool) (c : HostCall) : Bool :=
  (stateOp c.payload).any fun op => keys op.key

/-- The answer to a write that found no room. -/
def OutOfRoom (answer : Json) : Prop := answer = stateErrorJson .capacityExceeded

section Maps

variable {p : Platform} {keys : String → Bool} {m own : RefMap} {now : ℕ}

/-- `own` holds what `m` shows of these keys, and nothing else. -/
structure Holds (keys : String → Bool) (now : ℕ) (m own : RefMap) : Prop where
  finite : {key | (m.liveAt now key).isSome}.Finite
  same : ∀ key, keys key = true → m.liveAt now key = own.liveAt now key
  others : ∀ key, keys key = false → own key = none

theorem liveAt_later {later : ℕ} (hle : now ≤ later) (m : RefMap) (key : String) :
    m.liveAt later key = RefMap.liveAt (m.liveAt now) later key :=
  (congrFun (seen_seen RefEntry.expiresAt hle m) key).symm

theorem isSome_of_liveAt {n : ℕ} {key : String} (h : (m.liveAt n key).isSome) :
    (m key).isSome := by
  rw [RefMap.liveAt, seen] at h
  cases hkey : m key with
  | none =>
    rw [hkey] at h
    contradiction
  | some entry => rfl

theorem Holds.later (h : Holds keys now m own) {later : ℕ} (hle : now ≤ later) :
    Holds keys later m own where
  finite := by
    apply h.finite.subset
    intro key hkey
    apply isSome_of_liveAt (n := later)
    rw [← liveAt_later hle]
    exact hkey
  same key hkey := by
    rw [liveAt_later hle, liveAt_later hle own]
    exact congrArg (Option.filter _) (h.same key hkey)
  others := h.others

/-- What is live of `own` is live of `m`. -/
theorem Holds.sub (h : Holds keys now m own) (key : String) :
    own.liveAt now key = none ∨ own.liveAt now key = m.liveAt now key := by
  cases hkey : keys key with
  | true => exact Or.inr (h.same key hkey).symm
  | false =>
    left
    rw [RefMap.liveAt, seen, h.others key hkey]
    rfl

theorem Holds.live_sub (h : Holds keys now m own) {key : String}
    (hlive : (own.liveAt now key).isSome) : (m.liveAt now key).isSome := by
  rcases h.sub key with hnone | hsame
  · rw [hnone] at hlive
    contradiction
  · rwa [hsame] at hlive

theorem Holds.liveKeys_le (h : Holds keys now m own) : own.liveKeys now ≤ m.liveKeys now := by
  apply Set.ncard_le_ncard _ h.finite
  intro key hkey
  exact h.live_sub hkey

theorem Holds.otherBytes_le (h : Holds keys now m own) (p : Platform) (key : String) :
    own.otherBytes p now key ≤ m.otherBytes p now key := by
  have hsupport (r : RefMap) (hr : ∀ k, (r.liveAt now k).isSome → (m.liveAt now k).isSome) :
      (fun k => if k = key then 0 else (r.liveAt now k).elim 0
        (fun e => k.utf8ByteSize + e.value.compactLen p.floatText)).HasFiniteSupport := by
    apply h.finite.subset
    intro k hk
    apply hr k
    cases hlive : r.liveAt now k with
    | none => simp [hlive] at hk
    | some entry => rfl
  apply finsum_le_finsum' (hsupport own fun k => h.live_sub) (hsupport m fun k hk => hk)
  intro k
  show (if k = key then 0 else _) ≤ if k = key then 0 else _
  by_cases hk : k = key
  · rw [if_pos hk, if_pos hk]
  · rw [if_neg hk, if_neg hk]
    rcases h.sub k with hnone | hsame
    · rw [hnone]
      exact Nat.zero_le _
    · rw [hsame]

/-- With fewer keys there is no less room. -/
theorem Holds.full (h : Holds keys now m own) {key : String} (hkey : keys key = true)
    {value : Json} (hfull : own.Full p now key value) : m.Full p now key value := by
  rcases hfull with ⟨hnone, hmany⟩ | hbytes
  · exact Or.inl ⟨(h.same key hkey).trans hnone, hmany.trans h.liveKeys_le⟩
  · have hle := h.otherBytes_le p key
    exact Or.inr (by omega)

theorem finite_update (h : {key | (m.liveAt now key).isSome}.Finite) (key : String)
    (entry : Option RefEntry) :
    {k | (RefMap.liveAt (Function.update m key entry) now k).isSome}.Finite := by
  apply (h.insert key).subset
  intro k hk
  by_cases heq : k = key
  · exact Or.inl heq
  · right
    have hlive : (RefMap.liveAt (Function.update m key entry) now k).isSome := hk
    rwa [update_liveAt, Function.update_of_ne heq] at hlive

theorem Holds.update (h : Holds keys now m own) {key : String} (hkey : keys key = true)
    (entry : Option RefEntry) :
    Holds keys now (Function.update m key entry) (Function.update own key entry) where
  finite := finite_update h.finite key entry
  same k hk := by
    rw [update_liveAt, update_liveAt]
    by_cases heq : k = key
    · subst heq
      rw [Function.update_self, Function.update_self]
    · rw [Function.update_of_ne heq, Function.update_of_ne heq, h.same k hk]
  others k hk := by
    have hne : k ≠ key := by
      intro heq
      rw [heq, hkey] at hk
      contradiction
    rw [Function.update_of_ne hne, h.others k hk]

theorem Holds.update_other (h : Holds keys now m own) {key : String} (hkey : keys key = false)
    (entry : Option RefEntry) : Holds keys now (Function.update m key entry) own where
  finite := finite_update h.finite key entry
  same k hk := by
    have hne : k ≠ key := by
      intro heq
      rw [heq, hkey] at hk
      contradiction
    rw [update_liveAt, Function.update_of_ne hne, h.same k hk]
  others := h.others

end Maps

section Calls

variable {p : Platform} {keys : String → Bool} {m own : RefMap}

/-- A call changes no entry, or that of its key. -/
theorem call_update (p : Platform) (m : RefMap) (c : Call) :
    (m.call p c).1 = m ∨ ∃ entry, (m.call p c).1 = Function.update m c.op.key entry := by
  obtain ⟨now, op⟩ := c
  have hwrite : ∀ key value ttl answer,
      (m.write p now key value ttl answer).1 = m ∨
        ∃ entry, (m.write p now key value ttl answer).1 = Function.update m key entry := by
    intro key value ttl answer
    rcases write_cases p m now key value ttl answer with ⟨error, hrefused⟩ | hwritten
    · exact Or.inl (congrArg Prod.fst hrefused)
    · exact Or.inr ⟨_, congrArg Prod.fst hwritten⟩
  cases op with
  | get key =>
    left
    simp only [RefMap.call]
    split <;> rfl
  | take key =>
    simp only [RefMap.call]
    split
    · exact Or.inl rfl
    · cases m.liveAt now key with
      | none => exact Or.inl rfl
      | some entry => exact Or.inr ⟨none, rfl⟩
  | set key value ttl =>
    simp only [RefMap.call]
    split
    · exact Or.inl rfl
    · exact hwrite key value ttl .done
  | setIfAbsent key value ttl =>
    simp only [RefMap.call]
    split
    · exact Or.inl rfl
    · cases m.liveAt now key with
      | none => exact hwrite key value ttl (.stored true)
      | some entry => exact Or.inl rfl

theorem Holds.write {now : ℕ} (h : Holds keys now m own) {key : String}
    (hkey : keys key = true) (value : Json) (ttl : Option ℕ) (answer : Answer) :
    (m.write p now key value ttl answer).2 = .error .capacityExceeded ∨
      (m.write p now key value ttl answer).2 = (own.write p now key value ttl answer).2 ∧
        Holds keys now (m.write p now key value ttl answer).1
          (own.write p now key value ttl answer).1 := by
  by_cases hfull : m.Full p now key value
  · left
    rw [RefMap.write, if_pos hfull]
  · right
    rw [RefMap.write, RefMap.write, if_neg hfull, if_neg fun hown => hfull (h.full hkey hown)]
    cases RefMap.expiry p now ttl with
    | none => exact ⟨rfl, h⟩
    | some expiresAt => exact ⟨rfl, h.update hkey _⟩

/-- A call on one of the keys is answered from these keys alone, unless there is no room. -/
theorem Holds.call {c : Call} (h : Holds keys c.now m own) (hkey : keys c.op.key = true) :
    (m.call p c).2 = .error .capacityExceeded ∨
      (m.call p c).2 = (own.call p c).2 ∧ Holds keys c.now (m.call p c).1 (own.call p c).1 := by
  obtain ⟨now, op⟩ := c
  cases op with
  | get key =>
    right
    simp only [RefMap.call]
    by_cases hbad : BadKey key
    · rw [if_pos hbad, if_pos hbad]
      exact ⟨rfl, h⟩
    · rw [if_neg hbad, if_neg hbad, h.same key hkey]
      exact ⟨rfl, h⟩
  | take key =>
    right
    simp only [RefMap.call]
    by_cases hbad : BadKey key
    · rw [if_pos hbad, if_pos hbad]
      exact ⟨rfl, h⟩
    · rw [if_neg hbad, if_neg hbad, h.same key hkey]
      cases own.liveAt now key with
      | none => exact ⟨rfl, h⟩
      | some entry => exact ⟨rfl, h.update hkey none⟩
  | set key value ttl =>
    simp only [RefMap.call]
    by_cases hbad : BadWrite p key value ttl
    · rw [if_pos hbad, if_pos hbad]
      exact Or.inr ⟨rfl, h⟩
    · rw [if_neg hbad, if_neg hbad]
      exact h.write hkey value ttl .done
  | setIfAbsent key value ttl =>
    simp only [RefMap.call]
    by_cases hbad : BadWrite p key value ttl
    · rw [if_pos hbad, if_pos hbad]
      exact Or.inr ⟨rfl, h⟩
    · rw [if_neg hbad, if_neg hbad, h.same key hkey]
      cases own.liveAt now key with
      | none => exact h.write hkey value ttl (.stored true)
      | some entry => exact Or.inr ⟨rfl, h⟩

theorem serve_simulates_part (p : Platform) (keys : String → Bool) :
    PartialSimulation HostCall.now (RefMap.serve p) (RefMap.serve p) (HostCall.concerns keys)
      OutOfRoom (Holds keys) := by
  intro t m own c h hle
  have hnow := h.later hle
  unfold HostCall.concerns RefMap.serve
  cases hop : stateOp c.payload with
  | none => exact ⟨fun _ => hnow, fun hkey => by contradiction⟩
  | some op =>
    simp only [Option.any_some]
    constructor
    · intro hkey
      rcases call_update p m ⟨c.now, op⟩ with hsame | ⟨entry, hentry⟩
      · rw [hsame]
        exact hnow
      · rw [hentry]
        exact hnow.update_other hkey entry
    · intro hkey
      rcases Holds.call (c := ⟨c.now, op⟩) hnow hkey with hroom | ⟨hreply, hnext⟩
      · exact Or.inl (congrArg replyJson hroom)
      · exact Or.inr ⟨congrArg replyJson hreply, hnext⟩

theorem empty_holds (keys : String → Bool) : Holds keys 0 RefMap.empty RefMap.empty where
  finite := by
    apply Set.finite_empty.subset
    intro key hkey
    exact absurd (isSome_of_liveAt hkey) (by simp [RefMap.empty])
  same _ _ := rfl
  others _ _ := rfl

/-- Whatever the workers do on other keys, the calls on these keys are answered as if they
were the only ones, up to a write for which the others left no room. -/
theorem other_keys_unseen (p : Platform) (keys : String → Bool) (calls : List HostCall)
    (hclock : Forward HostCall.now calls) :
    AgreeUntil (fun e => OutOfRoom e.2)
      ((history (SharedState.serve p) newSharedState calls).filter fun e => e.1.concerns keys)
      (history (SharedState.serve p) newSharedState (calls.filter (HostCall.concerns keys))) := by
  rw [serve_history_eq p calls hclock, serve_history_eq p _ (hclock.filter _)]
  exact (serve_simulates_part p keys).agreeUntil 0 _ _ (empty_holds keys) calls
    (fun _ _ => Nat.zero_le _) hclock

/-- Two workers write and take under a key of their own. -/
theorem other_keys_unseen_two :
    let set (worker : ℕ) (key : String) : HostCall := ⟨worker, 5, .object [("key", .string key),
      ("op", .string "set"), ("value", .null)]⟩
    let take (worker : ℕ) (key : String) : HostCall := ⟨worker, 7, .object [("key", .string key),
      ("op", .string "take")]⟩
    (history (SharedState.serve ⟨fun _ => "0.0", 1000⟩) newSharedState
        [set 1 "a", set 2 "b", take 2 "b", take 1 "a"]).filter
          (fun e => e.1.concerns (· == "a")) =
      history (SharedState.serve ⟨fun _ => "0.0", 1000⟩) newSharedState
        [set 1 "a", take 1 "a"] := by
  intro set take
  have hagree := other_keys_unseen ⟨fun _ => "0.0", 1000⟩ (· == "a")
    [set 1 "a", set 2 "b", take 2 "b", take 1 "a"] (by simp [Forward, set, take])
  apply hagree.eq
  have hanswers : (history (SharedState.serve ⟨fun _ => "0.0", 1000⟩) newSharedState
      [set 1 "a", set 2 "b", take 2 "b", take 1 "a"]).filter (fun e => e.1.concerns (· == "a")) =
        [(set 1 "a", setJson (.ok ())), (take 1 "a", readJson (.ok (some .null)))] := rfl
  rw [hanswers]
  simp [OutOfRoom, setJson, readJson, stateErrorJson]

end Calls

end StuntDouble.State
