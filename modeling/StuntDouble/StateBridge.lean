import StuntDouble.StateReference

/-!
The state bridge: worker payloads in, JSON replies out, one atomic step each
under the mutex of the shared store. A run is any list of host calls of any
number of workers, which covers every interleaving. The guarantees on one-time
values are stated on the history of payloads and replies alone.
-/
namespace StuntDouble.State

open ExpiringMaps Machine

/-- The store behind its mutex; a panic while it is held would poison it. -/
structure SharedState where
  store : Store
  poisoned : Bool

def newSharedState : SharedState := ⟨new, false⟩

def stateErrorJson (error : StateError) : Json :=
  .object [("code", .string error.code), ("message", .string error.code), ("ok", .bool false)]

def parseStateTtl (payload : Json) : Except StateError (Option ℕ) :=
  match payload.get "ttl_ms" with
  | none => .ok none
  | some ttl =>
    match ttl.asU64.filter (fun ttlMs => decide (0 < ttlMs ∧ ttlMs ≤ maxTtlMs)) with
    | none => .error .invalidInput
    | some ttlMs => .ok (some (nanosOfMillis ttlMs))

def readJson : Except StateError (Option Json) → Json
  | .ok (some value) => .object [("found", .bool true), ("ok", .bool true), ("value", value)]
  | .ok none => .object [("found", .bool false), ("ok", .bool true)]
  | .error error => stateErrorJson error

def setJson : Except StateError Unit → Json
  | .ok () => .object [("ok", .bool true)]
  | .error error => stateErrorJson error

def storedJson : Except StateError Bool → Json
  | .ok stored => .object [("ok", .bool true), ("stored", .bool stored)]
  | .error error => stateErrorJson error

def dispatchState (p : Platform) (shared : SharedState) (now : ℕ) (payload : Json) :
    SharedState × Json :=
  match (payload.get "op").bind Json.asStr with
  | none => (shared, stateErrorJson .invalidInput)
  | some operation =>
    match (payload.get "key").bind Json.asStr with
    | none => (shared, stateErrorJson .invalidInput)
    | some key =>
      match parseStateTtl payload with
      | .error error => (shared, stateErrorJson error)
      | .ok ttl =>
        match shared.poisoned with
        | true => (shared, stateErrorJson .internal)
        | false =>
          if operation = "get" then
            match shared.store.get now key with
            | (store, result) => (⟨store, false⟩, readJson result)
          else if operation = "set" then
            match payload.get "value" with
            | none => (shared, stateErrorJson .invalidInput)
            | some value =>
              match shared.store.set p now key value ttl with
              | (store, result) => (⟨store, false⟩, setJson result)
          else if operation = "take" then
            match shared.store.take now key with
            | (store, result) => (⟨store, false⟩, readJson result)
          else if operation = "setIfAbsent" then
            match payload.get "value" with
            | none => (shared, stateErrorJson .invalidInput)
            | some value =>
              match shared.store.setIfAbsent p now key value ttl with
              | (store, result) => (⟨store, false⟩, storedJson result)
          else (shared, stateErrorJson .invalidInput)

/-- A host call of a worker, at the reading it makes of the clock. -/
structure HostCall where
  worker : ℕ
  now : ℕ
  payload : Json

def SharedState.serve (p : Platform) (shared : SharedState) (c : HostCall) :
    SharedState × Json := dispatchState p shared c.now c.payload

section Decoding

/-- The operation a payload asks for, if it is one. -/
def stateOp (payload : Json) : Option Op :=
  match (payload.get "op").bind Json.asStr, (payload.get "key").bind Json.asStr,
      parseStateTtl payload with
  | some operation, some key, .ok ttl =>
    if operation = "get" then some (.get key)
    else if operation = "set" then (payload.get "value").map (fun value => .set key value ttl)
    else if operation = "take" then some (.take key)
    else if operation = "setIfAbsent" then
      (payload.get "value").map (fun value => .setIfAbsent key value ttl)
    else none
  | _, _, _ => none

def replyJson : Reply → Json
  | .ok (.found value) => readJson (.ok value)
  | .ok .done => setJson (.ok ())
  | .ok (.stored stored) => storedJson (.ok stored)
  | .error error => stateErrorJson error

@[simp] theorem stateErrorJson_ok (e : StateError) :
    ((stateErrorJson e).get "ok").bind Json.asBool = some false := rfl

@[simp] theorem stateErrorJson_stored (e : StateError) : (stateErrorJson e).get "stored" = none :=
  rfl

@[simp] theorem stateErrorJson_found (e : StateError) : (stateErrorJson e).get "found" = none :=
  rfl

@[simp] theorem setJson_ok : ((setJson (.ok ())).get "ok").bind Json.asBool = some true := rfl

@[simp] theorem storedJson_stored (stored : Bool) :
    ((storedJson (.ok stored)).get "stored").bind Json.asBool = some stored := rfl

@[simp] theorem readJson_found (value : Option Json) :
    ((readJson (.ok value)).get "found").bind Json.asBool = some value.isSome := by
  cases value <;> rfl

@[simp] theorem readJson_value (value : Option Json) :
    (readJson (.ok value)).get "value" = value := by
  cases value <;> rfl

/-- A host call that is no operation is refused; any other is one call of the store. -/
theorem dispatchState_eq (p : Platform) (s : Store) (now : ℕ) (payload : Json) :
    dispatchState p ⟨s, false⟩ now payload =
      match stateOp payload with
      | none => (⟨s, false⟩, stateErrorJson .invalidInput)
      | some op => (⟨(s.call p ⟨now, op⟩).1, false⟩, replyJson (s.call p ⟨now, op⟩).2) := by
  have hread : ∀ r : Except StateError (Option Json),
      readJson r = replyJson (r.map Answer.found) := by
    rintro (e | value) <;> rfl
  have hset : ∀ r : Except StateError Unit,
      setJson r = replyJson (r.map fun _ => Answer.done) := by
    rintro (e | value) <;> rfl
  have hstored : ∀ r : Except StateError Bool,
      storedJson r = replyJson (r.map Answer.stored) := by
    rintro (e | value) <;> rfl
  have hinvalid : ∀ e, parseStateTtl payload = .error e → e = .invalidInput := by
    intro e he
    unfold parseStateTtl at he
    split at he
    · contradiction
    · split at he
      · exact (Except.error.inj he).symm
      · contradiction
  unfold dispatchState stateOp
  cases (payload.get "op").bind Json.asStr with
  | none => rfl
  | some operation =>
    cases (payload.get "key").bind Json.asStr with
    | none => rfl
    | some key =>
      cases httl : parseStateTtl payload with
      | error e =>
        rw [hinvalid e httl]
      | ok ttl =>
        simp only
        split
        · simp only [Store.call, hread]
        · split
          · cases payload.get "value" with
            | none => rfl
            | some value => simp only [Option.map_some, Store.call, hset]
          · split
            · simp only [Store.call, hread]
            · split
              · cases payload.get "value" with
                | none => rfl
                | some value => simp only [Option.map_some, Store.call, hstored]
              · rfl

/-- The bridge over the reference map. -/
noncomputable def RefMap.serve (p : Platform) (m : RefMap) (c : HostCall) : RefMap × Json :=
  match stateOp c.payload with
  | none => (m, stateErrorJson .invalidInput)
  | some op => ((m.call p ⟨c.now, op⟩).1, replyJson (m.call p ⟨c.now, op⟩).2)

theorem serve_simulates (p : Platform) :
    TimedSimulation HostCall.now (SharedState.serve p) (RefMap.serve p)
      (fun now shared m => shared.poisoned = false ∧ Refines p now shared.store m) := by
  rintro t ⟨s, poisoned⟩ m c ⟨rfl, hrel⟩ hle
  simp only [SharedState.serve, dispatchState_eq, RefMap.serve]
  cases stateOp c.payload with
  | none => exact ⟨rfl, rfl, hrel.1, hrel.2.later hle⟩
  | some op =>
    have hagrees := call_agrees hrel.1 ⟨c.now, op⟩ (hrel.2.later hle)
    exact ⟨congrArg replyJson hagrees.reply_eq, rfl, hagrees.wellFormed, hagrees.shows⟩

theorem serve_history_eq (p : Platform) (calls : List HostCall)
    (hclock : Forward HostCall.now calls) :
    history (SharedState.serve p) newSharedState calls =
      history (RefMap.serve p) RefMap.empty calls :=
  (serve_simulates p).history_eq 0 newSharedState RefMap.empty ⟨rfl, new_refines p 0⟩ calls
    (fun c _ => Nat.zero_le c.now) hclock

end Decoding

section OneTimeValues

/-- A write that succeeded. -/
structure Write where
  value : Json
  time : ℕ
  ttl : Option ℕ

def Write.entry (w : Write) : RefEntry := ⟨w.value, w.ttl.map (w.time + ·)⟩

/-- The write of a key that a host call made, judging by the reply to it. -/
def writeOf (key : String) (e : HostCall × Json) : Option Write :=
  match stateOp e.1.payload with
  | some (.set k value ttl) =>
    if k = key ∧ (e.2.get "ok").bind Json.asBool = some true then some ⟨value, e.1.now, ttl⟩
    else none
  | some (.setIfAbsent k value ttl) =>
    if k = key ∧ (e.2.get "stored").bind Json.asBool = some true then
      some ⟨value, e.1.now, ttl⟩
    else none
  | _ => none

/-- The value of a key that a host call took out, judging by the reply to it. -/
def takenOf (key : String) (e : HostCall × Json) : Option Json :=
  match stateOp e.1.payload with
  | some (.take k) =>
    if k = key ∧ (e.2.get "found").bind Json.asBool = some true then e.2.get "value" else none
  | _ => none

/-- The latest write of a key, with the events after it. -/
def latest (key : String) : List (HostCall × Json) → Option (Write × List (HostCall × Json))
  | [] => none
  | e :: rest => (latest key rest).or ((writeOf key e).map (fun w => (w, rest)))

theorem latest_eq_none (key : String) (events : List (HostCall × Json)) :
    latest key events = none ↔ ∀ x ∈ events, writeOf key x = none := by
  induction events with
  | nil => simp [latest]
  | cons e rest ih => simp [latest, ih, and_comm]

theorem latest_eq_some (key : String) (events after : List (HostCall × Json)) (w : Write)
    (h : latest key events = some (w, after)) :
    ∃ before e, events = before ++ e :: after ∧ writeOf key e = some w ∧
      ∀ x ∈ after, writeOf key x = none := by
  induction events with
  | nil => contradiction
  | cons e rest ih =>
    simp only [latest, Option.or_eq_some_iff, Option.map_eq_some_iff, Prod.mk.injEq] at h
    rcases h with h | ⟨hrest, w', hw, rfl, rfl⟩
    · obtain ⟨before, e', rfl, hrest⟩ := ih h
      exact ⟨e :: before, e', rfl, hrest⟩
    · exact ⟨[], e, rfl, hw, (latest_eq_none key rest).mp hrest⟩

theorem latest_append (key : String) (xs ys : List (HostCall × Json)) :
    latest key (xs ++ ys) =
      (latest key ys).or ((latest key xs).map (fun x => (x.1, x.2 ++ ys))) := by
  induction xs with
  | nil => simp [latest]
  | cons e rest ih =>
    rw [List.cons_append, latest, ih, latest, Option.or_assoc]
    congr 1
    cases latest key rest with
    | some x => rfl
    | none => cases writeOf key e <;> rfl

/-- The latest write of a key, unless it has been taken since. -/
def standing (key : String) (events : List (HostCall × Json)) : Option Write :=
  match latest key events with
  | none => none
  | some (w, after) => if after.any (fun x => (takenOf key x).isSome) then none else some w

theorem standing_eq_some (key : String) (events : List (HostCall × Json)) (w : Write) :
    standing key events = some w ↔
      ∃ after, latest key events = some (w, after) ∧ ∀ x ∈ after, takenOf key x = none := by
  unfold standing
  cases latest key events with
  | none => simp
  | some found =>
    obtain ⟨w', after⟩ := found
    cases htaken : after.any (fun x => (takenOf key x).isSome) with
    | true =>
      obtain ⟨x, hx, hsome⟩ := List.any_eq_true.mp htaken
      simp only [htaken, if_true, reduceCtorEq, Option.some.injEq, Prod.mk.injEq, false_iff]
      rintro ⟨_, ⟨rfl, rfl⟩, hnone⟩
      rw [hnone x hx] at hsome
      contradiction
    | false =>
      have hnone : ∀ x ∈ after, takenOf key x = none := by
        simpa using htaken
      simp only [htaken, Bool.false_eq_true, if_false, Option.some.injEq, Prod.mk.injEq]
      constructor
      · rintro rfl
        exact ⟨after, ⟨rfl, rfl⟩, hnone⟩
      · rintro ⟨_, ⟨rfl, -⟩, -⟩
        rfl

theorem standing_append (key : String) (events : List (HostCall × Json)) (e : HostCall × Json) :
    standing key (events ++ [e]) =
      match writeOf key e with
      | some w => some w
      | none => if (takenOf key e).isSome then none else standing key events := by
  unfold standing
  rw [latest_append]
  cases hw : writeOf key e with
  | some w => simp [latest, hw]
  | none =>
    simp only [latest, hw, Option.map_none, Option.or_none, Option.none_or]
    cases latest key events with
    | none => simp
    | some found => cases htaken : (takenOf key e).isSome <;> simp [htaken, -List.any_eq_true]

/-- A write to the reference is refused, or leaves the new entry. -/
theorem write_cases (p : Platform) (m : RefMap) (now : ℕ) (key : String) (value : Json)
    (ttl : Option ℕ) (answer : Answer) :
    (∃ e, m.write p now key value ttl answer = (m, .error e)) ∨
      m.write p now key value ttl answer =
        (Function.update m key (some (Write.entry ⟨value, now, ttl⟩)), .ok answer) := by
  unfold RefMap.write
  split
  · exact Or.inl ⟨_, rfl⟩
  · cases ttl with
    | none => exact Or.inr rfl
    | some t =>
      by_cases hfits : now + t ≤ p.instantMax
      · exact Or.inr (by simp [RefMap.expiry, hfits, Write.entry])
      · exact Or.inl ⟨_, by simp [RefMap.expiry, hfits]; rfl⟩

/-- One host call changes the reference as the event it leaves behind says. -/
theorem serve_entry (p : Platform) (m : RefMap) (c : HostCall) (key : String) :
    (m.serve p c).1 key =
      match writeOf key (c, (m.serve p c).2) with
      | some w => some w.entry
      | none => if (takenOf key (c, (m.serve p c).2)).isSome then none else m key := by
  unfold RefMap.serve writeOf takenOf
  cases hop : stateOp c.payload with
  | none => rfl
  | some op =>
    cases op with
    | get k =>
      simp only [RefMap.call]
      split <;> rfl
    | take k =>
      simp only [RefMap.call]
      by_cases hbad : BadKey k
      · simp [hbad, replyJson]
      · simp only [if_neg hbad]
        cases hlive : m.liveAt c.now k with
        | none => simp [replyJson]
        | some e =>
          by_cases hk : k = key
          · subst k
            simp [replyJson]
          · simp [hk, Function.update_of_ne (Ne.symm hk)]
    | set k value ttl =>
      simp only [RefMap.call]
      by_cases hbad : BadWrite p k value ttl
      · simp [hbad, replyJson]
      · simp only [if_neg hbad]
        rcases write_cases p m c.now k value ttl .done with ⟨e, hwrite⟩ | hwrite
        · simp [hwrite, replyJson]
        · by_cases hk : k = key
          · subst k
            simp [hwrite, replyJson]
          · simp [hwrite, hk, Function.update_of_ne (Ne.symm hk)]
    | setIfAbsent k value ttl =>
      simp only [RefMap.call]
      by_cases hbad : BadWrite p k value ttl
      · simp [hbad, replyJson]
      · simp only [if_neg hbad]
        cases hlive : m.liveAt c.now k with
        | some entry => simp [replyJson]
        | none =>
          simp only
          rcases write_cases p m c.now k value ttl (.stored true) with ⟨e, hwrite⟩ | hwrite
          · simp [hwrite, replyJson]
          · by_cases hk : k = key
            · subst k
              simp [hwrite, replyJson]
            · simp [hwrite, hk, Function.update_of_ne (Ne.symm hk)]

/-- The reference holds, for every key, the latest write that has not been taken. -/
theorem serve_standing (p : Platform) (calls : List HostCall) (key : String) :
    final (RefMap.serve p) RefMap.empty calls key =
      (standing key (history (RefMap.serve p) RefMap.empty calls)).map Write.entry := by
  apply history_invariant (RefMap.serve p)
    (fun events m => m key = (standing key events).map Write.entry)
  · intro past m c h
    rw [standing_append, serve_entry, h]
    cases writeOf key (c, (RefMap.serve p m c).2) with
    | some w => rfl
    | none =>
      simp only
      split <;> rfl
  · rfl

/-- The latest write of a key that a call at an instant can still see. -/
def offered (key : String) (now : ℕ) (events : List (HostCall × Json)) : Option Write :=
  (standing key events).filter (fun w => live RefEntry.expiresAt now w.entry)

theorem offered_eq_some (key : String) (now : ℕ) (events : List (HostCall × Json)) (w : Write) :
    offered key now events = some w ↔
      ∃ after, latest key events = some (w, after) ∧ (∀ x ∈ after, takenOf key x = none) ∧
        ∀ t, w.ttl = some t → now < w.time + t := by
  have hlive : live RefEntry.expiresAt now w.entry = true ↔
      ∀ t, w.ttl = some t → now < w.time + t := by
    cases httl : w.ttl with
    | none => simp [live, Write.entry, httl]
    | some t => simp [live, Write.entry, httl]
  rw [offered, Option.filter_eq_some_iff, standing_eq_some, hlive]
  constructor
  · rintro ⟨⟨after, hlatest, huntaken⟩, hin⟩
    exact ⟨after, hlatest, huntaken, hin⟩
  · rintro ⟨after, hlatest, huntaken, hin⟩
    exact ⟨⟨after, hlatest, huntaken⟩, hin⟩

theorem offered_eq_none (key : String) (now : ℕ) (events : List (HostCall × Json)) :
    offered key now events = none ↔
      match latest key events with
      | none => True
      | some (w, after) =>
        (∃ x ∈ after, (takenOf key x).isSome) ∨ ∃ t, w.ttl = some t ∧ w.time + t ≤ now := by
  rw [Option.eq_none_iff_forall_ne_some]
  simp only [ne_eq, offered_eq_some]
  cases latest key events with
  | none => simp
  | some found =>
    obtain ⟨w, after⟩ := found
    simp only [Option.some.injEq, Prod.mk.injEq]
    constructor
    · intro h
      by_cases htaken : ∃ x ∈ after, (takenOf key x).isSome
      · exact Or.inl htaken
      · refine Or.inr ?_
        by_contra hin
        refine h w ⟨after, ⟨rfl, rfl⟩, ?_, ?_⟩
        · intro x hx
          exact Option.not_isSome_iff_eq_none.mp (fun hsome => htaken ⟨x, hx, hsome⟩)
        · intro t ht
          exact not_le.mp (fun hle => hin ⟨t, ht, hle⟩)
    · rintro h w' ⟨after', ⟨rfl, rfl⟩, huntaken, hin⟩
      rcases h with ⟨x, hx, hsome⟩ | ⟨t, ht, hle⟩
      · rw [huntaken x hx] at hsome
        contradiction
      · exact absurd (hin t ht) (not_lt.mpr hle)

/-- A write to the reference is refused for its capacity, or its expiry is not
representable, or it succeeds. -/
theorem write_refused (p : Platform) (m : RefMap) (now : ℕ) (key : String) (value : Json)
    (ttl : Option ℕ) (answer : Answer) (hfits : ∀ t, ttl = some t → now + t ≤ p.instantMax) :
    (m.write p now key value ttl answer).2 = .error .capacityExceeded ∨
      (m.write p now key value ttl answer).2 = .ok answer := by
  unfold RefMap.write
  split
  · exact Or.inl rfl
  · cases ttl with
    | none => exact Or.inr rfl
    | some t => exact Or.inr (by simp [RefMap.expiry, hfits t rfl])

/-- At each point of a history the reply is the reference's, whose live entries
are the writes still offered. -/
theorem serve_point (p : Platform) (calls : List HostCall) (hclock : Forward HostCall.now calls)
    (past future : List (HostCall × Json)) (e : HostCall × Json)
    (h : history (SharedState.serve p) newSharedState calls = past ++ e :: future) :
    ∃ m : RefMap, e.2 = (m.serve p e.1).2 ∧
      ∀ key, m.liveAt e.1.now key = (offered key e.1.now past).map Write.entry := by
  rw [serve_history_eq p calls hclock] at h
  obtain ⟨before, after, -, hpast, hanswer⟩ := history_split _ _ _ _ _ _ h
  refine ⟨_, hanswer, ?_⟩
  intro key
  rw [RefMap.liveAt, seen, serve_standing, ← hpast, offered]
  cases standing key past with
  | none => rfl
  | some w => cases hlive : live RefEntry.expiresAt e.1.now w.entry <;> simp [Option.filter, hlive]

theorem takenOf_eq_some (key : String) (e : HostCall × Json) (value : Json)
    (h : takenOf key e = some value) :
    stateOp e.1.payload = some (.take key) ∧
      (e.2.get "found").bind Json.asBool = some true ∧ e.2.get "value" = some value := by
  unfold takenOf at h
  split at h
  · rename_i k hop
    split at h
    · rename_i hcond
      obtain ⟨rfl, hfound⟩ := hcond
      exact ⟨hop, hfound, h⟩
    · contradiction
  · contradiction

/-- A read of the reference on a usable key answers with the offered write. -/
theorem serve_read (p : Platform) (m : RefMap) (c : HostCall) (key : String)
    (hop : stateOp c.payload = some (.get key) ∨ stateOp c.payload = some (.take key))
    (hkey : ¬ BadKey key) :
    (m.serve p c).2 = readJson (.ok ((m.liveAt c.now key).map RefEntry.value)) := by
  unfold RefMap.serve
  rcases hop with hop | hop
  · simp only [hop, RefMap.call, if_neg hkey, replyJson]
  · simp only [hop, RefMap.call, if_neg hkey]
    cases m.liveAt c.now key <;> rfl

section Point

variable {p : Platform} {m : RefMap} {key : String} {past : List (HostCall × Json)}
  {e : HostCall × Json}

/-- A read answers with the write that is offered to it. -/
theorem reply_read (hreply : e.2 = (m.serve p e.1).2)
    (hlive : m.liveAt e.1.now key = (offered key e.1.now past).map Write.entry) (value : Json)
    (hop : stateOp e.1.payload = some (.get key) ∨ stateOp e.1.payload = some (.take key))
    (hkey : ¬ BadKey key) :
    ((e.2.get "found").bind Json.asBool = some true ∧ e.2.get "value" = some value ↔
      ∃ w after, latest key past = some (w, after) ∧ w.value = value ∧
        (∀ x ∈ after, takenOf key x = none) ∧ ∀ t, w.ttl = some t → e.1.now < w.time + t) := by
  rw [hreply, serve_read p m e.1 key hop hkey, readJson_found, readJson_value, hlive]
  constructor
  · rintro ⟨-, hvalue⟩
    simp only [Option.map_map, Option.map_eq_some_iff, Function.comp] at hvalue
    obtain ⟨w, hw, hvalue⟩ := hvalue
    obtain ⟨after, hlatest, huntaken, hin⟩ := (offered_eq_some key e.1.now past w).mp hw
    exact ⟨w, after, hlatest, hvalue, huntaken, hin⟩
  · rintro ⟨w, after, hlatest, hvalue, huntaken, hin⟩
    rw [(offered_eq_some key e.1.now past w).mpr ⟨after, hlatest, huntaken, hin⟩]
    simp [Write.entry, hvalue]

/-- A take hands out the value of the latest write, when no take has touched it. -/
theorem reply_taken (hreply : e.2 = (m.serve p e.1).2)
    (hlive : m.liveAt e.1.now key = (offered key e.1.now past).map Write.entry) {value : Json}
    (htaken : takenOf key e = some value) :
    ∃ w after, latest key past = some (w, after) ∧ w.value = value ∧
      ∀ x ∈ after, takenOf key x = none := by
  obtain ⟨hop, hfound, hvalue⟩ := takenOf_eq_some key e value htaken
  have hkey : ¬ BadKey key := by
    intro hbad
    rw [hreply, RefMap.serve, hop] at hfound
    simp [RefMap.call, hbad, replyJson] at hfound
  obtain ⟨w, after, hlatest, hw, huntaken, -⟩ :=
    (reply_read hreply hlive value (Or.inr hop) hkey).mp ⟨hfound, hvalue⟩
  exact ⟨w, after, hlatest, hw, huntaken⟩

/-- A usable write-if-absent is stored exactly when no write is offered to it. -/
theorem reply_stored (hreply : e.2 = (m.serve p e.1).2)
    (hlive : m.liveAt e.1.now key = (offered key e.1.now past).map Write.entry) (value : Json)
    (ttl : Option ℕ) (hop : stateOp e.1.payload = some (.setIfAbsent key value ttl))
    (hgood : ¬ BadWrite p key value ttl)
    (hfits : ∀ t, ttl = some t → e.1.now + t ≤ p.instantMax)
    (hcode : (e.2.get "code").bind Json.asStr ≠ some "state_capacity_exceeded") :
    (e.2.get "stored").bind Json.asBool = some true ↔ offered key e.1.now past = none := by
  rw [hreply, RefMap.serve, hop]
  rw [hreply, RefMap.serve, hop] at hcode
  simp only [RefMap.call, if_neg hgood] at hcode ⊢
  cases hoffered : offered key e.1.now past with
  | some w => simp [hlive, hoffered, replyJson]
  | none =>
    have hnone : m.liveAt e.1.now key = none := by
      rw [hlive, hoffered]
      rfl
    simp only [hnone] at hcode ⊢
    rcases write_refused p m e.1.now key value ttl (.stored true) hfits with hfull | hok
    · rw [hfull] at hcode
      exact absurd rfl hcode
    · simp [hok, replyJson]

/-- A take after the latest write of a key has touched that write. -/
theorem latest_taken {earlier between after : List (HostCall × Json)} {first : HostCall × Json}
    {w : Write} (hlatest : latest key (earlier ++ first :: between) = some (w, after))
    (hfirst : (takenOf key first).isSome = true)
    (hnone : ∀ x ∈ between, writeOf key x = none) : first ∈ after := by
  have hbetween : latest key between = none := (latest_eq_none key between).mpr hnone
  have hfirstWrite : writeOf key first = none := by
    obtain ⟨value, hvalue⟩ := Option.isSome_iff_exists.mp hfirst
    simp only [writeOf, (takenOf_eq_some key first value hvalue).1]
  simp only [latest_append, latest, hbetween, hfirstWrite, Option.map_none, Option.or_none,
    Option.none_or, Option.map_eq_some_iff, Prod.mk.injEq] at hlatest
  obtain ⟨x, -, -, rfl⟩ := hlatest
  simp

end Point

/-- A value handed out by a take is that of the latest write, which no take has
handed out before; two takes of one key are separated by a write of it; a valid
write-if-absent succeeds exactly when no write is offered; and reads report
every offered value as found, whatever it is. -/
theorem one_time_values (p : Platform) (calls : List HostCall)
    (hclock : Forward HostCall.now calls) (key : String)
    (past future : List (HostCall × Json)) (e : HostCall × Json)
    (h : history (SharedState.serve p) newSharedState calls = past ++ e :: future) :
    (∀ value, takenOf key e = some value →
      ∃ before x w after, past = before ++ x :: after ∧ writeOf key x = some w ∧
        w.value = value ∧ ∀ y ∈ after, writeOf key y = none ∧ takenOf key y = none) ∧
    (∀ earlier first between, past = earlier ++ first :: between →
      (takenOf key first).isSome → (takenOf key e).isSome →
        ∃ x ∈ between, (writeOf key x).isSome) ∧
    (∀ value ttl, stateOp e.1.payload = some (.setIfAbsent key value ttl) →
      ¬ BadWrite p key value ttl → (∀ t, ttl = some t → e.1.now + t ≤ p.instantMax) →
      (e.2.get "code").bind Json.asStr ≠ some "state_capacity_exceeded" →
        ((e.2.get "stored").bind Json.asBool = some true ↔
          match latest key past with
          | none => True
          | some (w, after) =>
            (∃ x ∈ after, (takenOf key x).isSome) ∨
              ∃ t, w.ttl = some t ∧ w.time + t ≤ e.1.now)) ∧
    (∀ value, (stateOp e.1.payload = some (.get key) ∨ stateOp e.1.payload = some (.take key)) →
      ¬ BadKey key →
        ((e.2.get "found").bind Json.asBool = some true ∧ e.2.get "value" = some value ↔
          ∃ w after, latest key past = some (w, after) ∧ w.value = value ∧
            (∀ x ∈ after, takenOf key x = none) ∧
              ∀ t, w.ttl = some t → e.1.now < w.time + t)) := by
  obtain ⟨m, hreply, hlive⟩ := serve_point p calls hclock past future e h
  refine ⟨?_, ?_, ?_, fun value => reply_read hreply (hlive key) value⟩
  · intro value hvalue
    obtain ⟨w, after, hlatest, hw, huntaken⟩ := reply_taken hreply (hlive key) hvalue
    obtain ⟨before, x, hpast, hx, hlast⟩ := latest_eq_some key past after w hlatest
    exact ⟨before, x, w, after, hpast, hx, hw, fun y hy => ⟨hlast y hy, huntaken y hy⟩⟩
  · rintro earlier first between rfl hfirst he
    obtain ⟨value, hvalue⟩ := Option.isSome_iff_exists.mp he
    obtain ⟨w, after, hlatest, -, huntaken⟩ := reply_taken hreply (hlive key) hvalue
    by_contra hnone
    have hbetween : ∀ x ∈ between, writeOf key x = none := by
      intro x hx
      exact Option.not_isSome_iff_eq_none.mp (fun hsome => hnone ⟨x, hx, hsome⟩)
    -- The first take lies after the latest write, which no take has touched.
    rw [huntaken first (latest_taken hlatest hfirst hbetween)] at hfirst
    contradiction
  · intro value ttl hop hgood hfits hcode
    rw [← offered_eq_none]
    exact reply_stored hreply (hlive key) value ttl hop hgood hfits hcode

/-- A stored null is handed to the first of two racing workers. -/
theorem one_time_values_null :
    let set : HostCall := ⟨1, 5, .object [("key", .string "k"), ("op", .string "set"),
      ("value", .null)]⟩
    let take : HostCall := ⟨2, 7, .object [("key", .string "k"), ("op", .string "take")]⟩
    takenOf "k" (take, readJson (.ok (some .null))) = some .null ∧
      ∃ before x w after, [(set, setJson (.ok ()))] = before ++ x :: after ∧
        writeOf "k" x = some w ∧ w.value = .null ∧
          ∀ y ∈ after, writeOf "k" y = none ∧ takenOf "k" y = none :=
  ⟨rfl, (one_time_values ⟨fun _ => "0.0", 1000⟩
    [⟨1, 5, .object [("key", .string "k"), ("op", .string "set"), ("value", .null)]⟩,
      ⟨2, 7, .object [("key", .string "k"), ("op", .string "take")]⟩,
      ⟨1, 7, .object [("key", .string "k"), ("op", .string "take")]⟩]
    (by simp [Forward]) "k" [_] [_] (_, _) rfl).1 .null rfl⟩

end OneTimeValues

end StuntDouble.State
