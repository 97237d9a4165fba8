import StuntDouble.SharedChain

/-!
What comes of a shared chain, whatever its holders do: the record of each call stays where it
was begun, each handle writes its record at most once, and what was written last at an index
stays as long as no closure clears it.
-/
namespace StuntDouble.SharedChain

open RequestLog Transitions

section History

variable {T : Type} [LogRecord T]

/-- The index that a begin returned. -/
def Event.slot : Event T → Option ℕ
  | .begun index _ => some index
  | _ => none

/-- What an event did to the record at an index. -/
def Event.effect (index : ℕ) : Event T → T → T
  | .updated other update => if other = index then update else id
  | .finalized _ final => if final.index = index then final.finish.apply final.ms else id
  | _ => id

/-- A record after what was done at its index later. -/
def replay (index : ℕ) (record : T) (later : List (Event T)) : T :=
  later.foldl (fun record event => event.effect index record) record

def Event.ask (k : ℕ) : Event T → Option (Finish T)
  | .asked other finish => if other = k then some finish else none
  | _ => none

def Event.final (k : ℕ) : Event T → Option (Final T)
  | .finalized other final => if other = k then some final else none
  | _ => none

/-- The finishes that have reached the flag of a handle, the first in front. -/
def asks (k : ℕ) (events : List (Event T)) : List (Finish T) := events.filterMap (Event.ask k)

/-- What a handle has written. -/
def finals (k : ℕ) (events : List (Event T)) : List (Final T) := events.filterMap (Event.final k)

def Event.write (index : ℕ) : Event T → Option (ℕ × Final T)
  | .finalized handle final => if final.index = index then some (handle, final) else none
  | _ => none

/-- What the handles have written at an index, and which of them. -/
def writes (index : ℕ) (events : List (Event T)) : List (ℕ × Final T) :=
  events.filterMap (Event.write index)

/-- What a handle is to record: what its first finish asks for, and no bytes without one. -/
def Finish.first (asks : List (Finish T)) : Finish T := asks.head?.getD .abandoned

theorem replay_append (index : ℕ) (record : T) (later : List (Event T)) (event : Event T) :
    replay index record (later ++ [event]) = event.effect index (replay index record later) :=
  List.foldl_append

theorem split_last {α : Type} {front before after : List α} {last x : α}
    (h : front ++ [last] = before ++ x :: after) :
    (before = front ∧ x = last ∧ after = []) ∨
      ∃ rest, after = rest ++ [last] ∧ front = before ++ x :: rest := by
  rcases List.eq_nil_or_concat after with rfl | ⟨rest, tail, rfl⟩
  · obtain ⟨hfront, hlast⟩ := List.append_inj' h rfl
    obtain rfl := List.singleton_inj.mp hlast
    exact Or.inl ⟨hfront.symm, rfl, rfl⟩
  · rw [List.concat_eq_append, ← List.cons_append, ← List.append_assoc] at h
    obtain ⟨hfront, hlast⟩ := List.append_inj' h rfl
    obtain rfl := List.singleton_inj.mp hlast
    exact Or.inr ⟨rest, List.concat_eq_append, hfront⟩

/-- Every record is still where it was begun, changed by what was done at its index. -/
structure Recorded (chain : Chain T) (events : List (Event T)) : Prop where
  slots : events.filterMap Event.slot = List.range chain.length
  record : ∀ before index record after, events = before ++ .begun index record :: after →
    chain[index]? = some (replay index record after)

theorem recorded_start : Recorded (State.start : State T).chain State.start.events :=
  ⟨rfl, by simp [State.start]⟩

variable {chain : Chain T} {events : List (Event T)}

theorem Recorded.begun (h : Recorded chain events) (record : T) :
    Recorded (chain ++ [record]) (events ++ [.begun chain.length record]) := by
  constructor
  · rw [List.filterMap_append, h.slots, List.length_append, List.length_singleton,
      List.range_succ]
    rfl
  · intro before index found after hevents
    rcases split_last hevents with ⟨-, hbegun, rfl⟩ | ⟨rest, rfl, hfront⟩
    · cases hbegun
      exact List.getElem?_concat_length
    · have hget := h.record before index found rest hfront
      have hlt := (List.getElem?_eq_some_iff.mp hget).1
      rw [List.getElem?_append_left hlt, hget, replay_append]
      rfl

theorem Recorded.noted (h : Recorded chain events) {changed : Chain T} (event : Event T)
    (hslot : event.slot = none) (hlength : changed.length = chain.length)
    (hchanged : ∀ index, changed[index]? = chain[index]?.map (event.effect index)) :
    Recorded changed (events ++ [event]) := by
  constructor
  · rw [List.filterMap_append, h.slots, hlength, List.filterMap_cons_none hslot,
      List.filterMap_nil, List.append_nil]
  · intro before index found after hevents
    rcases split_last hevents with ⟨-, rfl, -⟩ | ⟨rest, rfl, hfront⟩
    · cases hslot
    · rw [hchanged, h.record before index found rest hfront, replay_append]
      rfl

theorem Recorded.updated (h : Recorded chain events) (event : Event T) (hslot : event.slot = none)
    (index : ℕ) (update : T → T)
    (heffect : ∀ other, event.effect other = if index = other then update else id) :
    Recorded (chain.update index update) (events ++ [event]) := by
  apply h.noted event hslot (update_length chain index update)
  intro other
  rw [update_get, heffect]
  by_cases hsame : index = other
  · rw [if_pos hsame, if_pos hsame]
  · rw [if_neg hsame, if_neg hsame, Option.map_id, id]

theorem recorded_step {elapsedMs : ℕ → Ms} {s next : State T} {action : Action T}
    (h : Recorded s.chain s.events) (hstep : Stepped elapsedMs s action next) :
    Recorded next.chain next.events := by
  have hasked (k : ℕ) (finish : Finish T) : Recorded s.chain (s.events ++ [.asked k finish]) := by
    apply h.noted _ rfl rfl
    intro index
    exact (congrFun Option.map_id s.chain[index]?).symm
  cases hstep with
  | begun record => exact h.begun record
  | updated index update => exact h.updated _ rfl index update (fun _ => rfl)
  | watched index started => exact h
  | lost k finish handle hget halive hflag => exact hasked k finish
  | won k finish handle hget halive hflag => exact hasked k finish
  | dropped k pending hget hflag => exact h
  | dropping k pending hget hflag => exact h
  | wrote k now pending finish hget => exact h.updated _ rfl pending.index _ (fun _ => rfl)
  | abandoned k now pending hget => exact h.updated _ rfl pending.index _ (fun _ => rfl)

end History

section Handles

variable {T : Type}

/-- What has happened through a handle, by how far it is. -/
def Handle.Traced (handle : Handle T) (asks : List (Finish T)) (finals : List (Final T)) : Prop :=
  match handle.stage with
  | .held =>
    (handle.pending.finished = false ∧ asks = [] ∧ finals = []) ∨
      (handle.pending.finished = true ∧ asks ≠ [] ∧
        ∃ ms, finals = [⟨handle.pending.index, ms, .first asks⟩])
  | .finishing finish =>
    handle.pending.finished = true ∧ asks ≠ [] ∧ Finish.first asks = finish ∧ finals = []
  | .dropping => handle.pending.finished = true ∧ asks = [] ∧ finals = []
  | .gone =>
    handle.pending.finished = true ∧ ∃ ms, finals = [⟨handle.pending.index, ms, .first asks⟩]

structure Traced (handles : List (Handle T)) (events : List (Event T)) : Prop where
  handle : ∀ (k : ℕ) (handle : Handle T), handles[k]? = some handle →
    handle.Traced (asks k events) (finals k events)
  later : ∀ k, handles.length ≤ k → asks k events = [] ∧ finals k events = []

theorem traced_start : Traced (State.start : State T).handles State.start.events :=
  ⟨by simp [State.start], fun _ _ => ⟨rfl, rfl⟩⟩

theorem first_bytes (asks : List (Finish T)) :
    (Finish.first asks).bytes = 0 ↔ ¬ ∃ finish, asks.head? = some finish ∧ finish.bytes ≠ 0 := by
  cases asks with
  | nil => simp [Finish.first, Finish.abandoned]
  | cons finish rest => simp [Finish.first]

theorem first_append {asks : List (Finish T)} (h : asks ≠ []) (finish : Finish T) :
    Finish.first (asks ++ [finish]) = .first asks := by
  obtain ⟨first, rest, rfl⟩ := List.exists_cons_of_ne_nil h
  rfl

/-- Another finish has come, and the flag is set. -/
theorem Handle.Traced.asked {handle : Handle T} {asks : List (Finish T)} {finals : List (Final T)}
    (h : handle.Traced asks finals) (halive : handle.stage.alive = true)
    (hflag : handle.pending.finished = true) (finish : Finish T) :
    handle.Traced (asks ++ [finish]) finals := by
  obtain ⟨pending, stage⟩ := handle
  cases stage with
  | held =>
    rcases h with ⟨hfresh, -⟩ | ⟨-, hasks, ms, hfinals⟩
    · exact absurd hflag (Bool.eq_false_iff.mp hfresh)
    · exact Or.inr ⟨hflag, by simp, ms, by rw [first_append hasks, hfinals]⟩
  | finishing first =>
    obtain ⟨-, hasks, hfirst, hfinals⟩ := h
    exact ⟨hflag, by simp, (first_append hasks finish).trans hfirst, hfinals⟩
  | dropping => cases halive
  | gone => cases halive

/-- A handle whose flag is clear has seen nothing. -/
theorem Handle.Traced.fresh {handle : Handle T} {asks : List (Finish T)} {finals : List (Final T)}
    (h : handle.Traced asks finals) (halive : handle.stage.alive = true)
    (hflag : handle.pending.finished = false) : asks = [] ∧ finals = [] := by
  obtain ⟨pending, stage⟩ := handle
  cases stage with
  | held =>
    rcases h with ⟨-, hnone⟩ | ⟨hset, -⟩
    · exact hnone
    · exact absurd hset (Bool.eq_false_iff.mp hflag)
  | finishing first => exact absurd h.1 (Bool.eq_false_iff.mp hflag)
  | dropping => cases halive
  | gone => cases halive

/-- A handle writes at most once, at its index, what it is to record. -/
theorem Handle.Traced.once {handle : Handle T} {asks : List (Finish T)} {finals : List (Final T)}
    (h : handle.Traced asks finals) :
    finals = [] ∨ ∃ ms, finals = [⟨handle.pending.index, ms, .first asks⟩] := by
  obtain ⟨pending, stage⟩ := handle
  cases stage with
  | held =>
    rcases h with ⟨-, -, hnone⟩ | ⟨-, -, hone⟩
    · exact Or.inl hnone
    · exact Or.inr hone
  | finishing first => exact Or.inl h.2.2.2
  | dropping => exact Or.inl h.2.2
  | gone => exact Or.inr h.2

/-- A handle that is gone has written. -/
theorem Handle.Traced.gone {handle : Handle T} {asks : List (Finish T)} {finals : List (Final T)}
    (h : handle.Traced asks finals) (hgone : handle.stage = .gone) : finals ≠ [] := by
  obtain ⟨pending, stage⟩ := handle
  cases hgone
  obtain ⟨-, ms, hfinals⟩ := h
  rw [hfinals]
  exact List.cons_ne_nil _ _

variable {handles : List (Handle T)} {events : List (Event T)}

theorem Traced.same (h : Traced handles events) {more : List (Event T)}
    (hasks : ∀ k, asks k more = asks k events) (hfinals : ∀ k, finals k more = finals k events) :
    Traced handles more := by
  constructor
  · intro k handle hget
    rw [hasks, hfinals]
    exact h.handle k handle hget
  · intro k hk
    rw [hasks, hfinals]
    exact h.later k hk

theorem Traced.watched (h : Traced handles events) (index started : ℕ) :
    Traced (handles ++ [⟨⟨index, started, false⟩, .held⟩]) events := by
  constructor
  · intro k handle hget
    by_cases hlt : k < handles.length
    · rw [List.getElem?_append_left hlt] at hget
      exact h.handle k handle hget
    · have hbound := (List.getElem?_eq_some_iff.mp hget).1
      rw [List.length_append, List.length_singleton] at hbound
      obtain rfl : k = handles.length := by omega
      rw [List.getElem?_concat_length] at hget
      obtain rfl := Option.some.inj hget
      exact Or.inl ⟨rfl, h.later _ (Nat.le_refl _)⟩
  · intro k hk
    rw [List.length_append, List.length_singleton] at hk
    exact h.later k (by omega)

/-- A step through one handle does not concern the others. -/
theorem Traced.set (h : Traced handles events) {more : List (Event T)} {k : ℕ} {handle : Handle T}
    (hk : k < handles.length) (hasks : ∀ other, other ≠ k → asks other more = asks other events)
    (hfinals : ∀ other, other ≠ k → finals other more = finals other events)
    (hhandle : handle.Traced (asks k more) (finals k more)) :
    Traced (handles.set k handle) more := by
  constructor
  · intro other found hget
    by_cases hsame : other = k
    · subst hsame
      rw [List.getElem?_set_self hk] at hget
      obtain rfl := Option.some.inj hget
      exact hhandle
    · rw [List.getElem?_set_ne (Ne.symm hsame)] at hget
      rw [hasks other hsame, hfinals other hsame]
      exact h.handle other found hget
  · intro other hother
    rw [List.length_set] at hother
    rw [hasks other (by omega), hfinals other (by omega)]
    exact h.later other hother

theorem asks_none {k : ℕ} {event : Event T} (h : event.ask k = none) :
    asks k (events ++ [event]) = asks k events := by
  rw [asks, List.filterMap_append, List.filterMap_cons_none h, List.filterMap_nil,
    List.append_nil, asks]

theorem asks_some {k : ℕ} {event : Event T} {finish : Finish T} (h : event.ask k = some finish) :
    asks k (events ++ [event]) = asks k events ++ [finish] := by
  rw [asks, List.filterMap_append, List.filterMap_cons_some h, List.filterMap_nil, asks]

theorem finals_none {k : ℕ} {event : Event T} (h : event.final k = none) :
    finals k (events ++ [event]) = finals k events := by
  rw [finals, List.filterMap_append, List.filterMap_cons_none h, List.filterMap_nil,
    List.append_nil, finals]

theorem finals_some {k : ℕ} {event : Event T} {final : Final T} (h : event.final k = some final) :
    finals k (events ++ [event]) = finals k events ++ [final] := by
  rw [finals, List.filterMap_append, List.filterMap_cons_some h, List.filterMap_nil, finals]

theorem writes_none {index : ℕ} {event : Event T} (h : event.write index = none)
    (events : List (Event T)) : writes index (events ++ [event]) = writes index events := by
  rw [writes, List.filterMap_append, List.filterMap_cons_none h, List.filterMap_nil,
    List.append_nil, writes]

theorem writes_some {index : ℕ} {event : Event T} {write : ℕ × Final T}
    (h : event.write index = some write) (events : List (Event T)) :
    writes index (events ++ [event]) = writes index events ++ [write] := by
  rw [writes, List.filterMap_append, List.filterMap_cons_some h, List.filterMap_nil, writes]

theorem mem_writes {index handle : ℕ} {final : Final T} {events : List (Event T)} :
    (handle, final) ∈ writes index events ↔
      .finalized handle final ∈ events ∧ final.index = index := by
  simp only [writes, List.mem_filterMap]
  constructor
  · rintro ⟨event, hevent, hwrite⟩
    cases event with
    | finalized other found =>
      rw [Event.write] at hwrite
      split at hwrite
      · rename_i hindex
        cases hwrite
        exact ⟨hevent, hindex⟩
      · cases hwrite
    | _ => cases hwrite
  · rintro ⟨hevent, hindex⟩
    exact ⟨_, hevent, if_pos hindex⟩

theorem mem_finals {handle : ℕ} {final : Final T} {events : List (Event T)} :
    final ∈ finals handle events ↔ .finalized handle final ∈ events := by
  simp only [finals, List.mem_filterMap]
  constructor
  · rintro ⟨event, hevent, hfinal⟩
    cases event with
    | finalized other found =>
      rw [Event.final] at hfinal
      split at hfinal
      · rename_i hsame
        cases hfinal
        exact hsame ▸ hevent
      · cases hfinal
    | _ => cases hfinal
  · intro hevent
    exact ⟨_, hevent, if_pos rfl⟩

theorem Traced.asked (h : Traced handles events) {k : ℕ} {handle : Handle T} {finish : Finish T}
    (hk : k < handles.length)
    (hhandle : handle.Traced (asks k events ++ [finish]) (finals k events)) :
    Traced (handles.set k handle) (events ++ [.asked k finish]) := by
  apply h.set hk
  · intro other hother
    exact asks_none (if_neg (Ne.symm hother))
  · intro other _
    exact finals_none rfl
  · have hask : (Event.asked k finish).ask k = some finish := if_pos rfl
    rw [asks_some hask, finals_none rfl]
    exact hhandle

theorem Traced.finalized (h : Traced handles events) {k : ℕ} {handle : Handle T} {final : Final T}
    (hk : k < handles.length)
    (hhandle : handle.Traced (asks k events) (finals k events ++ [final])) :
    Traced (handles.set k handle) (events ++ [.finalized k final]) := by
  apply h.set hk
  · intro other _
    exact asks_none rfl
  · intro other hother
    exact finals_none (if_neg (Ne.symm hother))
  · have hfinal : (Event.finalized k final).final k = some final := if_pos rfl
    rw [asks_none rfl, finals_some hfinal]
    exact hhandle

theorem traced_step [LogRecord T] {elapsedMs : ℕ → Ms} {s next : State T} {action : Action T}
    (h : Traced s.handles s.events) (hstep : Stepped elapsedMs s action next) :
    Traced next.handles next.events := by
  have hlt {k : ℕ} {handle : Handle T} (hget : s.handles[k]? = some handle) :
      k < s.handles.length := (List.getElem?_eq_some_iff.mp hget).1
  cases hstep with
  | begun record => exact h.same (fun _ => asks_none rfl) (fun _ => finals_none rfl)
  | updated index update => exact h.same (fun _ => asks_none rfl) (fun _ => finals_none rfl)
  | watched index started => exact h.watched index started
  | lost k finish handle hget halive hflag =>
    obtain ⟨hk, rfl⟩ := List.getElem?_eq_some_iff.mp hget
    have hasked := h.asked hk ((h.handle k _ hget).asked halive hflag finish)
    rw [List.set_getElem_self hk] at hasked
    exact hasked
  | won k finish handle hget halive hflag =>
    apply h.asked (hlt hget)
    obtain ⟨hasks, hfinals⟩ := (h.handle k handle hget).fresh halive hflag
    rw [hasks, hfinals]
    exact ⟨rfl, by simp, rfl, rfl⟩
  | dropped k pending hget hflag =>
    apply h.set (hlt hget) (fun _ _ => rfl) (fun _ _ => rfl)
    rcases h.handle k _ hget with ⟨hfresh, -⟩ | ⟨-, -, hfinals⟩
    · exact absurd hflag (Bool.eq_false_iff.mp hfresh)
    · exact ⟨rfl, hfinals⟩
  | dropping k pending hget hflag =>
    apply h.set (hlt hget) (fun _ _ => rfl) (fun _ _ => rfl)
    obtain ⟨hasks, hfinals⟩ := (h.handle k _ hget).fresh rfl hflag
    exact ⟨rfl, hasks, hfinals⟩
  | wrote k now pending finish hget =>
    apply h.finalized (hlt hget)
    obtain ⟨hflag, hasks, hfirst, hfinals⟩ := h.handle k _ hget
    rw [hfinals]
    exact Or.inr ⟨hflag, hasks, _, by rw [hfirst]; rfl⟩
  | abandoned k now pending hget =>
    apply h.finalized (hlt hget)
    obtain ⟨hflag, hasks, hfinals⟩ := h.handle k _ hget
    rw [hasks, hfinals]
    exact ⟨hflag, _, rfl⟩

/-- What a handle wrote, it wrote at its index. -/
theorem Traced.final_index {handles : List (Handle T)} {events : List (Event T)}
    (h : Traced handles events) {k : ℕ} {final : Final T} (hfinal : final ∈ finals k events) :
    ∃ handle, handles[k]? = some handle ∧ final.index = handle.pending.index := by
  by_cases hlt : k < handles.length
  · refine ⟨handles[k], List.getElem?_eq_getElem hlt, ?_⟩
    have htraced := h.handle k _ (List.getElem?_eq_getElem hlt)
    rcases htraced.once with hnone | ⟨ms, hone⟩
    · rw [hnone] at hfinal
      cases hfinal
    · rw [hone] at hfinal
      obtain rfl := List.mem_singleton.mp hfinal
      rfl
  · rw [(h.later k (by omega)).2] at hfinal
    cases hfinal

/-- A handle that is gone, and had not written when its call was begun, has written since. -/
theorem Traced.writes_gone (h : Traced handles events) {k index : ℕ} {handle : Handle T}
    {record : T} {before after : List (Event T)}
    (hevents : events = before ++ .begun index record :: after)
    (hget : handles[k]? = some handle) (hindex : handle.pending.index = index)
    (hgone : handle.stage = .gone) (hbefore : finals k before = []) : writes index after ≠ [] := by
  obtain ⟨pending, stage⟩ := handle
  cases hgone
  obtain ⟨-, ms, hfinals⟩ := h.handle k _ hget
  have hsplit : finals k events = finals k before ++ finals k after := by
    rw [hevents, finals, List.filterMap_append, List.filterMap_cons_none rfl]
    rfl
  rw [hsplit, hbefore, List.nil_append] at hfinals
  have hmem : ⟨pending.index, ms, .first (asks k events)⟩ ∈ finals k after := by
    rw [hfinals]
    exact List.mem_singleton_self _
  exact List.ne_nil_of_mem (mem_writes.mpr ⟨mem_finals.mp hmem, hindex⟩)

end Handles

section Promise

variable {T : Type} [ByteRecord T]

/-- A change that clears neither the duration nor the count of bytes, and lets the count be
zero or not. -/
def Keeps (update : T → T) : Prop :=
  ∀ record, ((LogRecord.durationMs record).isSome = true →
      (LogRecord.durationMs (update record)).isSome = true) ∧
    ∀ bytes, ByteRecord.bytes record = some bytes →
      ∃ kept, ByteRecord.bytes (update record) = some kept ∧ (kept = 0 ↔ bytes = 0)

/-- What the holders promise: the closure of a finish keeps the duration and the bytes, and
so does every update of a record that a handle has written. -/
def Promised (s : State T) : Action T → Prop
  | .update index update => writes index s.events ≠ [] → Keeps update
  | .finish _ finish => Keeps finish.update
  | _ => True

theorem keeps_id : Keeps (id : T → T) :=
  fun _ => ⟨id, fun bytes hbytes => ⟨bytes, hbytes, Iff.rfl⟩⟩

/-- The record still has a duration, and a count of bytes that is zero if zero was written, and
only then. -/
def Final.Holds (final : Final T) (chain : Chain T) : Prop :=
  ∃ record bytes, chain[final.index]? = some record ∧
    (LogRecord.durationMs record).isSome = true ∧
    ByteRecord.bytes record = some bytes ∧ (bytes = 0 ↔ final.finish.bytes = 0)

/-- What was written last at an index holds of the record there. -/
structure Kept (s : State T) : Prop where
  recorded : Recorded s.chain s.events
  asked : ∀ handle ∈ s.handles, ∀ finish, handle.stage = .finishing finish → Keeps finish.update
  holds : ∀ before index record after, s.events = before ++ .begun index record :: after →
    ∀ handle final, (writes index after).getLast? = some (handle, final) → final.Holds s.chain

theorem Final.Holds.update {chain : Chain T} {final : Final T} (h : final.Holds chain)
    (index : ℕ) (update : T → T) (hkeeps : index = final.index → Keeps update) :
    final.Holds (chain.update index update) := by
  obtain ⟨record, bytes, hrecord, hduration, hbytes, hzero⟩ := h
  unfold Final.Holds
  rw [update_get, hrecord]
  by_cases hsame : index = final.index
  · obtain ⟨hms, hcount⟩ := hkeeps hsame record
    obtain ⟨kept, hkept, hsamezero⟩ := hcount bytes hbytes
    exact ⟨update record, kept, by rw [if_pos hsame, Option.map_some], hms hduration, hkept,
      hsamezero.trans hzero⟩
  · exact ⟨record, bytes, by rw [if_neg hsame], hduration, hbytes, hzero⟩

theorem holds_apply {chain : Chain T} {index : ℕ} {record : T} (hget : chain[index]? = some record)
    {finish : Finish T} (hkeeps : Keeps finish.update) (ms : Ms) :
    Final.Holds ⟨index, ms, finish⟩ (chain.update index (finish.apply ms)) := by
  obtain ⟨hms, hcount⟩ := hkeeps
    (LogRecord.setBytes (LogRecord.setDurationMs record ms) finish.bytes)
  obtain ⟨kept, hkept, hzero⟩ := hcount finish.bytes (ByteRecord.bytes_set _ _)
  refine ⟨finish.apply ms record, kept, ?_, hms ?_, hkept, hzero⟩
  · rw [update_get, if_pos rfl, hget, Option.map_some]
  · rw [LogRecord.durationMs_setBytes, LogRecord.durationMs_set, Option.isSome_some]

theorem Final.Holds.begun {chain : Chain T} {final : Final T} (h : final.Holds chain)
    (record : T) : final.Holds (chain ++ [record]) := by
  obtain ⟨found, bytes, hfound, hknown⟩ := h
  have hlt := (List.getElem?_eq_some_iff.mp hfound).1
  exact ⟨found, bytes, by rw [List.getElem?_append_left hlt, hfound], hknown⟩

variable {elapsedMs : ℕ → Ms} {s next : State T}

/-- What the handles still want to write keeps the duration and the bytes. -/
theorem asked_set (h : Kept s) {k : ℕ} {changed : Handle T}
    (hchanged : ∀ finish, changed.stage = .finishing finish → Keeps finish.update) :
    ∀ handle ∈ s.handles.set k changed, ∀ finish, handle.stage = .finishing finish →
      Keeps finish.update := by
  intro found hfound finish hstage
  rcases List.mem_or_eq_of_mem_set hfound with hold | rfl
  · exact h.asked found hold finish hstage
  · exact hchanged finish hstage

/-- An event that writes nothing leaves the records as they are held. -/
theorem Kept.holds_noted (h : Kept s) {event : Event T} (hslot : event.slot = none)
    (hwrite : ∀ index, event.write index = none) :
    ∀ before index record after, s.events ++ [event] = before ++ .begun index record :: after →
      ∀ handle final, (writes index after).getLast? = some (handle, final) →
        final.Holds s.chain := by
  intro before index record after hevents handle final hlast
  rcases split_last hevents with ⟨-, rfl, -⟩ | ⟨rest, rfl, hfront⟩
  · cases hslot
  · rw [writes_none (hwrite index)] at hlast
    exact h.holds before index record rest hfront handle final hlast

theorem Kept.beginCall (h : Kept s) (record : T)
    (hrecorded : Recorded (s.beginCall record).chain (s.beginCall record).events) :
    Kept (s.beginCall record) := by
  refine ⟨hrecorded, h.asked, ?_⟩
  intro before index found after hevents handle final hlast
  rcases split_last hevents with ⟨-, -, rfl⟩ | ⟨rest, rfl, hfront⟩
  · cases hlast
  · rw [writes_none rfl] at hlast
    exact (h.holds before index found rest hfront handle final hlast).begun record

/-- A written record is only changed by what keeps its duration and its bytes. -/
theorem Kept.update (h : Kept s) {index : ℕ} {update : T → T}
    (hkeeps : writes index s.events ≠ [] → Keeps update)
    (hrecorded : Recorded (s.update index update).chain (s.update index update).events) :
    Kept (s.update index update) := by
  refine ⟨hrecorded, h.asked, ?_⟩
  intro before other found after hevents handle final hlast
  rcases split_last hevents with ⟨-, hbegun, -⟩ | ⟨rest, rfl, hfront⟩
  · cases hbegun
  · rw [writes_none rfl] at hlast
    apply (h.holds before other found rest hfront handle final hlast).update
    rintro rfl
    apply hkeeps
    obtain ⟨hmem, hindex⟩ := mem_writes.mp (List.mem_of_getLast? hlast)
    have hevent : .finalized handle final ∈ s.events := by
      rw [hfront]
      exact List.mem_append_right _ (List.mem_cons_of_mem _ hmem)
    exact List.ne_nil_of_mem (mem_writes.mpr ⟨hevent, rfl⟩)

/-- A handle writes what keeps the duration and the bytes; it was the last one to write. -/
theorem Kept.finalize (h : Kept s) {k : ℕ} {pending : Pending} {finish : Finish T}
    (hkeeps : Keeps finish.update) (now : ℕ) {stage : Stage T}
    (hstage : ∀ finish, stage ≠ .finishing finish)
    (hrecorded : Recorded (s.finalize elapsedMs k pending finish now stage).chain
      (s.finalize elapsedMs k pending finish now stage).events) :
    Kept (s.finalize elapsedMs k pending finish now stage) := by
  refine ⟨hrecorded, asked_set h (fun other hother => absurd hother (hstage other)), ?_⟩
  intro before index found after hevents handle final hlast
  rcases split_last hevents with ⟨-, hbegun, -⟩ | ⟨rest, rfl, hfront⟩
  · cases hbegun
  · by_cases hsame : pending.index = index
    · have hmine : (Event.finalized k ⟨pending.index, elapsedMs (now - pending.started),
          finish⟩).write index = some (k, ⟨pending.index, elapsedMs (now - pending.started),
          finish⟩) := if_pos hsame
      rw [writes_some hmine, List.getLast?_concat] at hlast
      cases hlast
      have hget := h.recorded.record before index found rest hfront
      exact holds_apply (hsame ▸ hget) hkeeps _
    · have hother : (Event.finalized k ⟨pending.index, elapsedMs (now - pending.started),
          finish⟩).write index = none := if_neg hsame
      rw [writes_none hother] at hlast
      apply (h.holds before index found rest hfront handle final hlast).update
      intro hindex
      obtain ⟨-, hother⟩ := mem_writes.mp (List.mem_of_getLast? hlast)
      exact absurd (hindex.trans hother) hsame

theorem kept_step {action : Action T} (hpromised : Promised s action) (h : Kept s)
    (hstep : Stepped elapsedMs s action next) : Kept next := by
  have hrecorded := recorded_step h.recorded hstep
  cases hstep with
  | begun record => exact h.beginCall record hrecorded
  | updated index update => exact h.update hpromised hrecorded
  | watched index started =>
    refine ⟨hrecorded, ?_, h.holds⟩
    intro handle hhandle finish hstage
    rcases List.mem_append.mp hhandle with hhandle | hhandle
    · exact h.asked handle hhandle finish hstage
    · obtain rfl := List.mem_singleton.mp hhandle
      cases hstage
  | lost k finish handle hget halive hflag =>
    exact ⟨hrecorded, h.asked, h.holds_noted rfl (fun _ => rfl)⟩
  | won k finish handle hget halive hflag =>
    refine ⟨hrecorded, asked_set h ?_, h.holds_noted rfl (fun _ => rfl)⟩
    intro other hother
    cases hother
    exact hpromised
  | dropped k pending hget hflag =>
    refine ⟨hrecorded, asked_set h ?_, h.holds⟩
    intro finish hstage
    cases hstage
  | dropping k pending hget hflag =>
    refine ⟨hrecorded, asked_set h ?_, h.holds⟩
    intro finish hstage
    cases hstage
  | wrote k now pending finish hget =>
    have hkeeps := h.asked _ (List.mem_of_getElem? hget) finish rfl
    apply h.finalize hkeeps now _ hrecorded
    intro other hstage
    cases hstage
  | abandoned k now pending hget =>
    apply h.finalize keeps_id now _ hrecorded
    intro other hstage
    cases hstage

theorem kept_start : Kept (State.start : State T) :=
  ⟨recorded_start, by simp [State.start], by simp [State.start]⟩

/-- The `finish` of a piped call. -/
def streamCallFinish (outcome : Upstream.StreamOutcome) (bytes : ℕ) :
    Finish Upstream.CallRecord :=
  ⟨bytes, fun record =>
    if outcome = .upstreamError then
      { record with error := some "upstream_stream_error", kind := some "transport" }
    else record⟩

/-- The `finish` of a file call. -/
def callHandleFinish (outcome : Files.StreamOutcome) (bytes : ℕ) : Finish Files.CallRecord :=
  ⟨bytes, fun record => { record with error := outcome.errorClass }⟩

theorem finishStream_upstream (elapsedMs : ℕ → Ms) (now bytes : ℕ)
    (outcome : Upstream.StreamOutcome) (calls : Upstream.CallLog) (call : Pending) :
    Upstream.finishStream elapsedMs now bytes outcome calls call =
      (call.finishWith elapsedMs now (streamCallFinish outcome bytes).bytes
        (streamCallFinish outcome bytes).update calls).1 := rfl

theorem finishStream_files (elapsedMs : ℕ → Ms) (now bytes : ℕ) (outcome : Files.StreamOutcome)
    (calls : Files.CallLog) (call : Pending) :
    Files.finishStream elapsedMs now bytes outcome calls call =
      (call.finishWith elapsedMs now (callHandleFinish outcome bytes).bytes
        (callHandleFinish outcome bytes).update calls).1 := rfl

theorem keeps_streamCallFinish (outcome : Upstream.StreamOutcome) (bytes : ℕ) :
    Keeps (streamCallFinish outcome bytes).update := by
  intro record
  cases outcome with
  | upstreamError => exact ⟨id, fun count hcount => ⟨count, hcount, Iff.rfl⟩⟩
  | _ => exact ⟨id, fun count hcount => ⟨count, hcount, Iff.rfl⟩⟩

theorem keeps_callHandleFinish (outcome : Files.StreamOutcome) (bytes : ℕ) :
    Keeps (callHandleFinish outcome bytes).update :=
  fun _ => ⟨id, fun count hcount => ⟨count, hcount, Iff.rfl⟩⟩

end Promise

section Runs

variable {T : Type} [LogRecord T] {elapsedMs : ℕ → Ms} {actions : List (Action T)} {s : State T}

theorem recorded_run (h : run (step elapsedMs) .start actions = some s) :
    Recorded s.chain s.events := by
  apply run_invariant (fun s => Recorded s.chain s.events) (fun _ => True) _ (fun _ _ => trivial)
    _ h
  · intro s action next _ hs hstep
    exact recorded_step hs (step_stepped hstep)
  · exact recorded_start

theorem traced_run (h : run (step elapsedMs) .start actions = some s) :
    Traced s.handles s.events := by
  apply run_invariant (fun s => Traced s.handles s.events) (fun _ => True) _ (fun _ _ => trivial)
    traced_start h
  intro s action next _ hs hstep
  exact traced_step hs (step_stepped hstep)

/-- What a handle writes it writes once, at the latest when it goes; behind its flag nothing
comes of a finish or of the drop. -/
structure WritesOnce (s : State T) (k : ℕ) (handle : Handle T) : Prop where
  once : finals k s.events = [] ∨
    ∃ ms, finals k s.events = [⟨handle.pending.index, ms, .first (asks k s.events)⟩]
  gone : handle.stage = .gone → finals k s.events ≠ []
  finish : handle.pending.finished = true → ∀ finish next, s.finish k finish = some next →
    next.chain = s.chain ∧ next.handles = s.handles
  drop : handle.pending.finished = true → ∀ next, s.drop k = some next →
    next.chain = s.chain ∧ next.handles = s.handles.set k ⟨handle.pending, .gone⟩

theorem Traced.writesOnce (h : Traced s.handles s.events) {k : ℕ} {handle : Handle T}
    (hget : s.handles[k]? = some handle) : WritesOnce s k handle := by
  refine ⟨(h.handle k handle hget).once, (h.handle k handle hget).gone, ?_, ?_⟩
  · intro hflag finish next hnext
    have hstepped : Stepped (fun _ => 0) s (.finish k finish) next := finish_stepped hnext
    cases hstepped with
    | lost k finish found hfound halive hset => exact ⟨rfl, rfl⟩
    | won k finish found hfound halive hclear =>
      rw [hget] at hfound
      cases hfound
      exact absurd hflag (Bool.eq_false_iff.mp hclear)
  · intro hflag next hnext
    have hstepped : Stepped (fun _ => 0) s (.drop k) next := drop_stepped hnext
    cases hstepped with
    | dropped k pending hfound hset =>
      rw [hget] at hfound
      cases hfound
      exact ⟨rfl, by rw [claim_of_finished _ hflag]⟩
    | dropping k pending hfound hclear =>
      rw [hget] at hfound
      cases hfound
      exact absurd hflag (Bool.eq_false_iff.mp hclear)

end Runs

section Settled

variable {T : Type} [ByteRecord T]

/-- The record at an index has a duration and a count of bytes, that of the handle that wrote
there last: zero exactly when no finish of that handle with another count came first. The
events are those since the call was begun. -/
def Settled (s : State T) (index : ℕ) (after : List (Event T)) (writer : ℕ) : Prop :=
  ∃ record bytes final, s.chain[index]? = some record ∧
    (LogRecord.durationMs record).isSome = true ∧ ByteRecord.bytes record = some bytes ∧
    (writes index after).getLast? = some (writer, final) ∧
    (bytes = 0 ↔ ¬ ∃ finish, (asks writer s.events).head? = some finish ∧ finish.bytes ≠ 0)

theorem Kept.settled {s : State T} (h : Kept s) (htraced : Traced s.handles s.events)
    {index : ℕ} {record : T} {before after : List (Event T)}
    (hevents : s.events = before ++ .begun index record :: after)
    (hwrites : writes index after ≠ []) :
    ∃ writer found, s.handles[writer]? = some found ∧ found.pending.index = index ∧
      Settled s index after writer := by
  obtain ⟨⟨writer, final⟩, hlast⟩ : ∃ write, (writes index after).getLast? = some write :=
    ⟨_, List.getLast?_eq_some_getLast hwrites⟩
  obtain ⟨hmem, rfl⟩ := mem_writes.mp (List.mem_of_getLast? hlast)
  have hfinal : final ∈ finals writer s.events := by
    rw [mem_finals, hevents]
    exact List.mem_append_right _ (List.mem_cons_of_mem _ hmem)
  obtain ⟨found, hfound, hindex⟩ := htraced.final_index hfinal
  obtain ⟨kept, bytes, hkept, hduration, hbytes, hzero⟩ :=
    h.holds before _ record after hevents writer final hlast
  refine ⟨writer, found, hfound, hindex.symm, kept, bytes, final, hkept, hduration, hbytes, hlast,
    hzero.trans ?_⟩
  rcases (htraced.handle writer found hfound).once with hnone | ⟨ms, hone⟩
  · rw [hnone] at hfinal
    cases hfinal
  · rw [hone] at hfinal
    obtain rfl := List.mem_singleton.mp hfinal
    exact first_bytes _

/-- Whatever the holders do and in whatever order, each begin returns an index of its own,
where its record stays, changed by what is done at that index and by nothing else; each handle
writes at most once. If no closure clears what a handle wrote, the record of each handle that
is gone is settled, by the handle itself if its call has no other. -/
theorem records_of_run (elapsedMs : ℕ → Ms) (actions : List (Action T)) (s : State T)
    (h : run (step elapsedMs) .start actions = some s) :
    (s.events.filterMap Event.slot).Nodup ∧
    (∀ before index record after, s.events = before ++ .begun index record :: after →
      s.chain[index]? = some (replay index record after)) ∧
    (∀ index update next, step elapsedMs s (.update index update) = some next →
      ∀ other, other ≠ index → next.chain[other]? = s.chain[other]?) ∧
    (∀ k handle, s.handles[k]? = some handle → WritesOnce s k handle) ∧
    (Along (step elapsedMs) Promised .start actions →
      ∀ before index record after, s.events = before ++ .begun index record :: after →
        ∀ k handle, s.handles[k]? = some handle → handle.pending.index = index →
          handle.stage = .gone → finals k before = [] →
            ∃ writer found, s.handles[writer]? = some found ∧ found.pending.index = index ∧
              Settled s index after writer ∧
              ((∀ (other : ℕ) (another : Handle T), s.handles[other]? = some another →
                another.pending.index = index → other = k) → writer = k)) := by
  have hrecorded := recorded_run h
  have htraced := traced_run h
  refine ⟨?_, hrecorded.record, ?_, ?_, ?_⟩
  · rw [hrecorded.slots]
    exact List.nodup_range
  · intro index update next hnext other hother
    cases hnext
    simp only [State.update]
    rw [update_get, if_neg (Ne.symm hother)]
  · intro k handle hget
    exact htraced.writesOnce hget
  · intro hpromised before index record after hevents k handle hget hindex hgone hbefore
    have hkept : Kept s := run_along Kept Promised
      (fun s action next hpromise hs hstep => kept_step hpromise hs (step_stepped hstep))
      hpromised kept_start h
    have hwrites := htraced.writes_gone hevents hget hindex hgone hbefore
    obtain ⟨writer, found, hfound, hmine, hsettled⟩ := hkept.settled htraced hevents hwrites
    exact ⟨writer, found, hfound, hmine, hsettled, fun halone => halone writer found hfound hmine⟩

/-- The only handle of a call is gone, and an update has cleared the duration that it wrote. -/
theorem records_cleared :
    ∃ (s : State Files.CallRecord) (record : Files.CallRecord),
      run (step UInt64.ofNat) .start
        [.beginCall (.new "file.stream"), .watch 0 5, .drop 0, .write 0 8,
          .update 0 (fun record => { record with durationMs := none })] = some s ∧
      (∀ handle ∈ s.handles, handle.pending.index = 0 ∧ handle.stage = .gone) ∧
      s.handles ≠ [] ∧ s.chain[0]? = some record ∧ LogRecord.durationMs record = none := by
  refine ⟨_, _, rfl, ?_, ?_, rfl, rfl⟩
  · intro handle hhandle
    obtain rfl := List.mem_singleton.mp hhandle
    exact ⟨rfl, rfl⟩
  · exact List.cons_ne_nil _ _

/-- Two calls, whose handles are finished twice and dropped while the other one writes; the
second record is updated after its handle is gone. -/
theorem records_of_race :
    ∃ (s : State Files.CallRecord) (record : Files.CallRecord),
      run (step UInt64.ofNat) .start
        [.beginCall (.new "file.stream"), .watch 0 5, .beginCall (.new "file.stream"),
          .finish 0 ⟨3, id⟩, .watch 1 6, .finish 0 ⟨9, id⟩, .drop 1, .write 0 8, .write 1 9,
          .update 1 id] = some s ∧
      (s.events.filterMap Event.slot).Nodup ∧ s.chain[1]? = some record ∧
      (LogRecord.durationMs record).isSome = true ∧ ByteRecord.bytes record = some 0 := by
  have hrun := Eq.refl (run (step UInt64.ofNat) (.start : State Files.CallRecord)
    [.beginCall (.new "file.stream"), .watch 0 5, .beginCall (.new "file.stream"),
      .finish 0 ⟨3, id⟩, .watch 1 6, .finish 0 ⟨9, id⟩, .drop 1, .write 0 8, .write 1 9,
      .update 1 id])
  obtain ⟨hdistinct, -, -, -, hsettled⟩ := records_of_run UInt64.ofNat _ _ hrun
  have hpromised : Along (step UInt64.ofNat) Promised (.start : State Files.CallRecord)
      [.beginCall (.new "file.stream"), .watch 0 5, .beginCall (.new "file.stream"),
        .finish 0 ⟨3, id⟩, .watch 1 6, .finish 0 ⟨9, id⟩, .drop 1, .write 0 8, .write 1 9,
        .update 1 id] := by
    refine (along_cons rfl).mpr ⟨trivial, (along_cons rfl).mpr ⟨trivial, ?_⟩⟩
    refine (along_cons rfl).mpr ⟨trivial, (along_cons rfl).mpr ⟨keeps_id, ?_⟩⟩
    refine (along_cons rfl).mpr ⟨trivial, (along_cons rfl).mpr ⟨keeps_id, ?_⟩⟩
    refine (along_cons rfl).mpr ⟨trivial, (along_cons rfl).mpr ⟨trivial, ?_⟩⟩
    exact (along_cons rfl).mpr ⟨trivial, (along_cons rfl).mpr ⟨fun _ => keeps_id, trivial⟩⟩
  obtain ⟨writer, found, hfound, hindex, ⟨record, bytes, final, hrecord, hduration, hbytes, -,
    hzero⟩, halone⟩ := hsettled hpromised [.begun 0 (.new "file.stream")] 1 _ _ rfl 1 _ rfl rfl rfl
      rfl
  have hwriter : writer = 1 := by
    apply halone
    intro other another hother hsame
    match other with
    | 0 =>
      cases hother
      cases hsame
    | 1 => rfl
    | _ + 2 => cases hother
  subst hwriter
  have hnone : bytes = 0 := hzero.mpr (by rintro ⟨finish, hfirst, -⟩; cases hfirst)
  exact ⟨_, record, hrun.trans rfl, hdistinct, hrecord, hduration, hnone ▸ hbytes⟩

end Settled

end StuntDouble.SharedChain
