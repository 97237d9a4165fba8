import StuntDouble.Json
import Mathlib.Data.List.Nodup

/-!
The call chains of a request: entries that are begun, updated in place and at
last finalized with their duration. A pending handle finalizes one entry, at the
latest when it is dropped. An entry is closed when its duration is known; what
stays open is what the invariants of the callers have to account for.
-/
namespace StuntDouble.RequestLog

/-- The bits of the number of milliseconds that is logged. -/
abbrev Ms := UInt64

/-- A record of a chain, with its duration and its log shape. -/
class LogRecord (T : Type) where
  toJson : T → Json
  setDurationMs : T → Ms → T
  setBytes : T → ℕ → T
  durationMs : T → Option Ms
  toJson_duration : ∀ record, (toJson record).get "duration_ms" =
    some (match durationMs record with
      | none => .null
      | some ms => .number (.float ms))
  durationMs_set : ∀ record ms, durationMs (setDurationMs record ms) = some ms
  durationMs_setBytes : ∀ record bytes, durationMs (setBytes record bytes) = durationMs record

abbrev Chain (T : Type) := List T

/-- A handle that finalizes one entry of a chain. -/
structure Pending where
  index : ℕ
  started : ℕ
  finished : Bool
deriving DecidableEq, Repr

section Chains

variable {T : Type}

/-- Append one call and return its slot. -/
def Chain.beginCall (chain : Chain T) (record : T) : Chain T × ℕ :=
  (chain ++ [record], chain.length)

/-- Update one call in place; an index out of range changes nothing. -/
def Chain.update (chain : Chain T) (index : ℕ) (update : T → T) : Chain T :=
  List.modify chain index update

theorem update_get (chain : Chain T) (index other : ℕ) (update : T → T) :
    (chain.update index update)[other]? =
      if index = other then chain[other]?.map update else chain[other]? := by
  unfold Chain.update
  rw [List.getElem?_modify]
  by_cases h : index = other
  · simp [h]
  · simp [h]

theorem update_length (chain : Chain T) (index : ℕ) (update : T → T) :
    (chain.update index update).length = chain.length :=
  List.length_modify _ _ _

/-- An update of the entry that was begun last. -/
theorem update_last (chain : Chain T) (record : T) (update : T → T) :
    Chain.update (chain ++ [record]) chain.length update = chain ++ [update record] := by
  apply List.ext_getElem?
  intro index
  rw [update_get]
  rcases Nat.lt_trichotomy index chain.length with hlt | rfl | hgt
  · rw [if_neg (by omega), List.getElem?_append_left hlt, List.getElem?_append_left hlt]
  · rw [if_pos rfl, List.getElem?_concat_length, List.getElem?_concat_length, Option.map_some]
  · rw [if_neg (by omega), List.getElem?_eq_none (by simp; omega),
      List.getElem?_eq_none (by simp; omega)]

/-- An update of rendered records is the rendering of an update. -/
theorem update_map {U : Type} (chain : Chain T) (index : ℕ) (render : T → U) (update : T → T)
    (update' : U → U) (hupdate : ∀ record, render (update record) = update' (render record)) :
    Chain.update (chain.map render) index update' = (chain.update index update).map render := by
  apply List.ext_getElem?
  intro other
  rw [update_get, List.getElem?_map, List.getElem?_map, update_get]
  by_cases hother : index = other
  · rw [if_pos hother, if_pos hother, Option.map_map, Option.map_map]
    congr 1
    funext record
    exact (hupdate record).symm
  · rw [if_neg hother, if_neg hother]

variable [LogRecord T]

def Chain.snapshot (chain : Chain T) : List Json := chain.map LogRecord.toJson

variable (elapsedMs : ℕ → Ms)

def Pending.finishWith (now bytes : ℕ) (update : T → T) (chain : Chain T) (pending : Pending) :
    Chain T × Pending :=
  if pending.finished then (chain, pending)
  else
    (chain.update pending.index (fun record =>
        update (LogRecord.setBytes
          (LogRecord.setDurationMs record (elapsedMs (now - pending.started))) bytes)),
      { pending with finished := true })

theorem finishWith_get (now bytes : ℕ) (update : T → T) (chain : Chain T) (pending : Pending)
    (hpending : pending.finished = false) (hbegun : pending.index < chain.length) :
    ∃ record, (pending.finishWith elapsedMs now bytes update chain).1[pending.index]? =
      some (update (LogRecord.setBytes (LogRecord.setDurationMs record
        (elapsedMs (now - pending.started))) bytes)) := by
  have hget : chain[pending.index]? = some chain[pending.index] := List.getElem?_eq_getElem hbegun
  refine ⟨chain[pending.index], ?_⟩
  simp only [Pending.finishWith, hpending, Bool.false_eq_true, if_false]
  rw [update_get, if_pos rfl, hget, Option.map_some]

/-- Dropping a handle records an abandoned stream of no bytes. -/
def Pending.drop (now : ℕ) (chain : Chain T) (pending : Pending) : Chain T :=
  (pending.finishWith elapsedMs now 0 id chain).1

/-- The duration of an entry is known. -/
def Closed (record : T) : Prop := (LogRecord.durationMs record).isSome = true

/-- There is an entry in this slot whose duration is not known. -/
def Chain.OpenAt (chain : Chain T) (index : ℕ) : Prop :=
  ∃ record, chain[index]? = some record ∧ ¬ Closed record

/-- A logged entry is null exactly where its record is open. -/
theorem toJson_null_iff (record : T) :
    (LogRecord.toJson record).get "duration_ms" = some .null ↔ ¬ Closed record := by
  rw [LogRecord.toJson_duration, Closed]
  cases LogRecord.durationMs record <;> simp

theorem openAt_nil (index : ℕ) : ¬ Chain.OpenAt ([] : Chain T) index := by
  intro h
  obtain ⟨record, hrecord, -⟩ := h
  simp at hrecord

theorem openAt_lt {chain : Chain T} {index : ℕ} (h : chain.OpenAt index) :
    index < chain.length := by
  obtain ⟨record, hrecord, -⟩ := h
  exact (List.getElem?_eq_some_iff.mp hrecord).1

theorem openAt_append (chain : Chain T) (record : T) (index : ℕ) :
    Chain.OpenAt (chain ++ [record]) index ↔
      chain.OpenAt index ∨ (index = chain.length ∧ ¬ Closed record) := by
  unfold Chain.OpenAt
  constructor
  · intro h
    obtain ⟨found, hfound, hopen⟩ := h
    by_cases hlt : index < chain.length
    · rw [List.getElem?_append_left hlt] at hfound
      exact Or.inl ⟨found, hfound, hopen⟩
    · have hbound := (List.getElem?_eq_some_iff.mp hfound).1
      rw [List.length_append, List.length_singleton] at hbound
      obtain rfl : index = chain.length := by omega
      rw [List.getElem?_concat_length] at hfound
      obtain rfl := Option.some.inj hfound
      exact Or.inr ⟨rfl, hopen⟩
  · intro h
    rcases h with ⟨found, hfound, hopen⟩ | ⟨rfl, hopen⟩
    · have hlt := (List.getElem?_eq_some_iff.mp hfound).1
      exact ⟨found, by rw [List.getElem?_append_left hlt, hfound], hopen⟩
    · exact ⟨record, List.getElem?_concat_length, hopen⟩

/-- An update that knows the duration closes its entry, and touches no other. -/
theorem openAt_update (chain : Chain T) (index other : ℕ) (update : T → T)
    (hupdate : ∀ record, Closed (update record)) :
    (chain.update index update).OpenAt other ↔ chain.OpenAt other ∧ index ≠ other := by
  unfold Chain.OpenAt
  rw [update_get]
  by_cases hsame : index = other
  · rw [if_pos hsame]
    constructor
    · intro h
      obtain ⟨record, hrecord, hopen⟩ := h
      obtain ⟨old, -, rfl⟩ := Option.map_eq_some_iff.mp hrecord
      exact absurd (hupdate old) hopen
    · intro h
      exact absurd hsame h.2
  · rw [if_neg hsame]
    simp [hsame]

/-- Finishing a handle closes its entry, and touches no other. -/
theorem openAt_finishWith (now bytes : ℕ) (update : T → T)
    (hupdate : ∀ record, Closed record → Closed (update record)) (chain : Chain T)
    (pending : Pending) (hpending : pending.finished = false) (index : ℕ) :
    (pending.finishWith elapsedMs now bytes update chain).1.OpenAt index ↔
      chain.OpenAt index ∧ pending.index ≠ index := by
  unfold Pending.finishWith
  rw [if_neg (by simp [hpending])]
  apply openAt_update
  intro record
  apply hupdate
  unfold Closed
  rw [LogRecord.durationMs_setBytes, LogRecord.durationMs_set]
  rfl

theorem openAt_drop (now : ℕ) (chain : Chain T) (pending : Pending)
    (hpending : pending.finished = false) (index : ℕ) :
    (pending.drop elapsedMs now chain).OpenAt index ↔
      chain.OpenAt index ∧ pending.index ≠ index :=
  openAt_finishWith elapsedMs now 0 id (fun _ h => h) chain pending hpending index

/-- Drop several handles, one after the other. -/
def Chain.dropAll (now : ℕ) (chain : Chain T) (handles : List Pending) : Chain T :=
  handles.foldl (fun chain pending => pending.drop elapsedMs now chain) chain

theorem openAt_dropAll (now : ℕ) (chain : Chain T) (handles : List Pending)
    (hpending : ∀ pending ∈ handles, pending.finished = false) (index : ℕ) :
    (chain.dropAll elapsedMs now handles).OpenAt index ↔
      chain.OpenAt index ∧ ∀ pending ∈ handles, pending.index ≠ index := by
  induction handles generalizing chain with
  | nil => simp [Chain.dropAll]
  | cons pending rest ih =>
    have hrest := ih (pending.drop elapsedMs now chain)
      (fun other hother => hpending other (by simp [hother]))
    rw [Chain.dropAll, List.foldl_cons]
    rw [Chain.dropAll] at hrest
    rw [hrest, openAt_drop elapsedMs now chain pending (hpending pending (by simp))]
    simp [and_assoc]

/-- Every logged call has its duration, but perhaps one that was still running. -/
def Accounted (calls : List Json) (running : Option ℕ) : Prop :=
  ∀ (index : ℕ) (entry : Json), calls[index]? = some entry → running ≠ some index →
    entry.get "duration_ms" ≠ some .null

theorem accounted_nil (running : Option ℕ) : Accounted [] running := by
  intro index entry h
  simp at h

/-- A snapshot is accounted for when no entry is open but the one of a running call. -/
theorem accounted_snapshot (chain : Chain T) (running : Option ℕ) :
    Accounted chain.snapshot running ↔ ∀ index, chain.OpenAt index → running = some index := by
  constructor
  · intro h index hopen
    obtain ⟨record, hrecord, hclosed⟩ := hopen
    by_contra hrunning
    have hentry : chain.snapshot[index]? = some (LogRecord.toJson record) := by
      rw [Chain.snapshot, List.getElem?_map, hrecord, Option.map_some]
    exact h index _ hentry hrunning ((toJson_null_iff record).mpr hclosed)
  · intro h index entry hentry hrunning hnull
    rw [Chain.snapshot, List.getElem?_map] at hentry
    obtain ⟨record, hrecord, rfl⟩ := Option.map_eq_some_iff.mp hentry
    exact hrunning (h index ⟨record, hrecord, (toJson_null_iff record).mp hnull⟩)

end Chains

section Renderings

variable {T U : Type} [LogRecord T] [LogRecord U]

/-- A rendering of records that goes through their finalization. -/
structure Renders (render : T → U) : Prop where
  duration : ∀ record ms,
    render (LogRecord.setDurationMs record ms) = LogRecord.setDurationMs (render record) ms
  bytes : ∀ record bytes,
    render (LogRecord.setBytes record bytes) = LogRecord.setBytes (render record) bytes

variable {render : T → U}

theorem Renders.finishWith (hrender : Renders render) (elapsedMs : ℕ → Ms) (now bytes : ℕ)
    (update : T → T) (update' : U → U)
    (hupdate : ∀ record, render (update record) = update' (render record)) (chain : Chain T)
    (pending : Pending) :
    (pending.finishWith elapsedMs now bytes update' (chain.map render)).1 =
      (pending.finishWith elapsedMs now bytes update chain).1.map render := by
  unfold Pending.finishWith
  split
  · rfl
  · apply update_map
    intro record
    rw [hupdate, hrender.bytes, hrender.duration]

theorem Renders.dropAll (hrender : Renders render) (elapsedMs : ℕ → Ms) (now : ℕ)
    (chain : Chain T) (handles : List Pending) :
    Chain.dropAll elapsedMs now (chain.map render) handles =
      (chain.dropAll elapsedMs now handles).map render := by
  induction handles generalizing chain with
  | nil => rfl
  | cons pending rest ih =>
    have hdrop := hrender.finishWith elapsedMs now 0 id id (fun _ => rfl) chain pending
    rw [Chain.dropAll, List.foldl_cons, Pending.drop, hdrop]
    exact ih _

end Renderings

section Owned

variable {T : Type} [LogRecord T] {chain : Chain T} {handles : List Pending}

/-- The open entries of a chain are those of the given handles, one for each. -/
structure Chain.Owned (chain : Chain T) (handles : List Pending) : Prop where
  openAt_iff : ∀ index, chain.OpenAt index ↔ ∃ pending ∈ handles, pending.index = index
  pending : ∀ pending ∈ handles, pending.finished = false
  nodup : (handles.map Pending.index).Nodup

theorem owned_nil : Chain.Owned ([] : Chain T) [] := by
  refine ⟨?_, by simp, by simp⟩
  intro index
  simp [openAt_nil]

theorem Chain.Owned.perm (h : chain.Owned handles) {others : List Pending}
    (hperm : handles.Perm others) : chain.Owned others := by
  refine ⟨?_, ?_, ?_⟩
  · intro index
    rw [h.openAt_iff]
    simp only [hperm.mem_iff]
  · intro pending hpending
    exact h.pending pending (hperm.mem_iff.mpr hpending)
  · exact (hperm.map Pending.index).nodup_iff.mp h.nodup

theorem Chain.Owned.index_lt (h : chain.Owned handles) {pending : Pending}
    (hpending : pending ∈ handles) : pending.index < chain.length :=
  openAt_lt ((h.openAt_iff pending.index).mpr ⟨pending, hpending, rfl⟩)

/-- A call that returns without a stream leaves the handles as they are. -/
theorem Chain.Owned.closed (h : chain.Owned handles) {record : T} (hclosed : Closed record) :
    Chain.Owned (chain ++ [record]) handles := by
  refine ⟨?_, h.pending, h.nodup⟩
  intro index
  rw [openAt_append, h.openAt_iff]
  simp [hclosed]

/-- A call that opens a stream adds its handle. -/
theorem Chain.Owned.opened (h : chain.Owned handles) {record : T} (hopen : ¬ Closed record)
    {pending : Pending} (hindex : pending.index = chain.length)
    (hpending : pending.finished = false) :
    Chain.Owned (chain ++ [record]) (handles ++ [pending]) := by
  refine ⟨?_, ?_, ?_⟩
  · intro index
    rw [openAt_append, h.openAt_iff]
    constructor
    · intro hentry
      rcases hentry with ⟨other, hother, rfl⟩ | ⟨rfl, -⟩
      · exact ⟨other, by simp [hother], rfl⟩
      · exact ⟨pending, by simp, hindex⟩
    · intro hentry
      obtain ⟨other, hother, rfl⟩ := hentry
      rcases List.mem_append.mp hother with hother | hother
      · exact Or.inl ⟨other, hother, rfl⟩
      · obtain rfl := List.mem_singleton.mp hother
        exact Or.inr ⟨hindex, hopen⟩
  · intro other hother
    rcases List.mem_append.mp hother with hother | hother
    · exact h.pending other hother
    · obtain rfl := List.mem_singleton.mp hother
      exact hpending
  · rw [List.map_append, List.map_singleton, List.nodup_append]
    refine ⟨h.nodup, by simp, ?_⟩
    intro index hmem other hother
    obtain rfl := List.mem_singleton.mp hother
    obtain ⟨earlier, hearlier, rfl⟩ := List.mem_map.mp hmem
    have hlt := h.index_lt hearlier
    omega

/-- Dropping some of the handles leaves the others. -/
theorem Chain.Owned.dropAll {dropped kept : List Pending} (h : chain.Owned handles)
    (hperm : handles.Perm (dropped ++ kept)) (elapsedMs : ℕ → Ms) (now : ℕ) :
    (chain.dropAll elapsedMs now dropped).Owned kept := by
  obtain ⟨hopen, hpending, hnodup⟩ := h.perm hperm
  rw [List.map_append, List.nodup_append] at hnodup
  obtain ⟨-, hkept, hapart⟩ := hnodup
  refine ⟨?_, fun pending hmem => hpending pending (by simp [hmem]), hkept⟩
  intro index
  rw [openAt_dropAll elapsedMs now chain dropped
    (fun pending hmem => hpending pending (by simp [hmem])), hopen]
  constructor
  · intro h
    obtain ⟨⟨pending, hmem, rfl⟩, hgone⟩ := h
    rcases List.mem_append.mp hmem with hmem | hmem
    · exact absurd rfl (hgone pending hmem)
    · exact ⟨pending, hmem, rfl⟩
  · intro h
    obtain ⟨pending, hmem, rfl⟩ := h
    refine ⟨⟨pending, by simp [hmem], rfl⟩, ?_⟩
    intro other hother
    exact hapart other.index (List.mem_map_of_mem hother) pending.index (List.mem_map_of_mem hmem)

/-- Dropping all handles but some of them leaves those. -/
theorem Chain.Owned.keep {kept : List Pending} (h : chain.Owned handles) (hnodup : kept.Nodup)
    (hkept : ∀ pending ∈ kept, pending ∈ handles) (elapsedMs : ℕ → Ms) (now : ℕ) :
    (chain.dropAll elapsedMs now
      (handles.filter (fun pending => decide (pending ∉ kept)))).Owned kept := by
  have hhandles : handles.Nodup := List.Nodup.of_map Pending.index h.nodup
  have hsame : (handles.filter (fun pending => decide (pending ∈ kept))).Perm kept := by
    apply (List.perm_ext_iff_of_nodup (hhandles.filter _) hnodup).mpr
    intro pending
    rw [List.mem_filter, decide_eq_true_eq]
    exact ⟨fun hmem => hmem.2, fun hmem => ⟨hkept pending hmem, hmem⟩⟩
  have hsplit := List.filter_append_perm (fun pending => decide (pending ∈ kept)) handles
  apply h.dropAll
  simp only [decide_not]
  exact (hsplit.symm.trans List.perm_append_comm).trans (hsame.append_left _)

/-- Finishing the only handle closes the chain. -/
theorem Chain.Owned.finishWith {pending : Pending} (h : chain.Owned [pending])
    (elapsedMs : ℕ → Ms) (now bytes : ℕ) (update : T → T)
    (hupdate : ∀ record, Closed record → Closed (update record)) :
    (pending.finishWith elapsedMs now bytes update chain).1.Owned [] := by
  refine ⟨?_, by simp, by simp⟩
  intro index
  rw [openAt_finishWith elapsedMs now bytes update hupdate chain pending
    (h.pending pending (by simp)), h.openAt_iff]
  simp

/-- A snapshot is accounted for when every handle belongs to the running call. -/
theorem Chain.Owned.accounted_iff (h : chain.Owned handles) (running : Option ℕ) :
    Accounted chain.snapshot running ↔ ∀ pending ∈ handles, running = some pending.index := by
  rw [accounted_snapshot]
  constructor
  · intro hopen pending hmem
    exact hopen pending.index ((h.openAt_iff pending.index).mpr ⟨pending, hmem, rfl⟩)
  · intro hrunning index hopen
    obtain ⟨pending, hmem, rfl⟩ := (h.openAt_iff index).mp hopen
    exact hrunning pending hmem

theorem Chain.Owned.accounted (h : chain.Owned []) (running : Option ℕ) :
    Accounted chain.snapshot running := by
  rw [h.accounted_iff]
  simp

/-- What a call that is still running has logged belongs to that call alone. -/
theorem Chain.Owned.accounted_running (h : chain.Owned handles) (record : Option T) :
    Accounted (Chain.snapshot (chain ++ record.toList)) (some chain.length) ↔ handles = [] := by
  rw [accounted_snapshot]
  constructor
  · intro hopen
    apply List.eq_nil_iff_forall_not_mem.mpr
    intro pending hmem
    have hlt := h.index_lt hmem
    have hentry : Chain.OpenAt (chain ++ record.toList) pending.index := by
      cases record with
      | none =>
        rw [Option.toList_none, List.append_nil, h.openAt_iff]
        exact ⟨pending, hmem, rfl⟩
      | some record =>
        rw [Option.toList_some, openAt_append, h.openAt_iff]
        exact Or.inl ⟨pending, hmem, rfl⟩
    have hindex := Option.some.inj (hopen pending.index hentry)
    omega
  · intro hnil index hopen
    subst hnil
    cases record with
    | none =>
      rw [Option.toList_none, List.append_nil, h.openAt_iff] at hopen
      simp at hopen
    | some record =>
      rw [Option.toList_some, openAt_append, h.openAt_iff] at hopen
      rcases hopen with hopen | ⟨rfl, -⟩
      · simp at hopen
      · rfl

end Owned

end StuntDouble.RequestLog
