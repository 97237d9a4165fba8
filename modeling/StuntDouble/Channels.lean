import Mathlib.Data.List.Basic

/-!
Bounded channels with one sender and one receiver, either of which may go. What was taken
out and what waits is what was put in, in order. The receiver that goes leaves behind what
waits.
-/
namespace StuntDouble.Channels

structure Channel (A : Type*) (capacity : ℕ) where
  sent : List A
  received : List A
  queue : List A
  ended : Bool
  closed : Bool
  order : sent = received ++ queue
  bounded : queue.length ≤ capacity

inductive SendResult (A : Type*) (capacity : ℕ)
  | accepted (channel : Channel A capacity)
  | refused
  | full

inductive ReceiveResult (A : Type*) (capacity : ℕ)
  | item (a : A) (channel : Channel A capacity)
  | ended
  | empty

namespace Channel

variable {A : Type*} {capacity : ℕ}

def new : Channel A capacity := ⟨[], [], [], false, false, rfl, Nat.zero_le capacity⟩

def send (channel : Channel A capacity) (a : A) : SendResult A capacity :=
  if channel.closed then .refused
  else if h : channel.queue.length < capacity then
    .accepted ⟨channel.sent ++ [a], channel.received, channel.queue ++ [a], channel.ended,
      channel.closed, by rw [channel.order, List.append_assoc],
      by rw [List.length_append]; exact h⟩
  else .full

def receive (channel : Channel A capacity) : ReceiveResult A capacity :=
  match h : channel.queue with
  | a :: rest =>
    .item a ⟨channel.sent, channel.received ++ [a], rest, channel.ended, channel.closed,
      by rw [channel.order, h, List.append_assoc]; rfl,
      Nat.le_of_succ_le
        (Nat.le_trans (Nat.le_of_eq (congrArg List.length h.symm)) channel.bounded)⟩
  | [] => if channel.ended then .ended else .empty

/-- The sender goes. -/
def finish (channel : Channel A capacity) : Channel A capacity := { channel with ended := true }

/-- The receiver goes. -/
def close (channel : Channel A capacity) : Channel A capacity := { channel with closed := true }

@[simp] theorem finish_sent (channel : Channel A capacity) :
    channel.finish.sent = channel.sent := rfl

@[simp] theorem finish_received (channel : Channel A capacity) :
    channel.finish.received = channel.received := rfl

@[simp] theorem finish_queue (channel : Channel A capacity) :
    channel.finish.queue = channel.queue := rfl

@[simp] theorem finish_ended (channel : Channel A capacity) : channel.finish.ended = true := rfl

@[simp] theorem finish_closed (channel : Channel A capacity) :
    channel.finish.closed = channel.closed := rfl

@[simp] theorem close_sent (channel : Channel A capacity) :
    channel.close.sent = channel.sent := rfl

@[simp] theorem close_received (channel : Channel A capacity) :
    channel.close.received = channel.received := rfl

@[simp] theorem close_queue (channel : Channel A capacity) :
    channel.close.queue = channel.queue := rfl

@[simp] theorem close_ended (channel : Channel A capacity) :
    channel.close.ended = channel.ended := rfl

@[simp] theorem close_closed (channel : Channel A capacity) : channel.close.closed = true := rfl

/-- What was put into a channel, when it is open and not full. -/
structure Accepts (channel : Channel A capacity) (a : A) (next : Channel A capacity) : Prop where
  sent : next.sent = channel.sent ++ [a]
  received : next.received = channel.received
  queue : next.queue = channel.queue ++ [a]
  ended : next.ended = channel.ended
  closed : next.closed = channel.closed
  isOpen : channel.closed = false

theorem send_accepted {channel next : Channel A capacity} {a : A}
    (h : channel.send a = .accepted next) : channel.Accepts a next := by
  unfold send at h
  split at h
  · cases h
  · rename_i hopen
    split at h
    · cases h
      exact ⟨rfl, rfl, rfl, rfl, rfl, Bool.eq_false_iff.mpr hopen⟩
    · cases h

theorem send_refused {channel : Channel A capacity} {a : A} (h : channel.send a = .refused) :
    channel.closed = true := by
  unfold send at h
  split at h
  · assumption
  · split at h
    · cases h
    · cases h

theorem send_full {channel : Channel A capacity} {a : A} (h : channel.send a = .full) :
    channel.closed = false ∧ capacity ≤ channel.queue.length := by
  unfold send at h
  split at h
  · cases h
  · rename_i hopen
    split at h
    · cases h
    · exact ⟨Bool.eq_false_iff.mpr hopen, by omega⟩

/-- What was taken out of a channel. -/
structure Gives (channel : Channel A capacity) (a : A) (next : Channel A capacity) : Prop where
  sent : next.sent = channel.sent
  received : next.received = channel.received ++ [a]
  queue : channel.queue = a :: next.queue
  ended : next.ended = channel.ended
  closed : next.closed = channel.closed

theorem receive_item {channel next : Channel A capacity} {a : A}
    (h : channel.receive = .item a next) : channel.Gives a next := by
  unfold receive at h
  split at h
  · rename_i b rest hqueue
    cases h
    exact ⟨rfl, rfl, hqueue, rfl, rfl⟩
  · split at h
    · cases h
    · cases h

theorem receive_ended {channel : Channel A capacity} (h : channel.receive = .ended) :
    channel.queue = [] ∧ channel.ended = true := by
  unfold receive at h
  split at h
  · cases h
  · rename_i hqueue
    split at h
    · exact ⟨hqueue, ‹_›⟩
    · cases h

theorem receive_empty {channel : Channel A capacity} (h : channel.receive = .empty) :
    channel.queue = [] ∧ channel.ended = false := by
  unfold receive at h
  split at h
  · cases h
  · rename_i hqueue
    split at h
    · cases h
    · exact ⟨hqueue, Bool.eq_false_iff.mpr ‹_›⟩

theorem receive_eq_empty {channel : Channel A capacity} (hqueue : channel.queue = [])
    (hended : channel.ended = false) : channel.receive = .empty := by
  cases hreceive : channel.receive with
  | item a next =>
    have hgives := (receive_item hreceive).queue
    rw [hqueue] at hgives
    contradiction
  | ended =>
    have hgone := (receive_ended hreceive).2
    rw [hended] at hgone
    contradiction
  | empty => rfl

theorem receive_some {channel : Channel A capacity} (h : channel.queue ≠ []) :
    ∃ a next, channel.receive = .item a next := by
  cases hreceive : channel.receive with
  | item a next => exact ⟨a, next, rfl⟩
  | ended => exact absurd (receive_ended hreceive).1 h
  | empty => exact absurd (receive_empty hreceive).1 h

/-- What the receiver has is the beginning of what was accepted. -/
theorem received_prefix (channel : Channel A capacity) : channel.received <+: channel.sent := by
  rw [channel.order]
  exact List.prefix_append _ _

section Transfers

variable {word taken left : List A} {channel next : Channel A capacity} {a : A}

/-- A word on its way: what the receiver has of it, what waits, and what the sender still
has to put in. -/
def Carries (word taken left : List A) (channel : Channel A capacity) : Prop :=
  word = taken ++ channel.queue ++ left

theorem Carries.sent (h : Carries word taken (a :: left) channel)
    (hsend : channel.send a = .accepted next) : Carries word taken left next := by
  have hqueue := (send_accepted hsend).queue
  unfold Carries at h ⊢
  rw [h, hqueue]
  simp only [List.append_assoc, List.singleton_append]

theorem Carries.received (h : Carries word taken left channel)
    (hreceive : channel.receive = .item a next) : Carries word (taken ++ [a]) left next := by
  have hqueue := (receive_item hreceive).queue
  unfold Carries at h ⊢
  rw [h, hqueue]
  simp only [List.append_assoc, List.singleton_append]

/-- A word that waits nowhere has arrived. -/
theorem Carries.arrived (h : Carries word taken [] channel) (hqueue : channel.queue = []) :
    taken = word := by
  unfold Carries at h
  rw [h, hqueue, List.append_nil, List.append_nil]

/-- A word that has not arrived goes on, however little a channel holds. -/
theorem Carries.goes_on (h : Carries word taken left channel) (hcapacity : 0 < capacity)
    (hopen : channel.closed = false) (hshort : taken ≠ word) :
    (∃ a next, channel.receive = .item a next) ∨
      ∃ a rest next, left = a :: rest ∧ channel.send a = .accepted next := by
  by_cases hqueue : channel.queue = []
  · cases left with
    | nil => exact absurd (h.arrived hqueue) hshort
    | cons a rest =>
      refine Or.inr ⟨a, rest, ?_⟩
      cases hsend : channel.send a with
      | accepted next => exact ⟨next, rfl, rfl⟩
      | refused =>
        have hclosed := send_refused hsend
        rw [hopen] at hclosed
        contradiction
      | full =>
        have hfull := (send_full hsend).2
        rw [hqueue, List.length_nil] at hfull
        omega
  · exact Or.inl (receive_some hqueue)

end Transfers

end Channel

end StuntDouble.Channels
