/-!
# Bounded first-in first-out channels

A `Channel` never holds more than its capacity; `trySend` refuses a message when
it is full and `recv` takes the oldest one.
-/

namespace Base

/-- The messages of a channel, oldest first. -/
structure Channel (α : Type) (capacity : Nat) where
  items : List α
  bounded : items.length ≤ capacity

namespace Channel

variable {α : Type} {capacity : Nat}

/-- No messages. -/
def empty : Channel α capacity := ⟨[], Nat.zero_le _⟩

/-- Append a message unless the channel is full. -/
def trySend (channel : Channel α capacity) (message : α) : Option (Channel α capacity) :=
  if room : channel.items.length < capacity then
    some ⟨channel.items ++ [message], by
      simp only [List.length_append, List.length_singleton]
      omega⟩
  else none

/-- Take the oldest message. -/
def recv : Channel α capacity → Option (α × Channel α capacity)
  | ⟨[], _⟩ => none
  | ⟨message :: rest, bounded⟩ =>
      some (message, ⟨rest, Nat.le_trans (Nat.le_succ _) bounded⟩)

/-- What is sent goes to the end of the queue. -/
theorem trySend_items {channel after : Channel α capacity} {message : α}
    (sent : channel.trySend message = some after) :
    after.items = channel.items ++ [message] := by
  unfold trySend at sent
  split at sent
  · cases sent; rfl
  · cases sent

/-- Sending succeeds exactly while there is room. -/
theorem trySend_isSome_iff (channel : Channel α capacity) (message : α) :
    (channel.trySend message).isSome ↔ channel.items.length < capacity := by
  unfold trySend
  split <;> simp_all

/-- Sending fails exactly when the channel is full. -/
theorem trySend_eq_none_iff (channel : Channel α capacity) (message : α) :
    channel.trySend message = none ↔ ¬ channel.items.length < capacity := by
  rw [← trySend_isSome_iff channel message]
  cases channel.trySend message <;> simp

/-- What is received comes from the front of the queue. -/
theorem recv_items {channel after : Channel α capacity} {message : α}
    (received : channel.recv = some (message, after)) :
    channel.items = message :: after.items := by
  obtain ⟨items, bounded⟩ := channel
  cases items with
  | nil => cases received
  | cons first rest => cases received; rfl

/-- An empty channel gives nothing. -/
theorem recv_eq_none_iff (channel : Channel α capacity) :
    channel.recv = none ↔ channel.items = [] := by
  obtain ⟨items, bounded⟩ := channel
  cases items <;> simp [recv]

/-- A channel with room takes a message. -/
theorem trySend_of_lt {channel : Channel α capacity} (message : α)
    (room : channel.items.length < capacity) :
    ∃ after, channel.trySend message = some after ∧
      after.items = channel.items ++ [message] := by
  cases sends : channel.trySend message with
  | none => exact absurd room ((trySend_eq_none_iff channel message).mp sends)
  | some after => exact ⟨after, rfl, trySend_items sends⟩

/-- A channel gives its oldest message. -/
theorem recv_of_items {channel : Channel α capacity} {message : α} {rest : List α}
    (items : channel.items = message :: rest) :
    ∃ after, channel.recv = some (message, after) ∧ after.items = rest := by
  obtain ⟨_, bounded⟩ := channel
  subst items
  exact ⟨_, rfl, rfl⟩

end Channel

end Base
