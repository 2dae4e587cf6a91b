/-!
# Queues of the most recent items

A bounded queue that never keeps its producer waiting: when it is full, the oldest item falls off.
A queue without room drops every item.
-/

namespace Waveform

/-- At most `capacity` items, oldest first. -/
structure RecentQueue (α : Type) where
  capacity : Nat
  items : List α
  length_le : items.length ≤ capacity

namespace RecentQueue

variable {α : Type}

/-- A queue without items. -/
def empty (capacity : Nat) : RecentQueue α := ⟨capacity, [], Nat.zero_le _⟩

/-- Add an item. The first result is the item that fell off, if one did. -/
def push (queue : RecentQueue α) (item : α) : Option α × RecentQueue α :=
  if room : queue.items.length < queue.capacity then
    (none, ⟨queue.capacity, queue.items ++ [item], by simp; omega⟩)
  else
    match shape : queue.items with
    | [] => (some item, queue)
    | oldest :: rest =>
        (some oldest,
          ⟨queue.capacity, rest ++ [item], by
            have bound := queue.length_le
            rw [shape] at bound
            simpa using bound⟩)

/-- Take the oldest item. -/
def pop (queue : RecentQueue α) : Option α × RecentQueue α :=
  match shape : queue.items with
  | [] => (none, queue)
  | oldest :: rest =>
      (some oldest,
        ⟨queue.capacity, rest, by
          have bound := queue.length_le
          rw [shape] at bound
          simp only [List.length_cons] at bound
          omega⟩)

/-- Take the newest item and drop the others. -/
def latest (queue : RecentQueue α) : Option α × RecentQueue α :=
  (queue.items.getLast?, empty queue.capacity)

/-- Add items one after the other. -/
def pushAll (queue : RecentQueue α) (items : List α) : RecentQueue α :=
  items.foldl (fun current item => (current.push item).2) queue

end RecentQueue

end Waveform
