import Mathlib.Data.List.Induction
import Waveform.Monitor.Progress
import Waveform.Monitor.RecentQueue

/-!
# Watching a run

A queue that has been given items holds the newest of them, as many as it has room for: who looks
at it after the last item finds this one, however slowly it was watched. The share of the work that
snapshots tell grows with the bytes they tell, and stays below one hundred until a run is complete.
-/

namespace Waveform

namespace RecentQueue

variable {α : Type} (queue : RecentQueue α)

@[simp] theorem capacity_push (item : α) : (queue.push item).2.capacity = queue.capacity := by
  rw [push]
  split
  next => rfl
  next => split <;> rfl

/-- An item comes behind the others, and the oldest one falls off if there is no room. -/
theorem items_push (item : α) :
    (queue.push item).2.items =
      (queue.items ++ [item]).drop (queue.items.length + 1 - queue.capacity) := by
  rw [push]
  split
  next room =>
    rw [Nat.sub_eq_zero_of_le room]
    rfl
  next isFull =>
    have bound := queue.length_le
    have noRoom : queue.items.length = queue.capacity :=
      Nat.le_antisymm bound (Nat.not_lt.mp isFull)
    have oneFalls : queue.items.length + 1 - queue.capacity = 1 := by
      rw [noRoom, Nat.add_sub_cancel_left]
    rw [oneFalls]
    split
    next isEmpty => simp [isEmpty]
    next oldest rest shape => simp [shape]

theorem pushAll_append_singleton (items : List α) (item : α) :
    queue.pushAll (items ++ [item]) = ((queue.pushAll items).push item).2 := by
  rw [pushAll, List.foldl_append]
  rfl

@[simp] theorem capacity_pushAll (items : List α) :
    (queue.pushAll items).capacity = queue.capacity := by
  induction items using List.reverseRecOn with
  | nil => rfl
  | append_singleton items item ih => rw [pushAll_append_singleton, capacity_push, ih]

/-- Of all items that a queue was given, it holds the newest ones that it has room for. -/
theorem items_pushAll (items : List α) :
    (queue.pushAll items).items =
      (queue.items ++ items).drop ((queue.items ++ items).length - queue.capacity) := by
  induction items using List.reverseRecOn with
  | nil =>
      rw [List.append_nil, Nat.sub_eq_zero_of_le queue.length_le]
      rfl
  | append_singleton items item ih =>
      let given := queue.items ++ items
      let fallen := given.length - queue.capacity
      have isDropped : (given.drop fallen ++ [item]) = (given ++ [item]).drop fallen :=
        (List.drop_append_of_le_length (Nat.sub_le _ _)).symm
      rw [pushAll_append_singleton, items_push, capacity_pushAll, ih, isDropped, List.drop_drop,
        ← List.append_assoc, List.length_drop]
      congr 1
      simp only [List.length_append, List.length_singleton, given, fallen]
      omega

/-- To take the newest item is to take the oldest one until none is left. -/
theorem latest_eq_pop :
    queue.latest =
      match queue.pop with
      | (none, rest) => (none, rest)
      | (some item, rest) => (some (rest.latest.1.getD item), rest.latest.2) := by
  obtain ⟨capacity, items, bound⟩ := queue
  cases items with
  | nil => rfl
  | cons oldest rest =>
      cases rest with
      | nil => rfl
      | cons next later => simp [pop, latest, List.getLast?_cons]

end RecentQueue

theorem percentOf_lt (done total : Nat) : percentOf done total < 100 := by
  rw [percentOf]
  split <;> omega

/-- The share of the work does not shrink as more of it is done. -/
theorem percentOf_mono {done later : Nat} (isLater : done ≤ later) (total : Nat) :
    percentOf done total ≤ percentOf later total := by
  rw [percentOf, percentOf]
  split
  next => exact Nat.le_refl _
  next =>
    have saturated : min (done * 100) counterLimit ≤ min (later * 100) counterLimit := by omega
    have share := Nat.div_le_div_right (c := total) saturated
    omega

namespace SplitProgress

/-- Whether some snapshots show a run that goes on: none of them tells that the run is over, and
neither the bytes nor the share of the work that they tell ever shrink. -/
structure Rising (published : List SplitProgress) : Prop where
  unfailed : ∀ progress ∈ published, progress.isError = false
  incomplete : ∀ progress ∈ published, ∀ total, progress.percent total < 100
  bytes : published.Pairwise fun earlier later => earlier.bytes ≤ later.bytes
  percent : ∀ total,
    published.Pairwise fun earlier later => earlier.percent total ≤ later.percent total

variable {progress : SplitProgress}

end SplitProgress

end Waveform
