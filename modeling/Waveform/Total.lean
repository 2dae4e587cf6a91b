/-!
# Totals

The sum of the natural numbers that a measure gives for the items of a list.
-/

namespace Waveform

/-- The sum of what a measure gives for each item. -/
def totalOf {α : Type} (measure : α → Nat) : List α → Nat
  | [] => 0
  | item :: rest => measure item + totalOf measure rest

@[simp] theorem totalOf_nil {α : Type} (measure : α → Nat) : totalOf measure [] = 0 := rfl

@[simp] theorem totalOf_cons {α : Type} (measure : α → Nat) (item : α) (rest : List α) :
    totalOf measure (item :: rest) = measure item + totalOf measure rest := rfl

@[simp] theorem totalOf_append {α : Type} (measure : α → Nat) (first second : List α) :
    totalOf measure (first ++ second) = totalOf measure first + totalOf measure second := by
  induction first with
  | nil => simp
  | cons item rest ih => simp [ih, Nat.add_assoc]

theorem totalOf_add {α : Type} (first second : α → Nat) (items : List α) :
    totalOf (fun item => first item + second item) items =
      totalOf first items + totalOf second items := by
  induction items with
  | nil => rfl
  | cons item rest ih => simp only [totalOf_cons, ih]; omega

/-- No item counts for more than all of them. -/
theorem le_totalOf_of_mem {α : Type} (measure : α → Nat) {items : List α} {item : α}
    (member : item ∈ items) : measure item ≤ totalOf measure items := by
  induction items with
  | nil => cases member
  | cons first rest ih =>
      rw [totalOf_cons]
      rcases List.mem_cons.mp member with rfl | inRest
      · exact Nat.le_add_right _ _
      · exact Nat.le_trans (ih inRest) (Nat.le_add_left _ _)

/-- The order of items makes no difference to their total. -/
theorem totalOf_perm {α : Type} (measure : α → Nat) {items others : List α}
    (isPerm : items.Perm others) : totalOf measure items = totalOf measure others := by
  induction isPerm with
  | nil => rfl
  | cons item _ ih => rw [totalOf_cons, totalOf_cons, ih]
  | swap first second rest => exact Nat.add_left_comm _ _ _
  | trans _ _ ih laterIh => exact ih.trans laterIh

end Waveform
