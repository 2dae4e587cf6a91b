import Mathlib.Data.List.Nodup
import Waveform.Workbench.Command

/-!
# Values under names

Finding, putting and taking away values under names commutes with changing all values alike. As long
as no name is given twice, the value that is found is one of the values and the others stay when it
is taken away.
-/

namespace Waveform

namespace Named

variable {α β : Type} {values : Named α} {name other : String} {value : α}

/-- Change all values alike. -/
def mapValues (map : α → β) (values : Named α) : Named β :=
  values.map fun entry => (entry.1, map entry.2)

theorem find?_mapValues (map : α → β) (values : Named α) (name : String) :
    (values.mapValues map).find? name = (values.find? name).map map := by
  simp only [find?, mapValues]
  rw [List.find?_map]
  simp [Function.comp_def]

theorem remove_mapValues (map : α → β) (values : Named α) (name : String) :
    (values.mapValues map).remove name = (values.remove name).mapValues map := by
  simp only [remove, mapValues]
  rw [List.filter_map]
  rfl

theorem put_mapValues (map : α → β) (values : Named α) (name : String) (value : α) :
    (values.mapValues map).put name (map value) = (values.put name value).mapValues map := by
  simp only [put]
  rw [remove_mapValues]
  rfl

theorem takeAll_mapValues (map : α → β) (values : Named α) (names : List String) :
    (values.mapValues map).takeAll names =
      (values.takeAll names).map fun taken => (taken.1.map map, taken.2.mapValues map) := by
  induction names generalizing values with
  | nil => rfl
  | cons name names ih =>
      simp only [takeAll]
      rw [find?_mapValues]
      cases values.find? name with
      | none => rfl
      | some value =>
          dsimp only [Option.map_some]
          rw [remove_mapValues, ih]
          cases (values.remove name).takeAll names <;> rfl

/-- Whether no name is given twice. -/
def Distinct (values : Named α) : Prop := (values.map Prod.fst).Nodup

theorem Distinct.remove (distinct : values.Distinct) (name : String) :
    (values.remove name).Distinct :=
  distinct.sublist (List.filter_sublist.map Prod.fst)

theorem notMem_remove (values : Named α) (name : String) :
    name ∉ (values.remove name).map Prod.fst := by
  simp [Named.remove]

theorem Distinct.put (distinct : values.Distinct) (name : String) (value : α) :
    (values.put name value).Distinct :=
  List.nodup_cons.mpr ⟨values.notMem_remove name, distinct.remove name⟩

theorem remove_of_notMem (absent : name ∉ values.map Prod.fst) : values.remove name = values := by
  simp only [remove]
  apply List.filter_eq_self.mpr
  intro entry member
  have different : entry.1 ≠ name := by
    rintro rfl
    exact absent (List.mem_map_of_mem member)
  simpa using different

theorem remove_of_find?_none (absent : values.find? name = none) : values.remove name = values := by
  apply remove_of_notMem
  intro member
  obtain ⟨entry, isEntry, rfl⟩ := List.mem_map.mp member
  have notFound := List.find?_eq_none.mp (Option.map_eq_none_iff.mp absent) entry isEntry
  simp at notFound

theorem mem_of_find? (found : values.find? name = some value) : (name, value) ∈ values := by
  obtain ⟨entry, isEntry, rfl⟩ := Option.map_eq_some_iff.mp found
  have sameName : entry.1 = name := by simpa using List.find?_some isEntry
  rw [← sameName]
  exact List.mem_of_find?_eq_some isEntry

/-- A value that is found stands beside those that are left when it is taken away. -/
theorem perm_of_find? (distinct : values.Distinct) (found : values.find? name = some value) :
    values.Perm ((name, value) :: values.remove name) := by
  obtain ⟨before, after, split⟩ := List.append_of_mem (mem_of_find? found)
  rw [split] at distinct ⊢
  have nodup : (before.map Prod.fst ++ name :: after.map Prod.fst).Nodup := by
    simpa [Distinct] using distinct
  have absent := (List.nodup_cons.mp (List.nodup_middle.mp nodup)).1
  rw [List.mem_append, not_or] at absent
  have removed : remove (before ++ (name, value) :: after) name = before ++ after := by
    have first : remove before name = before := remove_of_notMem absent.1
    have second : remove after name = after := remove_of_notMem absent.2
    simp only [remove] at first second ⊢
    rw [List.filter_append, List.filter_cons_of_neg (by simp), first, second]
  rw [removed]
  exact List.perm_middle

/-- Taking a value away changes no other one. -/
theorem find?_remove_of_ne (values : Named α) (different : other ≠ name) :
    (values.remove name).find? other = values.find? other := by
  simp only [remove, find?]
  rw [List.find?_filter]
  congr 2
  funext entry
  by_cases isOther : entry.1 = other
  · simp [isOther, different]
  · simp [isOther]

/-- Putting a value changes no other one. -/
theorem find?_put_of_ne (values : Named α) (value : α) (different : other ≠ name) :
    (values.put name value).find? other = values.find? other := by
  rw [← values.find?_remove_of_ne different]
  simp only [put, find?]
  rw [List.find?_cons_of_neg (by simpa using different.symm)]

/-- Values are taken away one after the other. -/
theorem takeAll_cons {names : List String} {taken : List α} {rest : Named α}
    (areTaken : values.takeAll (name :: names) = .ok (taken, rest)) :
    ∃ value later, values.find? name = some value ∧
      (values.remove name).takeAll names = .ok (later, rest) ∧ taken = value :: later := by
  simp only [takeAll] at areTaken
  cases found : values.find? name with
  | none =>
      rw [found] at areTaken
      cases areTaken
  | some value =>
      rw [found] at areTaken
      cases isLater : (values.remove name).takeAll names with
      | error missing =>
          rw [isLater] at areTaken
          cases areTaken
      | ok reached =>
          rw [isLater] at areTaken
          cases areTaken
          exact ⟨value, reached.1, rfl, rfl, rfl⟩

/-- Taking values away changes no other one. -/
theorem find?_of_takeAll {names : List String} {taken : List α} {rest : Named α}
    (areTaken : values.takeAll names = .ok (taken, rest)) (absent : other ∉ names) :
    rest.find? other = values.find? other := by
  induction names generalizing values taken with
  | nil =>
      cases areTaken
      rfl
  | cons name names ih =>
      obtain ⟨value, later, _, areLater, _⟩ := takeAll_cons areTaken
      rw [List.mem_cons, not_or] at absent
      rw [ih areLater absent.2, values.find?_remove_of_ne absent.1]

/-- The values that are taken away and those that are left are all values. -/
theorem perm_of_takeAll {names : List String} {taken : List α} {rest : Named α}
    (distinct : values.Distinct) (areTaken : values.takeAll names = .ok (taken, rest)) :
    rest.Distinct ∧ (values.map Prod.snd).Perm (taken ++ rest.map Prod.snd) := by
  induction names generalizing values taken with
  | nil =>
      cases areTaken
      exact ⟨distinct, List.Perm.refl _⟩
  | cons name names ih =>
      obtain ⟨value, later, found, areLater, rfl⟩ := takeAll_cons areTaken
      obtain ⟨restDistinct, same⟩ := ih (distinct.remove name) areLater
      exact ⟨restDistinct, ((perm_of_find? distinct found).map Prod.snd).trans (same.cons value)⟩

end Named

end Waveform
