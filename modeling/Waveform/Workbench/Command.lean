import Waveform.Storage.StoredTrace

/-!
# Commands on named traces

A workbench holds traces under names. Commands create, change, query, join and drop them. The same
commands are carried out on traces stored in pools and on plain ones.
-/

namespace Waveform

/-- A command on the traces of a workbench. -/
inductive Command where
  /-- Put a new trace under a name, in a pool, with a start and a rate if they are given. -/
  | create (name : String) (pool : Nat) (origin : Option (Int × Float))
  | setStart (name : String) (start : Int)
  | setRate (name : String) (rate : Float)
  | append (name : String) (samples : List Int32)
  | extend (name : String) (samples : List Int32) (offset length : Nat)
  | slice (name : String) (index count : Nat)
  | sliceFrom (name : String) (time : Int) (count : Nat)
  | sliceBetween (name : String) (first last : Int)
  | samples (name : String)
  | crop (name : String) (first last : Int)
  | dropBefore (name : String) (first : Int)
  | dropAfter (name : String) (last : Int)
  | clear (name : String)
  | drop (name : String)
  | digest (name : String)
  | covers (name : String) (first last : Int)
  | describe (name : String)
  | join (source target : String) (tolerance : Tolerance)
  | compare (first second : String)
  /-- Take traces off the workbench and put what they are spliced to under a name. -/
  | splice (name : String) (sources : List String)

/-- How two traces lie to each other. -/
structure Comparison where
  startsBefore : Bool
  startsAfter : Bool
  endsBefore : Bool
  endsAfter : Bool
  overlaps : Bool
  sameExtent : Bool
  isPartOf : Except TraceError Bool
  isEmpty : Bool

/-- Compare the extents of two traces. -/
def Extent.comparison (first second : Extent) : Comparison where
  startsBefore := first.start < second.start
  startsAfter := second.start < first.start
  endsBefore := first.stop < second.stop
  endsAfter := second.stop < first.stop
  overlaps := first.overlaps second
  sameExtent := first = second
  isPartOf := first.isPartOf second
  isEmpty := first.length = 0

/-- What a command answers. -/
inductive Reply where
  | done
  | samples (values : List Int32)
  | flag (value : Bool)
  | text (value : String)
  | comparison (value : Comparison)

/-- Values under names, the one put last first. -/
abbrev Named (α : Type) := List (String × α)

namespace Named

variable {α : Type}

/-- The value under a name. -/
def find? (values : Named α) (name : String) : Option α :=
  (List.find? (fun entry => entry.1 = name) values).map Prod.snd

/-- Take the value under a name away. -/
def remove (values : Named α) (name : String) : Named α :=
  values.filter fun entry => entry.1 ≠ name

/-- Put a value under a name, in place of the one that was there. -/
def put (values : Named α) (name : String) (value : α) : Named α :=
  (name, value) :: remove values name

/-- Take the values under some names away, one after the other; if there is none under one of the
names, or none any more, the answer is that name. -/
def takeAll (values : Named α) : List String → Except String (List α × Named α)
  | [] => .ok ([], values)
  | name :: names =>
      match values.find? name with
      | none => .error name
      | some value =>
          (takeAll (values.remove name) names).map fun (taken, rest) => (value :: taken, rest)

end Named

end Waveform
