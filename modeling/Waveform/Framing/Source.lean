/-!
# Byte sources

A source delivers its bytes piece by piece. Between two pieces it may be interrupted, after which
reading simply goes on, or fail, after which reading may be tried again. At its end it delivers
nothing. What a source holds does not depend on how it is cut into pieces.
-/

namespace Waveform

/-- One thing that a source does when it is read. -/
inductive Delivery where
  | bytes (piece : List UInt8)
  | interrupted
  | failed (message : String)
deriving DecidableEq

/-- What a source is going to do, in order. -/
abbrev Source := List Delivery

/-- What comes of reading from a source. -/
inductive Reading where
  /-- As many bytes as were wanted, or all there were. -/
  | filled (bytes : List UInt8) (rest : Source)
  /-- A failure; bytes read before it are lost. -/
  | failed (message : String) (rest : Source)
deriving DecidableEq

namespace Source

/-- All bytes that a source holds. -/
def contents : Source → List UInt8
  | [] => []
  | .bytes piece :: rest => piece ++ contents rest
  | _ :: rest => contents rest

/-- Read until so many bytes are there, the source ends or it fails. -/
def read : (wanted : Nat) → Source → Reading
  | 0, source => .filled [] source
  | _ + 1, [] => .filled [] []
  | wanted + 1, .interrupted :: rest => read (wanted + 1) rest
  | _ + 1, .failed message :: rest => .failed message rest
  | wanted + 1, .bytes piece :: rest =>
      if wanted + 1 < piece.length then
        .filled (piece.take (wanted + 1)) (.bytes (piece.drop (wanted + 1)) :: rest)
      else
        match read (wanted + 1 - piece.length) rest with
        | .filled more later => .filled (piece ++ more) later
        | .failed message later => .failed message later

/-- Cut bytes into pieces of at most a size; without a size they stay whole. -/
def ofBytes (size : Nat) (bytes : List UInt8) : Source :=
  if bytes = [] then []
  else if 0 < size then .bytes (bytes.take size) :: ofBytes size (bytes.drop size)
  else [.bytes bytes]
termination_by bytes.length
decreasing_by
  have nonempty : 0 < bytes.length := List.length_pos_iff.2 (by assumption)
  simp only [List.length_drop]
  omega

end Source

/-- Something that happens to a source once it has delivered so many bytes. -/
structure SourceEvent where
  position : Nat
  /-- The message of a failure; without one the source is only interrupted. -/
  failure : Option String
deriving DecidableEq

namespace SourceEvent

/-- How an event shows when the source is read. -/
def toDelivery (event : SourceEvent) : Delivery :=
  match event.failure with
  | some message => .failed message
  | none => .interrupted

end SourceEvent

/-- The source of bytes that is read in pieces of at most a size and to which events happen, in
order. `delivered` counts the bytes before these. An event past the end never happens. -/
def Source.ofEvents (size : Nat) (delivered : Nat) (bytes : List UInt8) :
    List SourceEvent → Source
  | [] => Source.ofBytes size bytes
  | event :: events =>
      let before := event.position - delivered
      Source.ofBytes size (bytes.take before) ++
        if bytes.length < before then []
        else
          event.toDelivery ::
            Source.ofEvents size (delivered + before) (bytes.drop before) events

namespace Source

@[simp] theorem contents_nil : contents [] = [] := rfl

@[simp] theorem contents_bytes (piece : List UInt8) (rest : Source) :
    contents (.bytes piece :: rest) = piece ++ contents rest := rfl

@[simp] theorem contents_interrupted (rest : Source) :
    contents (.interrupted :: rest) = contents rest := rfl

@[simp] theorem contents_failed (message : String) (rest : Source) :
    contents (.failed message :: rest) = contents rest := rfl

/-- Reading takes bytes off the front of what a source holds. -/
theorem contents_of_read_filled {wanted : Nat} {source rest : Source} {bytes : List UInt8}
    (isRead : read wanted source = .filled bytes rest) :
    bytes ++ contents rest = contents source := by
  fun_induction read wanted source generalizing bytes rest with
  | case1 source => cases isRead; rfl
  | case2 => cases isRead; rfl
  | case3 wanted later ih => simpa using ih isRead
  | case4 => cases isRead
  | case5 wanted piece later long =>
      cases isRead
      simp only [contents_bytes, ← List.append_assoc, List.take_append_drop]
  | case6 wanted piece later short more final isMore ih =>
      cases isRead
      simp only [contents_bytes, List.append_assoc, ih isMore]
  | case7 => cases isRead

/-- No more bytes are read than were wanted. -/
theorem length_of_read_filled {wanted : Nat} {source rest : Source} {bytes : List UInt8}
    (isRead : read wanted source = .filled bytes rest) : bytes.length ≤ wanted := by
  fun_induction read wanted source generalizing bytes rest with
  | case1 => cases isRead; simp
  | case2 => cases isRead; simp
  | case3 wanted later ih => exact ih isRead
  | case4 => cases isRead
  | case5 wanted piece later long => cases isRead; simp only [List.length_take]; omega
  | case6 wanted piece later short more final isMore ih =>
      cases isRead
      have bound := ih isMore
      simp only [List.length_append]
      omega
  | case7 => cases isRead

end Source

end Waveform
