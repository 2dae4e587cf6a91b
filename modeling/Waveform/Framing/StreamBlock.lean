/-!
# Blocks of a stream

What the framer of a stream hands on: whole records, and one block at the end that tells how the
stream came to it. Every block also counts the bytes that were skipped before it.
-/

namespace Waveform

/-- What a block of a stream carries. -/
inductive BlockContent where
  /-- A whole record. -/
  | record (bytes : List UInt8)
  /-- The end of a stream; `isLast` marks the end of the whole run. -/
  | ended (isLast : Bool)
  /-- The end of a stream that could not be read on. -/
  | failed (message : String)
deriving DecidableEq

/-- A block of a stream. -/
structure StreamBlock where
  /-- The number of the stream. -/
  stream : Nat
  /-- How many bytes before the block belong to no record. -/
  skipped : Nat
  content : BlockContent
deriving DecidableEq

namespace StreamBlock

/-- The number that stands for no stream in particular. -/
def noStream : Nat := UInt64.size - 1

/-- The block that ends a run once all of its streams have ended. -/
def endOfRun : StreamBlock := ⟨noStream, 0, .ended true⟩

/-- The bytes of the record, none if there is no record. -/
def bytes (block : StreamBlock) : List UInt8 :=
  match block.content with
  | .record bytes => bytes
  | _ => []

/-- Whether the block ends its stream. -/
def isEnd (block : StreamBlock) : Bool :=
  match block.content with
  | .record _ => false
  | _ => true

/-- Whether the block ends the run. -/
def isLast (block : StreamBlock) : Bool :=
  match block.content with
  | .ended isLast => isLast
  | _ => false

end StreamBlock

/-- What the reading of one stream came to. -/
structure StreamSummary where
  stream : Nat
  /-- How many bytes were read. -/
  bytes : Nat
  records : Nat
  /-- How many bytes belong to no record. -/
  skipped : Nat
  /-- The digest of the bytes read, if one was asked for. -/
  digest : Option String
  error : Option String
  cancelled : Bool
deriving DecidableEq

end Waveform
