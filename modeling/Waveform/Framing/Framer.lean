import Waveform.Digest.Md5
import Waveform.Framing.Source
import Waveform.Framing.StreamBlock
import Waveform.Record.Record
import Waveform.Total

/-!
# Cutting a stream into records

A framer looks at a stream in chunks of 256 bytes. A chunk that is the beginning of a record tells
the record's length, and the rest of the record is read after it; any other chunk is skipped. A
short chunk, or a record that is cut off, is skipped and ends the stream.
-/

namespace Waveform

/-- The state of reading one stream. -/
structure Framer where
  source : Source
  /-- The number of the stream. -/
  stream : Nat
  /-- How many bytes have been read. -/
  offset : Nat
  /-- The digest of the bytes read, if one is wanted. -/
  hasher : Option Md5.Hasher
  /-- How many bytes have been skipped since the last record. -/
  skipped : Nat
  /-- How many records have been read. -/
  records : Nat

namespace Framer

/-- How many bytes are looked at for the beginning of a record. -/
def chunkLength : Nat := 256

/-- The framer at the start of a stream. -/
def ofSource (source : Source) (stream : Nat) (wantsDigest : Bool) : Framer :=
  ⟨source, stream, 0, if wantsDigest then some Md5.Hasher.initial else none, 0, 0⟩

/-- The bytes that are still to be read. -/
def remaining (framer : Framer) : List UInt8 := Source.contents framer.source

/-- The framer once it has read bytes. -/
def advance (framer : Framer) (bytes : List UInt8) (rest : Source) : Framer :=
  { framer with
    source := rest
    offset := framer.offset + bytes.length
    hasher := framer.hasher.map fun hasher => hasher.absorb bytes }

/-- The framer once it has skipped so many bytes more. -/
def skip (framer : Framer) (count : Nat) : Framer :=
  { framer with skipped := framer.skipped + count }

/-- The block of a record that has just been read. -/
def recordBlock (framer : Framer) (bytes : List UInt8) : StreamBlock :=
  ⟨framer.stream, framer.skipped, .record bytes⟩

/-- The framer once a record has been handed on. -/
def handOn (framer : Framer) : Framer :=
  { framer with skipped := 0, records := framer.records + 1 }

/-- What comes of looking at one chunk. -/
inductive Look where
  /-- The chunk is skipped. -/
  | skipped (framer : Framer)
  /-- The chunk begins a record. -/
  | record (block : StreamBlock) (framer : Framer)
  /-- The stream has ended. -/
  | ended (framer : Framer)
  /-- The stream could not be read. -/
  | failed (message : String) (framer : Framer)

/-- Read the rest of a record of a length whose first chunk has been read. -/
def finishRecord (framer : Framer) (chunk : List UInt8) (length : Nat) : Look :=
  match Source.read (length - chunkLength) framer.source with
  | .failed message rest => .failed message { framer with source := rest }
  | .filled bytes rest =>
      let next := framer.advance bytes rest
      if bytes.length < length - chunkLength then
        .ended (next.skip (chunk.length + bytes.length))
      else .record (next.recordBlock (chunk ++ bytes)) next.handOn

/-- Look at one chunk. -/
def look (framer : Framer) : Look :=
  match Source.read chunkLength framer.source with
  | .failed message rest => .failed message { framer with source := rest }
  | .filled chunk rest =>
      let next := framer.advance chunk rest
      if chunk.length < chunkLength then .ended (next.skip chunk.length)
      else
        match Record.announcedLength chunk with
        | .error _ => .skipped (next.skip chunk.length)
        | .ok length => next.finishRecord chunk length

@[simp] theorem remaining_advance (framer : Framer) (bytes : List UInt8) (rest : Source) :
    (framer.advance bytes rest).remaining = Source.contents rest := rfl

@[simp] theorem remaining_handOn (framer : Framer) :
    framer.handOn.remaining = framer.remaining := rfl

/-- Reading the rest of a record leaves no more to be read than there was. -/
theorem remaining_of_finishRecord {framer later : Framer} {chunk : List UInt8} {length : Nat}
    {block : StreamBlock} (isRecord : framer.finishRecord chunk length = .record block later) :
    later.remaining.length ≤ framer.remaining.length := by
  unfold finishRecord at isRecord
  split at isRecord
  · cases isRecord
  · rename_i bytes rest isRead
    have lengths := congrArg List.length (Source.contents_of_read_filled isRead)
    rw [List.length_append] at lengths
    dsimp only at isRecord
    split at isRecord
    · cases isRecord
    · cases isRecord
      rw [remaining_handOn, remaining_advance]
      unfold remaining
      omega

/-- Reading the rest of a record never skips a chunk. -/
theorem finishRecord_ne_skipped {framer later : Framer} {chunk : List UInt8} {length : Nat} :
    framer.finishRecord chunk length ≠ .skipped later := by
  unfold finishRecord
  split
  · simp
  · dsimp only
    split <;> simp

/-- After a chunk that does not end the stream there is less to be read. -/
theorem length_contents_lt_of_read {source rest : Source} {chunk : List UInt8}
    (isRead : Source.read chunkLength source = .filled chunk rest)
    (isFull : ¬chunk.length < chunkLength) :
    (Source.contents rest).length < (Source.contents source).length := by
  have lengths := congrArg List.length (Source.contents_of_read_filled isRead)
  rw [List.length_append] at lengths
  unfold chunkLength at isFull
  omega

/-- A chunk that is skipped is taken off what is still to be read. -/
theorem remaining_of_look_skipped {framer later : Framer}
    (isSkipped : framer.look = .skipped later) :
    later.remaining.length < framer.remaining.length := by
  unfold look at isSkipped
  split at isSkipped
  · cases isSkipped
  · rename_i chunk rest isRead
    dsimp only at isSkipped
    split at isSkipped
    · cases isSkipped
    · rename_i isFull
      split at isSkipped
      · cases isSkipped
        exact length_contents_lt_of_read isRead isFull
      · exact absurd isSkipped finishRecord_ne_skipped

/-- A chunk that begins a record is taken off what is still to be read. -/
theorem remaining_of_look_record {framer later : Framer} {block : StreamBlock}
    (isRecord : framer.look = .record block later) :
    later.remaining.length < framer.remaining.length := by
  unfold look at isRecord
  split at isRecord
  · cases isRecord
  · rename_i chunk rest isRead
    dsimp only at isRecord
    split at isRecord
    · cases isRecord
    · rename_i isFull
      split at isRecord
      · cases isRecord
      · exact Nat.lt_of_le_of_lt (remaining_of_finishRecord isRecord)
          (length_contents_lt_of_read isRead isFull)

/-- What comes of reading the next record. -/
inductive Next where
  | record (block : StreamBlock) (framer : Framer)
  | ended (framer : Framer)
  | failed (message : String) (framer : Framer)

/-- Read the next record. -/
def next (framer : Framer) : Next :=
  match _ : framer.look with
  | .skipped later => next later
  | .record block later => .record block later
  | .ended later => .ended later
  | .failed message later => .failed message later
termination_by framer.remaining.length
decreasing_by exact remaining_of_look_skipped (by assumption)

/-- How a stream came to its end. -/
inductive Ending where
  | ended
  | failed (message : String)
deriving DecidableEq

/-- Read all records up to the end of the stream or a failure. -/
def readAll (framer : Framer) : List StreamBlock × Ending × Framer :=
  match _ : framer.look with
  | .skipped later => readAll later
  | .record block later =>
      let (blocks, ending, final) := readAll later
      (block :: blocks, ending, final)
  | .ended later => ([], .ended, later)
  | .failed message later => ([], .failed message, later)
termination_by framer.remaining.length
decreasing_by
  · exact remaining_of_look_skipped (by assumption)
  · exact remaining_of_look_record (by assumption)

/-- The outcome of reading a stream up to where the framer is. -/
def outcome (framer : Framer) (skippedBefore : Nat) (error : Option String)
    (cancelled : Bool) : StreamSummary where
  stream := framer.stream
  bytes := framer.offset
  records := framer.records
  skipped := skippedBefore + framer.skipped
  digest := framer.hasher.map fun hasher => Md5.hexText hasher.digest
  error := error
  cancelled := cancelled

namespace Ending

/-- The message of a failure. -/
def error? : Ending → Option String
  | .ended => none
  | .failed message => some message

/-- What the block at the end of a stream carries. -/
def content (ending : Ending) (isLast : Bool) : BlockContent :=
  match ending with
  | .ended => .ended isLast
  | .failed message => .failed message

end Ending

/-- How many bytes were skipped before the records of some blocks. -/
def skippedBefore (blocks : List StreamBlock) : Nat := totalOf StreamBlock.skipped blocks

/-- Read a stream and send all of its records and a block at its end. `isLast` marks that block as
the end of the run, unless the stream fails. -/
def run (framer : Framer) (isLast : Bool) : List StreamBlock × StreamSummary :=
  let (records, ending, final) := framer.readAll
  (records ++ [⟨final.stream, final.skipped, ending.content isLast⟩],
    final.outcome (skippedBefore records) ending.error? false)

/-- The outcome of reading a stream for which nobody takes the blocks: the first block that should
be sent ends it. -/
def runUnheard (framer : Framer) : StreamSummary :=
  match framer.next with
  | .record block later => later.outcome block.skipped none true
  | .ended later => later.outcome 0 none true
  | .failed message later => later.outcome 0 (some message) true

/-- The outcome of a stream whose reading is cancelled before it starts. -/
def runCancelled (framer : Framer) : StreamSummary := framer.outcome 0 none true

end Framer

end Waveform
