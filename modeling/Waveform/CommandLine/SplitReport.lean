import Waveform.Demux.Demux
import Waveform.Text.Json
import Waveform.Text.Markup

/-!
# Reports of splitting runs

What a splitting run tells about its inputs, its tracks and its counters, as a JSON document or as
text for readers. Names and keys are escaped in the text, which may become part of a page.
-/

namespace Waveform.CommandLine

/-- What is told about a segment. -/
structure SegmentReport where
  start : String
  stop : String
  samples : Nat
  digest : String
deriving DecidableEq

/-- What is told about a track. -/
structure TrackReport where
  key : String
  sampleRate : Float
  segments : List SegmentReport
  /-- The mean of the clock qualities, if there are any. -/
  quality : Option Nat
  calibrations : Nat
deriving DecidableEq

/-- What is told about an input. -/
structure InputReport where
  name : String
  bytes : Nat
  records : Nat
  skipped : Nat
  digest : Option String
deriving DecidableEq

/-- What is told about a splitting run. -/
structure SplitReport where
  inputs : List InputReport
  tracks : List TrackReport
  counters : Counters
deriving DecidableEq

/-- The whole part of the mean of some numbers. -/
def mean? (values : List Nat) : Option Nat :=
  if values = [] then none else some (totalOf id values / values.length)

namespace SegmentReport

/-- What is told about a trace. -/
def ofTrace (trace : Trace) : SegmentReport where
  start := Time.text trace.start
  stop := Time.text trace.stop
  samples := trace.samples.length
  digest := trace.digest

/-- The JSON value. -/
def json (segment : SegmentReport) : Json :=
  .record [("start", .text segment.start), ("end", .text segment.stop),
    ("samples", .integer segment.samples), ("digest", .text segment.digest)]

/-- The line of a segment. -/
def line (segment : SegmentReport) : String :=
  "  " ++ segment.start ++ "  " ++ segment.stop ++ "  " ++ toString segment.samples

end SegmentReport

namespace TrackReport

/-- What is told about a track of a split. -/
def ofTrack (split : Split) (key : TrackKey) (segments : List Trace) : TrackReport where
  key := key.text
  sampleRate := key.sampleRate
  segments := segments.map SegmentReport.ofTrace
  quality := mean? ((split.qualities.lookup key).getD [])
  calibrations := ((split.calibrations.lookup key).getD []).length

/-- The number of samples of all segments. -/
def samples (track : TrackReport) : Nat := totalOf SegmentReport.samples track.segments

/-- The number of gaps between the segments. -/
def gaps (track : TrackReport) : Nat := track.segments.length - 1

/-- The JSON value. -/
def json (track : TrackReport) : Json :=
  let quality : Json :=
    match track.quality with
    | some quality => .integer quality
    | none => .null
  .record [("key", .text track.key), ("sample_rate", .decimal track.sampleRate),
    ("samples", .integer track.samples), ("gaps", .integer track.gaps),
    ("segments", .list (track.segments.map SegmentReport.json)), ("timing_quality", quality),
    ("calibrations", .integer track.calibrations)]

/-- The mean clock quality at the end of a heading; a mean of zero is not told. -/
def qualityNote (track : TrackReport) : String :=
  match track.quality with
  | none => ""
  | some quality => if quality = 0 then "" else s!"  quality:{quality}"

/-- The lines of a track. -/
def lines (track : TrackReport) : List String :=
  [String.ofList (List.replicate 91 '-'),
    Text.inMarkup track.key ++ s!"  samples:{track.samples}  gaps:{track.gaps}" ++
      track.qualityNote] ++
    track.segments.map SegmentReport.line

end TrackReport

namespace InputReport

/-- What is told about a stream that was read from an input of some name. -/
def ofStream (names : List String) (stream : StreamSummary) : InputReport where
  name := names.getD stream.stream ""
  bytes := stream.bytes
  records := stream.records
  skipped := stream.skipped
  digest := stream.digest

/-- The JSON value. -/
def json (input : InputReport) : Json :=
  let digest : Json :=
    match input.digest with
    | some digest => .text digest
    | none => .null
  .record [("filename", .text input.name), ("bytes", .integer input.bytes),
    ("records", .integer input.records), ("skipped", .integer input.skipped), ("digest", digest)]

/-- The line of an input. -/
def line (input : InputReport) : String :=
  let digest :=
    match input.digest with
    | some digest => " md5:" ++ digest
    | none => ""
  Text.inMarkup input.name ++
    s!": {input.records} records, {input.bytes} bytes, {input.skipped} skipped" ++ digest

end InputReport

/-- The JSON value of counters: the numbers, and then the kept records under their keys. -/
def countersJson (counters : Counters) : Json :=
  .record (counters.numbers.map (fun (name, value) => (name, .integer value)) ++
    [("records", .record (counters.records.map fun (key, times) => (key, .integer times)))])

/-- The lines about records. -/
def counterLines (counters : Counters) : List String :=
  [s!"Kept:       {counters.kept}",
   s!"Discarded:  {counters.discarded} (filtered {counters.filtered}, " ++
     s!"heartbeats {counters.heartbeats}, illegal rates {counters.illegalRates}, " ++
     s!"corrupt {counters.corrupt})",
   s!"Undecoded:  {counters.decodeFailures}",
   s!"Corrected:  {counters.timingCorrections}"]

/-- Lines, each with its end. -/
def joinLines (lines : List String) : String := String.join (lines.map (· ++ "\n"))

namespace SplitReport

/-- What is told about a split of inputs of some names. -/
def ofSplit (names : List String) (split : Split) : SplitReport where
  inputs := split.streams.map (InputReport.ofStream names)
  tracks := split.tracks.map fun (key, segments) => TrackReport.ofTrack split key segments
  counters := split.counters

/-- The JSON value. -/
def json (report : SplitReport) : Json :=
  .record [("inputs", .list (report.inputs.map InputReport.json)),
    ("tracks", .list (report.tracks.map TrackReport.json)),
    ("stats", countersJson report.counters)]

/-- The text: the inputs, the counters and the tracks. -/
def text (report : SplitReport) : String :=
  joinLines (report.inputs.map InputReport.line ++ [String.ofList (List.replicate 91 '=')] ++
    counterLines report.counters ++ report.tracks.flatMap TrackReport.lines)

end SplitReport

end Waveform.CommandLine
