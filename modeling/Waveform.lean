import Waveform.ByteOrder
import Waveform.Channel.ChannelId
import Waveform.Channel.Glob
import Waveform.Channel.Selection
import Waveform.Channel.TrackKey
import Waveform.CommandLine.CommonBlocks
import Waveform.CommandLine.Failure
import Waveform.CommandLine.Request
import Waveform.CommandLine.SplitReport
import Waveform.CommandLine.Tool
import Waveform.Coverage.Search
import Waveform.Coverage.Span
import Waveform.Coverage.WindowSamples
import Waveform.Decimal.Binary64
import Waveform.Decimal.FixedPlaces
import Waveform.Decimal.Shortest
import Waveform.Demux.Counters
import Waveform.Demux.Demux
import Waveform.Demux.Run
import Waveform.Demux.Segmentation
import Waveform.Demux.StoredDemux
import Waveform.Demux.StoredSegmentation
import Waveform.Demux.StoredTrack
import Waveform.Demux.Track
import Waveform.Demux.Verdict
import Waveform.Digest.Md5
import Waveform.Files.Folder
import Waveform.Framing.Framer
import Waveform.Framing.Source
import Waveform.Framing.StreamBlock
import Waveform.Main
import Waveform.Monitor.Progress
import Waveform.Monitor.RecentQueue
import Waveform.Payload.Chunks
import Waveform.Payload.Encoding
import Waveform.Payload.FixedWidth
import Waveform.Payload.PayloadError
import Waveform.Payload.Steim
import Waveform.Process
import Waveform.Proofs.Channel.Globs
import Waveform.Proofs.Channel.Identifiers
import Waveform.Proofs.Channel.KeyTexts
import Waveform.Proofs.Channel.Patterns
import Waveform.Proofs.Coverage.ChannelRows
import Waveform.Proofs.Coverage.CommonWindows
import Waveform.Proofs.Coverage.MixedIntervals
import Waveform.Proofs.Coverage.Narrowing
import Waveform.Proofs.Coverage.SelfNarrowing
import Waveform.Proofs.Coverage.Snapshots
import Waveform.Proofs.Coverage.Sweep
import Waveform.Proofs.Coverage.WindowRows
import Waveform.Proofs.Demux.Accounting
import Waveform.Proofs.Demux.ClosedGaps
import Waveform.Proofs.Demux.Completion
import Waveform.Proofs.Demux.Composition
import Waveform.Proofs.Demux.Counting
import Waveform.Proofs.Demux.Draining
import Waveform.Proofs.Demux.Gathering
import Waveform.Proofs.Demux.Interleavings
import Waveform.Proofs.Demux.Isolation
import Waveform.Proofs.Demux.KeyCounts
import Waveform.Proofs.Demux.LastStream
import Waveform.Proofs.Demux.Reassembly
import Waveform.Proofs.Demux.Repetition
import Waveform.Proofs.Demux.SegmentCover
import Waveform.Proofs.Demux.SegmentOrder
import Waveform.Proofs.Demux.SegmentSteps
import Waveform.Proofs.Demux.SegmentValues
import Waveform.Proofs.Demux.StoredRuns
import Waveform.Proofs.Demux.StoredSegments
import Waveform.Proofs.Demux.StoredTracks
import Waveform.Proofs.Demux.TrackIndex
import Waveform.Proofs.Demux.Tracks
import Waveform.Proofs.Demux.WatchedRuns
import Waveform.Proofs.Demux.WatchedSegments
import Waveform.Proofs.Framing.Accounts
import Waveform.Proofs.Framing.Cutting
import Waveform.Proofs.Framing.Division
import Waveform.Proofs.Framing.Failing
import Waveform.Proofs.Framing.Reading
import Waveform.Proofs.Monitor.Watching
import Waveform.Proofs.Payload.Addresses
import Waveform.Proofs.Payload.Counts
import Waveform.Proofs.Payload.FewerSamples
import Waveform.Proofs.Payload.Frames
import Waveform.Proofs.Payload.Packing
import Waveform.Proofs.Payload.RoundTrip
import Waveform.Proofs.Record.Addresses
import Waveform.Proofs.Record.Extension
import Waveform.Proofs.Record.Ranges
import Waveform.Proofs.Record.WordOrder
import Waveform.Proofs.Storage.Blocks
import Waveform.Proofs.Storage.Holding
import Waveform.Proofs.Storage.Operations
import Waveform.Proofs.Storage.PoolHistory
import Waveform.Proofs.Storage.Splicing
import Waveform.Proofs.Storage.TimeWindows
import Waveform.Proofs.Time.Dates
import Waveform.Proofs.Time.RecordTimes
import Waveform.Proofs.Trace.Distances
import Waveform.Proofs.Trace.Following
import Waveform.Proofs.Trace.Joining
import Waveform.Proofs.Trace.Receivers
import Waveform.Proofs.Trace.Runs
import Waveform.Proofs.Trace.TimedSamples
import Waveform.Proofs.Trace.Windows
import Waveform.Proofs.Watched
import Waveform.Proofs.Workbench.Effects
import Waveform.Proofs.Workbench.Naming
import Waveform.Proofs.Workbench.Ownership
import Waveform.Proofs.Workbench.Scripts
import Waveform.Proofs.Workbench.Simulation
import Waveform.Record.Blockette
import Waveform.Record.Header
import Waveform.Record.Record
import Waveform.Record.RecordError
import Waveform.SampleRate
import Waveform.Session
import Waveform.Signed64
import Waveform.Storage.Pool
import Waveform.Storage.StoredTrace
import Waveform.Text.Blank
import Waveform.Text.Invisible
import Waveform.Text.Json
import Waveform.Text.Markup
import Waveform.Text.Pattern
import Waveform.Text.Quoted
import Waveform.Text.Utf8
import Waveform.Time.Calendar
import Waveform.Time.RecordTime
import Waveform.Time.Timestamp
import Waveform.Total
import Waveform.Trace.Extent
import Waveform.Trace.JoinPlan
import Waveform.Trace.Trace
import Waveform.Trace.TraceError
import Waveform.Workbench.Command
import Waveform.Workbench.PlainWorkbench
import Waveform.Workbench.StoredWorkbench
