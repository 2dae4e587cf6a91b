import Waveform.Coverage.Span
import Waveform.Monitor.Progress
import Waveform.Monitor.RecentQueue
import Waveform.Total

/-!
# Searching for common coverage

The windows of time that every one of several channels covers. The segments of the first channel are
the windows to begin with; each further channel narrows them, in one sweep over windows and segments
in the order of time. All segments must have the interval of the very first one. A search counts the
segments it is done with and publishes snapshots, and it can be cancelled before any segment.
-/

namespace Waveform

/-- Why a search stops early. -/
inductive SearchHalt where
  | cancelled
  /-- A segment has another interval than the first one. -/
  | mixedIntervals (expected actual : Int)
deriving DecidableEq

/-- The complaint about a segment of another interval. -/
def mixedIntervalsMessage (expected actual : Int) : String :=
  s!"block interval mismatch: expected {expected}us, got {actual}us"

/-- Where a search stands. -/
structure SearchState where
  /-- How many segments there are. -/
  total : Nat
  /-- How many of them are done with. -/
  processed : Nat
  /-- The snapshots published so far, in order. -/
  published : List SearchProgress
  /-- After how many more looks the request to cancel is seen, if there is one. -/
  patience : Option Nat

/-- A search that may stop early; what it has published stays. -/
abbrev Search (α : Type) := ExceptT SearchHalt (StateM SearchState) α

namespace Search

/-- Publish a snapshot. -/
def publish (snapshot : SearchProgress) : Search Unit :=
  modify fun state => { state with published := state.published ++ [snapshot] }

/-- Publish how far the search is. -/
def publishCount : Search Unit := do
  let state ← get
  publish (.running state.processed state.total)

/-- Be done with some segments. -/
def finish (count : Nat) : Search Unit :=
  modify fun state => { state with processed := state.processed + count }

/-- Look whether the search is to be cancelled. -/
def haltIfCancelled : Search Unit := do
  let state ← get
  match state.patience with
  | none => return ()
  | some 0 => throw .cancelled
  | some (more + 1) => set { state with patience := some more }

/-- Look whether a segment has the expected interval. -/
def requireInterval (expected : Int) (segment : Span) : Search Unit := do
  if segment.interval ≠ expected then
    publish (.failed ⟨.intervalMismatch, mixedIntervalsMessage expected segment.interval⟩)
    throw (.mixedIntervals expected segment.interval)

/-- Take the segments of the first channel as windows. -/
def seed (expected : Int) : List Span → Search (List Span)
  | [] => do
      publishCount
      return []
  | segment :: later => do
      haltIfCancelled
      requireInterval expected segment
      finish 1
      return segment :: (← seed expected later)

/-- Be done with the segments of a channel that no window reaches. -/
def skip (expected : Int) (segments : List Span) : Search (List Span) := do
  segments.forM (requireInterval expected)
  finish segments.length
  publishCount
  return []

/-- Narrow windows by the segments of one channel. Of a window and a segment the one that stops
first is done with; both are if they stop together. Touching ends are no common coverage. -/
def narrow (expected : Int) : (windows segments : List Span) → Search (List Span)
  | [], segments => skip expected segments
  | _ :: _, [] => skip expected []
  | window :: windows, segment :: segments => do
      haltIfCancelled
      requireInterval expected segment
      if segment.stop ≤ window.start then
        finish 1
        publishCount
        narrow expected (window :: windows) segments
      else if window.stop ≤ segment.start then
        narrow expected windows (segment :: segments)
      else
        let rest ←
          if segment.stop < window.stop then do
            finish 1
            publishCount
            narrow expected (window :: windows) segments
          else if window.stop < segment.stop then
            narrow expected windows (segment :: segments)
          else do
            finish 1
            publishCount
            narrow expected windows segments
        return window.meet segment :: rest
termination_by windows segments => windows.length + segments.length

/-- The windows that all channels cover, in the order of time. -/
def windows : List (List Span) → Search (List Span)
  | (first :: later) :: channels => do
      let expected := first.interval
      let seeded ← seed expected (first :: later)
      let windows ← channels.foldlM (narrow expected) seeded
      publish .complete
      return windows
  | _ => do
      publish .complete
      return []

end Search

/-- What a search comes to. -/
structure SearchOutcome where
  /-- The windows found, or why the search stopped early. -/
  windows : Except SearchHalt (List Span)
  /-- All snapshots, in order. -/
  published : List SearchProgress

/-- The snapshots that a queue of some capacity keeps for those who look when the search is over;
none without a queue. -/
def SearchOutcome.kept (outcome : SearchOutcome) (capacity : Option Nat) : List SearchProgress :=
  match capacity with
  | none => []
  | some capacity => ((RecentQueue.empty capacity).pushAll outcome.published).items

/-- When a search is asked to cancel. -/
inductive CancelRequest where
  | never
  /-- When it has looked so many times. -/
  | after (looks : Nat)
deriving DecidableEq

/-- After how many looks a request is seen. -/
def CancelRequest.patience : CancelRequest → Option Nat
  | .never => none
  | .after looks => some looks

/-- Search for the windows that all channels cover, unless cancelled before. -/
def commonWindows (channels : List (List Span)) (request : CancelRequest) : SearchOutcome :=
  let total := totalOf List.length channels
  let (windows, state) :=
    (Search.windows channels).run.run ⟨total, 0, [], request.patience⟩
  ⟨windows, state.published⟩

end Waveform
