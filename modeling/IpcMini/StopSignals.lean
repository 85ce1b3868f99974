/-
Stopping the writer thread of the recorder and the worker thread of the uploader.

`SegmentRecorder` (`src/record/segment_recorder.cpp`) and `HttpSegmentUploader`
(`src/record/http_segment_uploader.cpp`) run the same loop: wait for a frame or
an item with `stopping_` in the predicate, pop the front, handle it without the
mutex.  Both store `stopping_` and notify without taking the mutex.

* `SegmentRecorder.threadStep`, `HttpSegmentUploader.threadStep` — the two
  classes as instances of the worker of `CvWorker`;
* **`stop_stuck_only_in_window`** — `stop` returns unless it notifies between
  the worker's evaluation of its predicate and its blocking;
* `stop_stuck` — the schedule that hangs both shutdowns.
-/
import IpcMini.CvWorker
import IpcMini.MediaFrame
import IpcMini.RecordConfig

namespace IpcMini

open Interleaving CvWorker

namespace SegmentRecorder

/-- What `on_frame` checks of a frame before it takes `queue_mutex_`. -/
def onFrameAdmits (config : RecordConfig) (frame : MediaFrame) : Bool :=
  config.audio || decide (frame.type ≠ .Audio)

/-- `on_frame`, `writer_loop` and `stop`, one step of one thread. -/
def threadStep (config : RecordConfig) :
    State MediaFrame → Label MediaFrame → Option (State MediaFrame) :=
  step config.maxPendingFrames (onFrameAdmits config)

end SegmentRecorder

namespace HttpSegmentUploader

/-- `kMaxQueued`. -/
def kMaxQueued : ℕ := 8

/-- `kMaxRetries`. -/
def kMaxRetries : ℕ := 3

/-- `HttpSegmentUploader::Item`. -/
structure Item where
  localPath : String
  objectKey : String
  remove : Bool
  deriving DecidableEq, Repr

/-- What `enqueue` and, for an item to remove, `enqueue_delete` check before
they take `mutex_`. -/
def enqueueAdmits (item : Item) : Bool :=
  decide (item.objectKey ≠ "") && (item.remove || decide (item.localPath ≠ ""))

/-- `enqueue`, `enqueue_delete`, `worker_loop` and `stop`, one step of one
thread. -/
def threadStep : State Item → Label Item → Option (State Item) :=
  step kMaxQueued enqueueAdmits

end HttpSegmentUploader

/-- **`stop` of both classes gets stuck only through the window** between the
evaluation of the wait predicate and the blocking of the worker. -/
theorem stop_stuck_only_in_window (config : RecordConfig) :
    LosesOnlyInWindow (SegmentRecorder.threadStep config) ∧
    LosesOnlyInWindow HttpSegmentUploader.threadStep :=
  ⟨losesOnlyInWindow _ _, losesOnlyInWindow _ _⟩

/-- The worker finds its queue empty and the flag down; `stop` stores the flag
and notifies; the worker blocks.  Both classes hang in `join`, with no producer
left that could wake the worker. -/
theorem stop_stuck :
    (∃ s, run (SegmentRecorder.threadStep {}) init
        [.lock, .evaluate, .store, .notify, .block] = some s ∧ Stuck s ∧ s.offered = []) ∧
    (∃ s, run HttpSegmentUploader.threadStep init
        [.lock, .evaluate, .store, .notify, .block] = some s ∧ Stuck s ∧ s.offered = []) :=
  ⟨⟨_, rfl, ⟨rfl, rfl, rfl⟩, rfl⟩, ⟨_, rfl, ⟨rfl, rfl, rfl⟩, rfl⟩⟩

end IpcMini
