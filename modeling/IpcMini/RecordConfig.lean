/-
The recording configuration (`include/record/record_config.h`) and what
`validate_config` demands of it (`src/config/runtime_config.cpp`).
-/
import Mathlib.Data.Int.Notation
import Mathlib.Data.Nat.Notation

namespace IpcMini

/-- `record::RecordConfig`. -/
structure RecordConfig where
  enabled : Bool := false
  streamId : ℤ := 0
  audio : Bool := true
  segmentSec : ℤ := 300
  retainSec : ℤ := 3600
  maxBytesMb : ℤ := 200
  directory : String := "/mnt/record"
  uploadUrl : String := ""
  uploadToken : String := ""
  maxPendingFrames : ℕ := 120
  deriving DecidableEq, Repr

/-- The check of the recording in `validate_config`. -/
def RecordConfig.validateConfig (config : RecordConfig) : Bool :=
  !(config.enabled &&
    (decide (config.directory = "") ||
     decide (config.streamId < 0) || decide (1 < config.streamId) ||
     decide (config.segmentSec < 5) ||
     decide (3600 < config.segmentSec) ||
     decide (config.retainSec < 0) ||
     decide (7 * 24 * 3600 < config.retainSec) ||
     decide (config.maxBytesMb < 0) ||
     decide (8192 < config.maxBytesMb) ||
     (decide (config.uploadUrl ≠ "") &&
      !("http://".toList.isPrefixOf config.uploadUrl.toList))))

end IpcMini
