import BatchStore.KeyOrder
import BatchStore.Settings.Handles
import BatchStore.Settings.Period

/-!
# Settings of a database

The tuning values, their defaults, and the rules they must obey together. Most
of them are kept for the storage engine; the store itself looks at the flags
for opening, at the checks and at the order of keys.
-/

namespace BatchStore

inductive Compression where
  | none
  | snappy
  deriving DecidableEq, Repr

inductive CompactionStyle where
  | level
  | universal
  deriving DecidableEq, Repr

structure UniversalCompaction where
  sizeRatio : UInt32 := 1
  minMergeWidth : UInt32 := 2
  maxMergeWidth : UInt32 := 16
  maxSizeAmplificationPercent : UInt32 := 110
  deriving DecidableEq, Repr

structure Settings where
  createIfMissing : Bool := false
  errorIfExists : Bool := false
  /-- Whether damage in the log keeps a database from opening. -/
  paranoidChecks : Bool := true
  writeBufferSize : UInt64 := 4194304
  maxWriteBufferNumber : UInt32 := 2
  minWriteBufferNumberToMerge : UInt32 := 1
  maxOpenFiles : Int32 := 1000
  blockSize : UInt64 := 4096
  blockRestartInterval : UInt32 := 16
  compression : Compression := .snappy
  /-- The lowest level that is compressed; `-1` stands for all of them. -/
  minLevelToCompress : Int32 := -1
  compactionStyle : CompactionStyle := .level
  universalCompaction : UniversalCompaction := {}
  maxBackgroundCompactions : UInt32 := 1
  maxBackgroundFlushes : UInt32 := 0
  numLevels : UInt32 := 7
  level0FileNumCompactionTrigger : UInt32 := 4
  level0SlowdownWritesTrigger : UInt32 := 20
  level0StopWritesTrigger : UInt32 := 24
  targetFileSizeBase : UInt64 := 2097152
  maxBytesForLevelBase : UInt64 := 10485760
  disableSeekCompaction : Bool := false
  memtableVectorRep : Bool := false
  enableStatistics : Bool := false
  statsDumpPeriod : Period := .ofSeconds 3600
  cache : Option BlockCache := none
  order : Option KeyOrder := none
  filterPolicy : Option FilterPolicy := none
  environment : Option ThreadPools := none
  infoLog : Option InfoLog := none

/-- Why settings are refused. -/
inductive SettingsFault where
  | noWriteBuffer
  | noWriteBuffers
  | mergeExceedsBuffers (merged buffers : UInt32)
  | noBlock
  | noRestartInterval
  | noLevels
  | compressedBelowLevels (lowest : Int32) (levels : UInt32)
  | triggersUnordered (compaction slowdown stop : UInt32)
  | mergeWidths (least most : UInt32)
  deriving DecidableEq, Repr

def SettingsFault.message : SettingsFault → String
  | noWriteBuffer => "write_buffer_size must be positive"
  | noWriteBuffers => "max_write_buffer_number must be at least 1"
  | mergeExceedsBuffers merged buffers =>
    "min_write_buffer_number_to_merge (" ++ toString merged.toNat
      ++ ") exceeds max_write_buffer_number (" ++ toString buffers.toNat ++ ")"
  | noBlock => "block_size must be positive"
  | noRestartInterval => "block_restart_interval must be at least 1"
  | noLevels => "num_levels must be at least 1"
  | compressedBelowLevels lowest levels =>
    "min_level_to_compress (" ++ toString lowest.toInt ++ ") must be below num_levels ("
      ++ toString levels.toNat ++ ")"
  | triggersUnordered compaction slowdown stop =>
    "level-0 triggers must be ordered: compaction " ++ toString compaction.toNat
      ++ " <= slowdown " ++ toString slowdown.toNat ++ " <= stop " ++ toString stop.toNat
  | mergeWidths least most =>
    "universal min_merge_width (" ++ toString least.toNat ++ ") exceeds max_merge_width ("
      ++ toString most.toNat ++ ")"

namespace Settings

/-- The order of keys, bytewise unless one is set. -/
def keyOrder (settings : Settings) : KeyOrder := settings.order.getD .bytewise

/-- Chooses the compaction style. Choosing the universal one takes its tuning
back to the defaults. -/
def withCompactionStyle (settings : Settings) (style : CompactionStyle) : Settings :=
  match style with
  | .level => { settings with compactionStyle := .level }
  | .universal => { settings with compactionStyle := .universal, universalCompaction := {} }

/-- The first rule that the settings break. -/
def fault? (settings : Settings) : Option SettingsFault :=
  let universal := settings.universalCompaction
  if settings.writeBufferSize = 0 then some .noWriteBuffer
  else if settings.maxWriteBufferNumber = 0 then some .noWriteBuffers
  else if settings.minWriteBufferNumberToMerge > settings.maxWriteBufferNumber then
    some (.mergeExceedsBuffers settings.minWriteBufferNumberToMerge
      settings.maxWriteBufferNumber)
  else if settings.blockSize = 0 then some .noBlock
  else if settings.blockRestartInterval = 0 then some .noRestartInterval
  else if settings.numLevels = 0 then some .noLevels
  else if settings.minLevelToCompress.toInt ≥ settings.numLevels.toNat then
    some (.compressedBelowLevels settings.minLevelToCompress settings.numLevels)
  else if settings.level0FileNumCompactionTrigger > settings.level0SlowdownWritesTrigger ∨
      settings.level0SlowdownWritesTrigger > settings.level0StopWritesTrigger then
    some (.triggersUnordered settings.level0FileNumCompactionTrigger
      settings.level0SlowdownWritesTrigger settings.level0StopWritesTrigger)
  else if universal.minMergeWidth > universal.maxMergeWidth then
    some (.mergeWidths universal.minMergeWidth universal.maxMergeWidth)
  else none

end Settings

/-- How a batch is written. -/
structure WriteSettings where
  /-- Whether the log is made durable before the write returns. -/
  sync : Bool := false
  /-- Whether the batch is left out of the log. -/
  disableLog : Bool := false
  deriving DecidableEq, Repr

/-- A state of a database that is kept for reading. -/
structure Snapshot where
  /-- The database it was taken from. -/
  database : Nat
  /-- The sequence number it reads at. -/
  sequence : Nat
  deriving DecidableEq, Repr

structure ReadSettings where
  verifyChecksums : Bool := false
  fillCache : Bool := true
  snapshot : Option Snapshot := none
  deriving DecidableEq, Repr

end BatchStore
