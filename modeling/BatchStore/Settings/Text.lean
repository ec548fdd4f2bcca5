import BatchStore.Json.Printer
import BatchStore.Json.Reader
import BatchStore.Settings.Basic

/-!
# Settings as JSON

Settings are written as an object of their fields in the order of declaration,
without the resources. They are read from such an object, where fields may
stand in any order or be missing and unknown ones are passed over, or from an
array of the fields in order, which may stop early. A missing field takes its
default; a known one may be given only once.
-/

namespace BatchStore

namespace Json

/-- The known members of a structure by name; `none` if one is given twice, an
array is too long, or the value is no structure. -/
def fields? (names : List String) : Json → Option (List (String × Json))
  | object members => do
    let named ← members.mapM fun (name, value) => name.map fun name => (name, value)
    let known := named.filter fun (name, _) => names.contains name
    if (known.map (·.1)).Nodup then some known else none
  | array items => if items.length ≤ names.length then some (names.zip items) else none
  | _ => none

/-- The value of a field, or its default where it is missing. -/
def field? {α : Type} (fields : List (String × Json)) (name : String) (read : Json → Option α)
    (default : α) : Option α :=
  match fields.lookup name with
  | some value => read value
  | none => some default

def word32? (json : Json) : Option UInt32 := do
  let n ← json.integer?
  if 0 ≤ n ∧ n < UInt32.size then some (UInt32.ofNat n.toNat) else none

def word64? (json : Json) : Option UInt64 := do
  let n ← json.integer?
  if 0 ≤ n ∧ n < UInt64.size then some (UInt64.ofNat n.toNat) else none

def signed32? (json : Json) : Option Int32 := do
  let n ← json.integer?
  if Int32.minValue.toInt ≤ n ∧ n ≤ Int32.maxValue.toInt then some (Int32.ofInt n) else none

/-- The name of a choice: a text, or an object of one member that is null. -/
def choice? : Json → Option String
  | string text => text
  | object [(name, null)] => name
  | _ => none

end Json

namespace Compression

def name : Compression → String
  | none => "none"
  | snappy => "snappy"

def ofName? (name : String) : Option Compression :=
  if name = "none" then some none
  else if name = "snappy" then some snappy
  else Option.none

def ofJson? (json : Json) : Option Compression := json.choice?.bind ofName?

end Compression

namespace CompactionStyle

def name : CompactionStyle → String
  | level => "level"
  | universal => "universal"

def ofName? (name : String) : Option CompactionStyle :=
  if name = "level" then some level
  else if name = "universal" then some universal
  else none

def ofJson? (json : Json) : Option CompactionStyle := json.choice?.bind ofName?

end CompactionStyle

namespace Period

def toJson (period : Period) : Json :=
  .ofFields [("secs", .ofNat period.seconds.toNat), ("nanos", .ofNat period.nanoseconds.toNat)]

/-- Both parts must be given, by name or in order, and nothing else. -/
def ofJson? : Json → Option Period
  | .object [(some "secs", secs), (some "nanos", nanos)] => ofPair? secs nanos
  | .object [(some "nanos", nanos), (some "secs", secs)] => ofPair? secs nanos
  | .array [secs, nanos] => ofPair? secs nanos
  | _ => none
where
  ofPair? (secs nanos : Json) : Option Period := do
    let seconds ← secs.word64?
    let nanoseconds ← nanos.word32?
    ofParts? seconds nanoseconds

end Period

namespace UniversalCompaction

def fields (tuning : UniversalCompaction) : List (String × Json) :=
  [ ("size_ratio", .ofNat tuning.sizeRatio.toNat)
  , ("min_merge_width", .ofNat tuning.minMergeWidth.toNat)
  , ("max_merge_width", .ofNat tuning.maxMergeWidth.toNat)
  , ("max_size_amplification_percent", .ofNat tuning.maxSizeAmplificationPercent.toNat) ]

def toJson (tuning : UniversalCompaction) : Json := .ofFields tuning.fields

def fieldNames : List String := (fields {}).map (·.1)

def ofFields? (given : List (String × Json)) : Option UniversalCompaction := do
  let defaults : UniversalCompaction := {}
  return {
    sizeRatio := ← Json.field? given "size_ratio" Json.word32? defaults.sizeRatio
    minMergeWidth := ← Json.field? given "min_merge_width" Json.word32? defaults.minMergeWidth
    maxMergeWidth := ← Json.field? given "max_merge_width" Json.word32? defaults.maxMergeWidth
    maxSizeAmplificationPercent := ←
      Json.field? given "max_size_amplification_percent" Json.word32?
        defaults.maxSizeAmplificationPercent }

def ofJson? (json : Json) : Option UniversalCompaction :=
  (json.fields? fieldNames).bind ofFields?

end UniversalCompaction

namespace Settings

/-- The stored fields in the order of declaration. -/
def fields (settings : Settings) : List (String × Json) :=
  [ ("create_if_missing", .bool settings.createIfMissing)
  , ("error_if_exists", .bool settings.errorIfExists)
  , ("paranoid_checks", .bool settings.paranoidChecks)
  , ("write_buffer_size", .ofNat settings.writeBufferSize.toNat)
  , ("max_write_buffer_number", .ofNat settings.maxWriteBufferNumber.toNat)
  , ("min_write_buffer_number_to_merge", .ofNat settings.minWriteBufferNumberToMerge.toNat)
  , ("max_open_files", .integer settings.maxOpenFiles.toInt)
  , ("block_size", .ofNat settings.blockSize.toNat)
  , ("block_restart_interval", .ofNat settings.blockRestartInterval.toNat)
  , ("compression", .ofText settings.compression.name)
  , ("min_level_to_compress", .integer settings.minLevelToCompress.toInt)
  , ("compaction_style", .ofText settings.compactionStyle.name)
  , ("universal_compaction", settings.universalCompaction.toJson)
  , ("max_background_compactions", .ofNat settings.maxBackgroundCompactions.toNat)
  , ("max_background_flushes", .ofNat settings.maxBackgroundFlushes.toNat)
  , ("num_levels", .ofNat settings.numLevels.toNat)
  , ("level0_file_num_compaction_trigger",
      .ofNat settings.level0FileNumCompactionTrigger.toNat)
  , ("level0_slowdown_writes_trigger", .ofNat settings.level0SlowdownWritesTrigger.toNat)
  , ("level0_stop_writes_trigger", .ofNat settings.level0StopWritesTrigger.toNat)
  , ("target_file_size_base", .ofNat settings.targetFileSizeBase.toNat)
  , ("max_bytes_for_level_base", .ofNat settings.maxBytesForLevelBase.toNat)
  , ("disable_seek_compaction", .bool settings.disableSeekCompaction)
  , ("memtable_vector_rep", .bool settings.memtableVectorRep)
  , ("enable_statistics", .bool settings.enableStatistics)
  , ("stats_dump_period", settings.statsDumpPeriod.toJson) ]

def toJson (settings : Settings) : Json := .ofFields settings.fields

/-- The compact JSON text. -/
def render (settings : Settings) : String := settings.toJson.render

def fieldNames : List String := (fields {}).map (·.1)

/-- The settings with the given fields and the defaults of all others. -/
def ofFields? (given : List (String × Json)) : Option Settings := do
  let defaults : Settings := {}
  return {
    createIfMissing := ←
      Json.field? given "create_if_missing" Json.bool? defaults.createIfMissing
    errorIfExists := ← Json.field? given "error_if_exists" Json.bool? defaults.errorIfExists
    paranoidChecks := ← Json.field? given "paranoid_checks" Json.bool? defaults.paranoidChecks
    writeBufferSize := ←
      Json.field? given "write_buffer_size" Json.word64? defaults.writeBufferSize
    maxWriteBufferNumber := ←
      Json.field? given "max_write_buffer_number" Json.word32? defaults.maxWriteBufferNumber
    minWriteBufferNumberToMerge := ←
      Json.field? given "min_write_buffer_number_to_merge" Json.word32?
        defaults.minWriteBufferNumberToMerge
    maxOpenFiles := ← Json.field? given "max_open_files" Json.signed32? defaults.maxOpenFiles
    blockSize := ← Json.field? given "block_size" Json.word64? defaults.blockSize
    blockRestartInterval := ←
      Json.field? given "block_restart_interval" Json.word32? defaults.blockRestartInterval
    compression := ←
      Json.field? given "compression" Compression.ofJson? defaults.compression
    minLevelToCompress := ←
      Json.field? given "min_level_to_compress" Json.signed32? defaults.minLevelToCompress
    compactionStyle := ←
      Json.field? given "compaction_style" CompactionStyle.ofJson? defaults.compactionStyle
    universalCompaction := ←
      Json.field? given "universal_compaction" UniversalCompaction.ofJson?
        defaults.universalCompaction
    maxBackgroundCompactions := ←
      Json.field? given "max_background_compactions" Json.word32?
        defaults.maxBackgroundCompactions
    maxBackgroundFlushes := ←
      Json.field? given "max_background_flushes" Json.word32? defaults.maxBackgroundFlushes
    numLevels := ← Json.field? given "num_levels" Json.word32? defaults.numLevels
    level0FileNumCompactionTrigger := ←
      Json.field? given "level0_file_num_compaction_trigger" Json.word32?
        defaults.level0FileNumCompactionTrigger
    level0SlowdownWritesTrigger := ←
      Json.field? given "level0_slowdown_writes_trigger" Json.word32?
        defaults.level0SlowdownWritesTrigger
    level0StopWritesTrigger := ←
      Json.field? given "level0_stop_writes_trigger" Json.word32?
        defaults.level0StopWritesTrigger
    targetFileSizeBase := ←
      Json.field? given "target_file_size_base" Json.word64? defaults.targetFileSizeBase
    maxBytesForLevelBase := ←
      Json.field? given "max_bytes_for_level_base" Json.word64? defaults.maxBytesForLevelBase
    disableSeekCompaction := ←
      Json.field? given "disable_seek_compaction" Json.bool? defaults.disableSeekCompaction
    memtableVectorRep := ←
      Json.field? given "memtable_vector_rep" Json.bool? defaults.memtableVectorRep
    enableStatistics := ←
      Json.field? given "enable_statistics" Json.bool? defaults.enableStatistics
    statsDumpPeriod := ←
      Json.field? given "stats_dump_period" Period.ofJson? defaults.statsDumpPeriod }

def ofJson? (json : Json) : Option Settings := (json.fields? fieldNames).bind ofFields?

/-- The settings that a JSON text holds. -/
def load? (text : String) : Option Settings := (Json.parse? text).bind ofJson?

end Settings

namespace WriteSettings

def toJson (settings : WriteSettings) : Json :=
  .ofFields [("sync", .bool settings.sync), ("disable_wal", .bool settings.disableLog)]

def render (settings : WriteSettings) : String := settings.toJson.render

def ofJson? (json : Json) : Option WriteSettings := do
  let given ← json.fields? ["sync", "disable_wal"]
  return {
    sync := ← Json.field? given "sync" Json.bool? false
    disableLog := ← Json.field? given "disable_wal" Json.bool? false }

def load? (text : String) : Option WriteSettings := (Json.parse? text).bind ofJson?

end WriteSettings

namespace ReadSettings

def toJson (settings : ReadSettings) : Json :=
  .ofFields [("verify_checksums", .bool settings.verifyChecksums),
    ("fill_cache", .bool settings.fillCache)]

def render (settings : ReadSettings) : String := settings.toJson.render

def ofJson? (json : Json) : Option ReadSettings := do
  let given ← json.fields? ["verify_checksums", "fill_cache"]
  return {
    verifyChecksums := ← Json.field? given "verify_checksums" Json.bool? false
    fillCache := ← Json.field? given "fill_cache" Json.bool? true }

def load? (text : String) : Option ReadSettings := (Json.parse? text).bind ofJson?

end ReadSettings

end BatchStore
