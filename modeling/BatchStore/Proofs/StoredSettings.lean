import BatchStore.Proofs.JsonText
import BatchStore.Proofs.Lookup
import BatchStore.Settings.Text

/-!
# Stored settings

Settings are read back from the text that they are written as. A structure is given by
an object that names some of its fields, in any order and among members that are not its
own, or by an array of its first fields; what is given is taken from there, and what is
not given takes its default, field by field.
-/

namespace BatchStore

namespace Json

/-- The value gives those of the fields that are kept: by name in any order, among
members of other names, or the first ones of them in order. -/
inductive Gives (fields : List (String × Json)) : (String → Bool) → Json → Prop where
  | members {keep : String → Bool} {members : List (String × Json)}
      (h : (members.filter fun member => (fields.map (·.1)).contains member.1).Perm
        (fields.filter fun field => keep field.1)) :
      Gives fields keep (ofFields members)
  | items (count : Nat) :
      Gives fields ((fields.map (·.1)).take count).contains
        (array ((fields.map (·.2)).take count))

theorem gives_all (fields : List (String × Json)) :
    (ofFields fields).Gives fields fun _ => true := by
  refine .members ?_
  rw [List.filter_eq_self.mpr fun field hfield =>
    List.contains_iff_mem.mpr (List.mem_map_of_mem hfield),
    List.filter_eq_self.mpr fun _ _ => rfl]

/-- The kept fields are found with their values, and the others are missing. -/
def Found (fields : List (String × Json)) (keep : String → Bool)
    (given : List (String × Json)) : Prop :=
  ∀ field ∈ fields, given.lookup field.1 = if keep field.1 then some field.2 else none

theorem member?_ofFields (fields : List (String × Json)) (name : String) :
    (ofFields fields).member? name = fields.lookup name := by
  show (fields.map fun field => (some field.1, field.2)).lookup (some name) = _
  induction fields with
  | nil => rfl
  | cons field fields ih =>
    rw [List.map_cons, List.lookup_cons, List.lookup_cons, ih]
    rfl

theorem mapM_named (members : List (String × Json)) :
    (members.map fun (name, value) => (some name, value)).mapM
      (fun (name, value) => name.map fun name => (name, value)) = some members := by
  induction members with
  | nil => rfl
  | cons member members ih =>
    rw [List.map_cons, List.mapM_cons, ih]
    rfl

theorem zip_take (fields : List (String × Json)) (count : Nat) :
    (fields.map (·.1)).zip ((fields.map (·.2)).take count) = fields.take count := by
  induction fields generalizing count with
  | nil => simp
  | cons field fields ih =>
    cases count with
    | zero => simp
    | succ count => simp [ih]

section Fields

variable {fields : List (String × Json)} (hnames : (fields.map (·.1)).Nodup)

include hnames

theorem found_of_perm {keep : String → Bool} {given : List (String × Json)}
    (h : given.Perm (fields.filter fun field => keep field.1)) : Found fields keep given := by
  rintro ⟨name, value⟩ hfield
  have hgiven : (given.map (·.1)).Nodup :=
    (h.map _).nodup_iff.mpr (hnames.sublist (List.filter_sublist.map _))
  cases hkeep : keep name with
  | true =>
    exact Lookup.lookup_of_mem (List.pairwise_map.mp hgiven)
      (h.mem_iff.mpr (List.mem_filter.mpr ⟨hfield, hkeep⟩))
  | false =>
    refine List.lookup_eq_none_iff.mpr fun found hfound => ?_
    obtain ⟨-, hkept⟩ := List.mem_filter.mp (h.mem_iff.mp hfound)
    refine bne_iff_ne.mpr ?_
    rintro rfl
    cases hkeep.symm.trans hkept

/-- The first fields are those that have the first names. -/
theorem take_eq_filter (count : Nat) :
    fields.take count =
      fields.filter fun field => ((fields.map (·.1)).take count).contains field.1 := by
  induction fields generalizing count with
  | nil => simp
  | cons field fields ih =>
    rw [List.map_cons, List.nodup_cons] at hnames
    cases count with
    | zero => simp
    | succ count =>
      rw [List.map_cons, List.take_succ_cons, List.take_succ_cons, ih hnames.2,
        List.filter_cons_of_pos (by simp)]
      refine congrArg (field :: ·) (List.filter_congr fun other hother => ?_)
      have hne : other.1 ≠ field.1 := fun heq => hnames.1 (heq ▸ List.mem_map_of_mem hother)
      rw [List.contains_cons, beq_false_of_ne hne, Bool.false_or]

/-- What a value gives of the fields is what a reader finds in it. -/
theorem Gives.found {keep : String → Bool} {json : Json} (h : Gives fields keep json) :
    ∃ given, json.fields? (fields.map (·.1)) = some given ∧ Found fields keep given := by
  cases h with
  | @members keep members h =>
    refine ⟨_, ?_, found_of_perm hnames h⟩
    have hdistinct : ((members.filter fun member =>
        (fields.map (·.1)).contains member.1).map (·.1)).Nodup :=
      (h.map _).nodup_iff.mpr (hnames.sublist (List.filter_sublist.map _))
    simp only [fields?, ofFields, mapM_named, Option.bind_eq_bind, Option.bind_some,
      if_pos hdistinct]
  | items count =>
    have htake := take_eq_filter hnames count
    refine ⟨fields.take count, ?_, found_of_perm hnames (by rw [← htake])⟩
    have hcount : ((fields.map (·.2)).take count).length ≤ (fields.map (·.1)).length := by
      rw [List.length_take, List.length_map, List.length_map]
      exact Nat.min_le_right count fields.length
    unfold fields?
    simp only [zip_take]
    exact if_pos hcount

end Fields

/-- A field is read where it is kept, and takes its default elsewhere. -/
theorem Found.field? {fields given : List (String × Json)} {keep : String → Bool}
    (h : Found fields keep given) : ∀ field ∈ fields, ∀ {α : Type} (read : Json → Option α)
      (default : α), Json.field? given field.1 read default =
        if keep field.1 then read field.2 else some default := by
  intro field hfield α read default
  unfold Json.field?
  rw [h field hfield]
  cases keep field.1 with
  | true => rfl
  | false => rfl

theorem bool?_bool (value : Bool) : (bool value).bool? = some value := rfl

theorem word32?_ofNat (n : UInt32) : (ofNat n.toNat).word32? = some n := by
  unfold word32? ofNat integer?
  rw [Option.bind_eq_bind, Option.bind_some,
    if_pos ⟨Int.natCast_nonneg _, Int.ofNat_lt.mpr n.toNat_lt_size⟩, Int.toNat_natCast,
    UInt32.ofNat_toNat]

theorem word64?_ofNat (n : UInt64) : (ofNat n.toNat).word64? = some n := by
  unfold word64? ofNat integer?
  rw [Option.bind_eq_bind, Option.bind_some,
    if_pos ⟨Int.natCast_nonneg _, Int.ofNat_lt.mpr n.toNat_lt_size⟩, Int.toNat_natCast,
    UInt64.ofNat_toNat]

theorem signed32?_integer (n : Int32) : (integer n.toInt).signed32? = some n := by
  unfold signed32? integer?
  rw [Option.bind_eq_bind, Option.bind_some, if_pos ⟨n.minValue_le_toInt, n.toInt_le⟩,
    Int32.ofInt_toInt]

end Json

theorem Compression.ofJson?_name (compression : Compression) :
    ofJson? (.ofText compression.name) = some compression := by
  cases compression <;> rfl

theorem CompactionStyle.ofJson?_name (style : CompactionStyle) :
    ofJson? (.ofText style.name) = some style := by
  cases style <;> rfl

namespace Period

theorem ofParts?_parts (period : Period) :
    ofParts? period.seconds period.nanoseconds = some period := by
  obtain ⟨seconds, nanoseconds, hlt⟩ := period
  have htotal : seconds.toNat + nanoseconds.toNat / 1000000000 = seconds.toNat := by omega
  have hlow : nanoseconds.toNat % 1000000000 = nanoseconds.toNat := Nat.mod_eq_of_lt hlt
  unfold ofParts?
  simp only [htotal, hlow, if_pos seconds.toNat_lt_size, UInt64.ofNat_toNat, UInt32.ofNat_toNat]

theorem ofPair?_parts (period : Period) :
    ofJson?.ofPair? (.ofNat period.seconds.toNat) (.ofNat period.nanoseconds.toNat) =
      some period := by
  unfold ofJson?.ofPair?
  rw [Json.word64?_ofNat, Json.word32?_ofNat]
  exact ofParts?_parts period

/-- A period is read from its parts in either order, and without their names. -/
theorem ofJson?_parts (period : Period) :
    let secs := Json.ofNat period.seconds.toNat
    let nanos := Json.ofNat period.nanoseconds.toNat
    ∀ json ∈ [period.toJson, .ofFields [("nanos", nanos), ("secs", secs)], .array [secs, nanos]],
      ofJson? json = some period := by
  have hread := ofPair?_parts period
  simp only [List.forall_mem_cons]
  exact ⟨hread, hread, hread, nofun⟩

end Period

namespace UniversalCompaction

/-- The tuning with the kept fields and the defaults of the others. -/
def kept (keep : String → Bool) (tuning : UniversalCompaction) : UniversalCompaction :=
  let pick (name : String) (field : UniversalCompaction → UInt32) : UInt32 :=
    if keep name then field tuning else field {}
  { sizeRatio := pick "size_ratio" sizeRatio
    minMergeWidth := pick "min_merge_width" minMergeWidth
    maxMergeWidth := pick "max_merge_width" maxMergeWidth
    maxSizeAmplificationPercent :=
      pick "max_size_amplification_percent" maxSizeAmplificationPercent }

theorem ofFields?_found {tuning : UniversalCompaction} {keep : String → Bool}
    {given : List (String × Json)} (h : Json.Found tuning.fields keep given) :
    ofFields? given = some (tuning.kept keep) := by
  have hfields := h.field?
  simp only [fields, List.forall_mem_cons] at hfields
  simp only [ofFields?, hfields, Json.word32?_ofNat, ← apply_ite some, Option.bind_eq_bind,
    Option.bind_some, Option.pure_def]
  rfl

theorem ofJson?_gives {tuning : UniversalCompaction} {keep : String → Bool} {json : Json}
    (h : json.Gives tuning.fields keep) : ofJson? json = some (tuning.kept keep) := by
  have hnames : (tuning.fields.map (·.1)).Nodup := show fieldNames.Nodup by decide
  obtain ⟨given, hgiven, hfound⟩ := h.found hnames
  have hfields : json.fields? fieldNames = some given := hgiven
  rw [ofJson?, hfields]
  exact ofFields?_found hfound

end UniversalCompaction

namespace Settings

/-- The settings without the resources that they hand on. -/
def stored (settings : Settings) : Settings :=
  { settings with
    cache := none, order := none, filterPolicy := none, environment := none, infoLog := none }

/-- The settings with the kept fields and the defaults of the others, without
resources. -/
def kept (keep : String → Bool) (settings : Settings) : Settings :=
  let pick {α : Type} (name : String) (field : Settings → α) : α :=
    if keep name then field settings else field {}
  { createIfMissing := pick "create_if_missing" createIfMissing
    errorIfExists := pick "error_if_exists" errorIfExists
    paranoidChecks := pick "paranoid_checks" paranoidChecks
    writeBufferSize := pick "write_buffer_size" writeBufferSize
    maxWriteBufferNumber := pick "max_write_buffer_number" maxWriteBufferNumber
    minWriteBufferNumberToMerge :=
      pick "min_write_buffer_number_to_merge" minWriteBufferNumberToMerge
    maxOpenFiles := pick "max_open_files" maxOpenFiles
    blockSize := pick "block_size" blockSize
    blockRestartInterval := pick "block_restart_interval" blockRestartInterval
    compression := pick "compression" compression
    minLevelToCompress := pick "min_level_to_compress" minLevelToCompress
    compactionStyle := pick "compaction_style" compactionStyle
    universalCompaction := pick "universal_compaction" universalCompaction
    maxBackgroundCompactions := pick "max_background_compactions" maxBackgroundCompactions
    maxBackgroundFlushes := pick "max_background_flushes" maxBackgroundFlushes
    numLevels := pick "num_levels" numLevels
    level0FileNumCompactionTrigger :=
      pick "level0_file_num_compaction_trigger" level0FileNumCompactionTrigger
    level0SlowdownWritesTrigger :=
      pick "level0_slowdown_writes_trigger" level0SlowdownWritesTrigger
    level0StopWritesTrigger := pick "level0_stop_writes_trigger" level0StopWritesTrigger
    targetFileSizeBase := pick "target_file_size_base" targetFileSizeBase
    maxBytesForLevelBase := pick "max_bytes_for_level_base" maxBytesForLevelBase
    disableSeekCompaction := pick "disable_seek_compaction" disableSeekCompaction
    memtableVectorRep := pick "memtable_vector_rep" memtableVectorRep
    enableStatistics := pick "enable_statistics" enableStatistics
    statsDumpPeriod := pick "stats_dump_period" statsDumpPeriod
    cache := none, order := none, filterPolicy := none, environment := none, infoLog := none }

/-- With all fields kept nothing takes its default. -/
theorem kept_all (settings : Settings) {keep : String → Bool}
    (h : ∀ name ∈ fieldNames, keep name = true) : settings.kept keep = settings.stored := by
  simp only [fieldNames, fields, List.map_cons, List.forall_mem_cons] at h
  simp only [kept, h, if_true]
  rfl

/-- A reader of the stored object finds every field by its name. -/
theorem member?_toJson (settings : Settings) {name : String} {value : Json}
    (h : (name, value) ∈ settings.fields) : settings.toJson.member? name = some value := by
  have hnames : (settings.fields.map (·.1)).Nodup := by
    show fieldNames.Nodup
    decide
  rw [toJson, Json.member?_ofFields]
  exact Lookup.lookup_of_mem (List.pairwise_map.mp hnames) h

/-- The stored fields, where the two that are structures themselves may be written in
another way. -/
def fieldsWith (settings : Settings) (tuning period : Json) : List (String × Json) :=
  settings.fields.map fun (name, value) =>
    (name, if name = "universal_compaction" then tuning
      else if name = "stats_dump_period" then period else value)

theorem fieldsWith_toJson (settings : Settings) :
    settings.fieldsWith settings.universalCompaction.toJson settings.statsDumpPeriod.toJson =
      settings.fields := by
  simp [fieldsWith, fields]

section Found

variable {settings : Settings} {tuning period : Json} {keep : String → Bool}
  (htuning : UniversalCompaction.ofJson? tuning = some settings.universalCompaction)
  (hperiod : Period.ofJson? period = some settings.statsDumpPeriod)

include htuning hperiod

theorem ofFields?_found {given : List (String × Json)}
    (h : Json.Found (settings.fieldsWith tuning period) keep given) :
    ofFields? given = some (settings.kept keep) := by
  have hfields := h.field?
  simp only [fieldsWith, fields, List.map_cons, List.map_nil, List.forall_mem_cons,
    String.reduceEq, if_true, if_false] at hfields
  simp only [ofFields?, hfields, Json.bool?_bool, Json.word64?_ofNat, Json.word32?_ofNat,
    Json.signed32?_integer, Compression.ofJson?_name, CompactionStyle.ofJson?_name, htuning,
    hperiod, ← apply_ite some, Option.bind_eq_bind, Option.bind_some, Option.pure_def]
  rfl

theorem ofJson?_gives {json : Json} (h : json.Gives (settings.fieldsWith tuning period) keep) :
    ofJson? json = some (settings.kept keep) := by
  have hnames : (settings.fieldsWith tuning period).map (·.1) = fieldNames := by
    unfold fieldsWith
    rw [List.map_map]
    rfl
  obtain ⟨given, hgiven, hfound⟩ := h.found (hnames ▸ by decide)
  rw [hnames] at hgiven
  rw [ofJson?, hgiven]
  exact ofFields?_found htuning hperiod hfound

end Found

/-- Every text with this value is loaded as the settings, and so is its compact text when
the value can be printed. -/
structure Loads (json : Json) (settings : Settings) : Prop where
  text : ∀ text, Json.parse? text = some json → load? text = some settings
  compact : json.Printable → load? json.render = some settings

theorem loads_of_ofJson? {json : Json} {settings : Settings}
    (h : ofJson? json = some settings) : Loads json settings := by
  have htext (text : String) (hparse : Json.parse? text = some json) :
      load? text = some settings := by
    rw [load?, hparse]
    exact h
  exact ⟨htext, fun hprintable => htext _ (Json.parse?_render hprintable)⟩

theorem printable_toJson (settings : Settings) : settings.toJson.Printable := by
  have hword (n : Nat) : (Json.ofNat n).Printable := .integer n
  have htuning : settings.universalCompaction.toJson.Printable := by
    refine .object ?_
    simp only [UniversalCompaction.fields, List.forall_mem_cons, hword, true_and]
    exact nofun
  have hperiod : settings.statsDumpPeriod.toJson.Printable := by
    refine .object ?_
    simp only [List.forall_mem_cons, hword, true_and]
    exact nofun
  refine .object ?_
  simp only [fields, List.forall_mem_cons, hword, htuning, hperiod, Json.Printable.bool,
    Json.Printable.integer, Json.Printable.text, true_and]
  exact nofun

/-- Settings come back from their compact text without the resources. From an object with
some of the fields in any order, among whatever other members, and from an array of the
first fields, the settings are those with these fields and the defaults of the others. The
same holds for the tuning inside, and a period is read from its parts in any of its forms. -/
theorem survives_serialization (settings : Settings) :
    load? settings.render = some settings.stored ∧
      (∀ keep : String → Bool, (∀ name ∈ fieldNames, keep name = true) →
        settings.kept keep = settings.stored) ∧
      (∀ tuning period, UniversalCompaction.ofJson? tuning = some settings.universalCompaction →
        Period.ofJson? period = some settings.statsDumpPeriod →
        ∀ keep json, json.Gives (settings.fieldsWith tuning period) keep →
          Loads json (settings.kept keep)) ∧
      (∀ keep json, json.Gives settings.universalCompaction.fields keep →
        UniversalCompaction.ofJson? json = some (settings.universalCompaction.kept keep)) ∧
      (let secs := Json.ofNat settings.statsDumpPeriod.seconds.toNat
        let nanos := Json.ofNat settings.statsDumpPeriod.nanoseconds.toNat
        ∀ json ∈ [settings.statsDumpPeriod.toJson, .ofFields [("nanos", nanos), ("secs", secs)],
          .array [secs, nanos]], Period.ofJson? json = some settings.statsDumpPeriod) := by
  have hparts := settings.statsDumpPeriod.ofJson?_parts
  have htuning : UniversalCompaction.ofJson? settings.universalCompaction.toJson =
      some settings.universalCompaction := UniversalCompaction.ofJson?_gives (Json.gives_all _)
  have hgives : settings.toJson.Gives (settings.fieldsWith settings.universalCompaction.toJson
      settings.statsDumpPeriod.toJson) fun _ => true := by
    rw [fieldsWith_toJson]
    exact Json.gives_all settings.fields
  have hloads := loads_of_ofJson? (ofJson?_gives htuning (hparts _ List.mem_cons_self) hgives)
  refine ⟨?_, fun keep h => kept_all settings h, fun tuning period htuning hperiod keep json h =>
    loads_of_ofJson? (ofJson?_gives htuning hperiod h), fun keep json h =>
    UniversalCompaction.ofJson?_gives h, hparts⟩
  rw [← kept_all settings fun _ _ => rfl]
  exact hloads.compact settings.printable_toJson

/-- An object in another order, with a resource and a member of no name that is known, and
with a tuning that is given in part; and an array of four. -/
theorem survives_serialization_in_part :
    let settings : Settings :=
      { createIfMissing := true, writeBufferSize := 18446744073709551615,
        maxOpenFiles := -2147483648, compression := .none,
        universalCompaction := { sizeRatio := 7 }, cache := some ⟨1⟩ }
    let tuning := Json.ofFields [("ratio", .null), ("size_ratio", .ofNat 7)]
    let members := [("cache", .decimal "1.5e3"), ("universal_compaction", tuning),
      ("compression", .ofText "none"), ("", .array []),
      ("max_open_files", .integer (-2147483648))]
    let items := [.bool true, .bool false, .bool true, .ofNat 18446744073709551615]
    load? settings.render = some { settings with cache := none } ∧
      load? (Json.ofFields members).render =
        some { maxOpenFiles := -2147483648, compression := .none,
               universalCompaction := { sizeRatio := 7 } } ∧
      load? (Json.array items).render =
        some { createIfMissing := true, writeBufferSize := 18446744073709551615 } := by
  intro settings tuning members items
  obtain ⟨hrender, -, hloads, htunings, hperiods⟩ := survives_serialization settings
  let named : String → Bool :=
    ["max_open_files", "compression", "universal_compaction"].contains
  have htuning : UniversalCompaction.ofJson? tuning = some settings.universalCompaction :=
    htunings ["size_ratio"].contains tuning (.members (.refl _))
  have hperiod := hperiods _ List.mem_cons_self
  have hmembers : (Json.ofFields members).Gives
      (settings.fieldsWith tuning settings.statsDumpPeriod.toJson) named :=
    .members (List.reverse_perm [("max_open_files", Json.integer (-2147483648)),
      ("compression", .ofText "none"), ("universal_compaction", tuning)])
  refine ⟨hrender, ?_, ?_⟩
  · refine ((hloads tuning _ htuning hperiod named _ hmembers).compact (.object ?_)).trans rfl
    have hprintable : tuning.Printable := .object (by
      simp only [List.forall_mem_cons]
      exact ⟨.null, .integer 7, nofun⟩)
    simp only [members, List.forall_mem_cons]
    exact ⟨.decimal rfl, hprintable, .text _, .array nofun, .integer _, nofun⟩
  · refine ((hloads tuning _ htuning hperiod _ _ (.items 4)).compact (.array ?_)).trans rfl
    show ∀ item ∈ items, item.Printable
    simp only [items, List.forall_mem_cons]
    exact ⟨.bool true, .bool false, .bool true, .integer _, nofun⟩

end Settings

end BatchStore
