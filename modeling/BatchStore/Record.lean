import BatchStore.Varstring

/-!
# Records

A batch is a sequence of records. A record is stored as a tag octet and its
key; the kinds that carry a value store it after the key. Log data keeps its
blob in the place of the key.
-/

namespace BatchStore

/-- What a record does. Tags above three name no known kind. -/
inductive RecordKind where
  | deletion
  | value
  | merge
  | logData
  | unknown (tag : UInt8)
  deriving DecidableEq, Repr

namespace RecordKind

def ofTag (tag : UInt8) : RecordKind :=
  if tag = 0 then .deletion
  else if tag = 1 then .value
  else if tag = 2 then .merge
  else if tag = 3 then .logData
  else .unknown tag

def tag : RecordKind → UInt8
  | deletion => 0
  | value => 1
  | merge => 2
  | logData => 3
  | unknown tag => tag

def isKnown : RecordKind → Bool
  | unknown _ => false
  | _ => true

/-- The kinds whose encoding has a value after the key. -/
def hasValue : RecordKind → Bool
  | value | merge => true
  | _ => false

/-- The kinds that change a key and take a sequence number. -/
def isMutation : RecordKind → Bool
  | deletion | value | merge => true
  | _ => false

def name : RecordKind → String
  | deletion => "Deletion"
  | value => "Value"
  | merge => "Merge"
  | logData => "LogData"
  | unknown _ => "Unknown"

/-- The name, with the tag where the kind is unknown. -/
def describe : RecordKind → String
  | unknown tag => "Unknown(" ++ toString tag.toNat ++ ")"
  | kind => kind.name

@[simp] theorem tag_ofTag (t : UInt8) : (ofTag t).tag = t := by
  unfold ofTag
  repeat' split
  all_goals simp_all [tag]

end RecordKind

structure Record where
  kind : RecordKind
  key : Bytes
  value : Option Bytes
  deriving DecidableEq, Repr

namespace Record

def deletion (key : Bytes) : Record := ⟨.deletion, key, none⟩

def put (key value : Bytes) : Record := ⟨.value, key, some value⟩

def merge (key operand : Bytes) : Record := ⟨.merge, key, some operand⟩

def logData (blob : Bytes) : Record := ⟨.logData, blob, none⟩

/-- The stored form: tag, key and, where there is one, the value. -/
def encode (record : Record) : Bytes :=
  record.kind.tag :: Varstring.encode record.key ++
    (record.value.map Varstring.encode).getD []

end Record

end BatchStore
