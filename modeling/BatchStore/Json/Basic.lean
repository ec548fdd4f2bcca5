/-!
# JSON values

The tree of a JSON text. Integers are told apart from numbers written with a
fraction, an exponent or a minus sign before zero, which are kept as written.
An object keeps its members in order, repeated names included.
-/

namespace BatchStore

inductive Json where
  | null
  | bool (value : Bool)
  | integer (value : Int)
  /-- A number that is not written as an integer. -/
  | decimal (written : String)
  /-- A text; `none` when an escape names one half of a surrogate pair alone. -/
  | string (text : Option String)
  | array (items : List Json)
  | object (members : List (Option String × Json))
  deriving Repr

namespace Json

instance : Inhabited Json := ⟨null⟩

def ofText (text : String) : Json := string (some text)

def ofNat (n : Nat) : Json := integer n

/-- An object with the given members. -/
def ofFields (fields : List (String × Json)) : Json :=
  object (fields.map fun (name, value) => (some name, value))

def bool? : Json → Option Bool
  | bool value => some value
  | _ => none

def integer? : Json → Option Int
  | integer value => some value
  | _ => none

def text? : Json → Option String
  | string text => text
  | _ => none

/-- The first member of that name. -/
def member? (name : String) : Json → Option Json
  | object members => members.lookup (some name)
  | _ => none

end Json

end BatchStore
