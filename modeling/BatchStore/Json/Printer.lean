import BatchStore.Json.Basic
import BatchStore.Text.Hex

/-!
# Writing JSON

The compact form, without blanks. A text is written with a backslash before
quotes and backslashes, and control characters by their number.
-/

namespace BatchStore.Json

def escaped (c : Char) : List Char :=
  if c = '"' then ['\\', '"']
  else if c = '\\' then ['\\', '\\']
  else if c.toNat < 32 then '\\' :: 'u' :: Text.Hex.digits 4 c.toNat
  else [c]

def textChars (text : String) : List Char :=
  '"' :: text.toList.flatMap escaped ++ ['"']

/-- The written forms with a comma between them. -/
def separated : List (List Char) → List Char
  | [] => []
  | [written] => written
  | written :: more => written ++ ',' :: separated more

mutual

def chars : Json → List Char
  | null => "null".toList
  | bool true => "true".toList
  | bool false => "false".toList
  | integer value => (toString value).toList
  | decimal written => written.toList
  | string text => textChars (text.getD "")
  | array items => '[' :: separated (itemChars items) ++ [']']
  | object members => '\x7b' :: separated (memberChars members) ++ ['\x7d']

def itemChars : List Json → List (List Char)
  | [] => []
  | item :: items => item.chars :: itemChars items

def memberChars : List (Option String × Json) → List (List Char)
  | [] => []
  | (name, value) :: members =>
    (textChars (name.getD "") ++ ':' :: value.chars) :: memberChars members

end

def render (json : Json) : String := String.ofList json.chars

end BatchStore.Json
