import BatchStore.Text.Hex
import BatchStore.Text.Unprintable

/-!
# Quoted text

How descriptions show a text: between double quotes, with a backslash before a
quote or a backslash, short names for the common control characters, and the
code point of every other character that cannot be shown.
-/

namespace BatchStore.Text

def escaped (c : Char) : List Char :=
  if c = '\x00' then ['\\', '0']
  else if c = '\t' then ['\\', 't']
  else if c = '\r' then ['\\', 'r']
  else if c = '\n' then ['\\', 'n']
  else if c = '"' then ['\\', '"']
  else if c = '\\' then ['\\', '\\']
  else if isUnprintable c then
    ['\\', 'u', '\x7b'] ++ Hex.shortest c.toNat ++ ['\x7d']
  else [c]

def quoted (text : String) : String :=
  String.ofList ('"' :: text.toList.flatMap escaped ++ ['"'])

end BatchStore.Text
