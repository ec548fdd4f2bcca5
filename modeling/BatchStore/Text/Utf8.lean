import BatchStore.Bytes

/-!
# Text as bytes

A text is stored in UTF-8. Bytes that are no UTF-8 hold no text.
-/

namespace BatchStore.Text.Utf8

def encode (text : String) : Bytes := text.toList.flatMap String.utf8EncodeChar

def decode? (bytes : Bytes) : Option String :=
  bytes.toByteArray.utf8Decode?.map fun chars => String.ofList chars.toList

theorem decode?_encode (text : String) : decode? (encode text) = some text := by
  have h : (encode text).toByteArray.utf8Decode? = some text.toList.toArray :=
    List.utf8Decode?_utf8Encode
  rw [decode?, h]
  simp

end BatchStore.Text.Utf8
