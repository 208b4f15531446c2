import ImportCensus.Text.Basic

/-!
# `ImportCensus.Text.Encoding`: texts as bytes

Files hold bytes, and texts are stored in UTF-8. Decoding refuses every byte sequence that is not
UTF-8 (overlong forms, surrogates, code points above U+10FFFF, truncated characters) and keeps a
byte order mark as a character.
-/

set_option autoImplicit false

namespace ImportCensus

namespace Text

/-- The UTF-8 bytes of a text. -/
def encode (t : Text) : ByteArray := (String.ofList t).toUTF8

/-- The text that the bytes encode, if they are UTF-8. -/
def decode? (bytes : ByteArray) : Option Text := (String.fromUTF8? bytes).map String.toList

/-- The number of bytes of a text in UTF-8. -/
def byteLength (t : Text) : Nat := (encode t).size

/-- A text is read back from its bytes. -/
theorem decode?_encode (t : Text) : decode? (encode t) = some t := by
  have valid : (String.ofList t).toUTF8.IsValidUTF8 := (String.ofList t).isValidUTF8
  have back : String.fromUTF8 (String.ofList t).toUTF8 valid = String.ofList t := rfl
  rw [decode?, encode, String.fromUTF8?, dif_pos valid, back, Option.map_some, String.toList_ofList]

end Text

end ImportCensus
