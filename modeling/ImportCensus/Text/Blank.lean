import ImportCensus.Text.Basic

/-!
# `ImportCensus.Text.Blank`: white space

The characters with the Unicode property White_Space, as ranges of code points. Control characters
U+001C to U+001F, the zero width space U+200B and the byte order mark U+FEFF do not have it.
-/

set_option autoImplicit false

namespace ImportCensus

namespace Text

/-- The code points with the property White_Space, as closed ranges. -/
def blankRanges : List (Nat × Nat) :=
  [(0x09, 0x0D), (0x20, 0x20), (0x85, 0x85), (0xA0, 0xA0), (0x1680, 0x1680), (0x2000, 0x200A),
   (0x2028, 0x2029), (0x202F, 0x202F), (0x205F, 0x205F), (0x3000, 0x3000)]

/-- Tests for a white space character. -/
def isBlankChar (c : Char) : Bool :=
  blankRanges.any fun range => range.1 ≤ c.toNat && c.toNat ≤ range.2

/-- A text is blank when it holds white space only. -/
def isBlank (t : Text) : Bool := t.all isBlankChar

end Text

end ImportCensus
