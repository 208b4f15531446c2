import ImportCensus.Text.Basic

/-!
# `ImportCensus.Text.Hex`: characters by their code points

Escapes in strings name a character by its code point, in a fixed number of hexadecimal digits.
Digits beyond 9 may be in either case. A code point that no character has (a surrogate, or one above
U+10FFFF) is refused.
-/

set_option autoImplicit false

namespace ImportCensus

namespace Text

/-- The value of a hexadecimal digit. -/
def hexDigitValue? (c : Char) : Option Nat :=
  if c.isDigit then some (c.toNat - '0'.toNat)
  else if 'a' ≤ c ∧ c ≤ 'f' then some (10 + (c.toNat - 'a'.toNat))
  else if 'A' ≤ c ∧ c ≤ 'F' then some (10 + (c.toNat - 'A'.toNat))
  else none

/-- The number that hexadecimal digits stand for, with the value of the digits in front of them. -/
def hexValue? (front : Nat) : Text → Option Nat
  | [] => some front
  | c :: rest => (hexDigitValue? c).bind fun digit => hexValue? (16 * front + digit) rest

/-- A number in hexadecimal digits, `count` of them, the last ones of its digits. -/
def hexDigits : Nat → Nat → Text
  | 0, _ => []
  | count + 1, n => hexDigits count (n / 16) ++ [Nat.digitChar (n % 16)]

/-- The character with a code point. -/
def charOfCode? (code : Nat) : Option Char :=
  if code.isValidChar then some (Char.ofNat code) else none

/-- The character whose code point is written in `count` hexadecimal digits, and what follows. -/
def readHex? (count : Nat) (t : Text) : Option (Char × Text) :=
  if t.length < count then none
  else ((hexValue? 0 (t.take count)).bind charOfCode?).map fun c => (c, t.drop count)

/-- What follows the digits is a rest of the text. -/
theorem length_le_of_readHex? {count : Nat} {t rest : Text} {c : Char}
    (h : readHex? count t = some (c, rest)) : rest.length ≤ t.length := by
  unfold readHex? at h
  split at h
  · cases h
  · obtain ⟨_, _, e⟩ := Option.map_eq_some_iff.1 h
    cases e
    simp

end Text

end ImportCensus
