import ImportCensus.Text.Basic

/-!
# `ImportCensus.Decimal`: numbers with decimal places

A finite floating point number is a natural number times a power of two. Its text with one decimal
place is that of the nearest tenth to this exact value. A value in the middle between two tenths
goes to the even one, so 6.25 is written 6.2 and 18.75 is written 18.8.

- `Decimal.roundHalfEven`: the nearest natural number to a quotient.
-/

set_option autoImplicit false

namespace ImportCensus

namespace Decimal

/-- The natural number nearest to a quotient, and the even one of two that are equally near. -/
def roundHalfEven (num den : Nat) : Nat :=
  let floor := num / den
  let twice := 2 * (num % den)
  if twice < den ∨ (twice = den ∧ floor % 2 = 0) then floor else floor + 1

/-- A power of two. -/
def twoPow (exponent : Nat) : Nat := 1 <<< exponent

/-- A finite, non-negative floating point number as a quotient of natural numbers. -/
def quotientOfBits (bits : UInt64) : Nat × Nat :=
  let fraction := bits.toNat % twoPow 52
  let exponent := bits.toNat / twoPow 52 % twoPow 11
  -- The leading bit is left out, unless the exponent is the least one.
  let mantissa := if exponent = 0 then fraction else twoPow 52 + fraction
  let scale := max exponent 1
  if 1075 ≤ scale then (mantissa * twoPow (scale - 1075), 1) else (mantissa, twoPow (1075 - scale))

/-- A number of tenths with the decimal point at its place. -/
def tenthsText (tenths : Nat) : Text :=
  Text.ofNat (tenths / 10) ++ '.' :: Text.ofNat (tenths % 10)

/-- A finite, non-negative floating point number with one decimal place. -/
def ofFloat (x : Float) : Text :=
  let (num, den) := quotientOfBits x.toBits
  tenthsText (roundHalfEven (10 * num) den)

/-- A number of milliseconds in seconds, with two decimal places. -/
def ofMilliseconds (milliseconds : Nat) : Text :=
  let hundredths := roundHalfEven milliseconds 10
  Text.ofNat (hundredths / 100) ++ '.' :: Text.ofNat (hundredths % 100 / 10)
    ++ Text.ofNat (hundredths % 10)

end Decimal

end ImportCensus
