import Mathlib.Algebra.Group.Nat.Defs
import ImportCensus.Text.Hex

/-!
# `ImportCensus.Proofs.Text.Hex`: code points are read back from their digits

* `hexValue?_hexDigits`: a number is read back from its digits, if these are enough for it.
* `readHex?_eq_some_iff`: a character is read from the digits of its code point, whatever follows.
-/

set_option autoImplicit false

namespace ImportCensus

namespace Text

/-- Each of the sixteen digits is read as the number that it stands for. -/
theorem hexDigitValue?_digitChar : ∀ n < 16, hexDigitValue? (Nat.digitChar n) = some n := by
  decide

/-- Numbers are written with as many digits as are asked for, with zeros in front or cut off at the
front. So the digits of an escape can be found by counting. -/
theorem length_hexDigits (count n : Nat) : (hexDigits count n).length = count := by
  induction count generalizing n with
  | zero => rfl
  | succ count ih => rw [hexDigits, List.length_append, ih, List.length_singleton]

/-- The last digit counts once, and the digits in front of it sixteen times. Digits are written from
the last one and read from the first one, and this equation turns the reader round. -/
theorem hexValue?_concat (front : Nat) (digits : Text) (c : Char) :
    hexValue? front (digits ++ [c]) =
      (hexValue? front digits).bind fun value => (hexDigitValue? c).map (16 * value + ·) := by
  induction digits generalizing front with
  | nil =>
    show (hexDigitValue? c).bind _ = (hexDigitValue? c).map _
    cases hexDigitValue? c <;> rfl
  | cons d digits ih =>
    rw [List.cons_append, hexValue?, hexValue?, Option.bind_assoc]
    congr 1
    funext value
    exact ih _

/-- A number is read back from its digits. The bound says that no digit has been cut off at the
front. The induction takes off the last digit, which is the remainder by sixteen. -/
theorem hexValue?_hexDigits {count n : Nat} (h : n < 16 ^ count) :
    hexValue? 0 (hexDigits count n) = some n := by
  induction count generalizing n with
  | zero =>
    obtain rfl : n = 0 := by omega
    rfl
  | succ count ih =>
    have hfront : n / 16 < 16 ^ count := by
      rw [Nat.pow_succ] at h
      omega
    rw [hexDigits, hexValue?_concat, ih hfront, Option.bind_some,
      hexDigitValue?_digitChar _ (Nat.mod_lt _ (by decide)), Option.map_some, Nat.div_add_mod]

/-- The code point of a character stands for that character. Code points of characters are never
surrogates, so the guard lets them pass. -/
theorem charOfCode?_toNat (c : Char) : charOfCode? c.toNat = some c := by
  have hvalid : c.toNat.isValidChar := c.valid
  rw [charOfCode?, if_pos hvalid, Char.ofNat_toNat]

/-- A number stands for a character exactly if it is its code point. So no two characters share a
code point, and a number that is no code point stands for none. -/
theorem charOfCode?_eq_some_iff {code : Nat} {c : Char} :
    charOfCode? code = some c ↔ c.toNat = code := by
  constructor
  · intro h
    unfold charOfCode? at h
    split at h
    · next hvalid =>
      cases h
      rw [Char.ofNat, dif_pos hvalid]
      rfl
    · cases h
  · rintro rfl
    exact charOfCode?_toNat c

/-- A character is read from as many digits of its code point as are asked for, whatever follows
them. Upper and lower case are not told apart here, so several texts can be read as one
character. -/
theorem readHex?_eq_some_iff {count : Nat} {t rest : Text} {c : Char} :
    readHex? count t = some (c, rest) ↔
      ∃ digits, digits.length = count ∧ hexValue? 0 digits = some c.toNat ∧
        t = digits ++ rest := by
  constructor
  · intro h
    unfold readHex? at h
    split at h
    · cases h
    · next hlong =>
      obtain ⟨other, hcode, heq⟩ := Option.map_eq_some_iff.1 h
      obtain ⟨value, hvalue, hchar⟩ := Option.bind_eq_some_iff.1 hcode
      cases heq
      refine ⟨t.take count, List.length_take_of_le (Nat.not_lt.1 hlong), ?_,
        (List.take_append_drop count t).symm⟩
      rw [hvalue, charOfCode?_eq_some_iff.1 hchar]
  · rintro ⟨digits, rfl, hvalue, rfl⟩
    -- There are enough characters, and the first ones are the digits.
    have hlong : ¬ (digits ++ rest).length < digits.length := by
      rw [List.length_append]
      omega
    rw [readHex?, if_neg hlong, List.take_left, List.drop_left, hvalue, Option.bind_some,
      charOfCode?_toNat]
    rfl

end Text

end ImportCensus
