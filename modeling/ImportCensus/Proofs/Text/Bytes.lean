import Mathlib.Algebra.Group.Nat.Defs
import ImportCensus.Text.Encoding

/-!
# `ImportCensus.Proofs.Text.Bytes`: texts compare like their bytes

Texts are compared by code point, and hosts compare names by their bytes. In UTF-8 this makes no
difference. A character has a leading byte, which is the greater the more bytes follow it, and each
byte that follows holds six more bits of the code point. So of two characters the one with the
smaller code point has the smaller byte where their bytes first differ.

* `sixBitBytes_lt`: characters with the same number of bytes. The induction is on that number.
* `bytes_lt_bytes_iff`: texts and their bytes have one order.
* `map_bytes_lt_map_bytes_iff`: so have sequences of texts.
-/

set_option autoImplicit false

namespace ImportCensus

namespace Text

/-- The bytes of a text in UTF-8. -/
def bytes (t : Text) : List UInt8 := (encode t).data.toList

/-- The bytes of a text are those of its characters, one after the other. Proofs go character by
character, and the bytes themselves are built by an array. -/
theorem bytes_eq_flatMap (t : Text) : bytes t = t.flatMap String.utf8EncodeChar := by
  show t.utf8Encode.data.toList = _
  simp [List.utf8Encode]

/-! ### Characters -/

/-- A code point in a leading byte, which is raised by `mark`, and `count` bytes of six bits. All
four lengths of a character in UTF-8 are of this form, so one induction on `count` covers them. -/
def sixBitBytes (mark : Nat) : Nat → Nat → List UInt8
  | 0, code => [UInt8.ofNat (code + mark)]
  | count + 1, code => sixBitBytes mark count (code / 64) ++ [UInt8.ofNat (code % 64 + 128)]

/-- The first byte decides, if it is not the same. The bound on the greater number keeps both from
wrapping around when they are made bytes. -/
theorem ofNat_cons_lt {m n : Nat} (h : m < n) (hn : n < 256) (s t : List UInt8) :
    UInt8.ofNat m :: s < UInt8.ofNat n :: t := by
  refine List.cons_lt_cons_iff.2 (.inl ?_)
  rw [UInt8.lt_iff_toNat_lt, UInt8.toNat_ofNat', UInt8.toNat_ofNat']
  omega

/-- Of two code points that are written alike the smaller one comes first, whatever follows. The
bound says that the greater one fits into its bytes. Without their last six bits the two are either
in the same order, or equal, and then the last bytes decide. -/
theorem sixBitBytes_lt {mark count m n : Nat} (h : m < n)
    (hn : n + mark * 64 ^ count < 256 * 64 ^ count) (s t : List UInt8) :
    sixBitBytes mark count m ++ s < sixBitBytes mark count n ++ t := by
  induction count generalizing m n s t with
  | zero =>
    rw [pow_zero] at hn
    exact ofNat_cons_lt (by omega) (by omega) s t
  | succ count ih =>
    rw [pow_succ, ← mul_assoc, ← mul_assoc] at hn
    rw [sixBitBytes, sixBitBytes, List.append_assoc, List.append_assoc]
    rcases Nat.lt_or_eq_of_le (Nat.div_le_div_right (Nat.le_of_lt h)) with hfront | hfront
    · exact ih hfront (by omega) _ _
    · -- Only the last six bits differ.
      rw [hfront]
      exact List.append_left_lt (ofNat_cons_lt (by omega) (by omega) s t)

/-- Code points lie below the end of the last plane, so four bytes are enough for each of them. -/
theorem toNat_lt (c : Char) : c.toNat < 0x110000 := by
  rcases c.valid with h | h
  · exact Nat.lt_trans h (by decide)
  · exact h.2

/-- How many bytes follow the leading one, and its mark, go by the code point. The encoder masks the
bits of the leading byte. The ranges make the masks redundant, and they are gone on the right. -/
theorem utf8EncodeChar_eq_sixBitBytes (c : Char) :
    String.utf8EncodeChar c =
      if c.toNat ≤ 0x7F then sixBitBytes 0 0 c.toNat
      else if c.toNat ≤ 0x7FF then sixBitBytes 192 1 c.toNat
      else if c.toNat ≤ 0xFFFF then sixBitBytes 224 2 c.toNat
      else sixBitBytes 240 3 c.toNat := by
  have hcode := toNat_lt c
  have hval : c.val.toNat = c.toNat := rfl
  simp only [String.utf8EncodeChar, hval, sixBitBytes, List.cons_append, List.nil_append,
    Nat.div_div_eq_div_mul, Nat.add_zero]
  -- The bits that are cut off a leading byte are all zero.
  split
  · rfl
  split
  · rw [Nat.mod_eq_of_lt (by omega : c.toNat / 64 < 32)]
  split
  · rw [Nat.mod_eq_of_lt (by omega : c.toNat / 4096 < 16)]
  · rw [Nat.mod_eq_of_lt (by omega : c.toNat / 262144 < 8)]

/-- The bytes of a character with a smaller code point come first, whatever follows. Characters of
one length are compared by `sixBitBytes_lt`, and of two lengths the shorter has the smaller leading
byte. -/
theorem utf8EncodeChar_append_lt {a b : Char} (h : a < b) (s t : List UInt8) :
    String.utf8EncodeChar a ++ s < String.utf8EncodeChar b ++ t := by
  have hlt : a.toNat < b.toNat := h
  have hcode := toNat_lt b
  rw [utf8EncodeChar_eq_sixBitBytes, utf8EncodeChar_eq_sixBitBytes]
  generalize a.toNat = m at hlt
  generalize b.toNat = n at hlt hcode
  -- As many bytes follow in both, or fewer do in the first, whose leading byte is smaller then.
  (repeat' split) <;>
    first
    | omega
    | exact sixBitBytes_lt hlt (by omega) s t
    | exact ofNat_cons_lt (by omega) (by omega) _ _

/-! ### Texts -/

/-- A text that comes first as a sequence of characters comes first as a sequence of bytes. The
induction goes to the first character at which the texts differ; a text that is at its end there
comes first in both ways. -/
theorem bytes_lt_bytes {a b : Text} (h : a < b) : bytes a < bytes b := by
  rw [bytes_eq_flatMap, bytes_eq_flatMap]
  induction a generalizing b with
  | nil =>
    cases b with
    | nil => cases h
    | cons d b =>
      -- No character is written in no bytes at all.
      rw [List.flatMap_nil, List.flatMap_cons, utf8EncodeChar_eq_sixBitBytes]
      (repeat' split) <;> exact List.nil_lt_cons _ _
  | cons c a ih =>
    cases b with
    | nil => cases h
    | cons d b =>
      rw [List.flatMap_cons, List.flatMap_cons]
      rcases List.cons_lt_cons_iff.1 h with hfirst | ⟨rfl, hrest⟩
      · exact utf8EncodeChar_append_lt hfirst _ _
      · exact List.append_left_lt (ih hrest)

/-- What keeps a total order also reflects it: of two values one comes first or they are equal, and
the images are in the same order, which cannot hold both ways. -/
theorem lt_iff_lt_of_imp {α β : Type} [LT α] [LT β] [Std.Trichotomous (α := α) (· < ·)]
    [Std.Asymm (α := β) (· < ·)] {f : α → β} (h : ∀ a b, a < b → f a < f b) {a b : α} :
    f a < f b ↔ a < b := by
  refine ⟨fun hlt => ?_, h a b⟩
  rcases Std.Trichotomous.rel_or_eq_or_rel_swap (r := (· < ·)) (a := a) (b := b) with h' | rfl | h'
  · exact h'
  · exact absurd hlt (Std.Asymm.asymm _ _ hlt)
  · exact absurd hlt (Std.Asymm.asymm _ _ (h b a h'))

/-- **Texts compare like their bytes.** So names can be compared as texts where the host compares
bytes, and the order of a sorted walk does not depend on how its names are stored. -/
theorem bytes_lt_bytes_iff {a b : Text} : bytes a < bytes b ↔ a < b :=
  lt_iff_lt_of_imp fun _ _ => bytes_lt_bytes

/-- Sequences of texts compare like the sequences of their bytes. This is the form for paths, which
are compared name by name. -/
theorem map_bytes_lt_map_bytes_iff {a b : List Text} : a.map bytes < b.map bytes ↔ a < b :=
  lt_iff_lt_of_imp fun _ _ => List.map_lt fun _ _ => bytes_lt_bytes

end Text

end ImportCensus
