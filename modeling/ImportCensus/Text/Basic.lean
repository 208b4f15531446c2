/-!
# `ImportCensus.Text.Basic`: texts

Names, paths, lines and whole files are texts: lists of characters. Two orders meet on them. The
lexicographic order of `List` compares texts by code point, and the bytes of UTF-8 compare in the
same way, so "sorted by name bytes" is this order.

Searching is for the first occurrence of a keyword. `Text.after?` gives what stands behind it,
which is all that the header readers need.
-/

set_option autoImplicit false

namespace ImportCensus

/-- A text is the list of its characters. -/
abbrev Text := List Char

namespace Text

/-- What stands behind the first occurrence of `key` in a text, if `key` occurs at all. -/
def after? (key : Text) : Text → Option Text
  | [] => key.isPrefixOf? []
  | c :: t =>
    match key.isPrefixOf? (c :: t) with
    | some rest => some rest
    | none => after? key t

/-- Tests whether `key` occurs in a text. -/
def mentions (key t : Text) : Bool := (after? key t).isSome

/-- The text without its last characters as far as they satisfy `p`. -/
def dropEndWhile (p : Char → Bool) (t : Text) : Text := (t.reverse.dropWhile p).reverse

/-- The segments between the separators, the empty ones included: a text with `n` separators has
`n + 1` segments. -/
def segments (separator : Char) (t : Text) : List Text := t.splitOn separator

/-- A natural number in decimal digits. -/
def ofNat (n : Nat) : Text := Nat.toDigits 10 n

/-- The texts one after the other with `separator` between them. -/
def join (separator : Text) (ts : List Text) : Text := separator.intercalate ts

/-- Pads a text with blanks on its left to at least `width` characters. -/
def padLeft (width : Nat) (t : Text) : Text := List.replicate (width - t.length) ' ' ++ t

end Text

end ImportCensus
