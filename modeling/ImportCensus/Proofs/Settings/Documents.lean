import ImportCensus.Proofs.Text.Hex
import ImportCensus.Settings.Assignment

/-!
# `ImportCensus.Proofs.Settings.Documents`: documents with one assignment on a line

The two formats share a notation: one assignment on a line, a bare key in front of the sign, and
behind it a truth value or a string in double quotes. Within the quotes a character may be escaped
in several ways, and the break behind the last line may be missing. `IsDocument` covers all of them,
for whichever sign stands between key and value.

* `isDocument_toml`, `isDocument_yaml`: the documents of `Assignment.toml` and `Assignment.yaml`.
* `IsDocument.forall_mem`: a document holds printable ASCII and line breaks, whatever it says.
-/

set_option autoImplicit false

namespace ImportCensus

/-! ### The notation -/

/-- What may stand for a character behind a backslash: the quote and the backslash themselves, and
the code point of any character in four or eight digits. -/
inductive IsEscape (c : Char) : Text → Prop
  | itself : c = '\x22' ∨ c = '\x5c' → IsEscape c [c]
  | short {digits : Text} : digits.length = 4 → Text.hexValue? 0 digits = some c.toNat →
      IsEscape c ('u' :: digits)
  | long {digits : Text} : digits.length = 8 → Text.hexValue? 0 digits = some c.toNat →
      IsEscape c ('U' :: digits)

/-- Tests for printable ASCII. -/
def isPrintableAscii (c : Char) : Bool := ' ' ≤ c && c ≤ '~'

/-- What may stand for a character in a string. Printable ASCII may be escaped too, and anything
else has to be, so a document can be told to hold nothing else. -/
inductive IsPiece (c : Char) : Text → Prop
  | plain : isPrintableAscii c = true → c ≠ '\x22' → c ≠ '\x5c' → IsPiece c [c]
  | escaped {escape : Text} : IsEscape c escape → IsPiece c ('\x5c' :: escape)

/-- `Escaped content written`: what may stand between the quotes of a string. -/
inductive Escaped : Text → Text → Prop
  | nil : Escaped [] []
  | cons {c : Char} {piece content written : Text} :
      IsPiece c piece → Escaped content written → Escaped (c :: content) (piece ++ written)

/-- `literal.IsWritten written`: what may stand for a value. -/
inductive Literal.IsWritten : Literal → Text → Prop
  | string {content written : Text} :
      Escaped content written → IsWritten (.string content) ('\x22' :: (written ++ ['\x22']))
  | boolean (truth : Bool) : IsWritten (.boolean truth) (Literal.boolean truth).text

/-- `EndsLine tail next`: the end of a line, with the next lines behind it. The end of the text ends
the last line too. -/
inductive EndsLine : Text → Text → Prop
  | more (next : Text) : EndsLine ('\n' :: next) next
  | last : EndsLine [] []

/-- `IsDocument sign assignments text`: the text holds the assignments, one on a line, with the sign
between key and value. -/
inductive IsDocument (sign : Text) : List Assignment → Text → Prop
  | nil : IsDocument sign [] []
  | cons {assignment : Assignment} {rest : List Assignment} {written tail next : Text} :
      Assignment.isBareKey assignment.key = true → assignment.value.IsWritten written →
      EndsLine tail next → IsDocument sign rest next →
      IsDocument sign (assignment :: rest) (assignment.key ++ (sign ++ (written ++ tail)))

/-! ### One way to write them -/

/-- Every character can be written by its code point in eight digits, and most of them in four. -/
theorem isEscape_hexDigits {c : Char} :
    (c.toNat < 0x10000 → IsEscape c ('u' :: Text.hexDigits 4 c.toNat)) ∧
      IsEscape c ('U' :: Text.hexDigits 8 c.toNat) := by
  have hlength (count : Nat) := Text.length_hexDigits count c.toNat
  constructor
  · exact fun h => .short (hlength 4) (Text.hexValue?_hexDigits h)
  · -- Code points have six digits at most.
    have hvalid : c.toNat < 0x110000 := by
      have hc : c.toNat.isValidChar := c.valid
      rcases hc with h | h <;> omega
    exact .long (hlength 8) (Text.hexValue?_hexDigits (Nat.lt_trans hvalid (by decide)))

/-- The writer escapes the characters that need it, and each of its ways is one of the allowed
ones. -/
theorem isPiece_escapeChar (c : Char) : IsPiece c (Literal.escapeChar c) := by
  unfold Literal.escapeChar
  -- Signs that have to be escaped, printable characters, and all others by their code points.
  split
  · next h => exact .escaped (.itself h)
  · next h =>
    obtain ⟨hquote, hbackslash⟩ := not_or.1 h
    split
    · next hprintable =>
      exact .plain (by simpa [isPrintableAscii] using hprintable) hquote hbackslash
    · split
      · next hshort => exact .escaped (isEscape_hexDigits.1 hshort)
      · exact .escaped isEscape_hexDigits.2

/-- A string is written character by character, and each of them stands for itself however the
others are written. -/
theorem escaped_flatMap (content : Text) :
    Escaped content (content.flatMap Literal.escapeChar) := by
  induction content with
  | nil => exact .nil
  | cons c content ih => exact .cons (isPiece_escapeChar c) ih

/-- The text of a literal is one of the forms that may stand for it. -/
theorem Literal.isWritten_text (literal : Literal) : literal.IsWritten literal.text := by
  cases literal with
  | string content => exact .string (escaped_flatMap content)
  | boolean truth => exact .boolean truth

variable {assignments : List Assignment}

/-- Assignments on a line each, with their line breaks, are a document. The keys have to be bare,
because there is no way to write others. -/
theorem isDocument_flatMap (sign : Text)
    (h : ∀ assignment ∈ assignments, Assignment.isBareKey assignment.key = true) :
    IsDocument sign assignments (assignments.flatMap fun assignment =>
      assignment.key ++ sign ++ assignment.value.text ++ ['\n']) := by
  induction assignments with
  | nil => exact .nil
  | cons assignment rest ih =>
    obtain ⟨hkey, hrest⟩ := List.forall_mem_cons.1 h
    simp only [List.flatMap_cons, List.append_assoc]
    exact .cons hkey assignment.value.isWritten_text (.more _) (by simpa using ih hrest)

/-- Assignments can be written in TOML, with the sign of equality between blanks. -/
theorem isDocument_toml
    (h : ∀ assignment ∈ assignments, Assignment.isBareKey assignment.key = true) :
    IsDocument " = ".toList assignments (Assignment.toml assignments) :=
  isDocument_flatMap _ h

/-- They can be written in YAML as well, with a colon and a blank. -/
theorem isDocument_yaml
    (h : ∀ assignment ∈ assignments, Assignment.isBareKey assignment.key = true) :
    IsDocument ": ".toList assignments (Assignment.yaml assignments) :=
  isDocument_flatMap _ h

/-! ### The characters of a document -/

/-- Written values begin with a quote, or as one of the words. So a reader that has met the first
character knows which kind of value it is. -/
theorem Literal.IsWritten.exists_eq_cons {literal : Literal} {written : Text}
    (h : literal.IsWritten written) :
    ∃ c rest, written = c :: rest ∧ (c = '\x22' ∨ c = 't' ∨ c = 'f') := by
  rcases h with hescaped | truth
  · exact ⟨_, _, rfl, .inl rfl⟩
  · cases truth
    · exact ⟨_, _, rfl, .inr (.inr rfl)⟩
    · exact ⟨_, _, rfl, .inr (.inl rfl)⟩

/-- No quote stands in a string without a backslash in front of it, and so none stands at its
beginning. -/
theorem Escaped.head_ne_quote {content written : Text} (h : Escaped content written) :
    written.head? ≠ some '\x22' := by
  rcases h with _ | ⟨⟨-, hquote, -⟩ | hescape, -⟩
  · nofun
  · exact fun heq => hquote (Option.some.inj heq)
  · intro heq
    cases heq

/-- Tests for a character of a bare key. -/
def isBareChar (c : Char) : Bool := c.isAlpha || c == '_'

/-- A bare key has at least one character, and only such characters. -/
theorem isBareKey_iff {key : Text} :
    Assignment.isBareKey key = true ↔ key ≠ [] ∧ ∀ c ∈ key, isBareChar c = true := by
  rw [Assignment.isBareKey, Bool.and_eq_true, List.all_eq_true]
  simp [isBareChar]

/-- A bare key begins with one of its characters. Most readers decide by the first character of a
line what they have to do with. -/
theorem exists_eq_cons_of_isBareKey {key : Text} (h : Assignment.isBareKey key = true) :
    ∃ c rest, key = c :: rest ∧ isBareChar c = true := by
  obtain ⟨hne, hall⟩ := isBareKey_iff.1 h
  obtain ⟨c, rest, rfl⟩ := List.exists_cons_of_ne_nil hne
  exact ⟨c, rest, rfl, hall c List.mem_cons_self⟩

/-- A character that passes a test is told from one that does not. In the readers this settles which
branch is taken for a bare key, by evaluating the test on the sign that the branch is for. -/
theorem ne_of_test {test : Char → Bool} {c other : Char} (h : test c = true)
    (hother : test other = false) : c ≠ other := by
  rintro rfl
  cases h.symm.trans hother

/-- Printable ASCII is a range of code points, from the blank to the tilde. -/
theorem isPrintableAscii_iff {c : Char} :
    isPrintableAscii c = true ↔ 0x20 ≤ c.toNat ∧ c.toNat ≤ 0x7E := by
  rw [isPrintableAscii, Bool.and_eq_true, decide_eq_true_eq, decide_eq_true_eq]
  exact Iff.rfl

/-- A range of characters within that range is printable. -/
theorem isPrintableAscii_of_between (first last : Char) {c : Char} (hfirst : first ≤ c)
    (hlast : c ≤ last) (h : ' ' ≤ first ∧ last ≤ '~') : isPrintableAscii c = true := by
  rw [isPrintableAscii, Bool.and_eq_true, decide_eq_true_eq, decide_eq_true_eq]
  exact ⟨Char.le_trans h.1 hfirst, Char.le_trans hlast h.2⟩

/-- The characters of a bare key are letters and underscores, which are printable. -/
theorem isPrintableAscii_of_isBareChar {c : Char} (h : isBareChar c = true) :
    isPrintableAscii c = true := by
  rcases Bool.or_eq_true_iff.1 h with halpha | hunderscore
  · rcases Bool.or_eq_true_iff.1 halpha with hupper | hlower
    · obtain ⟨hfirst, hlast⟩ := of_decide_eq_true hupper
      exact isPrintableAscii_of_between 'A' 'Z' hfirst hlast (by decide)
    · obtain ⟨hfirst, hlast⟩ := Bool.and_eq_true_iff.1 hlower
      exact isPrintableAscii_of_between 'a' 'z' (of_decide_eq_true hfirst) (of_decide_eq_true hlast)
        (by decide)
  · obtain rfl := eq_of_beq hunderscore
    decide

/-- Hexadecimal digits are printable, in either case. -/
theorem isPrintableAscii_of_hexDigitValue? {c : Char} {value : Nat}
    (h : Text.hexDigitValue? c = some value) : isPrintableAscii c = true := by
  unfold Text.hexDigitValue? at h
  split at h
  · next hdigit =>
    simp only [Char.isDigit, Bool.and_eq_true, decide_eq_true_eq] at hdigit
    exact isPrintableAscii_of_between '0' '9' hdigit.1 hdigit.2 (by decide)
  · split at h
    · next hlower => exact isPrintableAscii_of_between 'a' 'f' hlower.1 hlower.2 (by decide)
    · split at h
      · next hupper => exact isPrintableAscii_of_between 'A' 'F' hupper.1 hupper.2 (by decide)
      · cases h

/-- What can be read as a number in hexadecimal consists of such digits. -/
theorem forall_mem_of_hexValue? {front value : Nat} {digits : Text}
    (h : Text.hexValue? front digits = some value) : ∀ c ∈ digits, isPrintableAscii c = true := by
  induction digits generalizing front with
  | nil => simp
  | cons c digits ih =>
    obtain ⟨digit, hdigit, hrest⟩ := Option.bind_eq_some_iff.1 h
    exact List.forall_mem_cons.2 ⟨isPrintableAscii_of_hexDigitValue? hdigit, ih hrest⟩

/-- What stands for a character is printable, even where the character is not: then it is an escape,
and these are made of signs, letters and digits. -/
theorem IsPiece.forall_mem {c : Char} {piece : Text} (h : IsPiece c piece) :
    ∀ d ∈ piece, isPrintableAscii d = true := by
  rcases h with ⟨hprintable, -, -⟩ | hescape
  · exact List.forall_mem_singleton.2 hprintable
  · refine List.forall_mem_cons.2 ⟨by decide, ?_⟩
    rcases hescape with (rfl | rfl) | ⟨-, hvalue⟩ | ⟨-, hvalue⟩
    · exact List.forall_mem_singleton.2 (by decide)
    · exact List.forall_mem_singleton.2 (by decide)
    · exact List.forall_mem_cons.2 ⟨by decide, forall_mem_of_hexValue? hvalue⟩
    · exact List.forall_mem_cons.2 ⟨by decide, forall_mem_of_hexValue? hvalue⟩

/-- So all that stands between the quotes of a string is printable. -/
theorem Escaped.forall_mem {content written : Text} (h : Escaped content written) :
    ∀ c ∈ written, isPrintableAscii c = true := by
  induction h with
  | nil => simp
  | cons hpiece _ ih => exact List.forall_mem_append.2 ⟨hpiece.forall_mem, ih⟩

/-- And all that stands for a value: the quotes are printable, and so are the two words. -/
theorem Literal.IsWritten.forall_mem {literal : Literal} {written : Text}
    (h : literal.IsWritten written) : ∀ c ∈ written, isPrintableAscii c = true := by
  rcases h with hescaped | truth
  · exact List.forall_mem_cons.2 ⟨by decide,
      List.forall_mem_append.2 ⟨hescaped.forall_mem, List.forall_mem_singleton.2 (by decide)⟩⟩
  · cases truth <;> exact List.all_eq_true.1 (by decide)

/-- The next lines are shorter than the text with a line in front of them. The readers of lines stop
if they have not got on, and this shows that they have. -/
theorem EndsLine.length_lt {tail next key : Text} (h : EndsLine tail next)
    (hkey : Assignment.isBareKey key = true) (sign written : Text) :
    next.length < (key ++ (sign ++ (written ++ tail))).length := by
  have hlength : next.length ≤ tail.length := by cases h <;> simp
  have hpos : 0 < key.length := List.length_pos_iff.2 (isBareKey_iff.1 hkey).1
  simp only [List.length_append]
  omega

/-- An empty text assigns nothing, since no key is empty and every line has one. -/
theorem eq_nil_of_isDocument {sign : Text} {assignments : List Assignment}
    (h : IsDocument sign assignments []) : assignments = [] := by
  generalize htext : ([] : Text) = text at h
  cases h with
  | nil => rfl
  | cons hkey =>
    obtain ⟨c, key, hcons, -⟩ := exists_eq_cons_of_isBareKey hkey
    rw [hcons] at htext
    cases htext

/-- A document holds printable ASCII, if the sign between key and value does, and line breaks. The
readers treat other characters in ways of their own, and with this none of them is met. -/
theorem IsDocument.forall_mem {sign text : Text} {assignments : List Assignment}
    (hsign : ∀ c ∈ sign, isPrintableAscii c = true) (h : IsDocument sign assignments text) :
    ∀ c ∈ text, isPrintableAscii c = true ∨ c = '\n' := by
  induction h with
  | nil => simp
  | cons hkey hwritten htail _ ih =>
    simp only [List.forall_mem_append]
    have hbare := (isBareKey_iff.1 hkey).2
    refine ⟨fun c hc => .inl (isPrintableAscii_of_isBareChar (hbare c hc)),
      fun c hc => .inl (hsign c hc), fun c hc => .inl (hwritten.forall_mem c hc), ?_⟩
    cases htail with
    | more => exact List.forall_mem_cons.2 ⟨.inr rfl, ih⟩
    | last => simp

end ImportCensus
