import ImportCensus.Proofs.Settings.Documents
import ImportCensus.Settings.Toml

/-!
# `ImportCensus.Proofs.Settings.TomlDocuments`: assignments are read back from TOML

Each reader takes what its part of the notation wrote and leaves what follows. The readers of
strings and of lines are recursive: for them there is a step, at one character or at one line, and
the induction over what is written.

* `Toml.readBasic?_piece`, `Toml.readBasic?_escaped`: strings, and their steps.
* `Toml.readAssignment?_append`: what stands on one line.
* `Toml.read?_isDocument`: all the assignments of a document are read back.
-/

set_option autoImplicit false

namespace ImportCensus

namespace Toml

/-! ### Strings -/

/-- An escape is read back as the character it stands for. The number of digits is fixed by the
letter in front of them, so digits that follow in the string are not taken for part of it. -/
theorem readEscape?_append {c : Char} {escape : Text} (h : IsEscape c escape) (rest : Text) :
    readEscape? (escape ++ rest) = some (c, rest) := by
  rcases h with (rfl | rfl) | ⟨hlength, hvalue⟩ | ⟨hlength, hvalue⟩
  · rfl
  · rfl
  · exact Text.readHex?_eq_some_iff.2 ⟨_, hlength, hvalue, rfl⟩
  · exact Text.readHex?_eq_some_iff.2 ⟨_, hlength, hvalue, rfl⟩

/-- One step of reading a string: a character, however it is written. A character that is written
plainly is neither the quote nor the backslash, so each form is met by its own branch. -/
theorem readBasic?_piece {c : Char} {piece : Text} (h : IsPiece c piece) (rest : Text) :
    readBasic? (piece ++ rest) =
      (readBasic? rest).map fun (content, rest) => (c :: content, rest) := by
  rcases h with ⟨hprintable, hquote, hbackslash⟩ | hescape
  · -- Printable ASCII is plain in TOML, apart from the two signs.
    have hplain : isPrintable c = true := by
      rw [isPrintableAscii_iff] at hprintable
      simp only [isPrintable, Bool.or_eq_true, Bool.and_eq_true, decide_eq_true_eq, bne_iff_ne]
      omega
    rw [List.singleton_append, readBasic?, if_neg (show c ≠ basicQuote from hquote),
      if_neg hbackslash, if_pos hplain]
  · rw [List.cons_append, readBasic?, if_neg (by decide), if_pos rfl]
    split
    · next hread =>
      rw [readEscape?_append hescape] at hread
      cases hread
      rfl
    · next hread =>
      rw [readEscape?_append hescape] at hread
      cases hread

/-- A string is read up to the quote behind it, by one step for each character. -/
theorem readBasic?_escaped {content written : Text} (h : Escaped content written) (rest : Text) :
    readBasic? (written ++ '\x22' :: rest) = some (content, rest) := by
  induction h with
  | nil => rw [List.nil_append, readBasic?, if_pos (show '\x22' = basicQuote from rfl)]
  | cons hpiece _ ih =>
    rw [List.append_assoc, readBasic?_piece hpiece, ih]
    rfl

/-! ### Lines -/

variable {tail next : Text}

/-- Where a line ends, no white space or comment comes before its end. The reader would allow both,
but the notation has neither. -/
theorem afterLine?_endsLine (h : EndsLine tail next) : afterLine? tail = some next := by
  cases h with
  | more => rfl
  | last => rfl

/-- One quote that is not followed by two more opens a string on one line. Three quotes would open a
string over several lines. -/
theorem readValue?_quote {t : Text} (h : ∀ rest, t ≠ '\x22' :: '\x22' :: rest) :
    readValue? ('\x22' :: t) =
      (readBasic? t).map fun (content, rest) => (.string content, rest) := by
  unfold readValue?
  split
  · next rest heq => exact absurd (List.cons.inj heq).2 (h rest)
  · next heq =>
    cases heq
    rfl
  all_goals simp_all

/-- Nothing is passed over in front of a character that is no white space. -/
theorem skipSpaces_cons {c : Char} (h : isSpace c = false) (t : Text) :
    skipSpaces (c :: t) = c :: t := by
  rw [skipSpaces, List.dropWhile_cons_of_neg (by simp [h])]

/-- A line with something else on it than white space and a comment is not passed over, so it has to
be an assignment. -/
theorem afterLine?_cons {c : Char} (hspace : isSpace c = false) (hcomment : c ≠ '#')
    (hlf : c ≠ '\n') (hcr : c ≠ '\r') (t : Text) : afterLine? (c :: t) = none := by
  rw [afterLine?, skipSpaces_cons hspace]
  split
  · next heq => exact absurd (List.cons.inj heq).1 hcomment
  · unfold afterLineEnd? afterBreak?
    simp [hlf, hcr]

/-- A value is read up to the end of its line. For an empty string it has to be shown that no third
quote follows. -/
theorem readValue?_append {literal : Literal} {written : Text} (h : literal.IsWritten written)
    (htail : EndsLine tail next) : readValue? (written ++ tail) = some (literal, tail) := by
  rcases h with @⟨content, written, hescaped⟩ | truth
  · -- Behind the quotes of an empty string the line ends, so there is no third quote.
    have hnot (rest : Text) : written ++ '\x22' :: tail ≠ '\x22' :: '\x22' :: rest := by
      intro heq
      cases written with
      | nil => cases htail <;> simp at heq
      | cons c written => exact hescaped.head_ne_quote (by simp_all)
    rw [List.cons_append, List.append_assoc, List.singleton_append, readValue?_quote hnot,
      readBasic?_escaped hescaped]
    rfl
  · cases truth <;> rfl

/-- A bare key is read up to the white space behind it. Its characters are allowed in keys of TOML,
which allow more. -/
theorem readKey?_append {key : Text} (h : Assignment.isBareKey key = true) (rest : Text) :
    readKey? (key ++ ' ' :: rest) = some (key, ' ' :: rest) := by
  have hkeyChar : ∀ c ∈ key, isKeyChar c = true := by
    intro c hc
    have hbare := (isBareKey_iff.1 h).2 c hc
    simp only [isBareChar, isKeyChar, Char.isAlphanum, Bool.or_eq_true] at hbare ⊢
    exact .inl (hbare.imp_left .inl)
  obtain ⟨c, front, rfl, hbare⟩ := exists_eq_cons_of_isBareKey h
  unfold readKey?
  -- A quote would begin a quoted key, of either kind.
  split
  · next heq => exact absurd (List.cons.inj heq).1 (ne_of_test hbare (by decide))
  · next heq => exact absurd (List.cons.inj heq).1 (ne_of_test hbare (by decide))
  · rw [List.takeWhile_append_of_pos hkeyChar, List.dropWhile_append_of_pos hkeyChar,
      List.takeWhile_cons_of_neg (by decide), List.dropWhile_cons_of_neg (by decide),
      List.append_nil]
    rfl

/-- What stands on a line is read up to the end of the line: key, sign and value, one reader behind
the other. -/
theorem readAssignment?_append {assignment : Assignment} {written : Text}
    (hkey : Assignment.isBareKey assignment.key = true)
    (hwritten : assignment.value.IsWritten written) (htail : EndsLine tail next) :
    readAssignment? (assignment.key ++ (" = ".toList ++ (written ++ tail))) =
      some (assignment, tail) := by
  have hkeyRead := readKey?_append hkey ('=' :: ' ' :: (written ++ tail))
  have hsign : skipSpaces (' ' :: '=' :: ' ' :: (written ++ tail)) =
      '=' :: ' ' :: (written ++ tail) := rfl
  have hvalue : skipSpaces (' ' :: (written ++ tail)) = written ++ tail := by
    obtain ⟨c, rest, rfl, hc⟩ := hwritten.exists_eq_cons
    have hspace : isSpace c = false := by rcases hc with rfl | rfl | rfl <;> rfl
    exact skipSpaces_cons hspace (rest ++ tail)
  -- Key, sign and value each leave the white space in front of the next one.
  have hprefix : ['='].isPrefixOf? ('=' :: ' ' :: (written ++ tail)) =
      some (' ' :: (written ++ tail)) := rfl
  show readAssignment? (assignment.key ++ ' ' :: '=' :: ' ' :: (written ++ tail)) = _
  simp only [readAssignment?, hkeyRead, hsign, hprefix, hvalue, readValue?_append hwritten htail,
    Option.bind_eq_bind, Option.bind_some]
  rfl

/-! ### Documents -/

/-- All the lines of a document are read. The reader goes on only if it has got shorter, and a line
does not leave it standing since its key has a character. -/
theorem readLines?_isDocument {assignments : List Assignment} {text : Text}
    (h : IsDocument " = ".toList assignments text) : readLines? text = some assignments := by
  induction h with
  | nil => rw [readLines?, if_pos (by decide)]
  | @cons assignment rest written tail next hkey hwritten htail _ ih =>
    have hread := readAssignment?_append hkey hwritten htail
    have hshorter := htail.length_lt hkey " = ".toList written
    obtain ⟨c, key, hcons, hbare⟩ := exists_eq_cons_of_isBareKey hkey
    have hne (other : Char) (hother : isBareChar other = false) : c ≠ other :=
      ne_of_test hbare hother
    have hspace : isSpace c = false := by simp [isSpace, hne ' ' rfl, hne '\t' rfl]
    -- The line begins with a key, so it is not passed over as a blank one or a comment.
    rw [hcons, List.cons_append] at hread hshorter ⊢
    rw [readLines?, if_neg (by simp), skipSpaces_cons hspace, hread,
      afterLine?_cons hspace (hne _ rfl) (hne _ rfl) (hne _ rfl)]
    dsimp only
    rw [afterLine?_endsLine htail]
    dsimp only
    rw [if_pos hshorter, ih, Option.map_some]

/-- **The assignments of a document in TOML are read back.** A byte order mark in front would be
passed over, but a document has none. -/
theorem read?_isDocument {assignments : List Assignment} {text : Text}
    (h : IsDocument " = ".toList assignments text) : read? text = some assignments := by
  have hmark : skipMark text = text := by
    unfold skipMark
    split
    · -- A byte order mark is no character of a document.
      have hprintable := h.forall_mem (List.all_eq_true.1 (by decide)) '\ufeff' List.mem_cons_self
      exact absurd hprintable (by decide)
    · rfl
  rw [read?, hmark, readLines?_isDocument h]

end Toml

end ImportCensus
