import ImportCensus.Settings.Assignment

/-!
# `ImportCensus.Settings.Toml`: settings in TOML

Settings are strings and truth values under plain keys. So of TOML only key/value lines can be part
of a valid file: tables, arrays, numbers and dates, all well-formed in TOML, do not fit any key and
are refused like text that is not TOML at all.

Keys are bare or quoted. Strings are basic or literal, on one line or between triple quotes. A line
break within triple quotes counts as one LF. A byte order mark may stand in front of the file, lines
end with LF or CRLF, and a comment runs to the end of its line.
-/

set_option autoImplicit false

namespace ImportCensus

namespace Toml

/-- The quote of basic strings. -/
def basicQuote : Char := '\x22'

/-- The quote of literal strings. -/
def literalQuote : Char := '\x27'

/-- Tests for white space within a line. -/
def isSpace (c : Char) : Bool := c == ' ' || c == '\t'

/-- Tests for a character that may stand in strings and comments. -/
def isPrintable (c : Char) : Bool := c == '\t' || (0x20 ≤ c.toNat && c.toNat != 0x7F)

/-- Tests for a character of a bare key. -/
def isKeyChar (c : Char) : Bool := c.isAlphanum || c == '_' || c == '-'

/-- A text without the white space in front of it. -/
def skipSpaces (t : Text) : Text := t.dropWhile isSpace

/-- What stands behind the line break with which a text begins. -/
def afterBreak? : Text → Option Text
  | '\n' :: rest => some rest
  | '\r' :: '\n' :: rest => some rest
  | _ => none

/-- What stands behind the end of a line. The text ends its last line too. -/
def afterLineEnd? : Text → Option Text
  | [] => some []
  | t => afterBreak? t

/-- What stands behind the rest of a line, which may hold white space and a comment. -/
def afterLine? (t : Text) : Option Text :=
  match skipSpaces t with
  | '#' :: comment => afterLineEnd? (comment.dropWhile isPrintable)
  | t => afterLineEnd? t

/-- The character that an escape stands for, read behind its backslash, and what follows. -/
def readEscape? : Text → Option (Char × Text)
  | [] => none
  | kind :: rest =>
    match kind with
    | 'b' => some ('\x08', rest)
    | 't' => some ('\x09', rest)
    | 'n' => some ('\x0a', rest)
    | 'f' => some ('\x0c', rest)
    | 'r' => some ('\x0d', rest)
    | 'e' => some ('\x1b', rest)
    | '\x22' => some ('\x22', rest)
    | '\x5c' => some ('\x5c', rest)
    | 'x' => Text.readHex? 2 rest
    | 'u' => Text.readHex? 4 rest
    | 'U' => Text.readHex? 8 rest
    | _ => none

/-- An escape takes at least the character behind the backslash. -/
theorem length_lt_of_readEscape? {t rest : Text} {c : Char}
    (h : readEscape? t = some (c, rest)) : rest.length < t.length := by
  unfold readEscape? at h
  split at h
  · cases h
  · split at h
    any_goals exact Nat.lt_succ_of_le (Text.length_le_of_readHex? h)
    all_goals simp_all

/-- The rest of a basic string behind its opening quote, and what follows its closing quote. -/
def readBasic? (t : Text) : Option (Text × Text) :=
  match t with
  | [] => none
  | c :: rest =>
    if c = basicQuote then some ([], rest)
    else if c = '\x5c' then
      match _escape : readEscape? rest with
      | some (escaped, after) =>
        (readBasic? after).map fun (content, rest) => (escaped :: content, rest)
      | none => none
    else if isPrintable c then (readBasic? rest).map fun (content, rest) => (c :: content, rest)
    else none
termination_by t.length
decreasing_by
  · exact Nat.lt_succ_of_lt (length_lt_of_readEscape? _escape)
  · exact Nat.lt_succ_self _

/-- The rest of a literal string behind its opening quote, and what follows its closing quote. -/
def readLiteral? : Text → Option (Text × Text)
  | [] => none
  | c :: rest =>
    if c = literalQuote then some ([], rest)
    else if isPrintable c then (readLiteral? rest).map fun (content, rest) => (c :: content, rest)
    else none

/-- A text without the line breaks and the white space in front of it. -/
def skipBlankLines : Text → Text
  | '\n' :: rest => skipBlankLines rest
  | '\r' :: '\n' :: rest => skipBlankLines rest
  | ' ' :: rest => skipBlankLines rest
  | '\t' :: rest => skipBlankLines rest
  | t => t

/-- What follows a line break that is escaped by the backslash in front of `t`. The white space at
the beginning of the next lines is taken away with it. -/
def afterEscapedBreak? (t : Text) : Option Text :=
  (afterBreak? (skipSpaces t)).map skipBlankLines

/-- The end of a string between triple quotes, if `t` begins with one: the quotes that still belong
to the content, at most two, and what follows the closing ones. -/
def closingQuotes? (quote : Char) (t : Text) : Option (Text × Text) :=
  let run := (t.takeWhile (· == quote)).length
  if run < 3 then none
  else some (List.replicate (min (run - 3) 2) quote, t.drop (min run 5))

/-- Passing over blank lines adds nothing to the text. -/
theorem length_skipBlankLines_le (t : Text) : (skipBlankLines t).length ≤ t.length := by
  fun_induction skipBlankLines t <;> grind

/-- A line break takes at least one character. -/
theorem length_lt_of_afterBreak? {t rest : Text} (h : afterBreak? t = some rest) :
    rest.length < t.length := by
  unfold afterBreak? at h
  split at h
  · cases h
    simp
  · cases h
    simp only [List.length_cons]
    omega
  · cases h

/-- Passing over white space adds nothing to the text. -/
theorem length_skipSpaces_le (t : Text) : (skipSpaces t).length ≤ t.length :=
  (List.dropWhile_sublist isSpace).length_le

/-- So a break behind a backslash, with the white space on both sides, takes at least one as
well. -/
theorem length_lt_of_afterEscapedBreak? {t rest : Text} (h : afterEscapedBreak? t = some rest) :
    rest.length < t.length := by
  obtain ⟨next, e, rfl⟩ := Option.map_eq_some_iff.1 h
  have := length_lt_of_afterBreak? e
  have := length_skipSpaces_le t
  have := length_skipBlankLines_le next
  omega

/-- The rest of a basic string between triple quotes, and what follows it. -/
def readMultilineBasic? (t : Text) : Option (Text × Text) :=
  match closingQuotes? basicQuote t with
  | some closed => some closed
  | none =>
    match t with
    | [] => none
    | c :: rest =>
      if c = '\x5c' then
        -- A backslash at the end of a line joins it to the next one with text.
        match _break : afterEscapedBreak? rest with
        | some after => readMultilineBasic? after
        | none =>
          match _escape : readEscape? rest with
          | some (escaped, after) =>
            (readMultilineBasic? after).map fun (content, rest) => (escaped :: content, rest)
          | none => none
      else
        match _break : afterBreak? (c :: rest) with
        | some after =>
          (readMultilineBasic? after).map fun (content, rest) => ('\n' :: content, rest)
        | none =>
          if isPrintable c then
            (readMultilineBasic? rest).map fun (content, rest) => (c :: content, rest)
          else none
termination_by t.length
decreasing_by
  · exact Nat.lt_succ_of_lt (length_lt_of_afterEscapedBreak? _break)
  · exact Nat.lt_succ_of_lt (length_lt_of_readEscape? _escape)
  · exact length_lt_of_afterBreak? _break
  · exact Nat.lt_succ_self _

/-- The rest of a literal string between triple quotes, and what follows it. -/
def readMultilineLiteral? (t : Text) : Option (Text × Text) :=
  match closingQuotes? literalQuote t with
  | some closed => some closed
  | none =>
    match t with
    | [] => none
    | c :: rest =>
      match _break : afterBreak? (c :: rest) with
      | some after =>
        (readMultilineLiteral? after).map fun (content, rest) => ('\n' :: content, rest)
      | none =>
        if isPrintable c then
          (readMultilineLiteral? rest).map fun (content, rest) => (c :: content, rest)
        else none
termination_by t.length
decreasing_by
  · exact length_lt_of_afterBreak? _break
  · exact Nat.lt_succ_self _

/-- A text without the line break with which it may begin. -/
def skipBreak (t : Text) : Text := (afterBreak? t).getD t

/-- A value, and what follows it. -/
def readValue? (t : Text) : Option (Literal × Text) :=
  let string (read : Option (Text × Text)) : Option (Literal × Text) :=
    read.map fun (content, rest) => (.string content, rest)
  match t with
  -- Three quotes never begin an empty string: the longest opening counts.
  | '\x22' :: '\x22' :: '\x22' :: rest => string (readMultilineBasic? (skipBreak rest))
  | '\x22' :: rest => string (readBasic? rest)
  | '\x27' :: '\x27' :: '\x27' :: rest => string (readMultilineLiteral? (skipBreak rest))
  | '\x27' :: rest => string (readLiteral? rest)
  | 't' :: 'r' :: 'u' :: 'e' :: rest => some (.boolean true, rest)
  | 'f' :: 'a' :: 'l' :: 's' :: 'e' :: rest => some (.boolean false, rest)
  | _ => none

/-- A key, and what follows it. -/
def readKey? (t : Text) : Option (Text × Text) :=
  match t with
  | '\x22' :: rest => readBasic? rest
  | '\x27' :: rest => readLiteral? rest
  | _ =>
    let name := t.takeWhile isKeyChar
    if name.isEmpty then none else some (name, t.dropWhile isKeyChar)

/-- An assignment, and what follows it on its line. -/
def readAssignment? (t : Text) : Option (Assignment × Text) := do
  let (key, rest) ← readKey? t
  let rest ← ['='].isPrefixOf? (skipSpaces rest)
  let (value, rest) ← readValue? (skipSpaces rest)
  return (⟨key, value⟩, rest)

/-- The assignments in the lines of a text. Each line takes at least one character. -/
def readLines? (t : Text) : Option (List Assignment) :=
  if t.isEmpty then some []
  else
    -- A line is blank or a comment, or it holds one assignment and nothing else.
    match afterLine? t with
    | some next => if next.length < t.length then readLines? next else none
    | none =>
      match readAssignment? (skipSpaces t) with
      | none => none
      | some (assignment, rest) =>
        match afterLine? rest with
        | none => none
        | some next =>
          if next.length < t.length then (readLines? next).map (assignment :: ·) else none
termination_by t.length

/-- A text without the byte order mark with which it may begin. -/
def skipMark : Text → Text
  | '\ufeff' :: rest => rest
  | t => t

/-- The assignments of a document. -/
def read? (document : Text) : Option (List Assignment) := readLines? (skipMark document)

end Toml

/-- The settings in a TOML document. -/
def Settings.ofToml? (document : Text) : Option Settings :=
  (Toml.read? document).bind Settings.ofWritten?

end ImportCensus
