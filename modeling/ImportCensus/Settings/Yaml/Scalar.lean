import ImportCensus.Settings.Yaml.Cursor
import ImportCensus.Text.Hex

/-!
# `ImportCensus.Settings.Yaml.Scalar`: scalars of YAML

A scalar is written plain, in quotes, or as a block of indented lines. All but literal blocks are
folded: a single line break between two lines of content becomes a blank, and of several breaks the
first is dropped. White space at a fold is dropped too.

Plain and quoted scalars are read with a `Gap`, the white space that was met since the last
character of content. What it contributes is known only when the next such character is met.
-/

set_option autoImplicit false

namespace ImportCensus

namespace Yaml

/-- How a scalar is written. -/
inductive Style
  | plain
  | quoted
  | literal
  | folded
  deriving DecidableEq, Repr

/-- The white space since the last character of content. -/
inductive Gap
  /-- White space on one line. -/
  | blanks (t : Text)
  /-- A line break, which may be none if it is escaped, and the breaks behind it. -/
  | breaks (first later : Text)
  deriving DecidableEq, Repr

namespace Gap

/-- The gap without white space. -/
def none : Gap := blanks []

/-- The gap with a blank or tab at its end. -/
def addBlank (c : Char) : Gap → Gap
  | blanks t => blanks (t ++ [c])
  | breaks first later => breaks first later

/-- The gap with a line break at its end. -/
def addBreak (c : Char) : Gap → Gap
  | blanks _ => breaks [c] []
  | breaks first later => breaks first (later ++ [c])

/-- Tests for a line break. -/
def hasBreak : Gap → Bool
  | blanks _ => false
  | breaks _ _ => true

/-- What two line breaks or more, or a single one, are folded to. -/
def fold (first later : Text) : Text :=
  if first = ['\n'] then if later.isEmpty then [' '] else later else first ++ later

/-- What the gap contributes to the content. -/
def text : Gap → Text
  | blanks t => t
  | breaks first later => fold first later

end Gap

/-- The characters with a meaning in flow collections. -/
def flowIndicators : List Char := ",[]\x7b\x7d".toList

/-- The characters with which no plain scalar begins. -/
def indicators : List Char := flowIndicators ++ "#&*!|>\x27\x22%@\x60".toList

/-- Tests whether a plain scalar begins here. -/
def startsPlain (flow : Bool) : Text → Bool
  | [] => false
  | c :: rest =>
    if c = '-' then !endsWord rest
    else if c = '?' ∨ c = ':' then !flow && !endsWord rest
    else !(isSpace c || isBreak c || indicators.contains c)

/-- Tests whether a plain scalar ends in front of the character `c`, which is followed by `rest`. -/
def endsPlain (flow : Bool) (indent column : Nat) (gap : Gap) (c : Char) (rest : Text) : Bool :=
  (c == '#' && gap != Gap.none)
    || (c == ':' && endsWord rest)
    || (flow && flowIndicators.contains c)
    || (gap.hasBreak && ((!flow && column < indent) || Cursor.atMarker ⟨column, true, c :: rest⟩))

/-- The rest of a plain scalar, and what follows it. Its further lines are indented by at least
`indent` columns. -/
def readPlain? (flow : Bool) (indent : Nat) (gap : Gap) (column : Nat) :
    Text → Option (Text × Cursor)
  | [] => some ([], ⟨column, gap.hasBreak, []⟩)
  | c :: rest =>
    if isBreak c then readPlain? flow indent (gap.addBreak c) 0 rest
    else if isSpace c then
      -- A tab cannot stand for the blanks that indent a line.
      if c = '\t' ∧ gap.hasBreak ∧ column < indent then none
      else readPlain? flow indent (gap.addBlank c) (column + 1) rest
    else if endsPlain flow indent column gap c rest then
      some ([], ⟨column, gap.hasBreak, c :: rest⟩)
    -- In a flow mapping, a colon next to an indicator is neither content nor a word of its own.
    else if flow && c == ':' && rest.head?.any ('?' :: flowIndicators).contains then none
    else
      (readPlain? flow indent Gap.none (column + 1) rest).map fun (content, after) =>
        (gap.text ++ c :: content, after)

/-- The character that an escape stands for, read behind its backslash, and what follows. -/
def readEscape? : Text → Option (Char × Text)
  | [] => none
  | kind :: rest =>
    match kind with
    | '0' => some ('\x00', rest)
    | 'a' => some ('\x07', rest)
    | 'b' => some ('\x08', rest)
    | 't' | '\t' => some ('\x09', rest)
    | 'n' => some ('\x0a', rest)
    | 'v' => some ('\x0b', rest)
    | 'f' => some ('\x0c', rest)
    | 'r' => some ('\x0d', rest)
    | 'e' => some ('\x1b', rest)
    | ' ' => some (' ', rest)
    | '\x22' => some ('\x22', rest)
    | '/' => some ('/', rest)
    | '\x5c' => some ('\x5c', rest)
    | 'N' => some ('\u0085', rest)
    | '_' => some ('\u00a0', rest)
    | 'L' => some ('\u2028', rest)
    | 'P' => some ('\u2029', rest)
    | 'x' => Text.readHex? 2 rest
    | 'u' => Text.readHex? 4 rest
    | 'U' => Text.readHex? 8 rest
    | _ => none

/-- What comes next in a quoted scalar, white space apart. -/
inductive Piece
  | close
  | char (c : Char)
  | escapedBreak
  deriving DecidableEq, Repr

/-- The quote of scalars with escapes. -/
def doubleQuote : Char := '\x22'

/-- The quote of scalars in which only the quote itself can be escaped, by writing it twice. -/
def singleQuote : Char := '\x27'

/-- The next piece of a quoted scalar, and the number of characters that it takes. -/
def nextPiece? (quote : Char) : Text → Option (Piece × Nat)
  | [] => none
  | c :: rest =>
    if c = quote then
      if quote = singleQuote ∧ rest.head? = some singleQuote then some (.char quote, 2)
      else some (.close, 1)
    else if c = '\x5c' ∧ quote = doubleQuote then
      if rest.head?.any isBreak then some (.escapedBreak, 2)
      else (readEscape? rest).map fun (escaped, after) =>
        (.char escaped, 1 + (rest.length - after.length))
    else some (.char c, 1)

/-- The rest of a quoted scalar, and what follows its closing quote. -/
def readQuoted? (quote : Char) (gap : Gap) (column : Nat) (t : Text) : Option (Text × Cursor) :=
  match t with
  | [] => none
  | c :: rest =>
    -- The lines that begin and end documents do so within quotes too.
    if Cursor.atMarker ⟨column, true, c :: rest⟩ then none
    else if isBreak c then readQuoted? quote (gap.addBreak c) 0 rest
    else if isSpace c then readQuoted? quote (gap.addBlank c) (column + 1) rest
    else
      match nextPiece? quote (c :: rest) with
      | none => none
      | some (.close, _) => some (gap.text, ⟨column + 1, false, rest⟩)
      | some (.char content, count) =>
        (readQuoted? quote Gap.none (column + count) (rest.drop (count - 1))).map
          fun (more, after) => (gap.text ++ content :: more, after)
      | some (.escapedBreak, count) =>
        (readQuoted? quote (.breaks [] []) 0 (rest.drop (count - 1))).map
          fun (more, after) => (gap.text ++ more, after)
termination_by t.length
decreasing_by all_goals simp only [List.length_cons, List.length_drop]; omega

/-- What becomes of the line breaks at the end of a block scalar: all are dropped, the first is
kept, or all are kept. -/
inductive Chomping
  | strip
  | clip
  | keep
  deriving DecidableEq, Repr

/-- The sign for a way of chomping, if a text begins with one, and what follows. -/
def takeChomping : Text → Option Chomping × Text
  | '-' :: rest => (some .strip, rest)
  | '+' :: rest => (some .keep, rest)
  | t => (none, t)

/-- The digit with which a text begins, if it does, and what follows. -/
def takeDigit : Text → Option Nat × Text
  | [] => (none, [])
  | c :: rest => if c.isDigit then (some (c.toNat - '0'.toNat), rest) else (none, c :: rest)

/-- The rest of the first line of a block scalar: the chomping and the indentation, in either order,
then the end of the line. -/
def readBlockHeader? (t : Text) : Option ((Chomping × Option Nat) × Text) :=
  let (first?, t) := takeChomping t
  let (indent?, t) := takeDigit t
  -- The sign stands on one side of the digit only.
  let (last?, t) := if first?.isSome then (none, t) else takeChomping t
  let t := t.dropWhile isSpace
  let t := if t.head? = some '#' then t.dropWhile (!isBreak ·) else t
  if indent? = some 0 ∨ !t.head?.all isBreak then none
  else some ((((first?.or last?).getD .clip), indent?), t.drop 1)

/-- The line breaks in front of the next line of a block scalar with content, the greatest column
reached, and the cursor there. Without `indent?` all blanks are passed over. -/
def skipIndent? (indent? : Option Nat) (breaks : Text) (widest column : Nat) :
    Text → Option (Text × Nat × Cursor)
  | [] => some (breaks, max widest column, ⟨column, true, []⟩)
  | c :: rest =>
    if isBreak c then skipIndent? indent? (breaks ++ [c]) (max widest column) 0 rest
    else if isSpace c && indent?.all (column < ·) then
      if c = '\t' then none else skipIndent? indent? breaks widest (column + 1) rest
    else some (breaks, max widest column, ⟨column, true, c :: rest⟩)

/-- Passing over breaks and the blanks in front of lines adds nothing to the text. -/
theorem length_le_of_skipIndent? {indent? : Option Nat} {breaks text : Text}
    {widest column width : Nat} {t : Text} {c : Cursor}
    (h : skipIndent? indent? breaks widest column t = some (text, width, c)) :
    c.rest.length ≤ t.length := by
  fun_induction skipIndent? indent? breaks widest column t <;> grind

/-- The lines of a block scalar that are indented by `indent` columns: their content, then the break
and the empty lines behind the last one, and what follows. `first` is the break in front of these
lines, `later` are the empty lines behind it, and `inset` tells whether the line before them begins
with white space. -/
def readBlockLines? (folded : Bool) (indent : Nat) (first later : Text) (inset : Bool)
    (c : Cursor) : Option (Text × (Text × Text) × Cursor) :=
  match _rest : c.rest with
  | [] => some ([], (first, later), c)
  | head :: tail =>
    if c.column ≠ indent then some ([], (first, later), c)
    else
      let line := head :: tail.takeWhile (!isBreak ·)
      let after := tail.dropWhile (!isBreak ·)
      -- Nothing is folded next to a line that begins with white space.
      let joint :=
        if folded && !inset && !isSpace head then Gap.fold first later else first ++ later
      match _next : skipIndent? (some indent) [] 0 0 (after.drop 1) with
      | none => none
      | some (breaks, _, next) =>
        (readBlockLines? folded indent (after.take 1) breaks (isSpace head) next).map
          fun (content, rest) => (joint ++ line ++ content, rest)
termination_by c.rest.length
decreasing_by
  have bound := length_le_of_skipIndent? _next
  have : after.length ≤ tail.length := (List.dropWhile_sublist _).length_le
  rw [List.length_drop] at bound
  rw [_rest, List.length_cons]
  omega

/-- A block scalar behind its indicator, and what follows it. Its lines are indented deeper than the
column `parent`. -/
def readBlock? (folded : Bool) (parent : Nat) (t : Text) : Option (Text × Cursor) := do
  let ((chomping, digit?), t) ← readBlockHeader? t
  let indent? := digit?.map (parent + ·)
  let (breaks, widest, c) ← skipIndent? indent? [] 0 0 t
  -- Without a digit the first line with content sets the indentation, or the widest empty one.
  let indent := indent?.getD (max widest (parent + 1))
  let (content, (first, later), after) ← readBlockLines? folded indent [] breaks false c
  let tail := match chomping with
    | .strip => []
    | .clip => first
    | .keep => first ++ later
  return (content ++ tail, after)

end Yaml

end ImportCensus
