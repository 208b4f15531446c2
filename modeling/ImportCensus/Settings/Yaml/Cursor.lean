import ImportCensus.Text.Basic

/-!
# `ImportCensus.Settings.Yaml.Cursor`: where a reader of YAML stands

In YAML the column counts in which something begins, and a key of a block can only stand where its
line begins. So the readers hand on a cursor: the rest of the text, the column of its first
character, and whether a key may begin there.

The readers see LF as the only line break that they turn into something else. CR, CRLF and U+0085
are replaced by LF beforehand. U+2028 and U+2029 break lines too, but keep their identity.
-/

set_option autoImplicit false

namespace ImportCensus

namespace Yaml

/-- The text with LF in place of CR, CRLF and U+0085. -/
def unifyBreaks : Text → Text
  | [] => []
  | '\r' :: '\n' :: rest => '\n' :: unifyBreaks rest
  | c :: rest => (if c = '\r' ∨ c = '\u0085' then '\n' else c) :: unifyBreaks rest

/-- Tests for white space within a line. -/
def isSpace (c : Char) : Bool := c == ' ' || c == '\t'

/-- Tests for a line break. -/
def isBreak (c : Char) : Bool := c == '\n' || c == '\u2028' || c == '\u2029'

/-- Tests whether a text begins with white space or a line break, or is at its end. -/
def endsWord (t : Text) : Bool := t.head?.all fun c => isSpace c || isBreak c

/-- Tests whether a text begins with a word that consists of three times the same character. -/
def startsWithMarker (mark : Char) (t : Text) : Bool :=
  t.take 3 == [mark, mark, mark] && endsWord (t.drop 3)

/-- Where a reader stands. -/
structure Cursor where
  column : Nat
  /-- Whether a key may begin here. -/
  fresh : Bool
  rest : Text
  deriving DecidableEq, Repr

namespace Cursor

/-- The cursor at the beginning of a text. -/
def start (t : Text) : Cursor := ⟨0, true, t⟩

/-- The cursor some characters further on the same line. -/
def advance (c : Cursor) (count : Nat) : Cursor := ⟨c.column + count, false, c.rest.drop count⟩

/-- The cursor as one at which a key may begin. -/
def refresh (c : Cursor) : Cursor := { c with fresh := true }

/-- Tests for the end of the text. -/
def atEnd (c : Cursor) : Bool := c.rest.isEmpty

/-- Tests for the line that begins a document. -/
def atDocumentStart (c : Cursor) : Bool := c.column == 0 && startsWithMarker '-' c.rest

/-- Tests for the line that ends a document. -/
def atDocumentEnd (c : Cursor) : Bool := c.column == 0 && startsWithMarker '.' c.rest

/-- Tests for a line that begins or ends a document. -/
def atMarker (c : Cursor) : Bool := c.atDocumentStart || c.atDocumentEnd

/-- Tests for a character. -/
def atChar (c : Cursor) (x : Char) : Bool := c.rest.head? == some x

/-- Tests for a character that is a word of its own. -/
def atWord (c : Cursor) (x : Char) : Bool := c.atChar x && endsWord (c.rest.drop 1)

end Cursor

/-- The cursor behind white space, line breaks and comments. Within a block, a tab counts as white
space only behind something else on its line. A byte order mark may begin a line. -/
def skipFrom (flow comment fresh : Bool) (column : Nat) : Text → Cursor
  | [] => ⟨column, fresh, []⟩
  | c :: rest =>
    if isBreak c then skipFrom flow false true 0 rest
    else if comment || c == ' ' || (c == '\t' && (flow || !fresh)) then
      skipFrom flow comment fresh (column + 1) rest
    else if c == '#' then skipFrom flow true fresh (column + 1) rest
    else if c == '\ufeff' && column == 0 then skipFrom flow comment fresh (column + 1) rest
    else ⟨column, fresh, c :: rest⟩

/-- The cursor at the next token. -/
def skip (flow : Bool) (c : Cursor) : Cursor := skipFrom flow false c.fresh c.column c.rest

end Yaml

end ImportCensus
