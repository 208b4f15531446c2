import ImportCensus.Text.Basic

/-!
# `ImportCensus.Text.Line`: lines and their endings

A line ends with LF, CRLF or a lone CR. `Text.lines` gives the lines of a text without their
endings; a final ending opens no further line, so the empty text is the only one without lines.

`TerminatedLine` keeps a line together with its ending, and `TerminatedLine.concat` writes such
lines back into one text.
-/

set_option autoImplicit false

namespace ImportCensus

/-- What ends a line. -/
inductive LineEnding
  | lf
  | crlf
  | cr
  deriving DecidableEq, Repr

/-- The characters of an ending. -/
def LineEnding.text : LineEnding → Text
  | .lf => ['\n']
  | .crlf => ['\r', '\n']
  | .cr => ['\r']

namespace Text

/-- Tests for a character that ends a line. -/
def isLineBreak (c : Char) : Bool := c == '\n' || c == '\r'

/-- The lines of a text, without their endings. -/
def lines : Text → List Text
  | [] => []
  | '\n' :: rest => [] :: lines rest
  | '\r' :: '\n' :: rest => [] :: lines rest
  | '\r' :: rest => [] :: lines rest
  | c :: rest =>
    match lines rest with
    | [] => [[c]]
    | line :: more => (c :: line) :: more

end Text

/-- A line with the ending that follows it. Only the last line of a text may have none. -/
structure TerminatedLine where
  content : Text
  ending : Option LineEnding
  deriving DecidableEq, Repr

/-- The characters of a line and its ending. -/
def TerminatedLine.text (line : TerminatedLine) : Text :=
  line.content ++ (line.ending.map LineEnding.text).getD []

/-- The text that consists of the given lines with their endings. -/
def TerminatedLine.concat (lines : List TerminatedLine) : Text := lines.flatMap TerminatedLine.text

end ImportCensus
