import ImportCensus.Settings.Yaml.Node

/-!
# `ImportCensus.Settings.Yaml.Document`: documents of YAML

A settings file holds one document, and the document is a mapping of scalars to scalars: a block of
entries that all begin in the same column, or a flow mapping in braces. A document may be empty.

A key and the colon behind it stand on one line, within the first 1024 characters, unless the key is
introduced by a question mark.
-/

set_option autoImplicit false

namespace ImportCensus

namespace Yaml

/-- An entry of a mapping. -/
abbrev Entry := Scalar × Scalar

/-- The greatest number of characters from the beginning of a key to its colon. -/
def keyLimit : Nat := 1024

/-- Tests whether a key may reach from one cursor to another one. -/
def isKeySpan (first last : Cursor) : Bool :=
  let passed := first.rest.take (first.rest.length - last.rest.length)
  passed.length ≤ keyLimit && !passed.any isBreak

/-- Tests for the colon between key and value. In a block it is a word of its own. -/
def atColon (flow : Bool) (c : Cursor) : Bool := if flow then c.atChar ':' else c.atWord ':'

/-- Tests for the sign in front of a key that may take more than one line. -/
def atQuestion (flow : Bool) (c : Cursor) : Bool := if flow then c.atChar '?' else c.atWord '?'

/-- An entry whose key is introduced by a question mark, and the next token. -/
def readExplicitEntry? (flow : Bool) (parent : Nat) (anchors : Anchors) (c : Cursor) :
    Option (Entry × Anchors × Cursor) := do
  let (key, anchors, after) ← readValue? flow parent anchors (c.advance 1).refresh
  let c := skip flow after
  -- In a block, the colon of an explicit key begins a line of its own below the question mark.
  if atColon flow c && (flow || (c.column == parent && c.fresh)) then
    let (value, anchors, after) ← readValue? flow parent anchors (c.advance 1).refresh
    return ((key, value), anchors, skip flow after)
  else return ((key, .absent), anchors, c)

/-- A key on one line with the colon behind it, and what follows the colon. -/
def readKey? (flow : Bool) (parent : Nat) (anchors : Anchors) (c : Cursor) :
    Option (Scalar × Anchors × Cursor) := do
  let (key, anchors, after) ← readNode? flow parent anchors c
  let colon := skip flow after
  if atColon flow colon && isKeySpan c colon then some (key, anchors, colon.advance 1) else none

/-- An entry, and the next token. In a flow mapping the colon and the value may be left out. -/
def readEntry? (flow : Bool) (parent : Nat) (anchors : Anchors) (c : Cursor) :
    Option (Entry × Anchors × Cursor) :=
  if atQuestion flow c then readExplicitEntry? flow parent anchors c
  else
    match readKey? flow parent anchors c with
    | some (key, anchors, after) => do
      let (value, anchors, after) ← readValue? flow parent anchors after
      return ((key, value), anchors, skip flow after)
    | none =>
      if flow then do
        let (key, anchors, after) ← readNode? flow parent anchors c
        return ((key, .absent), anchors, skip flow after)
      else none

/-- The entries of a block that begin in the column `parent`, and the end of the document. -/
def readBlockEntries? (parent : Nat) (anchors : Anchors) (c : Cursor) :
    Option (List Entry × Cursor) :=
  if c.atEnd || c.atMarker then some ([], c)
  -- What begins further to the left would end the block, but nothing stands around it.
  else if c.column ≠ parent ∨ !c.fresh then none
  else
    match readEntry? false parent anchors c with
    | none => none
    | some (entry, anchors, next) =>
      if next.rest.length < c.rest.length then
        (readBlockEntries? parent anchors next).map fun (entries, after) =>
          (entry :: entries, after)
      else none
termination_by c.rest.length

/-- The rest of a flow mapping behind its opening brace or a comma, and what follows it. -/
def readFlowEntries? (anchors : Anchors) (c : Cursor) : Option (List Entry × Cursor) :=
  if c.atChar '\x7d' then some ([], c.advance 1)
  else
    match readEntry? true 0 anchors c with
    | none => none
    | some (entry, anchors, stop) =>
      if stop.atChar '\x7d' then some ([entry], stop.advance 1)
      else if stop.atChar ',' then
        let next := skip true (stop.advance 1)
        if next.rest.length < c.rest.length then
          (readFlowEntries? anchors next).map fun (entries, after) => (entry :: entries, after)
        else none
      else none
termination_by c.rest.length

/-- The mapping at the cursor, and what follows it. -/
def readMapping? (c : Cursor) : Option (List Entry × Cursor) :=
  if c.atChar '\x7b' then
    (readFlowEntries? [] (skip true (c.advance 1))).map fun (entries, after) =>
      (entries, skip false after)
  else if c.fresh then readBlockEntries? c.column [] c
  else none

/-- The mapping at the cursor, with the properties that stand in front of it, or the empty mapping
if there is nothing else in the document. -/
def readRoot? (c : Cursor) : Option (List Entry × Cursor) :=
  if c.atEnd || c.atMarker then some ([], c)
  else
    -- Properties on a line of their own belong to the mapping, others to its first key.
    readMapping? c <|> do
      let (properties, c) ← readProperty? false {} c
      readMapping? c <|> do
        let (_, c) ← readProperty? false properties c
        if c.atEnd || c.atMarker then some ([], c) else readMapping? c

/-- Tests whether nothing but ends of the document follows. -/
def isFinished (c : Cursor) : Bool :=
  if c.atEnd then true
  else if c.atDocumentEnd then
    if (skip false (c.advance 3)).rest.length < c.rest.length then
      isFinished (skip false (c.advance 3))
    else false
  else false
termination_by c.rest.length

/-- What follows the line that names the version of the format. -/
def afterVersion? (c : Cursor) : Option Cursor := do
  let t ← "%YAML".toList.isPrefixOf? c.rest
  let version := t.dropWhile isSpace
  let rest ← "1.1".toList.isPrefixOf? version <|> "1.2".toList.isPrefixOf? version
  let rest := rest.dropWhile isSpace
  let rest := if rest.head? = some '#' then rest.dropWhile (!isBreak ·) else rest
  if version.length < t.length ∧ rest.head?.all isBreak then some (skip false ⟨1, true, rest⟩)
  else none

/-- The root of the document at the cursor. -/
def readBody? (c : Cursor) : Option (List Entry × Cursor) :=
  if c.atDocumentStart then readRoot? (skip false (c.advance 3))
  else if c.atChar '%' ∧ c.column = 0 then do
    let c ← afterVersion? c
    -- Behind a directive the document has to be opened.
    if c.atDocumentStart then readRoot? (skip false (c.advance 3)) else none
  else if c.atDocumentEnd then none
  else readRoot? c

/-- Tests for a character that may stand in a document. -/
def isAllowed (c : Char) : Bool :=
  c == '\t' || c == '\n' || c == '\r' || c == '\u0085' || (' ' ≤ c && c ≤ '~') ||
    ('\u00a0' ≤ c && c ≤ '\ufffd') || '\uffff' < c

/-- The entries of a document. A byte order mark may stand in front of it. Like every other mark at
the beginning of a line, it takes up a column. -/
def read? (document : Text) : Option (List Entry) := do
  if document.all isAllowed then
    let (entries, c) ← readBody? (skip false (Cursor.start (unifyBreaks document)))
    if isFinished c then some entries else none
  else none

end Yaml

end ImportCensus
