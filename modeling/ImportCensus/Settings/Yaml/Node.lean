import ImportCensus.Settings.Yaml.Scalar

/-!
# `ImportCensus.Settings.Yaml.Node`: scalars with tags, anchors and aliases

Settings are scalars under keys that are scalars too. So the nodes that can be part of a valid file
are scalars and the aliases of scalars; wherever a mapping or a sequence stands in the place of one,
reading fails.

A node may have properties in front of it: a tag that says what it stands for, and an anchor under
which aliases further down refer to it. A node may also be absent, and then stands for an empty
plain scalar.
-/

set_option autoImplicit false

namespace ImportCensus

namespace Yaml

/-- What a node is declared to stand for: something that the format defines, or something that the
application does. -/
inductive Tag
  | core (name : Text)
  | own (name : Text)
  deriving DecidableEq, Repr

/-- A scalar: its content, the style in which it is written, and its tag. -/
structure Scalar where
  content : Text
  style : Style
  tag : Option Tag
  deriving DecidableEq, Repr

/-- The scalars with an anchor, the last one first. -/
abbrev Anchors := List (Text × Scalar)

/-- The properties of a node. -/
structure Properties where
  anchor : Option Text := none
  tag : Option Tag := none
  deriving DecidableEq, Repr

/-- Tests for a character of an anchor's name. -/
def isNameChar (c : Char) : Bool := c.isAlphanum || c == '_' || c == '-'

/-- Tests for a character of a tag. -/
def isTagChar (c : Char) : Bool := isNameChar c || ";/?:@&=+$.~*\x27()!".toList.contains c

/-- The name behind the indicator of an anchor or an alias, and what follows. -/
def readName? (c : Cursor) : Option (Text × Cursor) :=
  let name := (c.rest.drop 1).takeWhile isNameChar
  let after := c.advance (1 + name.length)
  let ended := endsWord after.rest || after.rest.head?.any "?:,]\x7d%@\x60".toList.contains
  if name.isEmpty ∨ !ended then none else some (name, after)

/-- A tag, and what follows. -/
def readTag? (flow : Bool) (c : Cursor) : Option (Tag × Cursor) :=
  let ended (after : Cursor) : Bool := endsWord after.rest || (flow && after.atChar ',')
  match c.rest with
  | '!' :: '!' :: rest =>
    let name := rest.takeWhile isTagChar
    let after := c.advance (2 + name.length)
    if name.isEmpty ∨ !ended after then none else some (.core name, after)
  | '!' :: rest =>
    let name := rest.takeWhile isTagChar
    let after := c.advance (1 + name.length)
    if (rest.dropWhile isNameChar).head? = some '!' ∨ !ended after then none
    else some (.own name, after)
  | _ => none

/-- One more property, if there is one, and the next token. No property is given twice. -/
def readProperty? (flow : Bool) (properties : Properties) (c : Cursor) :
    Option (Properties × Cursor) :=
  if c.atChar '&' ∧ properties.anchor.isNone then
    (readName? c).map fun (name, after) =>
      ({ properties with anchor := some name }, skip flow after)
  else if c.atChar '!' ∧ properties.tag.isNone then
    (readTag? flow c).map fun (tag, after) =>
      ({ properties with tag := some tag }, skip flow after)
  else some (properties, c)

/-- Tests whether no node is at the cursor. In a block, nodes are indented deeper than the column
`parent`; only block scalars may begin in that column. -/
def isAbsent (flow : Bool) (parent : Nat) (c : Cursor) : Bool :=
  c.atEnd || c.atMarker ||
    if flow then c.atChar ',' || c.atChar '\x7d'
    else c.column < parent || (c.column == parent && !c.atChar '|' && !c.atChar '>')

/-- The content and the style of a scalar, and what follows. -/
def readScalar? (flow : Bool) (parent : Nat) (c : Cursor) : Option ((Text × Style) × Cursor) :=
  let styled (style : Style) (read : Option (Text × Cursor)) : Option ((Text × Style) × Cursor) :=
    read.map fun (content, after) => ((content, style), after)
  match c.rest with
  | [] => none
  | head :: rest =>
    if c.atMarker then none
    else if head = doubleQuote ∨ head = singleQuote then
      styled .quoted (readQuoted? head Gap.none (c.column + 1) rest)
    else if head = '|' ∧ !flow then styled .literal (readBlock? false parent rest)
    else if head = '>' ∧ !flow then styled .folded (readBlock? true parent rest)
    else if startsPlain flow c.rest then
      styled .plain (readPlain? flow (if flow then 0 else parent + 1) Gap.none c.column c.rest)
    else none

/-- The node at the cursor, the anchors from here on, and what follows. Behind properties the scalar
may be absent. -/
def readNode? (flow : Bool) (parent : Nat) (anchors : Anchors) (c : Cursor) :
    Option (Scalar × Anchors × Cursor) :=
  -- An alias has no properties of its own.
  if c.atChar '*' then do
    let (name, after) ← readName? c
    let scalar ← anchors.lookup name
    return (scalar, anchors, after)
  else do
    let (properties, c) ← readProperty? flow {} c
    let (properties, c) ← readProperty? flow properties c
    let ((content, style), after) ←
      if properties ≠ {} ∧ isAbsent flow parent c then some (([], Style.plain), c)
      else readScalar? flow parent c
    let scalar : Scalar := ⟨content, style, properties.tag⟩
    return (scalar, (properties.anchor.map (·, scalar)).toList ++ anchors, after)

/-- The scalar that stands for an absent node. -/
def Scalar.absent : Scalar := ⟨[], .plain, none⟩

/-- The node at the next token, or the absent one if there is none. -/
def readValue? (flow : Bool) (parent : Nat) (anchors : Anchors) (c : Cursor) :
    Option (Scalar × Anchors × Cursor) :=
  let c := skip flow c
  if isAbsent flow parent c then some (.absent, anchors, c) else readNode? flow parent anchors c

end Yaml

end ImportCensus
