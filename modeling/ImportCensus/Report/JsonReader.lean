import ImportCensus.Report.Json
import ImportCensus.Text.Hex

/-!
# `ImportCensus.Report.JsonReader`: reading arrays of objects

The reader accepts the JSON texts whose value is an array of objects with string members. White
space between tokens is skipped, members keep their order and their number, and strings may hold
every escape of the format. Escaped surrogates are refused, also in pairs.
-/

set_option autoImplicit false

namespace ImportCensus

namespace Json

/-- Tests for the white space between tokens. -/
def isSpace (c : Char) : Bool := c == ' ' || c == '\t' || c == '\n' || c == '\r'

/-- What follows a token that consists of one character, if the text goes on with it. -/
def afterToken? (token : Char) (t : Text) : Option Text :=
  match t.dropWhile isSpace with
  | [] => none
  | c :: rest => if c = token then some rest else none

/-- The character that an escape stands for, read behind its backslash, and what follows. -/
def readEscape? : Text → Option (Char × Text)
  | [] => none
  | kind :: rest =>
    match kind with
    | '\x22' => some ('\x22', rest)
    | '\x5c' => some ('\x5c', rest)
    | '/' => some ('/', rest)
    | 'b' => some ('\x08', rest)
    | 'f' => some ('\x0c', rest)
    | 'n' => some ('\x0a', rest)
    | 'r' => some ('\x0d', rest)
    | 't' => some ('\x09', rest)
    | 'u' => Text.readHex? 4 rest
    | _ => none

/-- The rest of a string behind its opening quote, and what follows its closing quote. -/
def readString? (t : Text) : Option (Text × Text) :=
  match t with
  | [] => none
  | c :: rest =>
    if c = '\x22' then some ([], rest)
    else if c = '\x5c' then
      match readEscape? rest with
      | none => none
      | some (escaped, after) =>
        if after.length < rest.length then
          (readString? after).map fun (content, after) => (escaped :: content, after)
        else none
    else if c.toNat < 0x20 then none
    else (readString? rest).map fun (content, after) => (c :: content, after)
termination_by t.length

/-- A member of an object, and what follows it. -/
def readMember? (t : Text) : Option ((Text × Text) × Text) := do
  let (key, t) ← readString? (← afterToken? '\x22' t)
  let t ← afterToken? ':' t
  let (value, t) ← readString? (← afterToken? '\x22' t)
  return ((key, value), t)

/-- Items that are separated by commas, up to the closing token, and what follows that. -/
def readItems? {α : Type} (readItem? : Text → Option (α × Text)) (closing : Char) (t : Text) :
    Option (List α × Text) :=
  match readItem? t with
  | none => none
  | some (item, rest) =>
    match afterToken? closing rest with
    | some after => some ([item], after)
    | none =>
      match afterToken? ',' rest with
      | none => none
      | some next =>
        if next.length < t.length then
          (readItems? readItem? closing next).map fun (items, after) => (item :: items, after)
        else none
termination_by t.length

/-- A sequence in brackets, which may be empty, and what follows it. -/
def readBracketed? {α : Type} (readItem? : Text → Option (α × Text)) (opening closing : Char)
    (t : Text) : Option (List α × Text) := do
  let t ← afterToken? opening t
  match afterToken? closing t with
  | some after => return ([], after)
  | none => readItems? readItem? closing t

/-- The objects of an array. Nothing but white space may follow it. -/
def decode? (t : Text) : Option (List (List (Text × Text))) := do
  let (objects, rest) ← readBracketed? (readBracketed? readMember? '\x7b' '\x7d') '[' ']' t
  if rest.all isSpace then some objects else none

end Json

end ImportCensus
