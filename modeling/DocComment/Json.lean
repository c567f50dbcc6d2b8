import DocComment.Record
import DocComment.Text.Quoted

/-!
# Records as JSON

A record is written as JSON with two spaces of indentation for each level, the
keys of an object in alphabetical order and nothing but printable ASCII in
strings: every other character is escaped by its UTF-16 units.
-/

namespace DocComment

open Text

/-- A JSON value, as far as records need it. -/
inductive JsonValue where
  | null
  | bool (flag : Bool)
  | text (chars : List Char)
  | list (items : List JsonValue)
  | object (fields : List (List Char × JsonValue))

namespace JsonValue

/-! ## Strings -/

/-- The UTF-16 units of a character. -/
def units (c : Char) : List Nat :=
  let n := c.toNat
  if n < 0x10000 then [n] else [0xd800 + (n - 0x10000) / 0x400, 0xdc00 + (n - 0x10000) % 0x400]

/-- One character inside a string. -/
def escapeChar (c : Char) : List Char :=
  if c = '"' || c = '\\' then ['\\', c]
  else if ' ' ≤ c && c ≤ '~' then [c]
  else if c = '\n' then ['\\', 'n']
  else if c = '\r' then ['\\', 'r']
  else if c = '\t' then ['\\', 't']
  else if c = '\x08' then ['\\', 'b']
  else if c = '\x0c' then ['\\', 'f']
  else (units c).flatMap fun unit => '\\' :: 'u' :: hexDigits 4 unit

/-- A string between its quotes. -/
def quotedText (cs : List Char) : List Char :=
  '"' :: cs.flatMap escapeChar ++ ['"']

/-! ## Layout -/

/-- A line feed and the indentation of a level. -/
def newLine (level : Nat) : List Char :=
  '\n' :: List.replicate (2 * level) ' '

/-- Items on lines of their own, between an opening and a closing sign. -/
def block (opening closing : Char) (level : Nat) : List (List Char) → List Char
  | [] => [opening, closing]
  | item :: items =>
    opening :: newLine (level + 1) ++ item ++
      items.flatMap (fun next => ',' :: newLine (level + 1) ++ next) ++ newLine level ++ [closing]

mutual

/-- A value at a level of indentation. -/
def write (level : Nat) : JsonValue → List Char
  | null => ['n', 'u', 'l', 'l']
  | bool true => ['t', 'r', 'u', 'e']
  | bool false => ['f', 'a', 'l', 's', 'e']
  | text chars => quotedText chars
  | list items => block '[' ']' level (writeItems (level + 1) items)
  | object fields => block '{' '}' level (writeFields (level + 1) fields)

def writeItems (level : Nat) : List JsonValue → List (List Char)
  | [] => []
  | item :: items => write level item :: writeItems level items

def writeFields (level : Nat) : List (List Char × JsonValue) → List (List Char)
  | [] => []
  | (key, value) :: fields =>
    (quotedText key ++ ':' :: ' ' :: write level value) :: writeFields level fields

end

/-! ## Records -/

def ofString (s : String) : JsonValue :=
  text s.toList

def ofOption : Option String → JsonValue
  | none => null
  | some s => ofString s

def field (key : String) (value : JsonValue) : List Char × JsonValue :=
  (key.toList, value)

mutual

def ofShape : Shape → JsonValue
  | .absent => null
  | .bare name => object [field "name" (ofString name)]
  | .composite name members =>
    object [field "elements" (list (ofShapes members)), field "name" (ofString name)]

def ofShapes : List Shape → List JsonValue
  | [] => []
  | shape :: shapes => ofShape shape :: ofShapes shapes

end

def ofParam (param : Param) : JsonValue :=
  object
    [field "description" (ofOption param.description), field "name" (ofString param.name),
      field "optional" (bool param.optional), field "type" (ofShape param.type)]

def ofReturns (returns : Returns) : JsonValue :=
  object
    [field "description" (ofOption returns.description), field "type" (ofShape returns.type)]

def ofRecord (record : Record) : JsonValue :=
  object
    [field "description" (ofOption record.description),
      field "params" (list (record.params.map ofParam)),
      field "returns" ((record.returns.map ofReturns).getD null)]

end JsonValue

/-- The JSON text of a record, as characters. -/
def Record.jsonChars (record : Record) : List Char :=
  (JsonValue.ofRecord record).write 0

end DocComment
