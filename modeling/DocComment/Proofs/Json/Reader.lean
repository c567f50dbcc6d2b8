import DocComment.Json

/-!
# Reading JSON

A text is cut into tokens (`JsonValue.tokensFrom`), and a machine with a stack of the
lists and objects that are still open reads the tokens (`JsonState.step`). All of JSON
is read but numbers, of which no value is made here.

Characters of a string may be escaped, also those that need no escape, and then each
unit of a pair on its own. The units of the whole string become characters at its end
(`JsonValue.charsOfUnits?`), so that two escapes can be one character.
-/

namespace DocComment

open Text

namespace JsonValue

/-! ## Strings -/

/-- The value of a hexadecimal digit, in upper or lower case. -/
def hexValue? (c : Char) : Option Nat :=
  let n := c.toNat
  if 0x30 ≤ n ∧ n ≤ 0x39 then some (n - 0x30)
  else if 0x41 ≤ n ∧ n ≤ 0x46 then some (n - 0x37)
  else if 0x61 ≤ n ∧ n ≤ 0x66 then some (n - 0x57)
  else none

/-- The unit that four digits write. -/
def unit? (a b c d : Char) : Option Nat := do
  return 0x1000 * (← hexValue? a) + 0x100 * (← hexValue? b) + 0x10 * (← hexValue? c) + (← hexValue? d)

/-- What a character behind a backslash stands for, other than a unit. -/
def escaped? : Char → Option Char
  | '"' => some '"'
  | '\\' => some '\\'
  | '/' => some '/'
  | 'b' => some '\x08'
  | 'f' => some '\x0c'
  | 'n' => some '\n'
  | 'r' => some '\r'
  | 't' => some '\t'
  | _ => none

/-- The character of a number, unless no character has it. -/
def char? (n : Nat) : Option Char :=
  if n.isValidChar then some (Char.ofNat n) else none

/-- The characters of some UTF-16 units, perhaps behind the first unit of a pair. -/
def charsOfUnits? : Option Nat → List Nat → Option (List Char)
  | none, [] => some []
  | some _, [] => none
  | none, unit :: units =>
    if 0xd800 ≤ unit ∧ unit < 0xdc00 then charsOfUnits? (some unit) units
    else (char? unit).bind fun c => (charsOfUnits? none units).map (c :: ·)
  | some high, low :: units =>
    if 0xdc00 ≤ low ∧ low < 0xe000 then
      (char? (0x10000 + 0x400 * (high - 0xd800) + (low - 0xdc00))).bind fun c =>
        (charsOfUnits? none units).map (c :: ·)
    else none

end JsonValue

/-! ## Tokens -/

inductive JsonToken where
  | null
  | bool (flag : Bool)
  | text (chars : List Char)
  | openList
  | closeList
  | openObject
  | closeObject
  | comma
  | colon

namespace JsonToken

def ofSign? : Char → Option JsonToken
  | '[' => some openList
  | ']' => some closeList
  | '{' => some openObject
  | '}' => some closeObject
  | ',' => some comma
  | ':' => some colon
  | _ => none

end JsonToken

namespace JsonValue

/-- Where the next character stands. -/
inductive Place where
  | outside
  /-- In a string, behind some units. -/
  | inText (units : List Nat)

def isSpace (c : Char) : Bool :=
  c == ' ' || c == '\n' || c == '\r' || c == '\t'

def tokensFrom : Place → List Char → Option (List JsonToken)
  | .outside, [] => some []
  | .outside, 'n' :: 'u' :: 'l' :: 'l' :: cs => (tokensFrom .outside cs).map (.null :: ·)
  | .outside, 't' :: 'r' :: 'u' :: 'e' :: cs => (tokensFrom .outside cs).map (.bool true :: ·)
  | .outside, 'f' :: 'a' :: 'l' :: 's' :: 'e' :: cs =>
    (tokensFrom .outside cs).map (.bool false :: ·)
  | .outside, '"' :: cs => tokensFrom (.inText []) cs
  | .outside, c :: cs =>
    if isSpace c then tokensFrom .outside cs
    else (JsonToken.ofSign? c).bind fun token => (tokensFrom .outside cs).map (token :: ·)
  | .inText _, [] => none
  | .inText units, '"' :: cs =>
    (charsOfUnits? none units).bind fun chars => (tokensFrom .outside cs).map (.text chars :: ·)
  | .inText units, '\\' :: 'u' :: a :: b :: c :: d :: cs =>
    (unit? a b c d).bind fun unit => tokensFrom (.inText (units ++ [unit])) cs
  | .inText units, '\\' :: c :: cs =>
    (escaped? c).bind fun escaped => tokensFrom (.inText (units ++ JsonValue.units escaped)) cs
  -- control characters have to be escaped
  | .inText units, c :: cs =>
    if c < ' ' then none else tokensFrom (.inText (units ++ JsonValue.units c)) cs

end JsonValue

/-! ## Values -/

/-- A list or an object that is open, and what it holds in front of the value that is
read. -/
inductive JsonFrame where
  | list (items : List JsonValue)
  /-- The key is that of the value that is read. -/
  | object (fields : List (List Char × JsonValue)) (key : List Char)

/-- What the next token may be, and the frames that are open, the innermost first. -/
inductive JsonState where
  | valueWanted (frames : List JsonFrame)
  | listOpened (frames : List JsonFrame)
  | objectOpened (frames : List JsonFrame)
  | keyWanted (fields : List (List Char × JsonValue)) (frames : List JsonFrame)
  | colonWanted (fields : List (List Char × JsonValue)) (key : List Char)
    (frames : List JsonFrame)
  /-- A value has been read. -/
  | behind (value : JsonValue) (frames : List JsonFrame)

namespace JsonState

/-- The state behind the first token of a value. -/
def begin? (frames : List JsonFrame) : JsonToken → Option JsonState
  | .null => some (behind .null frames)
  | .bool flag => some (behind (.bool flag) frames)
  | .text chars => some (behind (.text chars) frames)
  | .openList => some (listOpened frames)
  | .openObject => some (objectOpened frames)
  | _ => none

def step : JsonState → JsonToken → Option JsonState
  | valueWanted frames, token => begin? frames token
  | listOpened frames, .closeList => some (behind (.list []) frames)
  | listOpened frames, token => begin? (.list [] :: frames) token
  | objectOpened frames, .closeObject => some (behind (.object []) frames)
  | objectOpened frames, .text key => some (colonWanted [] key frames)
  | keyWanted fields frames, .text key => some (colonWanted fields key frames)
  | colonWanted fields key frames, .colon => some (valueWanted (.object fields key :: frames))
  | behind value (.list items :: frames), .comma =>
    some (valueWanted (.list (items ++ [value]) :: frames))
  | behind value (.list items :: frames), .closeList =>
    some (behind (.list (items ++ [value])) frames)
  | behind value (.object fields key :: frames), .comma =>
    some (keyWanted (fields ++ [(key, value)]) frames)
  | behind value (.object fields key :: frames), .closeObject =>
    some (behind (.object (fields ++ [(key, value)])) frames)
  | _, _ => none

def run (state : JsonState) : List JsonToken → Option JsonState
  | [] => some state
  | token :: tokens => (state.step token).bind (run · tokens)

/-- The value that has been read, if nothing is open any more. -/
def value? : JsonState → Option JsonValue
  | behind value [] => some value
  | _ => none

end JsonState

/-- The value that a JSON text writes. -/
def JsonValue.decode (cs : List Char) : Option JsonValue := do
  let tokens ← tokensFrom .outside cs
  let state ← (JsonState.valueWanted []).run tokens
  state.value?

end DocComment
