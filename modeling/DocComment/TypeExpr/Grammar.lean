import DocComment.TypeExpr.Basic
import DocComment.TypeExpr.Reading

/-!
# Grammar

The grammar of type expressions has four layers. Primaries are names, literals
and everything between brackets; suffix operators bind to them; prefix operators
come next; unions and arrows are the loosest.

The readings at one place depend on readings at later places only, so a table
with one row for each place is filled from the end of the text. Of the ways that
span the same tokens each layer keeps the one that its first alternative gives.
-/

namespace DocComment

/-- The readings at one place that rules at earlier places ask for. -/
structure Row where
  prefixed : Reading TypeExpr
  type : Reading TypeExpr
  types : Reading (List TypeExpr)
  moreTypes : Reading (List TypeExpr)
  fields : Reading (List Field)
  moreFields : Reading (List Field)

instance : Inhabited Row := ⟨⟨.none, .none, .none, .none, .none, .none⟩⟩

namespace Grammar

open Rule

/-! ## Lists

A list is its first item with the items behind the first comma, or the first
item alone. The items behind a comma are rather one long item than several. -/

/-- An item, a comma and further items. -/
def itemAndMore {α : Type} (item : Rule α) (more : Rule (List α)) : Rule (List α) := do
  let first ← item
  let _ ← terminal .comma
  let others ← more
  return first :: others

def oneItem {α : Type} (item : Rule α) : Rule (List α) := do
  let only ← item
  return [only]

/-- One or more items with commas between them. -/
def listOf {α : Type} (item : Rule α) (more : Rule (List α)) : Rule (List α) :=
  firstOf [itemAndMore item more, oneItem item]

/-- The items behind the first comma of a list. -/
def moreOf {α : Type} (item : Rule α) (more : Rule (List α)) : Rule (List α) :=
  firstOf [oneItem item, itemAndMore item more]

/-- A list that may be left out. -/
def optionalList {α : Type} (items : Rule (List α)) : Rule (List α) :=
  firstOf [items, pure []]

section

variable (row : List Token → Row)

/-- A type, read from its row. -/
def laterType : Rule TypeExpr := fun tokens => (row tokens).type

/-- A list of types that may be left out, read from its row. -/
def laterTypes : Rule (List TypeExpr) := optionalList fun tokens => (row tokens).types

/-- A list of fields that may be left out, read from its row. -/
def laterFields : Rule (List Field) := optionalList fun tokens => (row tokens).fields

/-! ## Primaries -/

/-- The arguments of a container, from the opening sign on. -/
def arguments (subject : String) : Rule TypeExpr := do
  let _ ← terminal .less
  let entries ← fun tokens => (row tokens).types
  let _ ← terminal .greater
  return .generic subject entries

/-- A container with its arguments; a dot may stand before them. -/
def generic : Rule TypeExpr := do
  let subject ← terminal .name
  firstOf
    [arguments row subject,
    do
      let _ ← terminal .dot
      arguments row subject]

def tuple : Rule TypeExpr := do
  let _ ← terminal .leftBracket
  let entries ← laterTypes row
  let _ ← terminal .rightBracket
  return .tuple entries

def record : Rule TypeExpr := do
  let _ ← terminal .leftBrace
  let fields ← laterFields row
  let _ ← terminal .rightBrace
  return .record fields

/-- The word `function`, parameter types, and perhaps a result. -/
def function : Rule TypeExpr := do
  let _ ← terminal .function
  let _ ← terminal .leftParen
  let params ← laterTypes row
  let _ ← terminal .rightParen
  firstOf
    [pure (.function params),
    do
      let _ ← terminal .colon
      let returns ← laterType row
      return .functionReturning params returns]

def typeOf : Rule TypeExpr := do
  let _ ← terminal .typeOf
  let name ← terminal .name
  return .typeOf name

def parens : Rule TypeExpr := do
  let _ ← terminal .leftParen
  let inner ← laterType row
  let _ ← terminal .rightParen
  return .parens inner

/-- A terminal that is a whole type expression. -/
def atom (t : Terminal) (build : String → TypeExpr) : Rule TypeExpr := do
  let text ← terminal t
  return build text

def primary : Rule TypeExpr :=
  firstOf
    [atom .name .name, generic row, tuple row, record row, function row, typeOf, parens row,
      atom .star fun _ => .any, atom .question fun _ => .unknown, atom .string .string,
      atom .number .number]

/-! ## Suffix operators -/

/-- A container of the given entries, as brackets behind a type write it. -/
def arrayOf (entry : TypeExpr) : TypeExpr :=
  .generic "Array" [entry]

/-- An operand with one more operator and the ways to go on from there, unless a
primary ends at the same place: that one is preferred, and goes on by itself. -/
def grown (stops : List Nat) (operand : TypeExpr) (rest : List Token)
    (further : Reading TypeExpr) : Reading TypeExpr :=
  if stops.contains rest.length then .none else (Reading.done operand rest).orElse further

/-- The ways to put one or more suffix operators behind an operand. -/
def suffixes (stops : List Nat) (operand : TypeExpr) : Rule TypeExpr := fun tokens =>
  (Reading.tried [.equals, .leftBracket, .question, .bang] tokens).orElse <|
    match tokens with
    | .equals _ :: rest =>
      grown stops (.optional operand) rest (suffixes stops (.optional operand) rest)
    | .leftBracket :: .rightBracket :: rest =>
      grown stops (arrayOf operand) rest (suffixes stops (arrayOf operand) rest)
    | .leftBracket :: rest => .tried [.rightBracket] rest
    | .question :: rest =>
      grown stops (.nullable operand) rest (suffixes stops (.nullable operand) rest)
    | .bang :: rest =>
      grown stops (.notNullable operand) rest (suffixes stops (.notNullable operand) rest)
    | _ => .none

/-- A primary with any number of suffix operators. -/
def suffixed : Rule TypeExpr := fun tokens =>
  let primaries := primary row tokens
  primaries.orElse (Reading.follow (suffixes primaries.ends) primaries.ways)

/-! ## Prefix operators, unions and arrows -/

/-- An operator in front of an operand. -/
def prefixOperator (t : Terminal) (build : TypeExpr → TypeExpr) : Rule TypeExpr := do
  let _ ← terminal t
  let inner ← fun tokens => (row tokens).prefixed
  return build inner

/-- An operand with any number of prefix operators. -/
def prefixed : Rule TypeExpr :=
  firstOf
    [suffixed row, prefixOperator row .question .nullable,
      prefixOperator row .bang .notNullable, prefixOperator row .ellipsis .variadic]

def union (operand : Rule TypeExpr) : Rule TypeExpr := do
  let left ← operand
  let _ ← terminal .bar
  let right ← laterType row
  return .union left right

/-- Named parameters, an arrow and a result. -/
def arrow : Rule TypeExpr := do
  let _ ← terminal .leftParen
  let params ← laterFields row
  let _ ← terminal .rightParen
  let _ ← terminal .arrow
  let returns ← laterType row
  return .arrow params returns

/-- A type, given the rule of its operands. -/
def type (operand : Rule TypeExpr) : Rule TypeExpr :=
  firstOf [operand, union row operand, arrow row]

/-- A name and perhaps its type. -/
def field : Rule Field := do
  let name ← terminal .name
  firstOf
    [pure (.bare name),
    do
      let _ ← terminal .colon
      let type ← laterType row
      return .typed name type]

/-! ## The table -/

/-- The row at one place, given the rows at the places behind it. -/
def rowAt (tokens : List Token) : Row :=
  let operands := prefixed row tokens
  let here := type row (fun _ => operands) tokens
  let moreTypes : Rule (List TypeExpr) := fun rest => (row rest).moreTypes
  let moreFields : Rule (List Field) := fun rest => (row rest).moreFields
  { prefixed := operands
    type := here
    types := listOf (fun _ => here) moreTypes tokens
    moreTypes := moreOf (fun _ => here) moreTypes tokens
    fields := listOf (field row) moreFields tokens
    moreFields := moreOf (field row) moreFields tokens }

end

/-- The row for a place, among the rows of all places from some place on. -/
def lookUp (rows : List Row) (tokens : List Token) : Row :=
  rows.getD (rows.length - (tokens.length + 1)) default

/-- The rows of all places from the first token on. -/
def rows : List Token → List Row
  | [] => [rowAt (fun _ => default) []]
  | token :: rest =>
    let later := rows rest
    rowAt (lookUp later) (token :: rest) :: later

/-- There is a row for each place, the end included. -/
@[simp] theorem length_rows (tokens : List Token) :
    (rows tokens).length = tokens.length + 1 := by
  induction tokens with
  | nil => rfl
  | cons token rest ih => simp [rows, ih]

/-- The row of a place does not depend on the tokens in front of it. -/
theorem lookUp_rows (front tokens : List Token) :
    lookUp (rows (front ++ tokens)) tokens = lookUp (rows tokens) tokens := by
  induction front with
  | nil => rfl
  | cons token front ih =>
    rw [← ih]
    simp [lookUp, rows, Nat.succ_sub]

/-- The row of a place is made from the rows behind it. -/
theorem lookUp_rows_cons (token : Token) (rest : List Token) :
    lookUp (rows (token :: rest)) (token :: rest) =
      rowAt (lookUp (rows rest)) (token :: rest) := by
  simp [lookUp, rows]

/-- The readings of the tokens as a type. -/
def readType (tokens : List Token) : Reading TypeExpr :=
  (lookUp (rows tokens) tokens).type

end Grammar

end DocComment
