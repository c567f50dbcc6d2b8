import DocComment.TypeExpr.Grammar
import DocComment.Text.Lines
import DocComment.Text.Quoted

/-!
# Parsing type expressions

A text is a type expression if its tokens can be read as a type with none left.
Otherwise it is blamed at the furthest place that any attempt reached: at a
character that fits nothing there, or at the end of the text.
-/

namespace DocComment

open Text

/-- Why a text is not a type expression: the text, the number of characters in
front of the one that fits nothing (none if the text ends too early), and the
terminals that would have fitted. -/
structure SyntaxFault where
  expression : String
  offset : Option Nat
  expected : List Terminal
deriving DecidableEq

namespace SyntaxFault

/-! ## Describing a place -/

/-- The length of a line when it is shown, with tabs every eight columns. -/
def shownLength : Nat → List Char → Nat
  | _, [] => 0
  | column, c :: cs =>
    if c = '\t' then
      let gap := 8 - column % 8
      gap + shownLength (column + gap) cs
    else if c = '\r' then 1 + shownLength 0 cs
    else 1 + shownLength (column + 1) cs

def lastChars (n : Nat) (cs : List Char) : List Char :=
  cs.drop (cs.length - n)

def lastLine (cs : List Char) : List Char :=
  (splitAt '\n' cs).getLastD []

def firstLine (cs : List Char) : List Char :=
  cs.takeWhile (· != '\n')

/-- How many characters of a line are shown on each side of a place. -/
def contextWidth : Nat := 40

/-- The line around a place, and a caret under the place. -/
def context (before behind : List Char) : List Char :=
  let left := lastLine (lastChars contextWidth before)
  left ++ firstLine (behind.take contextWidth) ++ '\n' ::
    List.replicate (shownLength 0 left) ' ' ++ ['^']

/-- The line of a place, given the text in front of it; the first line is 1. -/
def lineOf (before : List Char) : Nat :=
  before.count '\n' + 1

/-- The column of a place, given the text in front of it; the first column is
1, and a tab is one column. -/
def columnOf (before : List Char) : Nat :=
  (lastLine before).length + 1

/-! ## Reports -/

/-- The text in front of the blamed character. -/
def before (fault : SyntaxFault) (offset : Nat) : List Char :=
  fault.expression.toList.take offset

/-- What is wrong, without the text that it is about. -/
def reason (fault : SyntaxFault) : String :=
  match fault.offset with
  | none => "Unexpected end-of-input."
  | some offset =>
    let before := fault.before offset
    let behind := fault.expression.toList.drop offset
    "No terminal matches '" ++ String.ofList (behind.take 1) ++
      "' in the current parser context, at line " ++ toString (lineOf before) ++ " col " ++
      toString (columnOf before) ++ "\n\n" ++ String.ofList (context before behind)

def message (fault : SyntaxFault) : String :=
  "Invalid type expression " ++ quoted fault.expression ++ ": " ++ fault.reason

def line? (fault : SyntaxFault) : Option Nat :=
  fault.offset.map fun offset => lineOf (fault.before offset)

def column? (fault : SyntaxFault) : Option Nat :=
  fault.offset.map fun offset => columnOf (fault.before offset)

end SyntaxFault

namespace TypeExpr

/-- The fault of a text whose tokens were read up to some reach. -/
def faultAt (cs : List Char) (lexemes : List Lexeme) (reach : Option Reach) : SyntaxFault :=
  let reach := reach.getD ⟨lexemes.length, []⟩
  { expression := String.ofList cs
    offset := (lexemes.drop (lexemes.length - reach.left)).head?.map fun lexeme =>
      cs.length - lexeme.text.length
    expected := Terminal.all.filter (reach.tried.contains ·) }

/-- The type expression that a list of characters writes. -/
def parseChars (cs : List Char) : Except SyntaxFault TypeExpr :=
  let lexemes := Token.lexemes cs
  let reading := Grammar.readType (lexemes.map (·.token))
  -- at most one way spans the whole text
  match reading.ways.find? (·.2.isEmpty) with
  | some way => .ok way.1
  | none => .error (faultAt cs lexemes reading.reach)

/-- The type expression that a text writes. -/
def parse (text : String) : Except SyntaxFault TypeExpr :=
  parseChars text.toList

end TypeExpr

end DocComment
