import DocComment.Notice
import DocComment.Text.Blank
import DocComment.TypeExpr.Render

/-!
# Shapes

A shape is what a record keeps of a type: a bare name, or the name of a
composite with the shapes of its members. Most forms of type expressions carry
no information of this kind; their place is kept, as an absent shape.
-/

namespace DocComment

open Text

/-- What is kept of a type. -/
inductive Shape where
  /-- Nothing is known. -/
  | absent
  /-- A name without members. -/
  | bare (name : String)
  /-- A union, a tuple or a container, and its members. -/
  | composite (name : String) (members : List Shape)

instance : Inhabited Shape := ⟨.absent⟩

namespace Shape

mutual

/-- The characters that show a shape. -/
def chars : Shape → List Char
  | absent => ['-']
  | bare name => name.toList
  | composite name members => Notation.generic name.toList (charsOfAll members)

def charsOfAll : List Shape → List (List Char)
  | [] => []
  | shape :: shapes => chars shape :: charsOfAll shapes

end

def text (shape : Shape) : String :=
  String.ofList shape.chars

end Shape

namespace TypeExpr

mutual

/-- The shape of a type. An optional type keeps the text of its operand only. -/
def shape : TypeExpr → Logged Shape
  | name text => pure (.bare text)
  | any => pure (.bare "mixed")
  | optional inner => pure (.bare inner.render)
  | union left right => do
    let first ← shape left
    let second ← shape right
    return .composite "union" [first, second]
  | generic subject arguments => do
    let members ← shapes arguments
    return .composite subject members
  | tuple entries => do
    let members ← shapes entries
    return .composite "tuple" members
  | other => do
    Logged.note (.noShape other.kind)
    return .absent

def shapes : List TypeExpr → Logged (List Shape)
  | [] => pure []
  | t :: ts => do
    let first ← shape t
    let others ← shapes ts
    return first :: others

end

/-- The shape of a type that was written as the given text. An optional type
keeps that text without its mark. -/
def shapeOf (source : List Char) : TypeExpr → Logged Shape
  | optional _ => pure (.bare (String.ofList (dropFinal '=' source)))
  | t => shape t

end TypeExpr

/-! ## Shapes of texts -/

/-- The type expression that a text writes; a rejection is noted. -/
def parseNoting (cs : List Char) : Checked SyntaxFault TypeExpr :=
  match TypeExpr.parseChars cs with
  | .ok t => pure t
  | .error fault => do
    Logged.note (.rejectedType fault)
    throw fault

/-- The shape of a type expression given as text. A missing or blank text has
none. -/
def shapeOfText (text : Option String) : Checked SyntaxFault Shape :=
  match trim (text.getD "").toList with
  | [] => pure .absent
  | c :: cs => do
    let t ← parseNoting (c :: cs)
    t.shapeOf (c :: cs)

end DocComment
