import DocComment.Node.Basic
import DocComment.TypeExpr.Notation

/-!
# Writing nodes

A node is written in the notation of its kind, from the parts that the kind
needs; other parts are ignored. The first part that is missing or cannot be
written decides the fault.
-/

namespace DocComment.Node

/-- The characters of a name; a missing name has a word of its own. -/
def nameChars (name : Option String) : List Char :=
  (name.getD "None").toList

mutual

/-- The characters of a node. -/
def chars : Node → Except NodeFault (List Char)
  | ⟨kind, name, left, right, subject, value, returns, objects, entries, fields, params⟩ =>
    match kind with
    | .name | .string | .number => pure (nameChars name)
    | .any => pure ['*']
    | .unknown => pure ['?']
    | .typeOf => pure (Notation.typeOf (nameChars name))
    | .union => do
      let first ← charsOfPart left
      let second ← charsOfPart right
      return Notation.union first second
    | .optional => do return Notation.optional (← charsOfPart value)
    | .nullable => do return Notation.marked ['?'] (← charsOfPart value)
    | .notNullable => do return Notation.marked ['!'] (← charsOfPart value)
    | .variadic => do return Notation.variadic (← charsOfPart value)
    | .parens => do return Notation.bracketed '(' ')' [← charsOfPart value]
    | .generic => do
      let arguments ← charsOfAll objects
      let container ← charsOfPart subject
      return Notation.generic container arguments
    | .tuple => do return Notation.bracketed '[' ']' (← charsOfAll entries)
    | .record => do return Notation.bracketed '{' '}' (← charsOfAll fields)
    | .recordField | .parameter =>
      match value with
      | none => pure (nameChars name)
      | some type => do return Notation.typed (nameChars name) (← chars type)
    | .function => do
      let call := Notation.function (← charsOfAll params)
      match returns with
      | none => return call
      | some type => return Notation.typed call (← chars type)
    | .arrow => do
      let arguments ← charsOfAll params
      let result ← charsOfPart returns
      return Notation.arrow arguments result
    | .other label => throw (.unsupported (.other label))

/-- The characters of a part that has to be there. -/
def charsOfPart : Option Node → Except NodeFault (List Char)
  | none => throw .missingPart
  | some node => chars node

def charsOfAll : List Node → Except NodeFault (List (List Char))
  | [] => pure []
  | node :: nodes => do
    let first ← chars node
    let others ← charsOfAll nodes
    return first :: others

end

def render (node : Node) : Except NodeFault String :=
  node.chars.map String.ofList

end DocComment.Node
