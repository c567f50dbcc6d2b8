import DocComment.Node.Render
import DocComment.Shape

/-!
# Shapes of nodes

The shape of a node follows the rules for type expressions. A part that a rule
asks for may be missing, and then the shape is absent; writing the operand of an
optional node may fail, and then there is no shape at all.
-/

namespace DocComment.Node

open Text

/-- An absent shape, for a kind without information. -/
def noShape (kind : Kind) : Checked NodeFault Shape := do
  Logged.note (.noShape kind)
  return .absent

mutual

def shape : Node → Checked NodeFault Shape
  | ⟨kind, name, left, right, subject, value, _, objects, entries, _, _⟩ =>
    match kind with
    | .name => pure (.bare (String.ofList (nameChars name)))
    | .union => do
      let first ← shapeOfPart left
      let second ← shapeOfPart right
      return .composite "union" [first, second]
    | .optional =>
      match value with
      | none => pure .absent
      | some operand => do
        let text ← MonadExcept.ofExcept operand.render
        return .bare text
    | .any => pure (.bare "mixed")
    | .generic =>
      match subject.bind (·.name) with
      | none => pure .absent
      | some container => do
        let members ← shapes objects
        return .composite container members
    | .tuple => do
      let members ← shapes entries
      return .composite "tuple" members
    | kind => noShape kind

/-- The shape of a part; a missing part has none. -/
def shapeOfPart : Option Node → Checked NodeFault Shape
  | none => pure .absent
  | some node => shape node

def shapes : List Node → Checked NodeFault (List Shape)
  | [] => pure []
  | node :: nodes => do
    let first ← shape node
    let others ← shapes nodes
    return first :: others

end

/-- The shape of a node that may be missing and that may come with the text it
was written as. An optional node with a text keeps that text without its mark. -/
def shapeOf (source : Option String) : Option Node → Checked NodeFault Shape
  | none => pure .absent
  | some node =>
    match node.kind, source with
    | .optional, some text => pure (.bare (String.ofList (dropFinal '=' text.toList)))
    | _, _ => node.shape

end DocComment.Node
