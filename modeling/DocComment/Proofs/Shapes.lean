import DocComment.Node.Shape
import DocComment.Record
import DocComment.Proofs.Rendering

/-!
# Shapes

The node of a type expression always has a shape, and it is the shape of the type
expression (`Node.shapeOf_toNode`): no part that a rule asks for is missing, and
every operand can be written. Whether a text has a shape, and whether it carries the
mark of an optional type, is then a matter of parsing it (`typeOfText`).
-/

namespace DocComment

open Text

/-! ## Nodes -/

namespace Node

mutual

/-- The node of a type expression has its shape. -/
theorem shape_toNode : (t : TypeExpr) → t.toNode.shape.result = .ok t.shape.value
  | .name text => by
    have htext : String.ofList (nameChars (some text)) = text := String.ofList_toList
    simp only [TypeExpr.toNode, Node.ofName, Node.shape, htext]
    rfl
  | .string _ | .number _ | .any | .unknown | .typeOf _ => rfl
  | .nullable _ | .notNullable _ | .variadic _ | .parens _ | .record _ | .function _ => rfl
  | .functionReturning .. | .arrow .. => rfl
  -- the one kind whose name is the text of its operand
  | .optional inner => by
    have hinner := render_toNode inner
    simp only [TypeExpr.toNode, Node.shape, hinner]
    rfl
  | .union left right => by
    have hleft := shape_toNode left
    have hright := shape_toNode right
    simp only [TypeExpr.toNode, Node.shape, shapeOfPart, Checked.result_bind, hleft, hright]
    rfl
  | .generic _ arguments => by
    have harguments := shapes_toNodes arguments
    simp only [TypeExpr.toNode, Node.shape, Node.ofName, Option.bind_some, Checked.result_bind,
      harguments]
    rfl
  | .tuple entries => by
    have hentries := shapes_toNodes entries
    simp only [TypeExpr.toNode, Node.shape, Checked.result_bind, hentries]
    rfl

theorem shapes_toNodes : (ts : List TypeExpr) →
    (shapes (TypeExpr.toNodes ts)).result = .ok (TypeExpr.shapes ts).value
  | [] => rfl
  | t :: ts => by
    have hfirst := shape_toNode t
    have hothers := shapes_toNodes ts
    simp only [TypeExpr.toNodes, shapes, Checked.result_bind, hfirst, hothers]
    rfl

end

/-- The node of a type expression has its shape, also if it comes with a text. -/
theorem shapeOf_toNode (cs : List Char) (t : TypeExpr) :
    (Node.shapeOf (some (String.ofList cs)) (some t.toNode)).result = .ok (t.shapeOf cs).value := by
  cases t with
  | optional inner =>
    simp only [Node.shapeOf, TypeExpr.toNode, String.toList_ofList]
    rfl
  | _ => exact shape_toNode _

end Node

/-! ## Texts -/

@[simp] theorem result_parseNoting (cs : List Char) :
    (parseNoting cs).result = TypeExpr.parseChars cs := by
  unfold parseNoting
  cases TypeExpr.parseChars cs with
  | ok t => rfl
  | error fault => rfl

/-- The type expression of a text, which may be missing or blank. -/
def typeOfText (text : Option String) : Except SyntaxFault (Option TypeExpr) :=
  match trim (text.getD "").toList with
  | [] => .ok none
  | c :: cs => (TypeExpr.parseChars (c :: cs)).map some

/-- A blank text stands for no type. -/
theorem typeOfText_of_blank {text : Option String} (h : trim (text.getD "").toList = []) :
    typeOfText text = .ok none := by
  unfold typeOfText
  rw [h]

theorem typeOfText_of_ne_nil {text : Option String} (h : trim (text.getD "").toList ≠ []) :
    typeOfText text = (TypeExpr.parseChars (trim (text.getD "").toList)).map some := by
  unfold typeOfText
  split
  · next hblank => exact absurd hblank h
  · next c cs heq => rw [heq]

/-- A text that is read is not blank. -/
theorem typeOfText_of_parseChars {text : Option String} {t : TypeExpr}
    (h : TypeExpr.parseChars (trim (text.getD "").toList) = .ok t) :
    typeOfText text = .ok (some t) := by
  have hne : trim (text.getD "").toList ≠ [] := by
    intro hnil
    rw [hnil] at h
    cases h
  rw [typeOfText_of_ne_nil hne, h]
  rfl

/-- The shape of a text is that of its type expression. -/
theorem result_shapeOfText (text : Option String) :
    (shapeOfText text).result = (typeOfText text).map fun found =>
      (found.map fun t => (t.shapeOf (trim (text.getD "").toList)).value).getD .absent := by
  unfold shapeOfText
  split
  · next hblank =>
    rw [typeOfText_of_blank hblank]
    rfl
  · next c cs heq =>
    have hne : trim (text.getD "").toList ≠ [] := by simp [heq]
    rw [typeOfText_of_ne_nil hne, heq, Checked.result_bind, result_parseNoting]
    cases TypeExpr.parseChars (c :: cs) with
    | ok t => rfl
    | error fault => rfl

/-- The shape of a text that is read as a type is that of the type. -/
theorem result_shapeOfText_of_parseChars {text : String} {t : TypeExpr}
    (h : TypeExpr.parseChars (trim text.toList) = .ok t) :
    (shapeOfText (some text)).result = .ok (t.shapeOf (trim text.toList)).value := by
  have hread : typeOfText (some text) = .ok (some t) := typeOfText_of_parseChars h
  rw [result_shapeOfText, hread]
  rfl

/-- A type carries the mark if its type expression is optional. -/
theorem result_hasMarkedType (tag : Tag) :
    tag.hasMarkedType.result = (typeOfText tag.type).map (·.any (·.kind == .optional)) := by
  unfold Tag.hasMarkedType
  split
  · next hblank =>
    rw [typeOfText_of_blank hblank]
    rfl
  · next c cs heq =>
    have hne : trim (tag.type.getD "").toList ≠ [] := by simp [heq]
    rw [typeOfText_of_ne_nil hne, heq, Checked.result_bind, result_parseNoting]
    cases TypeExpr.parseChars (c :: cs) with
    | ok t => rfl
    | error fault => rfl

/-- The mark of an optional type or the brackets around the name make a parameter
optional. -/
theorem result_canBeOmitted (tag : Tag) :
    tag.canBeOmitted.result =
      (typeOfText tag.type).map fun found =>
        tag.optional || found.any (·.kind == .optional) := by
  unfold Tag.canBeOmitted
  rw [Checked.result_bind, result_hasMarkedType]
  cases typeOfText tag.type with
  | ok found => rfl
  | error fault => rfl

end DocComment
