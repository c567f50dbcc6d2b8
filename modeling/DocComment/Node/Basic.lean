import DocComment.Kind

/-!
# Nodes

A node is the loose form of a type expression: a kind and whatever parts were
given. Trees that other programs build come in this form, with parts missing,
parts that do not belong to the kind, or kinds that nobody knows. Every type
expression has its node (`TypeExpr.toNode`), which has the parts of its kind and
no others.
-/

namespace DocComment

/-- A kind and the parts given for it. -/
structure Node where
  kind : Kind
  name : Option String := none
  left : Option Node := none
  right : Option Node := none
  subject : Option Node := none
  value : Option Node := none
  returns : Option Node := none
  objects : List Node := []
  entries : List Node := []
  fields : List Node := []
  params : List Node := []

instance : Inhabited Node := ⟨{ kind := .any }⟩

inductive NodeFault where
  /-- No form has this kind. -/
  | unsupported (kind : Kind)
  /-- A part is missing without which the form cannot be written. -/
  | missingPart
deriving DecidableEq

def NodeFault.message : NodeFault → String
  | unsupported kind => "Unsupported node kind: " ++ kind.label
  | missingPart => "Annotation node is missing a required child"

/-! ## Type expressions as nodes -/

def Node.ofName (text : String) : Node :=
  { kind := .name, name := some text }

namespace TypeExpr

mutual

/-- The node of a type expression. -/
def toNode : TypeExpr → Node
  | name text => Node.ofName text
  | string text => { kind := .string, name := some text }
  | number text => { kind := .number, name := some text }
  | any => { kind := .any }
  | unknown => { kind := .unknown }
  | typeOf value => { kind := .typeOf, name := some value }
  | union left right => { kind := .union, left := some left.toNode, right := some right.toNode }
  | optional inner => { kind := .optional, value := some inner.toNode }
  | nullable inner => { kind := .nullable, value := some inner.toNode }
  | notNullable inner => { kind := .notNullable, value := some inner.toNode }
  | variadic inner => { kind := .variadic, value := some inner.toNode }
  | parens inner => { kind := .parens, value := some inner.toNode }
  | generic subject arguments =>
    { kind := .generic, subject := some (Node.ofName subject), objects := toNodes arguments }
  | tuple entries => { kind := .tuple, entries := toNodes entries }
  | record fields => { kind := .record, fields := fieldNodes .recordField fields }
  | function params => { kind := .function, params := toNodes params }
  | functionReturning params returns =>
    { kind := .function, params := toNodes params, returns := some returns.toNode }
  | arrow params returns =>
    { kind := .arrow, params := fieldNodes .parameter params, returns := some returns.toNode }

def toNodes : List TypeExpr → List Node
  | [] => []
  | t :: ts => t.toNode :: toNodes ts

def fieldNode (kind : Kind) : Field → Node
  | .bare label => { kind := kind, name := some label }
  | .typed label type => { kind := kind, name := some label, value := some type.toNode }

def fieldNodes (kind : Kind) : List Field → List Node
  | [] => []
  | f :: fs => fieldNode kind f :: fieldNodes kind fs

end

end TypeExpr

end DocComment
