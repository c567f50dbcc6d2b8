import DocComment.TypeExpr.Basic

/-!
# Kinds of nodes

Each form of a type expression has a kind, and so have the fields of records and
arrows. Reports and tree dumps name a form by the label of its kind. Trees that
were built by hand may carry labels that name no kind.
-/

namespace DocComment

/-- The kind of a node. -/
inductive Kind where
  | name
  | union
  | optional
  | any
  | unknown
  | generic
  | tuple
  | nullable
  | notNullable
  | variadic
  | parens
  | record
  | recordField
  | function
  | arrow
  | parameter
  | typeOf
  | string
  | number
  /-- A label that names none of the kinds. -/
  | other (label : String)
deriving DecidableEq

namespace Kind

/-- The kinds that have a label of their own. -/
def known : List Kind :=
  [name, union, optional, any, unknown, generic, tuple, nullable, notNullable, variadic, parens,
    record, recordField, function, arrow, parameter, typeOf, string, number]

def label : Kind → String
  | name => "NAME"
  | union => "UNION"
  | optional => "OPTIONAL"
  | any => "ANY"
  | unknown => "UNKNOWN"
  | generic => "GENERIC"
  | tuple => "TUPLE"
  | nullable => "NULLABLE"
  | notNullable => "NOT_NULLABLE"
  | variadic => "VARIADIC"
  | parens => "PARENTHESIS"
  | record => "RECORD"
  | recordField => "RECORD_ENTRY"
  | function => "FUNCTION"
  | arrow => "ARROW"
  | parameter => "NAMED_PARAMETER"
  | typeOf => "TYPE_QUERY"
  | string => "STRING_VALUE"
  | number => "NUMBER_VALUE"
  | other label => label

/-- The kind that a label names. -/
def ofLabel (label : String) : Kind :=
  (known.find? (·.label == label)).getD (.other label)

end Kind

def TypeExpr.kind : TypeExpr → Kind
  | .name _ => .name
  | .string _ => .string
  | .number _ => .number
  | .any => .any
  | .unknown => .unknown
  | .typeOf _ => .typeOf
  | .union .. => .union
  | .optional _ => .optional
  | .nullable _ => .nullable
  | .notNullable _ => .notNullable
  | .variadic _ => .variadic
  | .parens _ => .parens
  | .generic .. => .generic
  | .tuple _ => .tuple
  | .record _ => .record
  | .function _ => .function
  | .functionReturning .. => .function
  | .arrow .. => .arrow

end DocComment
