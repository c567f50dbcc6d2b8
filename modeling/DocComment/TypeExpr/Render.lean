import DocComment.TypeExpr.Basic
import DocComment.TypeExpr.Notation

/-!
# Writing type expressions

A tree is written in its one spelling. Operators that bind to an operand are
written in front of it, except for the mark of an optional operand.
-/

namespace DocComment.TypeExpr

mutual

/-- The characters of a type expression. -/
def chars : TypeExpr → List Char
  | name text | string text | number text => text.toList
  | any => ['*']
  | unknown => ['?']
  | typeOf value => Notation.typeOf value.toList
  | union left right => Notation.union (chars left) (chars right)
  | optional inner => Notation.optional (chars inner)
  | nullable inner => Notation.marked ['?'] (chars inner)
  | notNullable inner => Notation.marked ['!'] (chars inner)
  | variadic inner => Notation.variadic (chars inner)
  | parens inner => Notation.bracketed '(' ')' [chars inner]
  | generic subject arguments => Notation.generic subject.toList (charsOfAll arguments)
  | tuple entries => Notation.bracketed '[' ']' (charsOfAll entries)
  | record fields => Notation.bracketed '{' '}' (charsOfFields fields)
  | function params => Notation.function (charsOfAll params)
  | functionReturning params returns =>
    Notation.typed (Notation.function (charsOfAll params)) (chars returns)
  | arrow params returns => Notation.arrow (charsOfFields params) (chars returns)

def charsOfAll : List TypeExpr → List (List Char)
  | [] => []
  | t :: ts => chars t :: charsOfAll ts

def charsOfField : Field → List Char
  | .bare label => label.toList
  | .typed label type => Notation.typed label.toList (chars type)

def charsOfFields : List Field → List (List Char)
  | [] => []
  | f :: fs => charsOfField f :: charsOfFields fs

end

def render (t : TypeExpr) : String :=
  String.ofList (chars t)

end DocComment.TypeExpr
