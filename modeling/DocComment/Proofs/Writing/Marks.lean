import DocComment.TypeExpr.Grammar
import DocComment.Proofs.Writing.Layers

/-!
# Marks of operands

The operators `=`, `?` and `!` around an operand form a stack of marks. A tree is
written with its `?` and `!` in front of the operand and its `=` behind it, so
the text keeps the order of the signs in front and the number of equals signs,
but not how the two kinds were nested.

When the text is read again, the equals signs are nearest to the operand and the
signs in front stand around them (`readSigns`). An operand whose text can also be
an operator, `?` or `[]`, makes an exception: behind a question mark everything
is an operator then, and the question mark in front is the operand.
`reread` is the tree that is read from the text of a tree.
-/

namespace DocComment

/-- An operator that does not change what an operand is made of. -/
inductive Mark where
  | optional
  | nullable
  | notNullable
deriving DecidableEq

namespace Mark

/-- An operand with a mark. -/
def apply : Mark → TypeExpr → TypeExpr
  | optional => .optional
  | nullable => .nullable
  | notNullable => .notNullable

/-- The token of a mark that is written in front of its operand. -/
def sign? : Mark → Option Token
  | optional => none
  | nullable => some .question
  | notNullable => some .bang

/-- The marks that are written in front of their operand. -/
def signs (marks : List Mark) : List Mark :=
  marks.filter (· ≠ optional)

/-- The marks that are written behind their operand. -/
def optionals (marks : List Mark) : List Mark :=
  List.replicate (marks.count optional) optional

end Mark

/-- The marks that can stand around an operand of a layer. -/
def Nonterminal.Takes : Nonterminal → List Mark → Prop
  | type, marks => marks = []
  | prefixed, marks => .optional ∉ marks
  | _, _ => True

namespace TypeExpr

open Mark

/-- An operand with marks, the outermost mark first. -/
def wrap (marks : List Mark) (t : TypeExpr) : TypeExpr :=
  marks.foldr Mark.apply t

/-- What the text of a tree does as an operator behind an operand. -/
def asOperator? : TypeExpr → Option (TypeExpr → TypeExpr)
  | unknown => some nullable
  | tuple [] => some Grammar.arrayOf
  | _ => none

/-- What is read from the signs of some marks in front of an operand; the operand
comes with `behind`, the equals signs behind it. -/
def readSigns (behind : List Mark) (t : TypeExpr) : List Mark → TypeExpr
  | [] => wrap behind t
  | .optional :: marks => readSigns behind t marks
  | .notNullable :: marks => notNullable (readSigns behind t marks)
  | .nullable :: marks =>
    match t.asOperator? with
    | none => nullable (readSigns behind t marks)
    -- the operators behind an operand apply from left to right
    | some operator => wrap behind (operator (wrap (signs marks).reverse unknown))

/-- An operand with marks, after its text has been read again. -/
def regroup (marks : List Mark) (t : TypeExpr) : TypeExpr :=
  readSigns (optionals marks) t marks

mutual

/-- What is read from the text of an operand with marks. -/
def rereadUnder (marks : List Mark) : TypeExpr → TypeExpr
  | optional inner => rereadUnder (marks ++ [.optional]) inner
  | nullable inner => rereadUnder (marks ++ [.nullable]) inner
  | notNullable inner => rereadUnder (marks ++ [.notNullable]) inner
  | name text => regroup marks (name text)
  | string text => regroup marks (string text)
  | number text => regroup marks (number text)
  | any => regroup marks any
  | unknown => regroup marks unknown
  | typeOf value => regroup marks (typeOf value)
  | union left right => regroup marks (union (rereadUnder [] left) (rereadUnder [] right))
  | variadic inner => regroup marks (variadic (rereadUnder [] inner))
  | parens inner => regroup marks (parens (rereadUnder [] inner))
  | generic subject arguments => regroup marks (generic subject (rereadAll arguments))
  | tuple entries => regroup marks (tuple (rereadAll entries))
  | record fields => regroup marks (record (rereadFields fields))
  | function params => regroup marks (function (rereadAll params))
  | functionReturning params returns =>
    regroup marks (functionReturning (rereadAll params) (rereadUnder [] returns))
  | arrow params returns => regroup marks (arrow (rereadFields params) (rereadUnder [] returns))

def rereadAll : List TypeExpr → List TypeExpr
  | [] => []
  | t :: ts => rereadUnder [] t :: rereadAll ts

def rereadField : Field → Field
  | .bare label => .bare label
  | .typed label type => .typed label (rereadUnder [] type)

def rereadFields : List Field → List Field
  | [] => []
  | f :: fs => rereadField f :: rereadFields fs

end

/-- What is read from the text of a tree. -/
def reread (t : TypeExpr) : TypeExpr :=
  rereadUnder [] t

/-- Whether the outermost part of a tree is a mark. -/
def isMarked : TypeExpr → Bool
  | optional _ | nullable _ | notNullable _ => true
  | _ => false

variable {marks marks' behind : List Mark} {t u : TypeExpr}

/-! ## Wrapping -/

theorem wrap_append (marks marks' : List Mark) (t : TypeExpr) :
    wrap (marks ++ marks') t = wrap marks (wrap marks' t) := by
  simp [wrap]

theorem wrap_concat (marks : List Mark) (mark : Mark) (t : TypeExpr) :
    wrap (marks ++ [mark]) t = wrap marks (mark.apply t) :=
  wrap_append marks [mark] t

/-- A mark and its operand can be told from the marked operand. -/
theorem apply_inj {mark mark' : Mark} :
    mark.apply t = mark'.apply u ↔ mark = mark' ∧ t = u := by
  cases mark <;> cases mark' <;> simp [Mark.apply]

theorem isMarked_apply (mark : Mark) (t : TypeExpr) : (mark.apply t).isMarked = true := by
  cases mark <;> rfl

/-- The marks of an operand can be told from the operand. -/
theorem wrap_inj (ht : t.isMarked = false) (hu : u.isMarked = false) :
    wrap marks t = wrap marks' u ↔ marks = marks' ∧ t = u := by
  constructor
  · intro h
    -- the marks are taken off on both sides, outermost first; one side cannot end before the other
    induction marks generalizing marks' with
    | nil =>
      rcases marks' with _ | ⟨mark, marks'⟩
      · exact ⟨rfl, h⟩
      · have hmark := isMarked_apply mark (wrap marks' u)
        rw [← show t = mark.apply (wrap marks' u) from h, ht] at hmark
        exact absurd hmark Bool.false_ne_true
    | cons mark marks ih =>
      rcases marks' with _ | ⟨mark', marks'⟩
      · have hmark := isMarked_apply mark (wrap marks t)
        rw [show mark.apply (wrap marks t) = u from h, hu] at hmark
        exact absurd hmark Bool.false_ne_true
      · rcases apply_inj.mp h with ⟨rfl, hrest⟩
        rcases ih hrest with ⟨rfl, heq⟩
        exact ⟨rfl, heq⟩
  · intro hread
    rcases hread with ⟨rfl, rfl⟩
    rfl

/-! ## Reading signs -/

/-- In front of an operand that is no operator the signs stay as they are. -/
theorem readSigns_of_none (h : t.asOperator? = none) :
    readSigns behind t marks = wrap (signs marks ++ behind) t := by
  induction marks with
  | nil => rfl
  | cons mark marks ih =>
    cases mark with
    | optional => exact ih
    | notNullable => exact congrArg notNullable ih
    | nullable =>
      rw [readSigns, h]
      exact congrArg nullable ih

end TypeExpr

end DocComment
