/-!
# Type expressions

A documentation comment says what a parameter holds in a small language of type
expressions: names, unions, containers with arguments, records, function types
and a few one-character operators. This module holds their syntax trees.

Equality of trees is decidable (`same_iff`); the test walks both trees once.
-/

namespace DocComment

mutual

/-- A type expression. Names and literals keep the text they were written with. -/
inductive TypeExpr where
  /-- A plain name such as `string` or `module:a/b`. -/
  | name (text : String)
  /-- A string literal, quotes included. -/
  | string (text : String)
  /-- A number literal. -/
  | number (text : String)
  /-- The type of everything, written `*`. -/
  | any
  /-- A type that is not known, written `?`. -/
  | unknown
  /-- The type of a named value. -/
  | typeOf (name : String)
  /-- One of two types. -/
  | union (left right : TypeExpr)
  /-- An operand that may be left out, marked by `=`. -/
  | optional (inner : TypeExpr)
  /-- An operand or null, marked by `?`. -/
  | nullable (inner : TypeExpr)
  /-- An operand and never null, marked by `!`. -/
  | notNullable (inner : TypeExpr)
  /-- Any number of operands, marked by `...`. -/
  | variadic (inner : TypeExpr)
  /-- An operand between parentheses. -/
  | parens (inner : TypeExpr)
  /-- A container and its arguments. -/
  | generic (subject : String) (arguments : List TypeExpr)
  /-- A list of entries between brackets. -/
  | tuple (entries : List TypeExpr)
  /-- A list of fields between braces. -/
  | record (fields : List Field)
  /-- A function type that names no result. -/
  | function (params : List TypeExpr)
  /-- A function type with its result. -/
  | functionReturning (params : List TypeExpr) (returns : TypeExpr)
  /-- A function type with named parameters, written with an arrow. -/
  | arrow (params : List Field) (returns : TypeExpr)

/-- A named member of a record or of an arrow's parameter list. -/
inductive Field where
  /-- A name alone. -/
  | bare (name : String)
  /-- A name and its type. -/
  | typed (name : String) (type : TypeExpr)

end

instance : Inhabited TypeExpr := ⟨.any⟩

/-! ## Equality -/

namespace TypeExpr

mutual

/-- Whether two trees are the same. -/
def same : TypeExpr → TypeExpr → Bool
  | name a, name b => a == b
  | string a, string b => a == b
  | number a, number b => a == b
  | any, any => true
  | unknown, unknown => true
  | typeOf a, typeOf b => a == b
  | union a c, union b d => same a b && same c d
  | optional a, optional b => same a b
  | nullable a, nullable b => same a b
  | notNullable a, notNullable b => same a b
  | variadic a, variadic b => same a b
  | parens a, parens b => same a b
  | generic a as, generic b bs => a == b && sameAll as bs
  | tuple as, tuple bs => sameAll as bs
  | record as, record bs => sameFields as bs
  | function as, function bs => sameAll as bs
  | functionReturning as a, functionReturning bs b => sameAll as bs && same a b
  | arrow as a, arrow bs b => sameFields as bs && same a b
  | _, _ => false

def sameAll : List TypeExpr → List TypeExpr → Bool
  | [], [] => true
  | a :: as, b :: bs => same a b && sameAll as bs
  | _, _ => false

def sameField : Field → Field → Bool
  | .bare a, .bare b => a == b
  | .typed a s, .typed b t => a == b && same s t
  | _, _ => false

def sameFields : List Field → List Field → Bool
  | [], [] => true
  | a :: as, b :: bs => sameField a b && sameFields as bs
  | _, _ => false

end

mutual

theorem same_iff : (a b : TypeExpr) → (same a b = true ↔ a = b)
  | name _, b | string _, b | number _, b | any, b | unknown, b | typeOf _, b => by
    cases b <;> simp [same]
  | union a c, b => by cases b <;> simp [same, same_iff a, same_iff c]
  | optional a, b | nullable a, b | notNullable a, b | variadic a, b | parens a, b => by
    cases b <;> simp [same, same_iff a]
  | generic _ as, b | tuple as, b | function as, b => by
    cases b <;> simp [same, sameAll_iff as]
  | record as, b => by cases b <;> simp [same, sameFields_iff as]
  | functionReturning as a, b => by cases b <;> simp [same, sameAll_iff as, same_iff a]
  | arrow as a, b => by cases b <;> simp [same, sameFields_iff as, same_iff a]

theorem sameAll_iff : (as bs : List TypeExpr) → (sameAll as bs = true ↔ as = bs)
  | [], bs => by cases bs <;> simp [sameAll]
  | a :: as, bs => by cases bs <;> simp [sameAll, same_iff a, sameAll_iff as]

theorem sameField_iff : (a b : Field) → (sameField a b = true ↔ a = b)
  | .bare _, b => by cases b <;> simp [sameField]
  | .typed _ a, b => by cases b <;> simp [sameField, same_iff a]

theorem sameFields_iff : (as bs : List Field) → (sameFields as bs = true ↔ as = bs)
  | [], bs => by cases bs <;> simp [sameFields]
  | a :: as, bs => by cases bs <;> simp [sameFields, sameField_iff a, sameFields_iff as]

end

end TypeExpr

instance : DecidableEq TypeExpr := fun a b =>
  decidable_of_iff (TypeExpr.same a b = true) (TypeExpr.same_iff a b)

instance : DecidableEq Field := fun a b =>
  decidable_of_iff (TypeExpr.sameField a b = true) (TypeExpr.sameField_iff a b)

end DocComment
