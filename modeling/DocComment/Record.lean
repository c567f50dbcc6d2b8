import DocComment.Block
import DocComment.Shape

/-!
# Records

A record is what a documentation comment says about a function: a description,
the parameters in order, and the result.

The first block of a comment becomes a record. Its parameter tags become
parameters, in order, and its first return tag becomes the result; other tags
are passed over, whatever they hold. A malformed type of a parameter or of the
result is a fault, and the parameters come first.
-/

namespace DocComment

open Text

structure Param where
  name : String
  description : Option String
  type : Shape
  optional : Bool

structure Returns where
  description : Option String
  type : Shape

/-- What a comment says about a function. -/
structure Record where
  description : Option String
  params : List Param
  returns : Option Returns

/-- The record of a comment that says nothing. -/
def Record.empty : Record := ⟨none, [], none⟩

/-! ## Records of comments -/

def paramKeywords : List String := ["param", "arg", "argument"]

def returnKeywords : List String := ["returns", "return"]

namespace Tag

/-- The text of an optional field, unless it is empty. -/
def filled (text : Option String) : Option String :=
  text.filter (· != "")

/-- Whether the type of the tag carries the mark of an optional type. -/
def hasMarkedType (tag : Tag) : Checked SyntaxFault Bool :=
  match trim (tag.type.getD "").toList with
  | [] => pure false
  | c :: cs => do
    let t ← parseNoting (c :: cs)
    return t.kind == .optional

/-- Whether the tag is about an optional parameter: its name stands between
brackets or its type carries the mark. -/
def canBeOmitted (tag : Tag) : Checked SyntaxFault Bool := do
  let marked ← tag.hasMarkedType
  return tag.optional || marked

/-- The description of a return tag. A tag without a type is described by its
whole text behind the keyword. -/
def resultDescription (tag : Tag) : Option String :=
  match filled tag.type with
  | some _ => filled tag.description
  | none => nonEmpty (trim (dropMarker ('@' :: tag.keyword.toList) tag.source.toList))

def toParam (tag : Tag) : Checked SyntaxFault Param := do
  let type ← shapeOfText tag.type
  let optional ← tag.canBeOmitted
  return { name := tag.name.getD "", description := filled tag.description, type, optional }

def toReturns (tag : Tag) : Checked SyntaxFault Returns := do
  let type ← shapeOfText tag.type
  return { description := tag.resultDescription, type }

end Tag

/-- The parameters that the parameter tags describe, in order. -/
def paramsOf : List Tag → Checked SyntaxFault (List Param)
  | [] => pure []
  | tag :: tags =>
    if paramKeywords.contains tag.keyword then do
      let param ← tag.toParam
      let params ← paramsOf tags
      return param :: params
    else paramsOf tags

/-- The result that the first return tag describes. -/
def returnsOf (tags : List Tag) : Checked SyntaxFault (Option Returns) :=
  match tags.filter (returnKeywords.contains ·.keyword) with
  | [] => pure none
  | tag :: others => do
    -- later return tags are not even parsed
    if !others.isEmpty then Logged.note (.extraReturns (others.length + 1))
    let returns ← tag.toReturns
    return some returns

namespace Record

/-- The record of the first of some blocks. -/
def ofBlocks : List Block → Checked SyntaxFault Record
  | [] => pure empty
  | block :: _ => do
    let params ← paramsOf block.tags
    let returns ← returnsOf block.tags
    return { description := Tag.filled (some block.description), params, returns }

/-- The text of a comment between the signs of a block. -/
def wrap (comment : String) : String :=
  "/** " ++ comment ++ " */"

/-- The record of a comment that is given without the signs around it. -/
def ofComment (comment : String) : Checked SyntaxFault Record := do
  let blocks ← Block.allIn (wrap comment)
  ofBlocks blocks

end Record

end DocComment
