import DocComment.Notice
import DocComment.Text.Blank
import DocComment.Text.Lines

/-!
# Tags

A tag begins with `@` and a keyword; what follows may hold a type between
braces, a name and a description. It is read from its lines: the first line
holds the keyword, then perhaps a type, for some keywords a name, and the start
of the description; the other lines go on with the description. A bracketed part
may hold brackets of its own kind, so its end is the closing bracket at which as
many have been closed as opened.

Nothing is ever refused: brackets that are not closed are ordinary text, and a
lone `@` is a tag without a keyword.
-/

namespace DocComment

open Text

/-- One tag of a documentation block. -/
structure Tag where
  /-- The keyword, without the `@`. -/
  keyword : String
  /-- The name that the tag is about, for keywords that take one. -/
  name : Option String := none
  /-- The text between the braces. -/
  type : Option String := none
  /-- The text behind type and name. -/
  description : Option String := none
  /-- The whole tag, without the decoration of its lines. -/
  source : String := ""
  /-- Whether the name stands between brackets. -/
  optional : Bool := false
  /-- The value that a bracketed name is given. -/
  default : Option String := none
deriving DecidableEq

/-- The lines of one tag. -/
structure TagLines where
  first : List Char
  others : List (List Char)

/-! ## Matching brackets -/

/-- The text up to the bracket that closes a part, and the text behind that
bracket, when reading starts inside the part below `depth` further brackets. -/
def enclosed (opening closing : Char) : Nat → List Char → Option (List Char × List Char)
  | _, [] => none
  | depth, c :: cs =>
    if c = opening then keep c (enclosed opening closing (depth + 1) cs)
    else if c = closing then
      match depth with
      | 0 => some ([], cs)
      | depth + 1 => keep c (enclosed opening closing depth cs)
    else keep c (enclosed opening closing depth cs)
where
  /-- One more character in front of the enclosed text. -/
  keep (c : Char) (found : Option (List Char × List Char)) : Option (List Char × List Char) :=
    found.map fun parts => (c :: parts.1, parts.2)

/-- What a bracket at the start of a text encloses, and the text behind the
matching bracket. -/
def bracketedPart (opening closing : Char) : List Char → Option (List Char × List Char)
  | [] => none
  | c :: cs => if c = opening then enclosed opening closing 0 cs else none

/-! ## Parts of a tag -/

/-- The keywords behind which a name stands. -/
def namedKeywords : List String :=
  ["param", "arg", "argument", "property", "prop", "typedef", "callback", "template"]

/-- The name of a tag and what is said about it, and the text behind it. -/
structure NamePart where
  name : String
  optional : Bool := false
  default : Option String := none
  behind : List Char

/-- A name between brackets, which may be given a value behind an equals sign. -/
def bracketedName (inner behind : List Char) : NamePart :=
  let inner := trim inner
  let name := String.ofList (trim (inner.takeWhile (· != '=')))
  match inner.dropWhile (· != '=') with
  | [] => ⟨String.ofList inner, true, none, trimStart behind⟩
  | _ :: value => ⟨name, true, some (String.ofList (trim value)), trimStart behind⟩

/-- The name at the start of a text: a bracketed part or else the first word. -/
def nameAt (cs : List Char) : NamePart :=
  match bracketedPart '[' ']' cs with
  | some (inner, behind) => bracketedName inner behind
  | none =>
    let (word, behind) := firstWord cs
    ⟨String.ofList word, false, none, trimStart behind⟩

/-- The text of a type between braces, and the text behind it. -/
structure TypePart where
  type : Option String
  behind : List Char

/-- The type at the start of a text, if a part between braces stands there. -/
def typeAt (cs : List Char) : TypePart :=
  match bracketedPart '{' '}' cs with
  | some (inner, behind) => ⟨some (String.ofList (trim inner)), trimStart behind⟩
  | none => ⟨none, cs⟩

def nonEmpty (cs : List Char) : Option String :=
  if cs.isEmpty then none else some (String.ofList cs)

/-- The description of a tag. A hyphen and a space may set it off. -/
def describe (cs : List Char) (others : List (List Char)) : Option String :=
  nonEmpty (trim (joinLines (dropMarker ['-', ' '] cs :: others)))

def TagLines.source (lines : TagLines) : String :=
  String.ofList (trim (joinLines (lines.first :: lines.others)))

/-- The tag with a given keyword whose remaining text is `cs`. -/
def tagOfParts (keyword source : String) (cs : List Char) (others : List (List Char)) : Tag :=
  let type := typeAt cs
  if namedKeywords.contains keyword && !type.behind.isEmpty then
    let name := nameAt type.behind
    { keyword, source, type := type.type
      name := some name.name, optional := name.optional, default := name.default
      description := describe name.behind others }
  else { keyword, source, type := type.type, description := describe type.behind others }

/-- The tag that some lines hold. -/
def readTag (lines : TagLines) : Logged Tag := do
  let (keyword, behind) := firstWord (lines.first.drop 1)
  -- a lone `@` opens a tag all the same
  if keyword.isEmpty then return { keyword := "", source := lines.source }
  let keyword := String.ofList keyword
  let cs := trimStart behind
  if ['{'].isPrefixOf cs && (typeAt cs).type.isNone then
    Logged.note (.openBraces keyword lines.source)
  return tagOfParts keyword lines.source cs lines.others

end DocComment
