import DocComment.Tag
import DocComment.Proofs.Tags.Brackets
import DocComment.Proofs.Text.Lines

/-!
# Written tags

How a tag is written on lines. The first line holds the keyword, the type between
braces, the name and, behind a hyphen, the first line of the description, with a
space in front of each. The other lines of the description follow.

Not all parts can be written: a name may look like two words, or a type may close
the braces around it. `WrittenTag.Valid` says which tags can be told apart from
their text, up to the brackets inside a bracketed name.
-/

namespace DocComment

open Text

/-! ## Writing -/

/-- A name in a tag: plain, or between brackets and perhaps with a value. -/
inductive WrittenName where
  | plain (name : List Char)
  | bracketed (name : List Char) (default : Option (List Char))

structure WrittenTag where
  keyword : List Char
  type : Option (List Char) := none
  name : Option WrittenName := none
  /-- The lines of the description. -/
  description : List (List Char) := []

namespace WrittenName

def label : WrittenName → List Char
  | plain name | bracketed name _ => name

/-- The value that the name is given. -/
def default : WrittenName → Option (List Char)
  | plain _ => none
  | bracketed _ default => default

def isBracketed : WrittenName → Bool
  | plain _ => false
  | bracketed .. => true

/-- What stands between the brackets. -/
def content (name : List Char) : Option (List Char) → List Char
  | none => name
  | some value => name ++ '=' :: value

def chars : WrittenName → List Char
  | plain name => name
  | bracketed name default => '[' :: (content name default ++ [']'])

/-- A plain name is a word that does not open a bracket; a bracketed name and its
value are trimmed, and the first equals sign stands between them. -/
def Valid : WrittenName → Prop
  | plain name => name ≠ [] ∧ (∀ c ∈ name, isBlank c = false) ∧ name.head? ≠ some '['
  | bracketed name default =>
    '=' ∉ name ∧ trim name = name ∧ ∀ value ∈ default, trim value = value

instance : DecidablePred Valid
  | plain name =>
    decidable_of_iff (name ≠ [] ∧ name.all (!isBlank ·) = true ∧ name.head? ≠ some '[')
      (by simp [Valid])
  | bracketed .. => inferInstanceAs (Decidable (_ ∧ _ ∧ _))

/-- The brackets inside the brackets of the name are balanced. -/
def BracketsBalanced : WrittenName → Prop
  | plain _ => True
  | bracketed name default => Balanced '[' ']' (content name default)

instance : DecidablePred BracketsBalanced
  | plain _ => inferInstanceAs (Decidable True)
  | bracketed .. => inferInstanceAs (Decidable (Balanced ..))

end WrittenName

namespace WrittenTag

/-- A part behind a space, if the part is there. -/
def spaced : Option (List Char) → List Char
  | none => []
  | some part => ' ' :: part

/-- The first line of the description, behind a hyphen. -/
def remark (tag : WrittenTag) : List Char :=
  spaced (tag.description.head?.map fun line => '-' :: ' ' :: line)

/-- The name and what stands behind it. -/
def nameAndRemark (tag : WrittenTag) : List Char :=
  spaced (tag.name.map (·.chars)) ++ tag.remark

/-- The type and what stands behind it. -/
def typeAndBehind (tag : WrittenTag) : List Char :=
  spaced (tag.type.map fun type => '{' :: (type ++ ['}'])) ++ tag.nameAndRemark

def firstLine (tag : WrittenTag) : List Char :=
  '@' :: (tag.keyword ++ tag.typeAndBehind)

def lines (tag : WrittenTag) : List (List Char) :=
  tag.firstLine :: tag.description.tail

/-- The text of some lines, if there are any. -/
def textOf : List (List Char) → Option String
  | [] => none
  | line :: lines => some (String.ofList (joinLines (line :: lines)))

def toTag (tag : WrittenTag) : Tag where
  keyword := String.ofList tag.keyword
  name := tag.name.map fun name => String.ofList name.label
  type := tag.type.map String.ofList
  description := textOf tag.description
  source := String.ofList (joinLines tag.lines)
  optional := tag.name.any (·.isBracketed)
  default := tag.name.bind fun name => name.default.map String.ofList

/-- The keyword is a word, and a name stands behind the keywords that take one.
The type is trimmed, and its braces are balanced. A name with no type in front of
it does not open a brace. The description is a paragraph in which no line opens a
tag. -/
structure Valid (tag : WrittenTag) : Prop where
  keyword_ne : tag.keyword ≠ []
  keyword_word : ∀ c ∈ tag.keyword, isBlank c = false
  named : tag.name.isSome = namedKeywords.contains (String.ofList tag.keyword)
  type : ∀ type ∈ tag.type, trim type = type ∧ Balanced '{' '}' type
  name : ∀ name ∈ tag.name, name.Valid
  unbraced : tag.type = none → ∀ name ∈ tag.name, name.chars.head? ≠ some '{'
  description : Paragraph tag.description
  untagged : ∀ line ∈ tag.description, line.head? ≠ some '@'

instance : DecidablePred Valid := fun tag =>
  decidable_of_iff
    (tag.keyword ≠ [] ∧ tag.keyword.all (!isBlank ·) = true ∧
      tag.name.isSome = namedKeywords.contains (String.ofList tag.keyword) ∧
      (∀ type ∈ tag.type, trim type = type ∧ Balanced '{' '}' type) ∧
      (∀ name ∈ tag.name, name.Valid) ∧
      (tag.type = none → ∀ name ∈ tag.name, name.chars.head? ≠ some '{') ∧
      Paragraph tag.description ∧ ∀ line ∈ tag.description, line.head? ≠ some '@')
    ⟨fun ⟨h1, h2, h3, h4, h5, h6, h7, h8⟩ => ⟨h1, forall_mem_of_all h2, h3, h4, h5, h6, h7, h8⟩,
      fun ⟨h1, h2, h3, h4, h5, h6, h7, h8⟩ => ⟨h1, by simpa using h2, h3, h4, h5, h6, h7, h8⟩⟩

/-- The brackets inside the brackets of the name are balanced. -/
def BracketsBalanced (tag : WrittenTag) : Prop :=
  ∀ name ∈ tag.name, name.BracketsBalanced

instance : DecidablePred BracketsBalanced := fun tag =>
  inferInstanceAs (Decidable (∀ name ∈ tag.name, name.BracketsBalanced))

end WrittenTag

end DocComment
