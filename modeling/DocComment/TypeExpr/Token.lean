import DocComment.Text.Classes

/-!
# Tokens of a type expression

A type expression is cut into names, literals and single punctuation marks;
spacing between them is dropped. Two signs are written with several marks, the
arrow `=>` and the ellipsis `...`; since `=` before `>` may also end a type
argument, the marks stay single and the first one records what stands behind
it. A lexeme also keeps the text from its token on, so that a place in the text
can be named.
-/

namespace DocComment

open Text

inductive Token where
  | name (text : String)
  | string (text : String)
  | number (text : String)
  | question
  | bang
  | bar
  | star
  | comma
  | colon
  /-- An equals sign, and whether `>` stands right behind it. -/
  | equals (beforeGreater : Bool)
  /-- A dot, and whether it is the first of three. -/
  | dot (ofThree : Bool)
  | less
  | greater
  | leftParen
  | rightParen
  | leftBracket
  | rightBracket
  | leftBrace
  | rightBrace
  /-- A character that begins no token. -/
  | stray
deriving DecidableEq

/-- A token and the text from its first character on. -/
structure Lexeme where
  token : Token
  text : List Char
deriving DecidableEq

namespace Token

/-! ## Names

A name is a chain of segments. The first holds word characters and `$`, the
later ones hyphens too; each begins with an ASCII letter, `_` or `$`, and one of
`.`, `:`, `~`, `#` and `/` joins it to the one before. -/

/-- Whether a character can begin a segment of a name. -/
def isNameStart (c : Char) : Bool :=
  isAsciiLetter c || c == '_' || c == '$'

/-- Whether a character can go on a segment; later segments take hyphens. -/
def isNamePart (later : Bool) (c : Char) : Bool :=
  isWordChar c || c == '$' || (later && c == '-')

/-- Whether a character joins two segments. -/
def isNameJoint (c : Char) : Bool :=
  c == '.' || c == ':' || c == '~' || c == '#' || c == '/'

/-- The longest continuation of a name whose current segment is a later one or
the first. -/
def nameTail (later : Bool) : List Char → List Char
  | [] => []
  | [c] => if isNamePart later c then [c] else []
  | c :: d :: cs =>
    if isNamePart later c then c :: nameTail later (d :: cs)
    -- a joint counts only if a segment follows it
    else if isNameJoint c && isNameStart d then c :: d :: nameTail true cs
    else []

/-! ## Literals -/

/-- The rest of a string literal, up to and with the closing quote. A backslash
takes the character behind it along, but no line feed. -/
def stringTail (quote : Char) : List Char → Option (List Char)
  | [] => none
  | '\\' :: c :: cs => if c = '\n' then none else (stringTail quote cs).map ('\\' :: c :: ·)
  | c :: cs =>
    if c = quote then some [c]
    else if c = '\\' then none
    else (stringTail quote cs).map (c :: ·)

def digits (cs : List Char) : List Char :=
  cs.takeWhile isDecimalDigit

/-- A decimal point with digits, if they are there. -/
def fraction : List Char → List Char
  | '.' :: cs => if (digits cs).isEmpty then [] else '.' :: digits cs
  | _ => []

/-- The sign of an exponent, if it is there. -/
def exponentSign : List Char → List Char
  | '+' :: _ => ['+']
  | '-' :: _ => ['-']
  | _ => []

/-- An exponent with digits, if they are there. -/
def exponent : List Char → List Char
  | [] => []
  | c :: cs =>
    let sign := exponentSign cs
    let power := digits (cs.drop sign.length)
    if (c == 'e' || c == 'E') && !power.isEmpty then c :: sign ++ power else []

/-- The longest unsigned number literal at the start of a text; empty if there
is none. -/
def magnitude (cs : List Char) : List Char :=
  let whole := digits cs
  if whole.isEmpty then [] else
    let part := fraction (cs.drop whole.length)
    whole ++ part ++ exponent (cs.drop (whole.length + part.length))

/-- The longest number literal at the start of a text, with a minus sign in
front or none; empty if there is none. -/
def numeral : List Char → List Char
  | '-' :: cs => if (magnitude cs).isEmpty then [] else '-' :: magnitude cs
  | cs => magnitude cs

/-! ## Marks -/

/-- The mark that a character stands for, given what is behind it. -/
def mark? (c : Char) (behind : List Char) : Option Token :=
  match c with
  | '?' => some question
  | '!' => some bang
  | '|' => some bar
  | '*' => some star
  | ',' => some comma
  | ':' => some colon
  | '=' => some (equals (['>'].isPrefixOf behind))
  | '.' => some (dot (['.', '.'].isPrefixOf behind))
  | '<' => some less
  | '>' => some greater
  | '(' => some leftParen
  | ')' => some rightParen
  | '[' => some leftBracket
  | ']' => some rightBracket
  | '{' => some leftBrace
  | '}' => some rightBrace
  | _ => none

/-! ## Reading tokens -/

/-- The token that begins with a character, and how many of the characters
behind it belong to the token. -/
def read (c : Char) (cs : List Char) : Token × Nat :=
  if isNameStart c then
    let tail := nameTail false cs
    (name (String.ofList (c :: tail)), tail.length)
  else if c == '"' || c == '\'' then
    match stringTail c cs with
    | some tail => (string (String.ofList (c :: tail)), tail.length)
    -- a string literal that is not closed
    | none => (stray, 0)
  else match mark? c cs with
    | some mark => (mark, 0)
    | none =>
      match numeral (c :: cs) with
      | [] => (stray, 0)
      | d :: ds => (number (String.ofList (d :: ds)), ds.length)

/-- Whether a character is dropped between tokens. -/
def isSpacing (c : Char) : Bool :=
  c == ' ' || c == '\t' || c == '\n' || c == '\r' || c == '\x0c'

/-- The lexemes of a text whose first `skip` characters belong to a token that
has been read. -/
def lexemesFrom : Nat → List Char → List Lexeme
  | _, [] => []
  | skip + 1, _ :: cs => lexemesFrom skip cs
  | 0, c :: cs =>
    if isSpacing c then lexemesFrom 0 cs
    else
      let (token, length) := read c cs
      ⟨token, c :: cs⟩ :: lexemesFrom length cs

def lexemes (cs : List Char) : List Lexeme :=
  lexemesFrom 0 cs

end Token

end DocComment
