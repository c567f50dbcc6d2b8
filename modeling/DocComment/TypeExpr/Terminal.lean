import DocComment.TypeExpr.Token

/-!
# Terminals of the grammar

A terminal is what a rule asks for at one place. Most terminals are one mark;
the arrow and the ellipsis take several, and the words `function` and `typeof`
are names with a fixed text, so they can also be read as names.
-/

namespace DocComment

/-- A terminal of the grammar, in the order in which reports list them. -/
inductive Terminal where
  | bang
  | colon
  | comma
  | dot
  | equals
  | function
  | leftBrace
  | less
  | leftParen
  | leftBracket
  | greater
  | name
  | number
  | question
  | rightBrace
  | rightParen
  | rightBracket
  | star
  | string
  | typeOf
  | bar
  | ellipsis
  | arrow
deriving DecidableEq

namespace Terminal

/-- Every terminal once, in order. -/
def all : List Terminal :=
  [bang, colon, comma, dot, equals, function, leftBrace, less, leftParen, leftBracket, greater,
    name, number, question, rightBrace, rightParen, rightBracket, star, string, typeOf, bar,
    ellipsis, arrow]

/-- The word under which a report lists the terminal. -/
def label : Terminal → String
  | bang => "BANG"
  | colon => "COLON"
  | comma => "COMMA"
  | dot => "DOT"
  | equals => "EQUAL"
  | function => "FUNCTION"
  | leftBrace => "LBRACE"
  | less => "LESSTHAN"
  | leftParen => "LPAR"
  | leftBracket => "LSQB"
  | greater => "MORETHAN"
  | name => "NAME"
  | number => "NUMBER"
  | question => "QMARK"
  | rightBrace => "RBRACE"
  | rightParen => "RPAR"
  | rightBracket => "RSQB"
  | star => "STAR"
  | string => "STRING"
  | typeOf => "TYPEOF"
  | bar => "VBAR"
  | ellipsis => "__ANON_0"
  | arrow => "__ANON_1"

/-- The text that a terminal covers at the start of the tokens, and the tokens
behind it. An equals sign is also read where an arrow stands, and a dot where an
ellipsis stands: which of the two is meant is for the grammar to say. -/
def read? : Terminal → List Token → Option (String × List Token)
  | bang, .bang :: rest => some ("!", rest)
  | colon, .colon :: rest => some (":", rest)
  | comma, .comma :: rest => some (",", rest)
  | dot, .dot _ :: rest => some (".", rest)
  | equals, .equals _ :: rest => some ("=", rest)
  | function, .name text :: rest => if text = "function" then some (text, rest) else none
  | leftBrace, .leftBrace :: rest => some ("\x7b", rest)
  | less, .less :: rest => some ("<", rest)
  | leftParen, .leftParen :: rest => some ("(", rest)
  | leftBracket, .leftBracket :: rest => some ("[", rest)
  | greater, .greater :: rest => some (">", rest)
  | name, .name text :: rest => some (text, rest)
  | number, .number text :: rest => some (text, rest)
  | question, .question :: rest => some ("?", rest)
  | rightBrace, .rightBrace :: rest => some ("\x7d", rest)
  | rightParen, .rightParen :: rest => some (")", rest)
  | rightBracket, .rightBracket :: rest => some ("]", rest)
  | star, .star :: rest => some ("*", rest)
  | string, .string text :: rest => some (text, rest)
  | typeOf, .name text :: rest => if text = "typeof" then some (text, rest) else none
  | bar, .bar :: rest => some ("|", rest)
  | ellipsis, .dot true :: .dot _ :: .dot _ :: rest => some ("...", rest)
  | arrow, .equals true :: .greater :: rest => some ("=>", rest)
  | _, _ => none

/-- Reading a terminal takes at least one token. -/
theorem length_read?_lt {terminal : Terminal} {tokens rest : List Token} {text : String}
    (h : terminal.read? tokens = some (text, rest)) : rest.length < tokens.length := by
  unfold read? at h
  split at h <;> grind

end Terminal

end DocComment
