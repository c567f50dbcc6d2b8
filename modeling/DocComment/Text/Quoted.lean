import DocComment.Text.Classes

/-!
# Quoted text

Messages show the text that they complain about between quotes, so that its
ends and its invisible characters can be seen. Single quotes are the rule;
double quotes are used when the text holds a single quote and no double one. A
character without a glyph is written by the hexadecimal digits of its code point.
-/

namespace DocComment.Text

/-! ## Hexadecimal digits -/

/-- The digit of a value below sixteen, in lower case. -/
def hexDigit (n : Nat) : Char :=
  if n < 10 then Char.ofNat (0x30 + n) else Char.ofNat (0x57 + n)

/-- The last `width` hexadecimal digits of a number. -/
def hexDigits : Nat → Nat → List Char
  | 0, _ => []
  | width + 1, n => hexDigits width (n / 16) ++ [hexDigit (n % 16)]

/-! ## Quotes -/

/-- A character without a glyph, written as a backslash and its code point in
the shortest of three widths. -/
def escapeCode (c : Char) : List Char :=
  let n := c.toNat
  if n < 0x100 then '\\' :: 'x' :: hexDigits 2 n
  else if n < 0x10000 then '\\' :: 'u' :: hexDigits 4 n
  else '\\' :: 'U' :: hexDigits 8 n

/-- One character between quotes. -/
def quoteChar (quote c : Char) : List Char :=
  if c = quote || c = '\\' then ['\\', c]
  else if c = '\n' then ['\\', 'n']
  else if c = '\r' then ['\\', 'r']
  else if c = '\t' then ['\\', 't']
  else if isPrintable c then [c]
  else escapeCode c

/-- The quote that surrounds a text. -/
def quoteMark (cs : List Char) : Char :=
  if cs.contains '\'' && !cs.contains '"' then '"' else '\''

def quote (cs : List Char) : List Char :=
  let mark := quoteMark cs
  mark :: cs.flatMap (quoteChar mark) ++ [mark]

def quoted (s : String) : String :=
  String.ofList (quote s.toList)

/-- A list of texts between brackets, each of them quoted. -/
def quotedList (texts : List String) : String :=
  "[" ++ ", ".intercalate (texts.map quoted) ++ "]"

end DocComment.Text
