import DocComment.Text.Emoji
import DocComment.Text.Lines

/-!
# Literal console text

The console gives a meaning to style tags, which are written between brackets.
Texts of a comment are shown literally, tags and all. The escaping that protects
the tags can be seen in two places: a backslash before a bracket that opens no
tag disappears, and a single backslash at the end of a text is shown twice.

A tag also bounds emoji codes: a code is read inside or outside of a tag, never
across its brackets.
-/

namespace DocComment.Text

/-- Whether a character behind an opening bracket begins a tag. -/
def isTagStart (c : Char) : Bool :=
  ('a' ≤ c && c ≤ 'z') || c == '#' || c == '/' || c == '@'

/-- The number of characters of a tag behind its opening bracket, closing
bracket included. -/
def tagLength? : List Char → Option Nat
  | [] => none
  | c :: cs =>
    let inner := cs.takeWhile fun d => d != '[' && d != ']'
    if isTagStart c && [']'].isPrefixOf (cs.drop inner.length) then some (inner.length + 2)
    else none

/-- A text cut at the borders of its tags; the first `tag` characters end a tag. -/
def tagPieces : Nat → List Char → List (List Char)
  | _, [] => [[]]
  | 1, c :: cs => [c] :: tagPieces 0 cs
  | tag + 2, c :: cs => consToLine c (tagPieces (tag + 1) cs)
  | 0, c :: cs =>
    match if c = '[' then tagLength? cs else none with
    | none => consToLine c (tagPieces 0 cs)
    | some length => [] :: consToLine c (tagPieces length cs)

/-- The text without the backslashes before brackets. -/
def dropEscapes : List Char → List Char
  | [] => []
  | '\\' :: '[' :: cs => '[' :: dropEscapes cs
  | c :: cs => c :: dropEscapes cs

/-- A single backslash at the end is doubled. -/
def doubleFinalBackslash (cs : List Char) : List Char :=
  if ['\\'].isSuffixOf cs && !(['\\', '\\'].isSuffixOf cs) then cs ++ ['\\'] else cs

/-- Whether the console leaves a control character out. -/
def isDropped (c : Char) : Bool :=
  c == '\x07' || c == '\x08' || c == '\x0b' || c == '\x0c' || c == '\r'

/-- A text as the console shows it. -/
def literal (table : EmojiTable) (cs : List Char) : List Char :=
  ((tagPieces 0 (doubleFinalBackslash cs)).flatMap fun piece =>
    replaceEmoji table (dropEscapes piece)).filter (!isDropped ·)

end DocComment.Text
