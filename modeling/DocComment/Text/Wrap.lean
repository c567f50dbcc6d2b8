import DocComment.Text.Blank
import DocComment.Text.Cutter
import DocComment.Text.Lines

/-!
# Wrapping

A text is laid out in lines of a given number of cells. Its own line feeds are
kept. A word takes the blanks behind it along and goes to the next line if it
does not fit; only a word that fits no line is folded, and folding begins on a
line of its own. Every line is filled up to the full width.
-/

namespace DocComment.Text

/-- A line with its tabs replaced by spaces up to the next multiple of eight
cells, when the line begins at some cell. -/
def expandTabs : Nat → List Char → List Char
  | _, [] => []
  | cell, c :: cs =>
    if c = '\t' then
      let gap := 8 - cell % 8
      List.replicate gap ' ' ++ expandTabs (cell + gap) cs
    else c :: expandTabs (cell + charCells c) cs

/-! ## Words -/

/-- A text cut before each character that follows a blank and is none. -/
def cutWords : List Char → List (List Char)
  | [] => []
  | [c] => [[c]]
  | c :: d :: cs =>
    if isBlank c && !isBlank d then [c] :: cutWords (d :: cs) else consToLine c (cutWords (d :: cs))

/-- The words of a line with the blanks behind them; the first word has the
blanks at the start of the line too. A blank line has no words. -/
def words (line : List Char) : List (List Char) :=
  match cutWords (trimStart line) with
  | [] => []
  | first :: others => (line.takeWhile isBlank ++ first) :: others

/-- A word folded into pieces of at most the given width, when a part of the
first piece is filled already. -/
def fold (width : Nat) : Nat → List Char → List (List Char)
  | _, [] => [[]]
  | filled, c :: cs =>
    if filled + charCells c ≤ width then consToLine c (fold width (filled + charCells c) cs)
    else [] :: consToLine c (fold width (charCells c) cs)

/-! ## Lines -/

/-- Words laid out in lines, where `lines` are the lines so far, last one
first, and `filled` cells of the last one are taken. -/
def placeWords (width : Nat) : List (List Char) → Nat → List (List Char) → List (List Char)
  | lines, _, [] => lines.reverse
  | [], _, word :: words =>
    let pieces := fold width 0 word
    if cells (trimEnd word) ≤ width then placeWords width [word] (cells word) words
    else placeWords width pieces.reverse (cells (pieces.getLastD [])) words
  | line :: lines, filled, word :: words =>
    let pieces := fold width 0 word
    if filled + cells (trimEnd word) ≤ width then
      placeWords width ((line ++ word) :: lines) (filled + cells word) words
    else if cells (trimEnd word) ≤ width then
      placeWords width (word :: line :: lines) (cells word) words
    else
      placeWords width (pieces.reverse ++ line :: lines) (cells (pieces.getLastD [])) words

/-- The blanks at the end of a line that has more characters than the width are
taken away, as many as are too many. -/
def dropExcessBlanks (width : Nat) (line : List Char) : List Char :=
  let blanks := line.length - (trimEnd line).length
  line.take (line.length - min blanks (line.length - width))

/-- The lines that one line of a text is laid out in. -/
def wrapLine (width : Nat) (line : List Char) : List (List Char) :=
  let line := expandTabs 0 line
  match words line with
  | [] => [line]
  | words => placeWords width [] 0 words

/-- The lines that a text is laid out in. -/
def layOut (width : Nat) (cs : List Char) : List (List Char) :=
  ((splitAt '\n' cs).flatMap (wrapLine width)).map (dropExcessBlanks width)

/-- The lines that a text is laid out in, each of them fitted to the width. -/
def wrap (cutter : Cutter) (width : Nat) (cs : List Char) : List (List Char) :=
  (layOut width cs).map (fitCells cutter width)

end DocComment.Text
