import DocComment.Record
import DocComment.Text.Literal
import DocComment.Text.Wrap

/-!
# Records as tables

A record is shown as a rule with the description and a table with one row for
each parameter and one for the result. Everything is eighty cells wide. The
columns have fixed widths, and cells are wrapped; the cells of a row start at
its top, and those of the header stand at its bottom.

The text is what is read on the screen. The sequences that a console puts between
its characters, for a rule in cyan and a header in bold, are left out.
-/

namespace DocComment

open Text

/-- What the text on a screen depends on besides the record. -/
structure Console where
  /-- What the console knows of emoji. -/
  emoji : EmojiTable := .smile
  /-- How it cuts lines that are too wide. -/
  cutter : Cutter := .keeping

namespace Table

/-- The width of a rule and of a table. -/
def width : Nat := 80

variable (console : Console)

/-! ## The rule -/

/-- The widest title that leaves room for a dash and a space on both sides. -/
def titleWidth : Nat := width - 4

/-- A title on one line; the end of a long title is replaced by an ellipsis. -/
def titleChars (title : List Char) : List Char :=
  let line :=
    expandTabs 0 ((literal console.emoji title).map fun c => if c = '\n' then ' ' else c)
  if cells line ≤ titleWidth then line
  else fitCells console.cutter (titleWidth - 1) line ++ ['…']

/-- A rule with its title in the middle. -/
def rule (title : List Char) : List Char :=
  let title := titleChars console title
  let side := (width - cells title) / 2
  -- the right side is drawn long enough and then cut
  fitCells console.cutter width <|
    List.replicate (side - 1) '-' ++ ' ' :: title ++ ' ' :: List.replicate (side + 1) '-'

/-! ## Columns and rows -/

/-- The headers of the columns and the widths of their texts. -/
def columns : List (String × Nat) :=
  [("name", 12), ("type", 19), ("optional", 5), ("description", 31)]

abbrev Row : Type := List (List Char)

def paramRow (param : Param) : Row :=
  [literal console.emoji param.name.toList, literal console.emoji param.type.chars,
    (if param.optional then "true" else "false").toList,
    literal console.emoji (param.description.getD "").toList]

def returnsRow (returns : Returns) : Row :=
  ["(returns)".toList, literal console.emoji returns.type.chars, [],
    literal console.emoji (returns.description.getD "").toList]

def rowsOf (record : Record) : List Row :=
  record.params.map (paramRow console) ++ (record.returns.map (returnsRow console)).toList

/-! ## Drawing -/

/-- The signs of a line of the frame: its left end, the stroke, the sign between
two columns and the right end. -/
structure Stroke where
  left : Char
  fill : Char
  middle : Char
  right : Char

/-- Parts between two ends, with a sign between each two of them. -/
def Stroke.around (stroke : Stroke) (parts : List (List Char)) : List Char :=
  stroke.left :: joinWith [stroke.middle] parts ++ [stroke.right]

/-- A line of the frame. -/
def Stroke.line (stroke : Stroke) : List Char :=
  stroke.around (columns.map fun column => List.replicate (column.2 + 2) stroke.fill)

def topEdge : Stroke := ⟨'┏', '━', '┳', '┓'⟩
def headerSides : Stroke := ⟨'┃', ' ', '┃', '┃'⟩
def headerEdge : Stroke := ⟨'┡', '━', '╇', '┩'⟩
def rowSides : Stroke := ⟨'│', ' ', '│', '│'⟩
def rowEdge : Stroke := ⟨'├', '─', '┼', '┤'⟩
def bottomEdge : Stroke := ⟨'└', '─', '┴', '┘'⟩

/-- The lines of a cell, filled up to a height with blank lines above or below. -/
def cellLines (atBottom : Bool) (height width : Nat) (lines : List (List Char)) :
    List (List Char) :=
  let blank := List.replicate (height - lines.length) (List.replicate width ' ')
  if atBottom then blank ++ lines else lines ++ blank

/-- The lines of a row, where each cell is given as its wrapped lines and its
width. -/
def drawCells (sides : Stroke) (atBottom : Bool) (wrapped : List (List (List Char) × Nat)) :
    List (List Char) :=
  let height := (wrapped.map (·.1.length)).foldl max 1
  let filled := wrapped.map fun cell => cellLines atBottom height cell.2 cell.1
  (List.range height).map fun n =>
    sides.around (filled.map fun lines => ' ' :: lines.getD n [] ++ [' '])

def drawRow (sides : Stroke) (atBottom : Bool) (row : Row) : List (List Char) :=
  drawCells sides atBottom <|
    row.zipWith (fun text column => (wrap console.cutter column.2 text, column.2)) columns

/-- The lines of the rows, with a line of the frame between each two of them. -/
def drawRows : List Row → List (List Char)
  | [] => []
  | [row] => drawRow console rowSides false row
  | row :: next :: rows =>
    drawRow console rowSides false row ++ rowEdge.line :: drawRows (next :: rows)

def tableLines (record : Record) : List (List Char) :=
  topEdge.line :: drawRow console headerSides true (columns.map (·.1.toList)) ++
    headerEdge.line :: drawRows console (rowsOf console record) ++ [bottomEdge.line]

/-- The lines that show a record. -/
def lines (record : Record) : List (List Char) :=
  rule console (record.description.getD "(no description)").toList :: tableLines console record

end Table

/-- The text that shows a record, with a line feed behind each line. -/
def Record.tableChars (console : Console) (record : Record) : List Char :=
  (Table.lines console record).flatMap (· ++ ['\n'])

end DocComment
