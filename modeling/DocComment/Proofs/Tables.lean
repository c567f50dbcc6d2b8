import DocComment.Command.Run
import DocComment.Proofs.Text.Literal
import DocComment.Proofs.Text.Wrapping
import Mathlib.Data.List.Forall2

/-!
# Tables

A table can be read back from what is printed. Each of its lines is as wide as the screen,
and each line of a row is cut at the widths of the columns (`readRow`). The pieces of a cell,
put together from top to bottom, are what is seen of its text (`readRow_drawRow`). Nothing is
lost where a text is wrapped or a long word is folded. So a table shows every cell in full, but
for what the console reads in a text and for marks that stand right where a line is cut, if
the console does not keep these (`tableChars_readRows`).
-/

namespace DocComment.Table

open Text

variable {console : Console} {cutter : Cutter} {width : Nat} {cs : List Char} {row : Row}

/-! ## Reading tables -/

/-- As many characters as take the given number of cells, and what is behind them. -/
def cutCells : Nat → List Char → List Char × List Char
  | _, [] => ([], [])
  | width, c :: cs =>
    if charCells c ≤ width then
      (c :: (cutCells (width - charCells c) cs).1, (cutCells (width - charCells c) cs).2)
    else ([], c :: cs)

/-- The ink of the cells of a row that is drawn on some lines, for columns of the given
widths. In front of each column is a border. -/
def readRow : List Nat → List (List Char) → Row
  | [], _ => []
  | width :: widths, lines =>
    ink (lines.flatMap fun line => (cutCells width line.tail).1) ::
      readRow widths (lines.map fun line => (cutCells width line.tail).2)

/-- The widths of the columns with a space on both sides. -/
def columnWidths : List Nat :=
  columns.map (·.2 + 2)

/-- The ink of the rows that are drawn on some lines, with a line of the frame between each
two of them. -/
def readRows (lines : List (List Char)) : List Row :=
  ((lines.splitOnP fun line => line.head? == some '├').filter (· ≠ [])).map (readRow columnWidths)

/-- The lines of a printed table that begin with one of the given signs. -/
def linesFrom (firsts : List Char) (printed : List Char) : List (List Char) :=
  (splitAt '\n' printed).filter fun line => line.head?.any (firsts.contains ·)

def headerLines (printed : List Char) : List (List Char) :=
  linesFrom ['┃'] printed

/-- The lines of the rows of a printed table, and those between two rows. -/
def bodyLines (printed : List Char) : List (List Char) :=
  linesFrom ['│', '├'] printed

theorem cutCells_append (h : cells cs = width) {c : Char} (hc : 0 < charCells c)
    (rest : List Char) : cutCells width (cs ++ c :: rest) = (cs, c :: rest) := by
  induction cs generalizing width with
  | nil =>
    subst h
    rw [List.nil_append, cutCells, cells_nil, if_neg (Nat.not_le.mpr hc)]
  | cons d cs ih =>
    rw [cells_cons] at h
    rw [List.cons_append, cutCells, if_pos (by omega), ih (by omega)]

/-! ## Drawing -/

/-- A column of a row: its width, and its text on each line. -/
abbrev Column : Type := Nat × (Nat → List Char)

/-- A column is read from the front of the lines, and the others from what is behind it. -/
theorem readRow_column {column : Column} {height : Nat} {next : Char} (hnext : 0 < charCells next)
    (h : ∀ n < height, cells (column.2 n) = column.1) (widths : List Nat) (border : Char)
    (rest : Nat → List Char) :
    readRow (column.1 :: widths)
        ((List.range height).map fun n => border :: (column.2 n ++ next :: rest n)) =
      ink ((List.range height).flatMap column.2) ::
        readRow widths ((List.range height).map fun n => next :: rest n) := by
  have hcut : ∀ n ∈ List.range height,
      cutCells column.1 (column.2 n ++ next :: rest n) = (column.2 n, next :: rest n) :=
    fun n hn => cutCells_append (h n (List.mem_range.mp hn)) hnext (rest n)
  rw [readRow, List.flatMap_map, List.map_map]
  congr 1
  · refine congrArg ink (List.flatMap_congr ?_)
    intro n hn
    rw [List.tail_cons, hcut n hn]
  · congr 1
    refine List.map_congr_left ?_
    intro n hn
    rw [Function.comp_apply, List.tail_cons, hcut n hn]

/-- Columns that keep their widths are read from lines with a border between each two of
them. -/
theorem readRow_bordered {height : Nat} {middle right : Char} (hmiddle : 0 < charCells middle)
    (hright : 0 < charCells right) {drawn : List Column}
    (h : ∀ column ∈ drawn, ∀ n < height, cells (column.2 n) = column.1) (border : Char) :
    readRow (drawn.map (·.1))
        ((List.range height).map fun n =>
          border :: joinWith [middle] (drawn.map (·.2 n)) ++ [right]) =
      drawn.map fun column => ink ((List.range height).flatMap column.2) := by
  induction drawn generalizing border with
  | nil => rfl
  | cons column drawn ih =>
    obtain ⟨hcolumn, hdrawn⟩ := List.forall_mem_cons.mp h
    -- behind the last column stands the right border, behind any other the middle one
    cases drawn with
    | nil => exact readRow_column hright hcolumn [] border fun _ => []
    | cons next drawn =>
      have hline (n : Nat) :
          border :: joinWith [middle] ((column :: next :: drawn).map (·.2 n)) ++ [right] =
            border :: (column.2 n ++
              (middle :: joinWith [middle] ((next :: drawn).map (·.2 n)) ++ [right])) := by
        simp [joinWith]
      simp only [hline]
      exact (readRow_column hmiddle hcolumn _ border _).trans (congrArg _ (ih hdrawn middle))

/-- Lines that are read one by one by their numbers are all of the lines. -/
theorem flatMap_range_getD {lines : List (List Char)} {height : Nat} (h : lines.length = height) :
    (List.range height).flatMap (lines.getD · []) = lines.flatten := by
  subst h
  rw [List.flatMap_def]
  congr 1
  apply List.ext_getElem
  · simp
  · intro n _ hn
    simp [hn]

theorem le_foldl_max {ns : List Nat} (n : Nat) :
    n ≤ ns.foldl max n ∧ ∀ m ∈ ns, m ≤ ns.foldl max n := by
  induction ns generalizing n with
  | nil => exact ⟨Nat.le_refl n, nofun⟩
  | cons k ns ih =>
    obtain ⟨hstart, hall⟩ := ih (max n k)
    rw [List.foldl_cons]
    refine ⟨(Nat.le_max_left n k).trans hstart, ?_⟩
    exact List.forall_mem_cons.mpr ⟨(Nat.le_max_right n k).trans hstart, hall⟩

section

variable {atBottom : Bool} {height : Nat} {lines : List (List Char)}

/-- The lines of a cell fill the height of its row. -/
theorem length_cellLines (h : lines.length ≤ height) :
    (cellLines atBottom height width lines).length = height := by
  cases atBottom
  all_goals
    simp [cellLines]
    omega

theorem ink_cellLines :
    ink (cellLines atBottom height width lines).flatten = ink lines.flatten := by
  cases atBottom <;> simp [cellLines]

/-- The lines of a cell are its own or blank. -/
theorem mem_cellLines {line : List Char} (h : line ∈ cellLines atBottom height width lines) :
    line ∈ lines ∨ line = List.replicate width ' ' := by
  cases atBottom
  all_goals
    rcases List.mem_append.mp h with h | h
  · exact .inl h
  · exact .inr (List.eq_of_mem_replicate h)
  · exact .inr (List.eq_of_mem_replicate h)
  · exact .inl h

theorem cells_of_mem_cellLines {line : List Char} (h : ∀ line ∈ lines, cells line = width)
    (hline : line ∈ cellLines atBottom height width lines) : cells line = width := by
  rcases mem_cellLines hline with hline | rfl
  · exact h line hline
  · exact cells_replicate_space width

end

/-! ## Rows -/

/-- A stroke all of whose signs take one cell. -/
def Stroke.Narrow (stroke : Stroke) : Prop :=
  charCells stroke.left = 1 ∧ charCells stroke.fill = 1 ∧ charCells stroke.middle = 1 ∧
    charCells stroke.right = 1

instance (stroke : Stroke) : Decidable stroke.Narrow :=
  inferInstanceAs (Decidable (_ ∧ _))

/-- Each sign of the frame takes one column of the screen. -/
theorem narrow_of_mem :
    ∀ stroke ∈ [topEdge, headerSides, headerEdge, rowSides, rowEdge, bottomEdge],
      stroke.Narrow := by
  decide +kernel

/-- A wrapped cell: its lines and their width. -/
abbrev Cell : Type := List (List Char) × Nat

def rowHeight (wrapped : List Cell) : Nat :=
  (wrapped.map (·.1.length)).foldl max 1

/-- A wrapped cell as a column of a row, with a space on both sides. -/
def column (atBottom : Bool) (height : Nat) (cell : Cell) : Column :=
  (cell.2 + 2, fun n => ' ' :: (cellLines atBottom height cell.2 cell.1).getD n [] ++ [' '])

/-- A row is drawn line by line, across its cells. -/
theorem drawCells_eq (sides : Stroke) (atBottom : Bool) (wrapped : List Cell) :
    drawCells sides atBottom wrapped = (List.range (rowHeight wrapped)).map fun n =>
      sides.around ((wrapped.map (column atBottom (rowHeight wrapped))).map (·.2 n)) := by
  simp only [drawCells, List.map_map]
  rfl

theorem length_le_rowHeight {wrapped : List Cell} :
    ∀ cell ∈ wrapped, cell.1.length ≤ rowHeight wrapped := by
  intro cell hcell
  exact (le_foldl_max 1).2 _ (List.mem_map_of_mem hcell)

section

variable {atBottom : Bool} {height n : Nat} {cell : Cell}

/-- On each line of the row a column has a line of its cell or a blank one. -/
theorem exists_line_column (h : cell.1.length ≤ height) (hn : n < height) :
    ∃ line ∈ cellLines atBottom height cell.2 cell.1,
      (column atBottom height cell).2 n = ' ' :: line ++ [' '] := by
  have hlength : (cellLines atBottom height cell.2 cell.1).length = height := length_cellLines h
  rw [← hlength] at hn
  refine ⟨_, List.getElem_mem hn, ?_⟩
  simp only [column]
  rw [List.getD_eq_getElem?_getD, List.getElem?_eq_getElem hn, Option.getD_some]

theorem cells_column (h : cell.1.length ≤ height) (hlines : ∀ line ∈ cell.1, cells line = cell.2)
    (hn : n < height) : cells ((column atBottom height cell).2 n) = cell.2 + 2 := by
  obtain ⟨line, hline, heq⟩ := exists_line_column h hn
  have hcells : cells line = cell.2 := cells_of_mem_cellLines hlines hline
  have hspace : charCells ' ' = 1 := rfl
  rw [heq, cells_append, cells_cons, cells_cons, cells_nil, hcells, hspace]
  omega

theorem newline_notMem_column (h : cell.1.length ≤ height) (hlines : ∀ line ∈ cell.1, '\n' ∉ line)
    (hn : n < height) : '\n' ∉ (column atBottom height cell).2 n := by
  obtain ⟨line, hline, heq⟩ := exists_line_column h hn
  have hnewline : '\n' ∉ line := by
    rcases mem_cellLines hline with hline | rfl
    · exact hlines line hline
    · simp
  rw [heq]
  simp [hnewline]

/-- A column has the ink of its cell. -/
theorem ink_column (h : cell.1.length ≤ height) :
    ink ((List.range height).flatMap (column atBottom height cell).2) = ink cell.1.flatten := by
  have hspaces : ∀ n ∈ List.range height, ink ((column atBottom height cell).2 n) =
      ink ((cellLines atBottom height cell.2 cell.1).getD n []) := by
    intro n _
    rw [column, ink_append, ink_cons_of_blank rfl]
    exact List.append_nil _
  rw [ink_flatMap hspaces, flatMap_range_getD (length_cellLines h), ink_cellLines]

end

/-- The cells of a row are read from its lines: each of them as its own lines, put
together. -/
theorem readRow_drawCells {sides : Stroke} (hsides : sides.Narrow) (atBottom : Bool)
    {wrapped : List Cell} (h : ∀ cell ∈ wrapped, ∀ line ∈ cell.1, cells line = cell.2) :
    readRow (wrapped.map (·.2 + 2)) (drawCells sides atBottom wrapped) =
      wrapped.map fun cell => ink cell.1.flatten := by
  have hwidth : ∀ drawn ∈ wrapped.map (column atBottom (rowHeight wrapped)),
      ∀ n < rowHeight wrapped, cells (drawn.2 n) = drawn.1 := by
    rw [List.forall_mem_map]
    intro cell hcell n hn
    exact cells_column (length_le_rowHeight cell hcell) (h cell hcell) hn
  obtain ⟨-, -, hmiddle, hright⟩ := hsides
  have hread := readRow_bordered (hmiddle ▸ Nat.one_pos) (hright ▸ Nat.one_pos) hwidth sides.left
  rw [List.map_map, List.map_map] at hread
  rw [drawCells_eq]
  refine hread.trans (List.map_congr_left ?_)
  intro cell hcell
  exact ink_column (length_le_rowHeight cell hcell)

/-- The texts of a row, wrapped in its columns. -/
def wrapRow (cutter : Cutter) (row : Row) : List Cell :=
  row.zipWith (fun text column => (wrap cutter column.2 text, column.2)) columns

/-- The ink that is seen of a row: of each cell the lines, put together. -/
def shownRow (cutter : Cutter) (row : Row) : Row :=
  (columns.zip row).map fun cell => ink (wrap cutter cell.1.2 cell.2).flatten

theorem map_ink_wrapRow (cutter : Cutter) (row : Row) :
    ((wrapRow cutter row).map fun cell => ink cell.1.flatten) = shownRow cutter row := by
  rw [wrapRow, shownRow, List.zipWith_comm, List.map_zipWith, List.zip, List.map_zipWith]

/-- Cells are wrapped to lines that fill their columns. -/
theorem wrapRow_lines :
    ∀ cell ∈ wrapRow cutter row, ∀ line ∈ cell.1, cells line = cell.2 ∧ '\n' ∉ line := by
  intro cell hcell line hline
  obtain ⟨n, hn, hget⟩ := List.mem_iff_getElem.mp hcell
  simp only [wrapRow, List.getElem_zipWith] at hget
  subst hget
  exact ⟨cells_of_mem_wrap hline, newline_notMem_of_mem_wrap hline⟩

/-- Every column is wide enough for a wide character. -/
theorem two_le_of_mem_zip : ∀ cell ∈ columns.zip row, 2 ≤ cell.1.2 := by
  intro cell hcell
  have hcolumns : ∀ column ∈ columns, 2 ≤ column.2 := by decide
  exact hcolumns cell.1 (List.of_mem_zip hcell).1

variable (hrow : row.length = columns.length)

include hrow

theorem widths_wrapRow (cutter : Cutter) :
    (wrapRow cutter row).map (·.2 + 2) = columnWidths := by
  match row, hrow with
  | [_, _, _, _], _ => rfl

/-- The cells of a row of the table are read from the lines it is drawn on. -/
theorem readRow_drawRow {sides : Stroke} (hsides : sides.Narrow) (atBottom : Bool) :
    readRow columnWidths (drawRow console sides atBottom row) = shownRow console.cutter row := by
  have hcells : ∀ cell ∈ wrapRow console.cutter row, ∀ line ∈ cell.1, cells line = cell.2 := by
    intro cell hcell line hline
    exact (wrapRow_lines cell hcell line hline).1
  have hread := readRow_drawCells hsides atBottom hcells
  rwa [widths_wrapRow hrow, map_ink_wrapRow] at hread

/-- A row is seen in full where no mark stands at a cut of one of its lines, or where the
console keeps marks. -/
theorem shownRow_eq (h : cutter.KeepsAll ∨ ∀ cell ∈ columns.zip row,
    ∀ line ∈ layOut cell.1.2 cell.2, ¬ MarkAtCut cell.1.2 line) :
    shownRow cutter row = row.map ink := by
  have hcell : ∀ cell ∈ columns.zip row,
      ink (wrap cutter cell.1.2 cell.2).flatten = ink cell.2 := by
    intro cell hcell
    exact ink_wrap (two_le_of_mem_zip cell hcell) (h.imp_right (· cell hcell))
  calc shownRow cutter row
      = ((columns.zip row).map (·.2)).map ink := by
        rw [shownRow, List.map_congr_left hcell, List.map_map]
        rfl
    _ = row.map ink := by rw [List.map_snd_zip hrow.le]

omit hrow

/-! ## Lines -/

/-- A line feed takes no cell. -/
theorem ne_newline_of_charCells {sign : Char} (h : charCells sign = 1) : '\n' ≠ sign := by
  rintro rfl
  cases h

/-- A line of the table: it is as wide as the screen and nothing in it ends it. -/
structure Drawn (first : Char) (line : List Char) : Prop where
  cells : Text.cells line = Table.width
  unbroken : '\n' ∉ line
  first : line.head? = some first

theorem cells_replicate (n : Nat) (c : Char) : cells (List.replicate n c) = n * charCells c := by
  induction n with
  | zero => simp
  | succ n ih =>
    rw [List.replicate_succ, cells_cons, ih, Nat.succ_mul, Nat.add_comm]

/-- Joined parts are as wide as all parts and the signs between them. -/
theorem cells_joinWith {sign : Char} (hsign : charCells sign = 1) (parts : List (List Char)) :
    cells (joinWith [sign] parts) =
      (parts.map cells).foldr (· + ·) 0 + (parts.length - 1) := by
  induction parts with
  | nil => rfl
  | cons part parts ih =>
    cases parts with
    | nil => simp [joinWith]
    | cons next parts =>
      simp only [joinWith, cells_append, ih, cells_cons, hsign, cells_nil, List.map_cons,
        List.foldr_cons, List.length_cons]
      omega

theorem mem_joinWith {sign c : Char} {parts : List (List Char)} (h : c ∈ joinWith [sign] parts) :
    c = sign ∨ ∃ part ∈ parts, c ∈ part := by
  induction parts with
  | nil => cases h
  | cons part parts ih =>
    cases parts with
    | nil => exact .inr ⟨part, List.mem_cons_self, h⟩
    | cons next parts =>
      rw [joinWith, List.mem_append, List.mem_append, List.mem_singleton] at h
      rcases h with (h | h) | h
      · exact .inr ⟨part, List.mem_cons_self, h⟩
      · exact .inl h
      · refine (ih h).imp_right ?_
        rintro ⟨found, hfound, hc⟩
        exact ⟨found, List.mem_cons_of_mem part hfound, hc⟩

/-- Parts as wide as the columns make a line as wide as the screen. -/
theorem Stroke.Narrow.drawn {stroke : Stroke} (h : stroke.Narrow) {parts : List (List Char)}
    (hparts : parts.map cells = columnWidths) (hunbroken : ∀ part ∈ parts, '\n' ∉ part) :
    Drawn stroke.left (stroke.around parts) := by
  obtain ⟨hleft, -, hmiddle, hright⟩ := h
  constructor
  · have hcount : parts.length = columnWidths.length := by rw [← hparts, List.length_map]
    have hsum : columnWidths.foldr (· + ·) 0 + (columnWidths.length - 1) + 2 = Table.width := rfl
    rw [Stroke.around, cells_append, cells_cons, cells_cons, cells_nil, hleft, hright,
      cells_joinWith hmiddle, hparts, hcount]
    omega
  · intro hmem
    rw [Stroke.around, List.mem_append, List.mem_cons, List.mem_singleton] at hmem
    -- no sign of the frame is a line feed
    rcases hmem with (hmem | hmem) | hmem
    · exact ne_newline_of_charCells hleft hmem
    · rcases mem_joinWith hmem with hmem | ⟨part, hpart, hmem⟩
      · exact ne_newline_of_charCells hmiddle hmem
      · exact hunbroken part hpart hmem
    · exact ne_newline_of_charCells hright hmem
  · rfl

theorem Stroke.Narrow.drawn_line {stroke : Stroke} (h : stroke.Narrow) :
    Drawn stroke.left stroke.line := by
  have hfill : charCells stroke.fill = 1 := h.2.1
  apply h.drawn
  · rw [List.map_map, columnWidths]
    refine List.map_congr_left ?_
    intro column _
    rw [Function.comp_apply, cells_replicate, hfill, Nat.mul_one]
  · rw [List.forall_mem_map]
    intro column _ hmem
    exact ne_newline_of_charCells hfill (List.eq_of_mem_replicate hmem)

/-- All lines of a row keep to the screen and begin with the sign of the row. -/
theorem Stroke.Narrow.drawn_row {sides : Stroke} (h : sides.Narrow) (atBottom : Bool)
    (hrow : row.length = columns.length) :
    ∀ line ∈ drawRow console sides atBottom row, Drawn sides.left line := by
  intro line hline
  change line ∈ drawCells sides atBottom (wrapRow console.cutter row) at hline
  rw [drawCells_eq] at hline
  obtain ⟨n, hn, rfl⟩ := List.mem_map.mp hline
  rw [List.mem_range] at hn
  apply h.drawn
  · rw [← widths_wrapRow hrow console.cutter, List.map_map, List.map_map]
    refine List.map_congr_left ?_
    intro cell hcell
    exact cells_column (length_le_rowHeight cell hcell)
      (fun line hline => (wrapRow_lines cell hcell line hline).1) hn
  · rw [List.map_map, List.forall_mem_map]
    intro cell hcell
    exact newline_notMem_column (length_le_rowHeight cell hcell)
      (fun line hline => (wrapRow_lines cell hcell line hline).2) hn

/-- A row has at least one line. -/
theorem drawRow_ne_nil (console : Console) (sides : Stroke) (atBottom : Bool) (row : Row) :
    drawRow console sides atBottom row ≠ [] := by
  have hheight : 1 ≤ rowHeight (wrapRow console.cutter row) := (le_foldl_max 1).1
  intro hnil
  have hlength := congrArg List.length hnil
  change (drawCells sides atBottom (wrapRow console.cutter row)).length = 0 at hlength
  rw [drawCells_eq, List.length_map, List.length_range] at hlength
  omega

/-! ## The body of a table -/

/-- The body is cut into its rows where a line of the frame stands between two of them. -/
theorem splitOnP_drawRows {rows : List Row} (h : ∀ row ∈ rows, row.length = columns.length)
    (hne : rows ≠ []) :
    (drawRows console rows).splitOnP (fun line => line.head? == some '├') =
      rows.map (drawRow console rowSides false) := by
  have hrow (row : Row) (hrow : row.length = columns.length) :
      (drawRow console rowSides false row).splitOnP (fun line => line.head? == some '├') =
        [drawRow console rowSides false row] := by
    apply List.splitOnP_eq_singleton
    intro line hline
    have hdrawn := (narrow_of_mem rowSides (by simp)).drawn_row false hrow line hline
    rw [hdrawn.first]
    rfl
  induction rows with
  | nil => exact absurd rfl hne
  | cons row rows ih =>
    obtain ⟨hfirst, hothers⟩ := List.forall_mem_cons.mp h
    -- only the line between two rows begins with the sign that is looked for
    cases rows with
    | nil => exact hrow row hfirst
    | cons next rows =>
      rw [drawRows, List.splitOnP_append_cons _ _ rfl, hrow row hfirst,
        ih hothers (List.cons_ne_nil _ _)]
      rfl

/-- The rows of a table are read from its body. -/
theorem readRows_drawRows {rows : List Row} (h : ∀ row ∈ rows, row.length = columns.length) :
    readRows (drawRows console rows) = rows.map (shownRow console.cutter) := by
  by_cases hne : rows = []
  · subst hne
    rfl
  have hnarrow : rowSides.Narrow := narrow_of_mem rowSides (by simp)
  have hfilter : (rows.map (drawRow console rowSides false)).filter (· ≠ []) =
      rows.map (drawRow console rowSides false) := by
    rw [List.filter_eq_self]
    intro lines hlines
    obtain ⟨row, -, rfl⟩ := List.mem_map.mp hlines
    simpa using drawRow_ne_nil console rowSides false row
  rw [readRows, splitOnP_drawRows h hne, hfilter, List.map_map]
  refine List.map_congr_left ?_
  intro row hrow
  exact readRow_drawRow (h row hrow) hnarrow false

/-- A line of the body of a table belongs to a row or stands between two rows. -/
theorem drawn_of_mem_drawRows {rows : List Row} (h : ∀ row ∈ rows, row.length = columns.length) :
    ∀ line ∈ drawRows console rows, Drawn '│' line ∨ Drawn '├' line := by
  have hsides : rowSides.Narrow := narrow_of_mem rowSides (by simp)
  have hedge : rowEdge.Narrow := narrow_of_mem rowEdge (by simp)
  fun_induction drawRows console rows with
  | case1 => exact nofun
  | case2 row =>
    intro line hline
    exact .inl (hsides.drawn_row false (h row List.mem_cons_self) line hline)
  | case3 row next rows ih =>
    obtain ⟨hfirst, hothers⟩ := List.forall_mem_cons.mp h
    intro line hline
    rcases List.mem_append.mp hline with hline | hline
    · exact .inl (hsides.drawn_row false hfirst line hline)
    · rcases List.mem_cons.mp hline with rfl | hline
      · exact .inr hedge.drawn_line
      · exact ih hothers line hline

/-! ## The rule -/

/-- A title stays on one line. -/
theorem newline_notMem_titleChars (console : Console) (title : List Char) :
    '\n' ∉ titleChars console title := by
  have hline : '\n' ∉
      expandTabs 0 ((literal console.emoji title).map fun c => if c = '\n' then ' ' else c) := by
    intro hmem
    rcases mem_expandTabs hmem with hmem | hmem
    · obtain ⟨c, -, hc⟩ := List.mem_map.mp hmem
      split at hc
      · cases hc
      · next hother => exact hother hc
    · cases hmem
  rw [titleChars]
  split
  · exact hline
  · intro hmem
    rcases List.mem_append.mp hmem with hmem | hmem
    · rcases mem_fitCells hmem with hmem | hmem
      · exact hline hmem
      · cases hmem
    · cases List.mem_singleton.mp hmem

/-- A title leaves room for the rule. -/
theorem cells_titleChars_le (console : Console) (title : List Char) :
    cells (titleChars console title) ≤ titleWidth := by
  have hellipsis : charCells '…' = 1 := by decide +kernel
  rw [titleChars]
  split
  · next hfits => exact hfits
  · rw [cells_append, cells_fitCells, cells_cons, cells_nil, hellipsis]
    decide

/-- The rule is a line as wide as the screen that begins with a dash, whatever its title
is. -/
theorem drawn_rule (console : Console) (title : List Char) :
    Drawn '-' (rule console title) := by
  constructor
  · exact cells_fitCells _ _ _
  · intro hmem
    rcases mem_fitCells hmem with hmem | hmem
    · have htitle := newline_notMem_titleChars console title
      simp [htitle] at hmem
    · cases hmem
  · -- the title leaves room for a dash in front of it
    have hside : ∃ n, (Table.width - cells (titleChars console title)) / 2 - 1 = n + 1 := by
      have hfits := cells_titleChars_le console title
      have hroom : Table.width = titleWidth + 4 := rfl
      exact ⟨(Table.width - cells (titleChars console title)) / 2 - 2, by omega⟩
    obtain ⟨n, hn⟩ := hside
    simp only [rule, hn, List.replicate_succ, List.cons_append]
    exact head?_fitCells (by decide) '-' _

/-! ## Records -/

/-- The texts of a table, row by row, as the record has them. -/
def plainRows (record : Record) : List Row :=
  record.params.map (fun param =>
    [param.name.toList, param.type.chars, (if param.optional then "true" else "false").toList,
      (param.description.getD "").toList]) ++
  (record.returns.map fun returns =>
    ["(returns)".toList, returns.type.chars, [], (returns.description.getD "").toList]).toList

/-- The texts of a record that are shown in its table. -/
def texts (record : Record) : List (List Char) :=
  record.params.flatMap (fun param =>
    [param.name.toList, param.type.chars, (param.description.getD "").toList]) ++
  record.returns.toList.flatMap fun returns =>
    [returns.type.chars, (returns.description.getD "").toList]

/-- A text without the control characters that the console leaves out. -/
def keptChars (cs : List Char) : List Char :=
  cs.filter (!isDropped ·)

/-- What is seen of a text: neither blanks nor the control characters that the console leaves
out. -/
def visible (cs : List Char) : List Char :=
  cs.filter fun c => !isBlank c && !isDropped c

theorem ink_keptChars (cs : List Char) : ink (keptChars cs) = visible cs := by
  rw [ink, keptChars, List.filter_filter, visible]

theorem length_of_mem_rowsOf {record : Record} :
    ∀ row ∈ rowsOf console record, row.length = columns.length := by
  intro row hrow
  rw [rowsOf, Option.toList_map, List.mem_append, List.mem_map, List.mem_map] at hrow
  rcases hrow with ⟨param, -, rfl⟩ | ⟨returns, -, rfl⟩ <;> rfl

/-- Where the console has nothing to read in the texts, the rows hold them as they are, but for
what it leaves out. -/
theorem rowsOf_eq {record : Record} (h : ∀ text ∈ texts record, Plain console.emoji text) :
    rowsOf console record = (plainRows record).map (·.map keptChars) := by
  have hword (optional : Bool) : keptChars (if optional then "true" else "false").toList =
      (if optional then "true" else "false").toList := by
    cases optional <;> decide
  have hlabel : keptChars "(returns)".toList = "(returns)".toList := by decide
  have hnone : keptChars [] = [] := rfl
  have hliteral : ∀ text ∈ texts record, literal console.emoji text = keptChars text :=
    fun text htext => literal_of_plain (h text htext)
  -- the fixed words are left as they are; every other cell is a text of the record
  have hparams : ∀ param ∈ record.params, paramRow console param =
      [param.name.toList, param.type.chars, (if param.optional then "true" else "false").toList,
        (param.description.getD "").toList].map keptChars := by
    intro param hparam
    have htexts : ∀ text ∈ [param.name.toList, param.type.chars,
        (param.description.getD "").toList], literal console.emoji text = keptChars text :=
      fun text htext =>
        hliteral text (List.mem_append_left _ (List.mem_flatMap_of_mem hparam htext))
    simp only [List.forall_mem_cons] at htexts
    obtain ⟨hname, htype, hdescription, -⟩ := htexts
    simp only [paramRow, List.map_cons, List.map_nil, hname, htype, hdescription, hword]
  have hreturns : ∀ returns ∈ record.returns.toList, returnsRow console returns =
      ["(returns)".toList, returns.type.chars, [], (returns.description.getD "").toList].map
        keptChars := by
    intro returns hmem
    have htexts : ∀ text ∈ [returns.type.chars, (returns.description.getD "").toList],
        literal console.emoji text = keptChars text :=
      fun text htext =>
        hliteral text (List.mem_append_right _ (List.mem_flatMap_of_mem hmem htext))
    simp only [List.forall_mem_cons] at htexts
    obtain ⟨htype, hdescription, -⟩ := htexts
    simp only [returnsRow, List.map_cons, List.map_nil, htype, hdescription, hlabel, hnone]
  rw [rowsOf, plainRows, List.map_append, List.map_map, Option.toList_map, Option.toList_map,
    List.map_map]
  -- the parameters, then the result
  congr 1
  · exact List.map_congr_left hparams
  · exact List.map_congr_left hreturns

/-- The lines of a table are those of the rule, the frame, the header and the body. -/
theorem drawn_of_mem_lines (console : Console) (record : Record) :
    Drawn '-' (rule console (record.description.getD "(no description)").toList) ∧
      Drawn '┏' topEdge.line ∧
      (∀ line ∈ drawRow console headerSides true (columns.map (·.1.toList)), Drawn '┃' line) ∧
      Drawn '┡' headerEdge.line ∧
      (∀ line ∈ drawRows console (rowsOf console record), Drawn '│' line ∨ Drawn '├' line) ∧
      Drawn '└' bottomEdge.line := by
  refine ⟨drawn_rule console _, ?_, ?_, ?_, drawn_of_mem_drawRows length_of_mem_rowsOf, ?_⟩
  · exact (narrow_of_mem topEdge (by simp)).drawn_line
  · exact (narrow_of_mem headerSides (by simp)).drawn_row true rfl
  · exact (narrow_of_mem headerEdge (by simp)).drawn_line
  · exact (narrow_of_mem bottomEdge (by simp)).drawn_line

/-- All lines of a table keep to the screen. -/
theorem cells_of_mem_lines (console : Console) (record : Record) :
    ∀ line ∈ lines console record, cells line = Table.width ∧ '\n' ∉ line := by
  obtain ⟨hrule, htop, hheader, hedge, hbody, hbottom⟩ := drawn_of_mem_lines console record
  have hdrawn {first : Char} {line : List Char} (h : Drawn first line) :
      cells line = Table.width ∧ '\n' ∉ line :=
    ⟨h.cells, h.unbroken⟩
  intro line hline
  simp only [lines, tableLines, List.mem_cons, List.mem_append, List.cons_append,
    List.not_mem_nil, or_false] at hline
  rcases hline with rfl | rfl | (hline | rfl | hline) | rfl
  · exact hdrawn hrule
  · exact hdrawn htop
  · exact hdrawn (hheader line hline)
  · exact hdrawn hedge
  · rcases hbody line hline with h | h
    · exact hdrawn h
    · exact hdrawn h
  · exact hdrawn hbottom

theorem splitAt_tableChars (console : Console) (record : Record) :
    splitAt '\n' (record.tableChars console) = lines console record ++ [[]] :=
  splitAt_flatMap_append fun line hline => (cells_of_mem_lines console record line hline).2

theorem filter_eq_self_of_drawn {firsts : List Char} {lines : List (List Char)}
    (h : ∀ line ∈ lines, ∃ first ∈ firsts, Drawn first line) :
    lines.filter (fun line => line.head?.any (firsts.contains ·)) = lines := by
  rw [List.filter_eq_self]
  intro line hline
  obtain ⟨first, hmem, hdrawn⟩ := h line hline
  rw [hdrawn.first, Option.any_some]
  exact List.contains_iff_mem.mpr hmem

theorem filter_eq_nil_of_drawn {firsts : List Char} {lines : List (List Char)}
    (h : ∀ line ∈ lines, ∃ first, first ∉ firsts ∧ Drawn first line) :
    lines.filter (fun line => line.head?.any (firsts.contains ·)) = [] := by
  rw [List.filter_eq_nil_iff]
  intro line hline
  obtain ⟨first, hmem, hdrawn⟩ := h line hline
  rw [hdrawn.first, Option.any_some, List.contains_iff_mem]
  exact hmem

/-- The first sign of a line says which part of the table it belongs to. -/
theorem linesFrom_tableChars (console : Console) (record : Record) :
    headerLines (record.tableChars console) =
        drawRow console headerSides true (columns.map (·.1.toList)) ∧
      bodyLines (record.tableChars console) = drawRows console (rowsOf console record) := by
  obtain ⟨hrule, htop, hheader, hedge, hbody, hbottom⟩ := drawn_of_mem_lines console record
  simp only [headerLines, bodyLines, linesFrom, splitAt_tableChars, lines, tableLines,
    List.filter_append, List.filter_cons, List.cons_append, hrule.first, htop.first, hedge.first,
    hbottom.first]
  -- the frame of the header is heavier than that of the body
  constructor
  · rw [filter_eq_self_of_drawn, filter_eq_nil_of_drawn]
    · exact List.append_nil _
    · intro line hline
      rcases hbody line hline with h | h
      · exact ⟨_, by decide, h⟩
      · exact ⟨_, by decide, h⟩
    · intro line hline
      exact ⟨_, List.mem_singleton.mpr rfl, hheader line hline⟩
  · rw [filter_eq_nil_of_drawn, filter_eq_self_of_drawn]
    · simp
    · intro line hline
      rcases hbody line hline with h | h
      · exact ⟨_, by decide, h⟩
      · exact ⟨_, by decide, h⟩
    · intro line hline
      exact ⟨_, by decide, hheader line hline⟩

/-- The header shows the names of the columns. None of their lines is cut. -/
theorem readRow_header :
    readRow columnWidths (drawRow console headerSides true (columns.map (·.1.toList))) =
      columns.map (·.1.toList) := by
  have hfits : ∀ cell ∈ columns.zip (columns.map (·.1.toList)),
      ∀ line ∈ layOut cell.1.2 cell.2, ¬ MarkAtCut cell.1.2 line := by
    decide
  have hink : (columns.map (·.1.toList)).map ink = columns.map (·.1.toList) := by decide
  rw [readRow_drawRow rfl (narrow_of_mem headerSides (by simp)) true, shownRow_eq rfl (.inr hfits),
    hink]

/-! ## Cells -/

/-- What is read of the cell of a text: all that is visible of it and takes a cell of the
screen, and all that is visible if no mark stands where one of its lines is cut. -/
structure Shows (width : Nat) (text read : List Char) : Prop where
  solid : Text.solid read = Text.solid (visible text)
  full : (∀ line ∈ layOut width (keptChars text), ¬ MarkAtCut width line) → read = visible text

/-- What is read of a row, cell by cell. -/
def RowShows (row read : Row) : Prop :=
  List.Forall₂ (fun cell read => Shows cell.1.2 cell.2 read) (columns.zip row) read

/-- A row that is shown shows what is visible of its texts, but for marks at a cut. -/
theorem rowShows_shownRow (cutter : Cutter) (row : Row) :
    RowShows row (shownRow cutter (row.map keptChars)) := by
  rw [RowShows, shownRow, List.zip_map_right, List.map_map, List.forall₂_map_right_iff,
    List.forall₂_same]
  intro cell hcell
  have hwidth : 2 ≤ cell.1.2 := two_le_of_mem_zip cell hcell
  constructor
  · rw [← ink_keptChars]
    exact solid_ink_wrap hwidth cutter (keptChars cell.2)
  · intro hmark
    rw [← ink_keptChars]
    exact ink_wrap hwidth (.inr hmark)

theorem eq_map_of_forall₂ {α β : Type} {R : α → β → Prop} {f : α → β} {as : List α}
    {bs : List β} (h : List.Forall₂ R as bs) (hf : ∀ a ∈ as, ∀ b, R a b → b = f a) :
    bs = as.map f := by
  induction h with
  | nil => rfl
  | cons hab _ ih =>
    obtain ⟨ha, has⟩ := List.forall_mem_cons.mp hf
    rw [List.map_cons, ← ha _ hab, ← ih has]

/-- Where no mark stands at a cut, nothing is lost. -/
theorem RowShows.eq_visible {read : Row} (h : RowShows row read)
    (hlength : row.length = columns.length)
    (hmark : ∀ cell ∈ columns.zip row, ∀ line ∈ layOut cell.1.2 (keptChars cell.2),
      ¬ MarkAtCut cell.1.2 line) : read = row.map visible := by
  calc read
      = (columns.zip row).map (visible ∘ Prod.snd) :=
        eq_map_of_forall₂ h fun cell hcell _ hshows => hshows.full (hmark cell hcell)
    _ = row.map visible := by rw [← List.map_map, List.map_snd_zip hlength.le]

/-- Rows none of whose lines has a mark at a cut are shown in full. -/
theorem eq_visible_of_rowShows {rows shown : List Row} (h : List.Forall₂ RowShows rows shown)
    (hrows : ∀ row ∈ rows, row.length = columns.length ∧ ∀ cell ∈ columns.zip row,
      ∀ line ∈ layOut cell.1.2 (keptChars cell.2), ¬ MarkAtCut cell.1.2 line) :
    shown = rows.map (·.map visible) := by
  apply eq_map_of_forall₂ h
  intro row hrow read hread
  obtain ⟨hlength, hmark⟩ := hrows row hrow
  exact hread.eq_visible hlength hmark

end DocComment.Table
