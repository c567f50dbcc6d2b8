import DocComment.Text.Cells

/-!
# Fitting a text to a width

A text that takes fewer cells than a width is filled up with spaces, and one that takes more
is cut. A wide character that stands astride the width is replaced by a space. Where
characters that take no cell stand at the place of the cut, there are several beginnings of
the right width, and consoles differ in which of them they take: some keep all such
characters, others look for the place by halving and take the first one they come upon.
-/

namespace DocComment.Text

variable {width n : Nat} {cs : List Char}

/-! ## Cuts -/

/-- What a text that is too wide may be cut to. -/
inductive CutTo (width : Nat) : List Char → List Char → Prop where
  /-- The cut falls between two characters. -/
  | between {front behind : List Char} (hfront : cells front = width) :
    CutTo width (front ++ behind) front
  /-- The cut falls into a wide character. -/
  | astride {front behind : List Char} {c : Char} (hfront : cells front + 1 = width)
    (hc : charCells c = 2) :
    CutTo width (front ++ c :: behind) (front ++ [' '])

theorem CutTo.cons {front : List Char} {c : Char} (hc : charCells c ≤ width)
    (h : CutTo (width - charCells c) cs front) : CutTo width (c :: cs) (c :: front) := by
  cases h with
  | between hfront =>
    rw [← List.cons_append]
    apply between
    rw [cells_cons, hfront, Nat.add_sub_cancel' hc]
  | astride hfront hd =>
    rw [← List.cons_append, ← List.cons_append]
    refine astride ?_ hd
    rw [cells_cons]
    omega

/-- How a console cuts texts that are too wide. -/
structure Cutter where
  cut : Nat → List Char → List Char
  cutTo {width : Nat} {cs : List Char} : width < cells cs → CutTo width cs (cut width cs)

/-! ## Keeping all that fits -/

/-- The longest beginning of a text that fits the width. -/
def cropCells : Nat → List Char → List Char
  | _, [] => []
  | width, c :: cs =>
    if charCells c ≤ width then c :: cropCells (width - charCells c) cs
    else List.replicate width ' '

theorem cutTo_cropCells (h : width < cells cs) : CutTo width cs (cropCells width cs) := by
  induction cs generalizing width with
  | nil => exact absurd h (Nat.not_lt_zero width)
  | cons c cs ih =>
    rw [cells_cons] at h
    rw [cropCells]
    split
    · next hfits => exact .cons hfits (ih (by omega))
    · next hsticks =>
      have hc := charCells_le_two c
      obtain rfl | rfl : width = 0 ∨ width = 1 := by omega
      · exact @CutTo.between 0 [] (c :: cs) rfl
      · exact @CutTo.astride 1 [] cs c rfl (by omega)

/-- A cut that keeps all characters that take no cell. -/
def Cutter.keeping : Cutter where
  cut := cropCells
  cutTo := cutTo_cropCells

/-! ## Halving -/

/-- Whether the last character of a text is wide and stands astride the width. -/
def endsAstride (width : Nat) (cs : List Char) : Bool :=
  cells cs == width + 1 && cs.getLast?.any (charCells · == 2)

/-- The place of a cut is looked for between two numbers of characters, in the middle first
and then in one of the halves, as many times as is said. -/
def halve (width : Nat) (cs : List Char) : Nat → Nat → Nat → List Char
  | 0, start, _ => cs.take start
  | times + 1, start, stop =>
    let middle := (start + stop) / 2
    let front := cs.take (middle + 1)
    if endsAstride width front then front.dropLast ++ [' ']
    else if cells front = width then front
    else if width < cells front then halve width cs times start middle
    else halve width cs times middle stop

theorem cutTo_take (h : cells (cs.take n) = width) : CutTo width cs (cs.take n) := by
  have hcut : CutTo width (cs.take n ++ cs.drop n) (cs.take n) := .between h
  rwa [List.take_append_drop] at hcut

theorem cutTo_dropLast (h : endsAstride width (cs.take n) = true) :
    CutTo width cs ((cs.take n).dropLast ++ [' ']) := by
  rw [endsAstride, Bool.and_eq_true, beq_iff_eq, Option.any_eq_true] at h
  obtain ⟨hcells, c, hlast, hwide⟩ := h
  obtain ⟨front, htake⟩ := List.getLast?_eq_some_iff.mp hlast
  have hc : charCells c = 2 := beq_iff_eq.mp hwide
  have hfront : cells front + 1 = width := by
    rw [htake, cells_append, cells_cons, cells_nil, hc] at hcells
    omega
  have hcs : front ++ c :: cs.drop n = cs := by
    rw [List.append_cons, ← htake, List.take_append_drop]
  rw [htake, List.dropLast_concat, ← hcs]
  exact .astride hfront hc

/-- Each character takes a front two cells further at most, and only a wide one takes it
across the width. -/
theorem endsAstride_of_lt (hshort : cells (cs.take n) < width)
    (hlong : width < cells (cs.take (n + 1))) : endsAstride width (cs.take (n + 1)) = true := by
  rw [List.take_add_one, cells_append] at hlong
  cases hget : cs[n]? with
  | none =>
    rw [hget, Option.toList_none, cells_nil] at hlong
    omega
  | some c =>
    have hc := charCells_le_two c
    rw [hget, Option.toList_some, cells_cons, cells_nil] at hlong
    rw [endsAstride, List.take_add_one, hget, Option.toList_some, List.getLast?_concat,
      cells_append, cells_cons, cells_nil, Option.any_some, Bool.and_eq_true, beq_iff_eq,
      beq_iff_eq]
    omega

theorem cells_take_le {m : Nat} (h : n ≤ m) : cells (cs.take n) ≤ cells (cs.take m) := by
  obtain ⟨behind, hcs⟩ := List.take_prefix_take_left (l := cs) h
  rw [← hcs, cells_append]
  exact Nat.le_add_right _ _

theorem lt_of_cells_take_lt {m : Nat} (h : cells (cs.take n) < cells (cs.take m)) : n < m :=
  Nat.lt_of_not_le fun hle => Nat.not_lt.mpr (cells_take_le hle) h

/-- The front of the first number of characters is too short, and that of the second one is
not: the place of the cut lies between them, and they come closer each time. -/
theorem cutTo_halve {times start stop : Nat} (htimes : stop ≤ start + times)
    (hstart : cells (cs.take start) < width) (hstop : width ≤ cells (cs.take stop)) :
    CutTo width cs (halve width cs times start stop) := by
  fun_induction halve width cs times start stop with
  | case1 start stop =>
    have horder : start < stop := lt_of_cells_take_lt (Nat.lt_of_lt_of_le hstart hstop)
    omega
  | case2 times start stop middle front hastride => exact cutTo_dropLast hastride
  | case3 times start stop middle front _ hfits => exact cutTo_take hfits
  | case4 times start stop middle front hastride _ hlong ih =>
    have hmiddle : width ≤ cells (cs.take middle) := by
      apply Nat.le_of_not_lt
      intro hshort
      exact hastride (endsAstride_of_lt hshort hlong)
    have horder : start < middle := lt_of_cells_take_lt (Nat.lt_of_lt_of_le hstart hmiddle)
    exact ih (by omega) hstart hmiddle
  | case5 times start stop middle front _ hfits hlong ih =>
    have hfront : cells front < width := by omega
    have hmiddle : cells (cs.take middle) ≤ cells front := cells_take_le (Nat.le_succ middle)
    have horder : middle + 1 < stop := lt_of_cells_take_lt (Nat.lt_of_lt_of_le hfront hstop)
    exact ih (by omega) (Nat.lt_of_le_of_lt hmiddle hfront) hstop

/-- A cut at the first place that halving comes upon. -/
def Cutter.halving : Cutter where
  cut width cs := if width = 0 then [] else halve width cs cs.length 0 cs.length
  cutTo {width cs} hwide := by
    split
    · next hzero =>
      subst hzero
      exact @CutTo.between 0 [] cs rfl
    · next hpos =>
      apply cutTo_halve
      · exact Nat.le_add_left _ _
      · exact Nat.pos_of_ne_zero hpos
      · rw [List.take_length]
        exact Nat.le_of_lt hwide

/-! ## Fitting -/

/-- Spaces are added on the right until the text takes the width. -/
def padCells (width : Nat) (cs : List Char) : List Char :=
  cs ++ List.replicate (width - cells cs) ' '

/-- The text cut or padded to take exactly the width. -/
def fitCells (cutter : Cutter) (width : Nat) (cs : List Char) : List Char :=
  if width < cells cs then cutter.cut width cs else padCells width cs

end DocComment.Text
