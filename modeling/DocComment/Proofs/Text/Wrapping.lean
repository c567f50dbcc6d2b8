import DocComment.Proofs.Text.Lines
import DocComment.Proofs.Text.Trimmed
import DocComment.Text.Wrap
import Mathlib.Data.List.Basic

/-!
# Wrapping

Wrapping moves blanks and nothing else. What is left of a text without its blanks is its ink
(`ink`). Expanding tabs keeps the ink, cutting a line into words, folding a word and placing
words in lines lose no character at all, and the lines they are placed in fit the width
except for blanks at their ends. So fitting a line to the width cuts nothing but blanks and
marks, characters that take no cell, where these stand right at the cut. The lines of a text,
put together, have all of its ink that takes a cell (`solid_ink_wrap`), and all of its ink if
no mark stands at a cut or the console keeps marks (`ink_wrap`).
-/

namespace DocComment.Text

variable {cutter : Cutter} {width filled : Nat} {c : Char} {cs cut line word : List Char}
  {lines ws : List (List Char)}

/-! ## Ink -/

/-- The text without its blanks. -/
def ink (cs : List Char) : List Char :=
  cs.filter (!isBlank ·)

@[simp] theorem ink_nil : ink [] = [] := rfl

@[simp] theorem ink_append (cs ds : List Char) : ink (cs ++ ds) = ink cs ++ ink ds :=
  List.filter_append cs ds

/-- Blanks leave no ink. -/
theorem ink_of_blank (h : ∀ c ∈ cs, isBlank c = true) : ink cs = [] := by
  simpa [ink] using h

theorem ink_cons_of_blank (h : isBlank c = true) (cs : List Char) : ink (c :: cs) = ink cs := by
  simp [ink, h]

theorem ink_cons_congr (c : Char) {cs ds : List Char} (h : ink cs = ink ds) :
    ink (c :: cs) = ink (c :: ds) := by
  rw [← List.singleton_append, ← List.singleton_append (l := ds), ink_append, ink_append, h]

@[simp] theorem ink_replicate_space (n : Nat) : ink (List.replicate n ' ') = [] := by
  apply ink_of_blank
  intro c hc
  rw [List.eq_of_mem_replicate hc]
  rfl

/-- Trimming takes no ink away. -/
theorem ink_trimEnd (cs : List Char) : ink (trimEnd cs) = ink cs := by
  obtain ⟨back, hback, heq⟩ := exists_trimEnd_append cs
  calc ink (trimEnd cs)
      = ink (trimEnd cs ++ back) := by rw [ink_append, ink_of_blank hback, List.append_nil]
    _ = ink cs := by rw [heq]

theorem filter_flatMap_congr {α : Type} {as : List α} {f g : α → List Char} {p : Char → Bool}
    (h : ∀ a ∈ as, (f a).filter p = (g a).filter p) :
    (as.flatMap f).filter p = (as.flatMap g).filter p := by
  rw [List.filter_flatMap, List.filter_flatMap]
  exact List.flatMap_congr h

/-- Texts with the same ink, put together, have the same ink. -/
theorem ink_flatMap {α : Type} {as : List α} {f g : α → List Char}
    (h : ∀ a ∈ as, ink (f a) = ink (g a)) : ink (as.flatMap f) = ink (as.flatMap g) :=
  filter_flatMap_congr h

/-! ## Cells -/

@[simp] theorem cells_replicate_space (n : Nat) : cells (List.replicate n ' ') = n := by
  induction n with
  | zero => rfl
  | succ n ih =>
    have hspace : charCells ' ' = 1 := rfl
    rw [List.replicate_succ, cells_cons, ih, hspace, Nat.add_comm]

/-- Behind the front of a line only its end is trimmed, or the front is trimmed as well. -/
theorem cells_trimEnd_append (cs ds : List Char) :
    cells (trimEnd (cs ++ ds)) ≤ cells cs + cells (trimEnd ds) := by
  induction cs with
  | nil => exact Nat.le_add_left _ _
  | cons c cs ih =>
    have hcons : cells (trimEnd (c :: (cs ++ ds))) ≤ charCells c + cells (trimEnd (cs ++ ds)) := by
      rw [trimEnd]
      cases trimEnd (cs ++ ds) with
      | nil => cases isBlank c <;> simp
      | cons d rest => exact Nat.le_refl _
    rw [List.cons_append, cells_cons]
    omega

theorem cells_trimEnd_le (cs : List Char) : cells (trimEnd cs) ≤ cells cs := by
  have h := cells_trimEnd_append cs []
  rwa [List.append_nil, trimEnd, cells_nil, Nat.add_zero] at h

/-! ## Fitting -/

/-- A cut text takes the width. -/
theorem CutTo.cells_eq (h : CutTo width cs cut) : cells cut = width := by
  cases h with
  | between hfront => exact hfront
  | astride hfront =>
    have hspace : charCells ' ' = 1 := rfl
    rw [cells_append, cells_cons, cells_nil, hspace, hfront]

/-- A cut brings in nothing but a space. -/
theorem CutTo.mem (h : CutTo width cs cut) (hc : c ∈ cut) : c ∈ cs ∨ c = ' ' := by
  cases h with
  | between => exact .inl (List.mem_append_left _ hc)
  | astride =>
    rcases List.mem_append.mp hc with hc | hc
    · exact .inl (List.mem_append_left _ hc)
    · exact .inr (List.mem_singleton.mp hc)

/-- A cut begins as its text does, if it is more than the space in the place of a wide
character. -/
theorem CutTo.head? (h : CutTo width cs cut) (hwidth : 2 ≤ width) : cut.head? = cs.head? := by
  have hsome {front : List Char} (hfront : 0 < cells front) (rest : List Char) :
      (front ++ rest).head? = front.head? := by
    cases front with
    | nil => cases hfront
    | cons c front => rfl
  cases h with
  | between hfront => rw [hsome (by omega)]
  | astride hfront => rw [hsome (by omega), hsome (by omega)]

/-- A text that is fitted to a width takes exactly this width. -/
@[simp] theorem cells_fitCells (cutter : Cutter) (width : Nat) (cs : List Char) :
    cells (fitCells cutter width cs) = width := by
  rw [fitCells]
  split
  · next hwide => exact (cutter.cutTo hwide).cells_eq
  · rw [padCells, cells_append, cells_replicate_space]
    omega

/-- Fitting brings in nothing but spaces. -/
theorem mem_fitCells (h : c ∈ fitCells cutter width cs) : c ∈ cs ∨ c = ' ' := by
  rw [fitCells] at h
  split at h
  · next hwide => exact (cutter.cutTo hwide).mem h
  · exact (List.mem_append.mp h).imp_right List.eq_of_mem_replicate

/-- Two cells hold the first character whatever it is. -/
theorem head?_fitCells (hwidth : 2 ≤ width) (c : Char) (cs : List Char) :
    (fitCells cutter width (c :: cs)).head? = some c := by
  rw [fitCells]
  split
  · next hwide => exact (cutter.cutTo hwide).head? hwidth
  · rfl

/-! ## Marks at a cut -/

/-- The characters that take a cell. -/
def solid (cs : List Char) : List Char :=
  cs.filter fun c => 0 < charCells c

theorem solid_append (cs ds : List Char) : solid (cs ++ ds) = solid cs ++ solid ds :=
  List.filter_append cs ds

theorem solid_ink_flatMap {α : Type} {as : List α} {f g : α → List Char}
    (h : ∀ a ∈ as, solid (ink (f a)) = solid (ink (g a))) :
    solid (ink (as.flatMap f)) = solid (ink (as.flatMap g)) := by
  simp only [solid, ink, List.filter_filter] at h ⊢
  exact filter_flatMap_congr h

/-- A line is too wide only for the blanks at its end, and a mark, a character that takes no
cell, stands right in front of them: at the place where the line is cut. -/
def MarkAtCut (width : Nat) (line : List Char) : Prop :=
  width < cells line ∧ cells (trimEnd line) = width ∧
    ∃ mark ∈ (trimEnd line).getLast?, charCells mark = 0

instance (width : Nat) (line : List Char) : Decidable (MarkAtCut width line) :=
  inferInstanceAs (Decidable (_ ∧ _ ∧ _))

/-- A cutter that keeps every beginning of a text that fits the width. -/
def Cutter.KeepsAll (cutter : Cutter) : Prop :=
  ∀ ⦃width : Nat⦄ ⦃front cs : List Char⦄, width < cells cs → front <+: cs →
    cells front ≤ width → front <+: cutter.cut width cs

/-- The longest beginning that fits holds every other beginning that does. -/
theorem Cutter.keepsAll_keeping : Cutter.keeping.KeepsAll := by
  rintro width front _ - ⟨behind, rfl⟩ hfits
  induction front generalizing width with
  | nil => exact List.nil_prefix
  | cons c front ih =>
    rw [cells_cons] at hfits
    change c :: front <+: cropCells width (c :: (front ++ behind))
    rw [cropCells, if_pos (by omega)]
    exact List.cons_prefix_cons.mpr ⟨rfl, ih (by omega)⟩

/-- A text takes no cell only if none of its characters does. -/
theorem charCells_of_cells_eq_zero (h : cells cs = 0) : ∀ c ∈ cs, charCells c = 0 := by
  induction cs with
  | nil => nofun
  | cons c cs ih =>
    rw [cells_cons, Nat.add_eq_zero_iff] at h
    exact List.forall_mem_cons.mpr ⟨h.1, ih h.2⟩

theorem solid_ink_of_cells_eq_zero (h : cells cs = 0) : solid (ink cs) = [] := by
  rw [solid, List.filter_eq_nil_iff]
  intro c hc
  have := charCells_of_cells_eq_zero h c (List.mem_filter.mp hc).1
  simp [this]

/-- A line that fits the width but for the blanks at its end keeps all that stands in front of
them, or loses marks there. -/
theorem CutTo.exists_kept (h : CutTo width cs cut) (hfits : cells (trimEnd cs) ≤ width) :
    ∃ kept lost blanks, trimEnd cs = kept ++ lost ∧ cut = kept ++ blanks ∧
      (∀ c ∈ blanks, isBlank c = true) ∧ cells lost = 0 ∧
      (lost ≠ [] → cells (trimEnd cs) = width) := by
  obtain ⟨back, hback, heq⟩ := exists_trimEnd_append cs
  cases h with
  | @between _ behind hfront =>
    rcases List.append_eq_append_iff.mp heq with ⟨blanks, hcut, hbehind⟩ | ⟨lost, htrim, -⟩
    · refine ⟨_, [], blanks, (List.append_nil _).symm, hcut, ?_, rfl, nofun⟩
      intro c hc
      exact hback c (hbehind ▸ List.mem_append_left _ hc)
    · have hcells := congrArg cells htrim
      rw [cells_append] at hcells
      exact ⟨cut, lost, [], htrim, (List.append_nil _).symm, nofun, by omega, fun _ => by omega⟩
  | @astride front behind c hfront hc =>
    rcases List.append_eq_append_iff.mp heq with ⟨blanks, hcut, hbehind⟩ | ⟨lost, htrim, hlost⟩
    · refine ⟨_, [], blanks ++ [' '], (List.append_nil _).symm, ?_, ?_, rfl, nofun⟩
      · rw [← List.append_assoc, ← hcut]
      · intro d hd
        rcases List.mem_append.mp hd with hd | hd
        · exact hback d (hbehind ▸ List.mem_append_left _ hd)
        · exact List.mem_singleton.mp hd ▸ rfl
    · -- the wide character would take the line across the width
      have hnil : lost = [] := by
        cases lost with
        | nil => rfl
        | cons d lost =>
          obtain ⟨rfl, -⟩ := List.cons.inj hlost
          have hcells := congrArg cells htrim
          rw [cells_append, cells_cons] at hcells
          omega
      subst hnil
      have hspace : ∀ d ∈ [' '], isBlank d = true := fun d hd => List.mem_singleton.mp hd ▸ rfl
      exact ⟨front, [], [' '], htrim, rfl, hspace, rfl, nofun⟩

/-- Fitting a line keeps what stands in front of the blanks at its end, but for marks that it
may lose at a cut. -/
theorem exists_kept_fitCells (cutter : Cutter) (hfits : cells (trimEnd cs) ≤ width) :
    ∃ kept lost blanks, trimEnd cs = kept ++ lost ∧ fitCells cutter width cs = kept ++ blanks ∧
      (∀ c ∈ blanks, isBlank c = true) ∧ cells lost = 0 ∧
      (cutter.KeepsAll ∨ ¬ MarkAtCut width cs → ink lost = []) := by
  rw [fitCells]
  split
  · next hwide =>
    obtain ⟨kept, lost, blanks, htrim, hcut, hblanks, hlost, hfull⟩ :=
      (cutter.cutTo hwide).exists_kept hfits
    refine ⟨kept, lost, blanks, htrim, hcut, hblanks, hlost, ?_⟩
    -- a cutter that keeps marks keeps the whole line in front of the blanks; another one loses
    -- something only at a mark that stands last
    rintro (hkeeps | hmark)
    · obtain ⟨back, -, heq⟩ := exists_trimEnd_append cs
      have hkept := hkeeps hwide ⟨back, heq⟩ hfits
      rw [htrim, hcut, List.prefix_append_right_inj] at hkept
      exact ink_of_blank fun c hc => hblanks c (hkept.subset hc)
    · have hnil : lost = [] := by
        by_contra hne
        refine hmark ⟨hwide, hfull hne, lost.getLast hne, ?_, ?_⟩
        · rw [htrim, List.getLast?_append, List.getLast?_eq_some_getLast hne]
          rfl
        · exact charCells_of_cells_eq_zero hlost _ (List.getLast_mem hne)
      rw [hnil, ink_nil]
  · obtain ⟨back, hback, heq⟩ := exists_trimEnd_append cs
    -- a line that is not too wide is only filled up with spaces
    refine ⟨trimEnd cs, [], back ++ List.replicate (width - cells cs) ' ', ?_, ?_, ?_, rfl, ?_⟩
    · rw [List.append_nil]
    · rw [padCells, ← List.append_assoc, heq]
    · intro c hc
      rcases List.mem_append.mp hc with hc | hc
      · exact hback c hc
      · exact List.eq_of_mem_replicate hc ▸ rfl
    · intro _
      exact ink_nil

/-- Fitting such a line loses nothing of its ink where no mark stands at the cut, or where the
console keeps marks. -/
theorem ink_fitCells (hfits : cells (trimEnd cs) ≤ width)
    (hmark : cutter.KeepsAll ∨ ¬ MarkAtCut width cs) :
    ink (fitCells cutter width cs) = ink cs := by
  obtain ⟨kept, lost, blanks, htrim, hfitted, hblanks, -, hlost⟩ :=
    exists_kept_fitCells cutter hfits
  rw [hfitted, ink_append, ink_of_blank hblanks, ← ink_trimEnd cs, htrim, ink_append, hlost hmark]

/-- Whatever is lost of the ink takes no cell. -/
theorem solid_ink_fitCells (cutter : Cutter) (hfits : cells (trimEnd cs) ≤ width) :
    solid (ink (fitCells cutter width cs)) = solid (ink cs) := by
  obtain ⟨kept, lost, blanks, htrim, hfitted, hblanks, hlost, -⟩ :=
    exists_kept_fitCells cutter hfits
  calc solid (ink (fitCells cutter width cs))
      = solid (ink kept) := by
        rw [hfitted, ink_append, ink_of_blank hblanks, List.append_nil]
    _ = solid (ink (kept ++ lost)) := by
        rw [ink_append, solid_append, solid_ink_of_cells_eq_zero hlost, List.append_nil]
    _ = solid (ink cs) := by rw [← htrim, ink_trimEnd]

/-- What is left of a line without its excess blanks ends in blanks of the line. -/
theorem exists_dropExcessBlanks (width : Nat) (line : List Char) :
    ∃ back, (∀ c ∈ back, isBlank c = true) ∧
      dropExcessBlanks width line = trimEnd line ++ back := by
  obtain ⟨back, hback, heq⟩ := exists_trimEnd_append line
  have hlength := congrArg List.length heq
  rw [List.length_append] at hlength
  generalize hkept :
    line.length - min (line.length - (trimEnd line).length) (line.length - width) = kept
  refine ⟨back.take (kept - (trimEnd line).length), ?_, ?_⟩
  · intro c hc
    exact hback c (List.mem_of_mem_take hc)
  · calc dropExcessBlanks width line
        = (trimEnd line ++ back).take kept := by rw [dropExcessBlanks, hkept, heq]
      _ = trimEnd line ++ back.take (kept - (trimEnd line).length) := by
        rw [List.take_append, List.take_of_length_le (by omega)]

/-- A line without its excess blanks keeps what is not blank at its end. -/
theorem trimEnd_dropExcessBlanks (width : Nat) (line : List Char) :
    trimEnd (dropExcessBlanks width line) = trimEnd line := by
  obtain ⟨back, hback, heq⟩ := exists_dropExcessBlanks width line
  obtain ⟨dropped, hdropped, hline⟩ := exists_trimEnd_append line
  calc trimEnd (dropExcessBlanks width line)
      = trimEnd (trimEnd line) := by rw [heq, trimEnd_append_of_blank hback]
    _ = trimEnd (trimEnd line ++ dropped) := (trimEnd_append_of_blank hdropped _).symm
    _ = trimEnd line := by rw [hline]

theorem ink_dropExcessBlanks (width : Nat) (line : List Char) :
    ink (dropExcessBlanks width line) = ink line := by
  rw [← ink_trimEnd, trimEnd_dropExcessBlanks, ink_trimEnd]

/-! ## Words -/

/-- Tabs and the spaces that they become are blank. -/
theorem ink_expandTabs (cell : Nat) (cs : List Char) : ink (expandTabs cell cs) = ink cs := by
  induction cs generalizing cell with
  | nil => rfl
  | cons c cs ih =>
    rw [expandTabs]
    split
    · next htab =>
      rw [ink_append, ink_replicate_space, List.nil_append, ih, htab, ink_cons_of_blank rfl]
    · exact ink_cons_congr c (ih _)

/-- Expanding tabs brings in nothing but spaces. -/
theorem mem_expandTabs {cell : Nat} (h : c ∈ expandTabs cell cs) : c ∈ cs ∨ c = ' ' := by
  induction cs generalizing cell with
  | nil => cases h
  | cons d cs ih =>
    rw [expandTabs] at h
    split at h
    · rcases List.mem_append.mp h with h | h
      · exact .inr (List.eq_of_mem_replicate h)
      · exact (ih h).imp_left (List.mem_cons_of_mem d)
    · rcases List.mem_cons.mp h with rfl | h
      · exact .inl List.mem_cons_self
      · exact (ih h).imp_left (List.mem_cons_of_mem d)

theorem flatten_cutWords (cs : List Char) : (cutWords cs).flatten = cs := by
  fun_induction cutWords cs with
  | case1 => rfl
  | case2 c => rfl
  | case3 c d cs _ ih => rw [List.flatten_cons, ih, List.singleton_append]
  | case4 c d cs _ ih => rw [flatten_consToLine, ih]

/-- The words of a line are all of the line. A blank line has none. -/
theorem flatten_words (line : List Char) :
    (words line).flatten = line ∨ words line = [] ∧ ∀ c ∈ line, isBlank c = true := by
  have hflatten := flatten_cutWords (trimStart line)
  obtain ⟨front, hfront, hline⟩ := exists_append_trimStart line
  unfold words
  split
  · -- nothing but blanks is there
    next hnil =>
    right
    rw [hnil, List.flatten_nil] at hflatten
    rw [← hflatten, List.append_nil] at hline
    exact ⟨rfl, hline ▸ hfront⟩
  · -- the blanks at the start belong to the first word
    next first others hcut =>
    left
    rw [hcut, List.flatten_cons] at hflatten
    rw [List.flatten_cons, List.append_assoc, hflatten]
    exact List.takeWhile_append_dropWhile

/-! ## Folding -/

/-- Folding a word loses nothing of it. -/
theorem flatten_fold (width filled : Nat) (word : List Char) :
    (fold width filled word).flatten = word := by
  induction word generalizing filled with
  | nil => rfl
  | cons c word ih =>
    rw [fold]
    split
    · rw [flatten_consToLine, ih]
    · rw [List.flatten_cons, List.nil_append, flatten_consToLine, ih]

/-- The pieces of a word fit the width, the first one with what is filled. -/
theorem exists_fold (hwidth : 2 ≤ width) (hfilled : filled ≤ width) (word : List Char) :
    ∃ first others, fold width filled word = first :: others ∧ filled + cells first ≤ width ∧
      ∀ piece ∈ others, cells piece ≤ width := by
  induction word generalizing filled with
  | nil => exact ⟨[], [], rfl, hfilled, nofun⟩
  | cons c word ih =>
    have hc := charCells_le_two c
    rw [fold]
    -- a character takes two cells at most, so it fits an empty piece if it does not fit this one
    split
    · next hfits =>
      obtain ⟨first, others, hfold, hfirst, hothers⟩ := ih hfits
      rw [hfold]
      refine ⟨c :: first, others, rfl, ?_, hothers⟩
      rw [cells_cons]
      omega
    · obtain ⟨first, others, hfold, hfirst, hothers⟩ := ih (hc.trans hwidth)
      rw [hfold]
      refine ⟨[], (c :: first) :: others, rfl, hfilled, ?_⟩
      exact List.forall_mem_cons.mpr ⟨hfirst, hothers⟩

/-! ## Placing -/

/-- The lines so far, last one first, fit the width without the blanks at their ends, and of
the last one some cells are filled. -/
structure Placed (width filled : Nat) (lines : List (List Char)) : Prop where
  fits : ∀ line ∈ lines, cells (trimEnd line) ≤ width
  filled : ∀ line ∈ lines.head?, cells line = filled

theorem Placed.nil (width filled : Nat) : Placed width filled [] :=
  ⟨nofun, nofun⟩

/-- A word that fits goes on with the last line. -/
theorem Placed.extend (h : Placed width filled (line :: lines))
    (hword : filled + cells (trimEnd word) ≤ width) :
    Placed width (filled + cells word) ((line ++ word) :: lines) := by
  obtain ⟨hline, hlines⟩ := List.forall_mem_cons.mp h.fits
  have hfilled : cells line = filled := h.filled line rfl
  constructor
  · refine List.forall_mem_cons.mpr ⟨?_, hlines⟩
    have := cells_trimEnd_append line word
    omega
  · rintro _ ⟨⟩
    rw [cells_append, hfilled]

/-- A word that fits a line of its own begins one. -/
theorem Placed.start (h : Placed width filled lines) (hword : cells (trimEnd word) ≤ width) :
    Placed width (cells word) (word :: lines) := by
  constructor
  · exact List.forall_mem_cons.mpr ⟨hword, h.fits⟩
  · rintro _ ⟨⟩
    rfl

/-- Any other word is folded, and its last piece is the last line. -/
theorem Placed.fold (hwidth : 2 ≤ width) (h : Placed width filled lines) (word : List Char) :
    Placed width (cells ((Text.fold width 0 word).getLastD []))
      ((Text.fold width 0 word).reverse ++ lines) := by
  obtain ⟨first, others, hfold, hfirst, hothers⟩ := exists_fold hwidth (Nat.zero_le width) word
  have hpieces : ∀ piece ∈ first :: others, cells piece ≤ width :=
    List.forall_mem_cons.mpr ⟨by omega, hothers⟩
  rw [hfold]
  -- the last piece is the one that goes on, and its cells are what is filled
  constructor
  · intro piece hpiece
    rcases List.mem_append.mp hpiece with hpiece | hpiece
    · have := hpieces piece (List.mem_reverse.mp hpiece)
      have := cells_trimEnd_le piece
      omega
    · exact h.fits piece hpiece
  · intro piece hpiece
    obtain ⟨last, hlast⟩ : ∃ last, (first :: others).getLast? = some last :=
      ⟨_, List.getLast?_eq_some_getLast (List.cons_ne_nil first others)⟩
    rw [List.head?_append, List.head?_reverse, hlast, Option.some_or, Option.mem_some_iff] at hpiece
    rw [List.getLastD_eq_getLast?, hlast, hpiece, Option.getD_some]

/-- Placing words keeps every character of them. -/
theorem flatten_placeWords (width : Nat) (lines : List (List Char)) (filled : Nat)
    (ws : List (List Char)) :
    (placeWords width lines filled ws).flatten = lines.reverse.flatten ++ ws.flatten := by
  fun_induction placeWords width lines filled ws with
  | case1 => simp
  | case2 | case4 | case5 => simp_all
  | case3 filled word ws pieces _ ih | case6 line lines filled word ws pieces _ _ ih =>
    have hpieces : pieces.flatten = word := flatten_fold width 0 word
    rw [ih]
    simp [hpieces]

/-- Words are placed in lines that fit the width without the blanks at their ends. -/
theorem Placed.fits_placeWords (hwidth : 2 ≤ width) (h : Placed width filled lines)
    (ws : List (List Char)) :
    ∀ line ∈ placeWords width lines filled ws, cells (trimEnd line) ≤ width := by
  fun_induction placeWords width lines filled ws with
  | case1 lines filled =>
    intro line hline
    exact h.fits line (List.mem_reverse.mp hline)
  | case2 filled word ws hword ih => exact ih (h.start hword)
  | case3 filled word ws pieces hword ih =>
    apply ih
    have hfold := h.fold hwidth word
    rwa [List.append_nil] at hfold
  | case4 line lines filled word ws hword ih => exact ih (h.extend hword)
  | case5 line lines filled word ws _ hword ih => exact ih (h.start hword)
  | case6 line lines filled word ws pieces _ _ ih => exact ih (h.fold hwidth word)

/-! ## Lines -/

/-- A line loses nothing but its tabs. -/
theorem flatten_wrapLine (width : Nat) (line : List Char) :
    (wrapLine width line).flatten = expandTabs 0 line := by
  rw [wrapLine]
  split
  · exact List.flatten_singleton
  · next hwords =>
    rcases flatten_words (expandTabs 0 line) with hflatten | ⟨hnil, -⟩
    · rw [flatten_placeWords, hflatten]
      rfl
    · exact absurd hnil hwords

/-- Every line that is laid out fits the width but for the blanks at its end. -/
theorem fits_wrapLine (hwidth : 2 ≤ width) (line : List Char) :
    ∀ placed ∈ wrapLine width line, cells (trimEnd placed) ≤ width := by
  rw [wrapLine]
  split
  · next hwords =>
    rcases flatten_words (expandTabs 0 line) with hflatten | ⟨-, hblank⟩
    · rw [hwords, List.flatten_nil] at hflatten
      rw [← hflatten]
      exact List.forall_mem_singleton.mpr (Nat.zero_le width)
    · rw [List.forall_mem_singleton, trimEnd_of_blank hblank]
      exact Nat.zero_le width
  · exact (Placed.nil width 0).fits_placeWords hwidth _

/-! ## Texts -/

/-- Where a line of a laid out text comes from. -/
theorem exists_of_mem_layOut (h : line ∈ layOut width cs) :
    ∃ piece ∈ splitAt '\n' cs, ∃ placed ∈ wrapLine width piece,
      dropExcessBlanks width placed = line := by
  obtain ⟨placed, hplaced, hline⟩ := List.mem_map.mp h
  obtain ⟨piece, hpiece, hplaced⟩ := List.mem_flatMap.mp hplaced
  exact ⟨piece, hpiece, placed, hplaced, hline⟩

/-- The lines of a text fit the width without the blanks at their ends. -/
theorem fits_layOut (hwidth : 2 ≤ width) (h : line ∈ layOut width cs) :
    cells (trimEnd line) ≤ width := by
  obtain ⟨piece, -, placed, hplaced, rfl⟩ := exists_of_mem_layOut h
  rw [trimEnd_dropExcessBlanks]
  exact fits_wrapLine hwidth piece placed hplaced

/-- The lines of a text have its ink. -/
theorem ink_layOut (width : Nat) (cs : List Char) : ink (layOut width cs).flatten = ink cs := by
  have hline : ∀ line ∈ (splitAt '\n' cs).flatMap (wrapLine width),
      ink (dropExcessBlanks width line) = ink line :=
    fun line _ => ink_dropExcessBlanks width line
  have hpiece : ∀ piece ∈ splitAt '\n' cs, ink (wrapLine width piece).flatten = ink piece := by
    intro piece _
    rw [flatten_wrapLine, ink_expandTabs]
  -- the ink is followed backwards through the steps of the layout: blanks that are too many,
  -- wrapped pieces, line feeds
  calc ink (layOut width cs).flatten
      = ink (((splitAt '\n' cs).flatMap (wrapLine width)).flatMap fun line => line) := by
        rw [layOut, ← List.flatMap_def, ink_flatMap hline]
    _ = ink ((splitAt '\n' cs).flatMap fun piece => (wrapLine width piece).flatten) := by
        rw [List.flatMap_assoc]
        simp only [List.flatMap_id']
    _ = ink ((splitAt '\n' cs).flatMap fun piece => piece) := ink_flatMap hpiece
    _ = ink (cs.filter (· ≠ '\n')) := by rw [List.flatMap_id', flatten_splitAt]
    _ = ink cs := by
        have hbreak (c : Char) : (!isBlank c && decide (c ≠ '\n')) = !isBlank c := by
          by_cases hc : c = '\n'
          · subst hc
            rfl
          · simp [hc]
        rw [ink, ink, List.filter_filter]
        simp only [hbreak]

/-- Every wrapped line takes exactly the width. -/
theorem cells_of_mem_wrap (h : line ∈ wrap cutter width cs) : cells line = width := by
  obtain ⟨laid, -, rfl⟩ := List.mem_map.mp h
  exact cells_fitCells _ _ _

/-- No wrapped line holds a line feed. -/
theorem newline_notMem_of_mem_wrap (h : line ∈ wrap cutter width cs) : '\n' ∉ line := by
  obtain ⟨laid, hlaid, rfl⟩ := List.mem_map.mp h
  obtain ⟨piece, hpiece, placed, hplaced, rfl⟩ := exists_of_mem_layOut hlaid
  intro hmem
  rcases mem_fitCells hmem with hmem | hmem
  · have hexpanded : '\n' ∈ expandTabs 0 piece := by
      rw [← flatten_wrapLine width piece]
      exact List.mem_flatten_of_mem hplaced (List.mem_of_mem_take hmem)
    rcases mem_expandTabs hexpanded with hmem | hmem
    · exact notMem_of_mem_splitAt hpiece hmem
    · cases hmem
  · cases hmem

/-- A wrapped text has all of its ink where no mark stands at a cut, or where the console keeps
marks. -/
theorem ink_wrap (hwidth : 2 ≤ width)
    (hmark : cutter.KeepsAll ∨ ∀ line ∈ layOut width cs, ¬ MarkAtCut width line) :
    ink (wrap cutter width cs).flatten = ink cs := by
  have hline : ∀ line ∈ layOut width cs, ink (fitCells cutter width line) = ink line :=
    fun line hline => ink_fitCells (fits_layOut hwidth hline) (hmark.imp_right (· line hline))
  rw [wrap, ← List.flatMap_def, ink_flatMap hline, List.flatMap_id', ink_layOut]

/-- A wrapped text has all of its ink that takes a cell, whatever the console does with
marks. -/
theorem solid_ink_wrap (hwidth : 2 ≤ width) (cutter : Cutter) (cs : List Char) :
    solid (ink (wrap cutter width cs).flatten) = solid (ink cs) := by
  have hline : ∀ line ∈ layOut width cs,
      solid (ink (fitCells cutter width line)) = solid (ink line) :=
    fun line hline => solid_ink_fitCells cutter (fits_layOut hwidth hline)
  rw [wrap, ← List.flatMap_def, solid_ink_flatMap hline, List.flatMap_id', ink_layOut]

end DocComment.Text
