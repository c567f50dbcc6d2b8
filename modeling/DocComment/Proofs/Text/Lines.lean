import DocComment.Text.Lines
import DocComment.Proofs.Text.Trimmed

/-!
# Lines joined and split

Lines without a break are found again when the text that joins them is split
(`splitLines_joinLines`). Empty lines around a text only add blanks to it, so
trimming takes them away (`trim_joinLines_between`).
-/

namespace DocComment.Text

variable {c d : Char} {cs line : List Char} {lines others pad pad' : List (List Char)}

/-! ## Splitting -/

/-- A line break is blank. -/
theorem isBlank_of_isLineBreak (h : isLineBreak c = true) : isBlank c = true := by
  simp only [isLineBreak, isBlank, Bool.or_eq_true, Bool.and_eq_true, decide_eq_true_eq,
    beq_iff_eq] at h ⊢
  omega

/-- A character that ends no line belongs to the first one. -/
theorem splitLines_cons (h : isLineBreak c = false) (cs : List Char) :
    splitLines (c :: cs) = consToLine c (splitLines cs) := by
  rw [splitLines]
  · simp [h]
  · -- a carriage return is a line break
    rintro ds rfl
    exact absurd h (by decide)

/-- A line feed ends the line in front of it. -/
theorem splitLines_append_newline (h : ∀ c ∈ line, isLineBreak c = false) (cs : List Char) :
    splitLines (line ++ '\n' :: cs) = line :: splitLines cs := by
  induction line with
  | nil => simp [splitLines, isLineBreak]
  | cons c line ih =>
    have hline := ih fun d hd => h d (List.mem_cons_of_mem c hd)
    rw [List.cons_append, splitLines_cons (h c List.mem_cons_self), hline, consToLine]

/-- A text without line breaks is one line. -/
theorem splitLines_of_unbroken (h : ∀ c ∈ line, isLineBreak c = false) (hne : line ≠ []) :
    splitLines line = [line] := by
  induction line with
  | nil => exact absurd rfl hne
  | cons c line ih =>
    rw [splitLines_cons (h c List.mem_cons_self)]
    cases line with
    | nil => simp [splitLines, consToLine]
    | cons d ds =>
      rw [ih (fun e he => h e (List.mem_cons_of_mem c he)) (List.cons_ne_nil d ds), consToLine]

/-- A break ends a line, unless it is the first half of a pair. -/
theorem splitLines_break (hc : isLineBreak c = true) (hpair : ¬ (c = '\r' ∧ cs.head? = some '\n')) :
    splitLines (c :: cs) = [] :: splitLines cs := by
  rw [splitLines]
  · simp [hc]
  · rintro ds rfl rfl
    exact hpair ⟨rfl, rfl⟩

theorem consToLine_append (c : Char) (h : lines ≠ []) (others : List (List Char)) :
    consToLine c (lines ++ others) = consToLine c lines ++ others := by
  cases lines with
  | nil => exact absurd rfl h
  | cons line lines => rfl

/-- A character behind a text goes on with its last line, or is a line of its own. -/
theorem splitLines_append_singleton (hd : isLineBreak d = false) (cs : List Char) :
    splitLines (cs ++ [d]) = splitLines cs ++ [[d]] ∨
      ∃ front last, splitLines cs = front ++ [last] ∧
        splitLines (cs ++ [d]) = front ++ [last ++ [d]] := by
  have hsingle : splitLines [d] = [[d]] := splitLines_of_unbroken (by simpa using hd) (by simp)
  -- a line in front of the others changes nothing
  have hcons {lines lines' : List (List Char)} (line : List Char)
      (h : lines' = lines ++ [[d]] ∨ ∃ front last, lines = front ++ [last] ∧
        lines' = front ++ [last ++ [d]]) :
      line :: lines' = line :: lines ++ [[d]] ∨ ∃ front last, line :: lines = front ++ [last] ∧
        line :: lines' = front ++ [last ++ [d]] := by
    rcases h with rfl | ⟨front, last, rfl, rfl⟩
    · exact .inl rfl
    · exact .inr ⟨line :: front, last, rfl, rfl⟩
  fun_induction splitLines cs with
  | case1 => exact .inl hsingle
  | case2 cs ih =>
    rw [List.cons_append, List.cons_append, splitLines]
    exact hcons [] ih
  | case3 c cs hpair hc ih =>
    have hpair' : ¬ (c = '\r' ∧ (cs ++ [d]).head? = some '\n') := by
      rintro ⟨rfl, hhead⟩
      cases cs with
      | nil =>
        obtain rfl : d = '\n' := by simpa using hhead
        cases hd
      | cons e cs =>
        obtain rfl : e = '\n' := by simpa using hhead
        exact hpair cs rfl rfl
    rw [List.cons_append, splitLines_break hc hpair']
    exact hcons [] ih
  | case4 c cs hpair hc ih =>
    rw [List.cons_append, splitLines_cons (by simpa using hc)]
    rcases ih with heq | ⟨front, last, heq, heq'⟩
    · by_cases hnil : splitLines cs = []
      · rw [heq, hnil]
        exact .inr ⟨[], [c], rfl, rfl⟩
      · rw [heq, consToLine_append c hnil]
        exact .inl rfl
    · rw [heq, heq']
      cases front with
      | nil => exact .inr ⟨[], c :: last, rfl, rfl⟩
      | cons line front => exact .inr ⟨(c :: line) :: front, last, rfl, rfl⟩

/-! ## Joining -/

theorem joinLines_cons (line : List Char) (h : lines ≠ []) :
    joinLines (line :: lines) = line ++ '\n' :: joinLines lines := by
  cases lines with
  | nil => exact absurd rfl h
  | cons next lines => rw [joinLines]

/-- Two groups of lines are joined like two lines. -/
theorem joinLines_append (h : lines ≠ []) (h' : others ≠ []) :
    joinLines (lines ++ others) = joinLines lines ++ '\n' :: joinLines others := by
  induction lines with
  | nil => exact absurd rfl h
  | cons line lines ih =>
    by_cases hlines : lines = []
    · subst hlines
      rw [List.singleton_append, joinLines_cons line h', joinLines]
    · rw [List.cons_append, joinLines_cons line (List.append_ne_nil_of_left_ne_nil hlines others),
        joinLines_cons line hlines, ih hlines, List.append_assoc, List.cons_append]

/-- Joined lines are found again in front of a line feed. -/
theorem splitLines_joinLines (h : ∀ line ∈ lines, ∀ c ∈ line, isLineBreak c = false)
    (hne : lines ≠ []) (cs : List Char) :
    splitLines (joinLines lines ++ '\n' :: cs) = lines ++ splitLines cs := by
  induction lines with
  | nil => exact absurd rfl hne
  | cons line lines ih =>
    have hline := h line List.mem_cons_self
    by_cases hlines : lines = []
    · subst hlines
      rw [joinLines, splitLines_append_newline hline, List.singleton_append]
    · have hrest := ih (fun l hl => h l (List.mem_cons_of_mem line hl)) hlines
      rw [joinLines_cons line hlines, List.append_assoc, List.cons_append,
        splitLines_append_newline hline, hrest, List.cons_append]

/-- Lines are found again in the text that joins them, if the last one is not empty. -/
theorem splitLines_joinLines_of_last (h : ∀ line ∈ lines, ∀ c ∈ line, isLineBreak c = false)
    (hlast : ∀ line ∈ lines.getLast?, line ≠ []) : splitLines (joinLines lines) = lines := by
  induction lines with
  | nil => rfl
  | cons line lines ih =>
    obtain ⟨hline, hlines⟩ := List.forall_mem_cons.mp h
    by_cases hnil : lines = []
    · subst hnil
      exact splitLines_of_unbroken hline (hlast line rfl)
    · rw [List.getLast?_cons_of_ne_nil hnil] at hlast
      rw [joinLines_cons line hnil, splitLines_append_newline hline, ih hlines hlast]

theorem joinLines_append_cons (front line : List Char) (lines : List (List Char)) :
    joinLines ((front ++ line) :: lines) = front ++ joinLines (line :: lines) := by
  cases lines with
  | nil => rfl
  | cons next lines => rw [joinLines, joinLines, List.append_assoc]

/-- Trimming a text trims the start of its first line. -/
theorem trim_joinLines_trimStart (cs : List Char) (others : List (List Char)) :
    trim (joinLines (trimStart cs :: others)) = trim (joinLines (cs :: others)) := by
  obtain ⟨front, hfront, hcs⟩ := exists_append_trimStart cs
  calc trim (joinLines (trimStart cs :: others))
      = trim (front ++ joinLines (trimStart cs :: others)) := (trim_blank_append hfront _).symm
    _ = trim (joinLines (cs :: others)) := by rw [← joinLines_append_cons, hcs]

/-! ## Empty lines -/

/-- Lines that have no characters. -/
def Padding (pad : List (List Char)) : Prop :=
  ∀ line ∈ pad, line = []

theorem padding_nil : Padding [] := by
  intro line h
  cases h

theorem padding_singleton : Padding [[]] := by
  intro line h
  exact List.mem_singleton.mp h

/-- Empty lines are joined to nothing but blanks. -/
theorem isBlank_joinLines (h : Padding pad) : ∀ c ∈ joinLines pad, isBlank c = true := by
  -- each further line adds one line feed, and that is blank
  induction pad with
  | nil => simp [joinLines]
  | cons line pad ih =>
    obtain rfl : line = [] := h line List.mem_cons_self
    have hpad := ih fun l hl => h l (List.mem_cons_of_mem _ hl)
    by_cases hne : pad = []
    · simp [hne, joinLines]
    · rw [joinLines_cons [] hne]
      intro c hc
      rcases List.mem_cons.mp hc with rfl | hc
      · decide
      · exact hpad c hc

/-- Empty lines at the end are blanks at the end. -/
theorem joinLines_append_padding (h : Padding pad) (lines : List (List Char)) :
    ∃ back, (∀ c ∈ back, isBlank c = true) ∧
      joinLines (lines ++ pad) = joinLines lines ++ back := by
  by_cases hlines : lines = []
  · refine ⟨joinLines pad, isBlank_joinLines h, ?_⟩
    simp [hlines, joinLines]
  · by_cases hpad : pad = []
    · exact ⟨[], by simp, by simp [hpad]⟩
    · refine ⟨'\n' :: joinLines pad, ?_, joinLines_append hlines hpad⟩
      exact List.forall_mem_cons.mpr ⟨by decide, isBlank_joinLines h⟩

/-- Empty lines in front are blanks in front. -/
theorem joinLines_padding_append (h : Padding pad) (lines : List (List Char)) :
    ∃ front, (∀ c ∈ front, isBlank c = true) ∧
      joinLines (pad ++ lines) = front ++ joinLines lines := by
  by_cases hpad : pad = []
  · exact ⟨[], by simp, by simp [hpad]⟩
  · by_cases hlines : lines = []
    · refine ⟨joinLines pad, isBlank_joinLines h, ?_⟩
      simp [hlines, joinLines]
    · refine ⟨joinLines pad ++ ['\n'], ?_, ?_⟩
      · intro c hc
        rcases List.mem_append.mp hc with hc | hc
        · exact isBlank_joinLines h c hc
        · rw [List.mem_singleton.mp hc]
          decide
      · rw [joinLines_append hpad hlines, List.append_assoc, List.singleton_append]

/-- Empty lines around others are trimmed away. -/
theorem trim_joinLines_between (hpad : Padding pad) (hpad' : Padding pad')
    (lines : List (List Char)) :
    trim (joinLines (pad ++ (lines ++ pad'))) = trim (joinLines lines) := by
  rcases joinLines_append_padding hpad' lines with ⟨back, hback, hlines⟩
  rcases joinLines_padding_append hpad (lines ++ pad') with ⟨front, hfront, hall⟩
  rw [hall, hlines, trim_between hfront hback]

/-- A trimmed text is found again between empty lines. -/
theorem trim_joinLines_padded (hpad : Padding pad) (hpad' : Padding pad')
    (h : trim (joinLines lines) = joinLines lines) :
    trim (joinLines (pad ++ (lines ++ pad'))) = joinLines lines := by
  rw [trim_joinLines_between hpad hpad', h]

/-! ## Paragraphs -/

/-- Trimmed lines, the first and the last of which are not empty. -/
structure Paragraph (lines : List (List Char)) : Prop where
  trimmed : ∀ line ∈ lines, trim line = line
  first : ∀ line ∈ lines.head?, line ≠ []
  last : ∀ line ∈ lines.getLast?, line ≠ []

instance : Decidable (Paragraph lines) :=
  decidable_of_iff
    ((∀ line ∈ lines, trim line = line) ∧ (∀ line ∈ lines.head?, line ≠ []) ∧
      ∀ line ∈ lines.getLast?, line ≠ [])
    ⟨fun h => ⟨h.1, h.2.1, h.2.2⟩, fun h => ⟨h.trimmed, h.first, h.last⟩⟩

theorem head?_joinLines (h : line ≠ []) (lines : List (List Char)) :
    (joinLines (line :: lines)).head? = line.head? := by
  rcases List.exists_cons_of_ne_nil h with ⟨c, cs, rfl⟩
  cases lines with
  | nil => rfl
  | cons next lines => rfl

/-- A text ends as its last line does, if that has characters. -/
theorem getLast?_joinLines (h : line ≠ []) (lines : List (List Char)) :
    (joinLines (lines ++ [line])).getLast? = line.getLast? := by
  by_cases hlines : lines = []
  · simp [hlines, joinLines]
  · rw [joinLines_append hlines (List.cons_ne_nil line []), joinLines, List.getLast?_append,
      List.getLast?_cons_of_ne_nil h]
    cases hlast : line.getLast? with
    | none => exact absurd (List.getLast?_eq_none_iff.mp hlast) h
    | some c => rfl

/-- The text of a paragraph is trimmed. -/
theorem Paragraph.trim_joinLines (h : Paragraph lines) :
    trim (joinLines lines) = joinLines lines := by
  refine trim_eq_self_iff.mpr ⟨?_, ?_⟩
  · cases lines with
    | nil => simp [joinLines]
    | cons line lines =>
      rw [head?_joinLines (h.first line rfl)]
      exact head_of_trim (h.trimmed line List.mem_cons_self)
  · rcases List.eq_nil_or_concat lines with rfl | ⟨front, line, hlines⟩
    · simp [joinLines]
    · rw [List.concat_eq_append] at hlines
      subst hlines
      rw [getLast?_joinLines (h.last line List.getLast?_concat)]
      exact getLast_of_trim (h.trimmed line (by simp))

/-! ## Pieces -/

@[simp] theorem flatten_consToLine (c : Char) (lines : List (List Char)) :
    (consToLine c lines).flatten = c :: lines.flatten := by
  cases lines <;> rfl

theorem forall_mem_consToLine {holds : List Char → Prop} (hfirst : holds (c :: lines.headD []))
    (hothers : ∀ line ∈ lines.tail, holds line) : ∀ line ∈ consToLine c lines, holds line := by
  cases lines with
  | nil => exact List.forall_mem_singleton.mpr hfirst
  | cons line lines => exact List.forall_mem_cons.mpr ⟨hfirst, hothers⟩

/-- The pieces of a text are all of it but what it is cut at. -/
theorem flatten_splitAt (separator : Char) (cs : List Char) :
    (splitAt separator cs).flatten = cs.filter (· ≠ separator) := by
  induction cs with
  | nil => rfl
  | cons c cs ih =>
    rw [splitAt]
    split
    · next hc => simp [hc, ih]
    · next hc => simp [hc, ih]

theorem mem_of_mem_splitAt {separator : Char} (h : line ∈ splitAt separator cs) (hc : c ∈ line) :
    c ∈ cs := by
  have hflatten : c ∈ (splitAt separator cs).flatten := List.mem_flatten_of_mem h hc
  rw [flatten_splitAt] at hflatten
  exact (List.mem_filter.mp hflatten).1

/-- What a text is cut at stands in none of the pieces. -/
theorem notMem_of_mem_splitAt {separator : Char} (h : line ∈ splitAt separator cs) :
    separator ∉ line := by
  intro hmem
  have hflatten : separator ∈ (splitAt separator cs).flatten := List.mem_flatten_of_mem h hmem
  rw [flatten_splitAt] at hflatten
  simp at hflatten

/-- A text without the separator is one piece. -/
theorem splitAt_of_notMem {separator : Char} (h : separator ∉ cs) :
    splitAt separator cs = [cs] := by
  induction cs with
  | nil => rfl
  | cons c cs ih =>
    obtain ⟨hc, hcs⟩ := not_or.mp (mt List.mem_cons.mpr h)
    rw [splitAt, if_neg (Ne.symm hc), ih hcs, consToLine]

/-- A text without a separator goes on the last piece of what stands in front of it. -/
theorem exists_splitAt_append {separator : Char} (h : separator ∉ line) (cs : List Char) :
    ∃ pieces last, splitAt separator cs = pieces ++ [last] ∧
      splitAt separator (cs ++ line) = pieces ++ [last ++ line] := by
  induction cs with
  | nil => exact ⟨[], [], rfl, splitAt_of_notMem h⟩
  | cons c cs ih =>
    obtain ⟨pieces, last, hcs, happend⟩ := ih
    rw [List.cons_append, splitAt, splitAt, hcs, happend]
    split
    · exact ⟨[] :: pieces, last, rfl, rfl⟩
    · cases pieces with
      | nil => exact ⟨[], c :: last, rfl, rfl⟩
      | cons piece pieces => exact ⟨(c :: piece) :: pieces, last, rfl, rfl⟩

/-- The first separator ends the first piece. -/
theorem splitAt_append_separator {separator : Char} (h : separator ∉ line) (cs : List Char) :
    splitAt separator (line ++ separator :: cs) = line :: splitAt separator cs := by
  induction line with
  | nil => rw [List.nil_append, splitAt, if_pos rfl]
  | cons c line ih =>
    obtain ⟨hc, hline⟩ := not_or.mp (mt List.mem_cons.mpr h)
    rw [List.cons_append, splitAt, if_neg (Ne.symm hc), ih hline, consToLine]

/-- Lines with a separator behind each of them are cut there; behind the last one is
nothing. -/
theorem splitAt_flatMap_append {separator : Char} (h : ∀ line ∈ lines, separator ∉ line) :
    splitAt separator (lines.flatMap (· ++ [separator])) = lines ++ [[]] := by
  induction lines with
  | nil => rfl
  | cons line lines ih =>
    obtain ⟨hline, hlines⟩ := List.forall_mem_cons.mp h
    rw [List.flatMap_cons, List.append_assoc, List.singleton_append,
      splitAt_append_separator hline, ih hlines, List.cons_append]

end DocComment.Text
