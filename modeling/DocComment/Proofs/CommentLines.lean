import DocComment.Proofs.Extraction
import DocComment.Proofs.Records

/-!
# Comments as lines

A comment whose lines neither are broken nor close the block is read line by line
(`Block.value_allIn_lines`). Its tags are read apart from each other, and their
keywords are those of the lines that open them (`Block.keywords_ofLines`); so lines
that begin with a tag, or no lines, can follow others without a change to what these
say (`Block.ofLines_append`).
-/

namespace DocComment

open Text

variable {cs line : List Char} {lines others : List (List Char)} {groups : List TagLines}

/-! ## Tags of lines -/

theorem Block.value_tagsOf (groups : List TagLines) :
    (Block.tagsOf groups).value = groups.map fun lines => (readTag lines).value := by
  induction groups with
  | nil => rfl
  | cons lines groups ih =>
    rw [Block.tagsOf, Logged.value_bind, Logged.value_bind, Logged.value_pure, ih, List.map_cons]

/-- The block that some lines without decoration hold. -/
def Block.ofLines (lines : List (List Char)) : Block where
  description := String.ofList (trim (joinLines (sections lines).1))
  tags := (sections lines).2.map fun group => (readTag group).value

theorem Block.value_ofBody (body : List Char) :
    (Block.ofBody body).value = Block.ofLines (undecoratedLines body) := by
  rw [Block.ofBody, Logged.value_bind, Logged.value_pure, Block.value_tagsOf, Block.ofLines]

/-! ## Comments of lines -/

/-- The text of the lines between two spaces. -/
def spacedLines (lines : List (List Char)) : List Char :=
  ' ' :: (joinLines lines ++ [' '])

/-- The space behind the opening sign is not part of the first line. -/
theorem undecorate_space_cons (line : List Char) : undecorate (' ' :: line) = undecorate line := by
  have hspace : trim (' ' :: line) = trim line :=
    trim_blank_append (List.forall_mem_singleton.mpr rfl) line
  rw [undecorate, hspace, undecorate]

/-- Nor is the space in front of the closing sign part of the last. -/
theorem undecorate_append_space (line : List Char) :
    undecorate (line ++ [' ']) = undecorate line := by
  have hspace : trim (line ++ [' ']) = trim line :=
    trim_append_blank (List.forall_mem_singleton.mpr rfl) line
  rw [undecorate, hspace, undecorate]

/-- The last line is found again in front of a space. -/
theorem undecoratedLines_append_space (h : ∀ line ∈ lines, ∀ c ∈ line, isLineBreak c = false)
    (hne : lines ≠ []) : undecoratedLines (joinLines lines ++ [' ']) = lines.map undecorate := by
  induction lines with
  | nil => exact absurd rfl hne
  | cons line lines ih =>
    obtain ⟨hline, hlines⟩ := List.forall_mem_cons.mp h
    by_cases hlast : lines = []
    · have hunbroken : ∀ c ∈ line ++ [' '], isLineBreak c = false :=
        List.forall_mem_append.mpr ⟨hline, by simp [isLineBreak]⟩
      rw [hlast, joinLines, undecoratedLines, splitLines_of_unbroken hunbroken (by simp),
        List.map_singleton, List.map_singleton, undecorate_append_space]
    · have hrest := ih hlines hlast
      rw [undecoratedLines] at hrest ⊢
      rw [joinLines_cons line hlast, List.append_assoc, List.cons_append,
        splitLines_append_newline hline, List.map_cons, hrest, List.map_cons]

/-- The lines are found between the spaces. -/
theorem undecoratedLines_spacedLines (h : ∀ line ∈ lines, ∀ c ∈ line, isLineBreak c = false)
    (hne : lines ≠ []) : undecoratedLines (spacedLines lines) = lines.map undecorate := by
  have hlines := undecoratedLines_append_space h hne
  rw [undecoratedLines] at hlines
  rw [spacedLines, undecoratedLines, splitLines_cons (by decide), ← hlines]
  cases hsplit : splitLines (joinLines lines ++ [' ']) with
  | nil =>
    rw [hsplit] at hlines
    exact absurd hlines.symm (by simpa using hne)
  | cons first behind => rw [consToLine, List.map_cons, undecorate_space_cons, List.map_cons]

/-- A comment that does not close the block is its body, between two spaces. -/
theorem Block.allIn_wrap (h : Unclosed cs) :
    Block.allIn (Record.wrap (String.ofList cs)) = Block.ofBodies [' ' :: (cs ++ [' '])] := by
  have hspace : Unclosed [' '] := by
    unfold Unclosed
    decide
  have hbody : Unclosed (' ' :: (cs ++ [' '])) :=
    unclosed_cons (by decide) (unclosed_append h hspace (by decide))
  have htext : (Record.wrap (String.ofList cs)).toList =
      '/' :: '*' :: '*' :: (' ' :: (cs ++ [' ']) ++ ['*', '/']) := by
    simp [Record.wrap, String.toList_append]
  rw [Block.allIn, htext, blockBodies_closed hbody]

/-- A comment of lines that neither are broken nor close the block holds the block of
these lines. -/
theorem Block.value_allIn_lines (hunbroken : ∀ line ∈ lines, ∀ c ∈ line, isLineBreak c = false)
    (hunclosed : ∀ line ∈ lines, Unclosed line) :
    (Block.allIn (Record.wrap (String.ofList (joinLines lines)))).value =
      [Block.ofLines (lines.map undecorate)] := by
  have hblock : Block.ofLines (undecoratedLines (spacedLines lines)) =
      Block.ofLines (lines.map undecorate) := by
    by_cases hne : lines = []
    · -- without lines there is one line all the same, and it is empty
      subst hne
      rfl
    · rw [undecoratedLines_spacedLines hunbroken hne]
  rw [Block.allIn_wrap (unclosed_joinLines hunclosed), ← spacedLines]
  simp only [Block.ofBodies, Logged.value_bind, Logged.value_pure, Block.value_ofBody, hblock]

/-! ## Lines behind lines -/

/-- The lines begin with a tag, if there are any. -/
def BeginsWithTag (lines : List (List Char)) : Prop :=
  ∀ line ∈ lines.head?, line.head? = some '@'

theorem sections_of_beginsWithTag (h : BeginsWithTag lines) : (sections lines).1 = [] := by
  cases lines with
  | nil => rfl
  | cons line lines =>
    obtain ⟨cs, rfl⟩ := List.head?_eq_some_iff.mp (h line rfl)
    rw [sections_cons_tagged]

/-- A tag takes no line away from those in front of it. -/
theorem sections_append (h : BeginsWithTag others) (lines : List (List Char)) :
    sections (lines ++ others) =
      ((sections lines).1, (sections lines).2 ++ (sections others).2) := by
  induction lines with
  | nil => exact Prod.ext (sections_of_beginsWithTag h) rfl
  | cons line lines ih =>
    by_cases hline : line.head? = some '@'
    · obtain ⟨cs, rfl⟩ := List.head?_eq_some_iff.mp hline
      rw [List.cons_append, sections_cons_tagged, sections_cons_tagged, ih, List.cons_append]
    · rw [List.cons_append, sections_cons_untagged hline, sections_cons_untagged hline, ih]

/-- Lines that begin with a tag only add their own tags. -/
theorem Block.ofLines_append (h : BeginsWithTag others) (lines : List (List Char)) :
    Block.ofLines (lines ++ others) =
      { description := (Block.ofLines lines).description
        tags := (Block.ofLines lines).tags ++ (Block.ofLines others).tags } := by
  simp only [Block.ofLines, sections_append h, List.map_append]

/-! ## Keywords -/

/-- The keyword of a line without decoration, if the line opens a tag. -/
def keywordOf? : List Char → Option String
  | '@' :: cs => some (String.ofList (firstWord cs).1)
  | _ => none

theorem head_of_keywordOf? {keyword : String} (h : keywordOf? line = some keyword) :
    line.head? = some '@' := by
  unfold keywordOf? at h
  split at h
  · rfl
  · cases h

/-- Exactly the lines with an at sign in front have a keyword. -/
theorem keywordOf?_eq_none_iff : keywordOf? line = none ↔ line.head? ≠ some '@' := by
  cases line with
  | nil => simp [keywordOf?]
  | cons c cs =>
    by_cases hc : c = '@'
    · simp [hc, keywordOf?]
    · simp [hc, keywordOf?]

/-- The keyword of a tag stands in its first line. -/
theorem keyword_readTag (cs : List Char) (others : List (List Char)) :
    (readTag ⟨'@' :: cs, others⟩).value.keyword = String.ofList (firstWord cs).1 := by
  -- whatever follows the keyword, the parts are put together under it
  have hparts (keyword source : String) (cs : List Char) :
      (tagOfParts keyword source cs others).keyword = keyword := by
    simp only [tagOfParts]
    split
    · rfl
    · rfl
  simp only [readTag, List.drop_succ_cons, List.drop_zero]
  split
  · next hempty =>
    rw [List.isEmpty_iff.mp hempty]
    rfl
  · split
    · exact hparts ..
    · exact hparts ..

/-- The keywords of the tags are those of the lines, in order. -/
theorem Block.keywords_ofLines (lines : List (List Char)) :
    (Block.ofLines lines).tags.map (·.keyword) = lines.filterMap keywordOf? := by
  induction lines with
  | nil => rfl
  | cons line lines ih =>
    by_cases hline : line.head? = some '@'
    · obtain ⟨cs, rfl⟩ := List.head?_eq_some_iff.mp hline
      rw [Block.ofLines] at ih ⊢
      have hkeyword : keywordOf? ('@' :: cs) = some (String.ofList (firstWord cs).1) := rfl
      rw [sections_cons_tagged, List.map_cons, List.map_cons, keyword_readTag, ih,
        List.filterMap_cons_some hkeyword]
    · rw [Block.ofLines] at ih ⊢
      rw [sections_cons_untagged hline, List.filterMap_cons_none (keywordOf?_eq_none_iff.mpr hline)]
      exact ih

end DocComment
