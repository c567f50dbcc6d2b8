import DocComment.Proofs.CommentLines

/-!
# Sections of a block

The lines of a block are shared out between its description and its tags. A line that
opens a tag opens the source of one tag, and the lines that are not blank are found
again, in order, in the description and the sources of the tags (`ofBody_keeps_lines`).

Description and sources are trimmed texts of several lines. Their outer blanks are
whole lines, since each line has been trimmed by itself (`textLines_trim_joinLines`).
-/

namespace DocComment

open Text

/-- Whether a line holds something besides blanks. -/
def hasText (line : List Char) : Bool :=
  !isAllBlank line

/-- The lines of a text that are not blank. -/
def textLines (cs : List Char) : List (List Char) :=
  (splitLines cs).filter hasText

/-- Whether a line without decoration opens a tag. -/
def opensTag (line : List Char) : Bool :=
  ['@'].isPrefixOf line

variable {c : Char} {cs line : List Char} {lines pad : List (List Char)}

/-! ## Lines with text -/

theorem filter_hasText_padding (h : Padding pad) : pad.filter hasText = [] := by
  refine List.filter_eq_nil_iff.mpr fun line hline => ?_
  rw [h line hline]
  decide

theorem textLines_joinLines (h : ∀ line ∈ lines, ∀ c ∈ line, isLineBreak c = false) :
    textLines (joinLines lines) = lines.filter hasText := by
  induction lines with
  | nil => rfl
  | cons line lines ih =>
    obtain ⟨hline, hlines⟩ := List.forall_mem_cons.mp h
    by_cases hlast : lines = []
    · subst hlast
      by_cases hne : line = []
      · -- the text of one empty line has no line at all
        subst hne
        rfl
      · rw [joinLines, textLines, splitLines_of_unbroken hline hne]
    · have hrest := ih hlines
      rw [textLines] at hrest ⊢
      rw [joinLines_cons line hlast, splitLines_append_newline hline, List.filter_cons,
        List.filter_cons, hrest]

/-- Empty lines at the end of others. -/
theorem exists_core_append_padding (lines : List (List Char)) :
    ∃ core pad, Padding pad ∧ (∀ line ∈ core.getLast?, line ≠ []) ∧ lines = core ++ pad := by
  induction lines using List.reverseRecOn with
  | nil => exact ⟨[], [], padding_nil, by simp, rfl⟩
  | append_singleton front line ih =>
    by_cases hline : line = []
    · obtain ⟨core, pad, hpad, hlast, rfl⟩ := ih
      refine ⟨core, pad ++ [line], ?_, hlast, List.append_assoc ..⟩
      exact List.forall_mem_append.mpr ⟨hpad, by simpa using hline⟩
    · exact ⟨front ++ [line], [], padding_nil, by simpa using hline, (List.append_nil _).symm⟩

/-- Trimmed lines are a paragraph between empty lines. -/
theorem exists_paragraph (h : ∀ line ∈ lines, trim line = line) :
    ∃ front core back, Padding front ∧ Padding back ∧ Paragraph core ∧
      lines = front ++ (core ++ back) := by
  induction lines with
  | nil => exact ⟨[], [], [], padding_nil, padding_nil, by decide, rfl⟩
  | cons line lines ih =>
    -- empty lines go to the front until a line with text comes, and from there to the back
    by_cases hline : line = []
    · obtain ⟨front, core, back, hfront, hback, hcore, rfl⟩ :=
        ih fun l hl => h l (List.mem_cons_of_mem _ hl)
      exact ⟨line :: front, core, back, List.forall_mem_cons.mpr ⟨hline, hfront⟩, hback, hcore, rfl⟩
    · obtain ⟨core, back, hback, hlast, hlines⟩ := exists_core_append_padding (line :: lines)
      refine ⟨[], core, back, padding_nil, hback, ⟨fun l hl => ?_, fun l hl => ?_, hlast⟩, hlines⟩
      · exact h l (hlines ▸ List.mem_append_left back hl)
      · cases core with
        | nil => cases hl
        | cons first core =>
          obtain ⟨rfl, -⟩ := List.cons.inj hlines
          exact Option.some.inj hl ▸ hline

/-- Trimming the text of trimmed lines loses no line with text. -/
theorem textLines_trim_joinLines (htrim : ∀ line ∈ lines, trim line = line)
    (hunbroken : ∀ line ∈ lines, ∀ c ∈ line, isLineBreak c = false) :
    textLines (trim (joinLines lines)) = lines.filter hasText := by
  obtain ⟨front, core, back, hfront, hback, hcore, rfl⟩ := exists_paragraph htrim
  have hunbroken' : ∀ line ∈ core, ∀ c ∈ line, isLineBreak c = false := fun line hline =>
    hunbroken line (List.mem_append_right front (List.mem_append_left back hline))
  rw [trim_joinLines_padded hfront hback hcore.trim_joinLines, textLines_joinLines hunbroken',
    List.filter_append, List.filter_append, filter_hasText_padding hfront,
    filter_hasText_padding hback, List.nil_append, List.append_nil]

/-! ## Lines without decoration -/

theorem mem_of_mem_trim (h : c ∈ trim cs) : c ∈ cs :=
  (trimStart_suffix cs).subset ((trimEnd_starts _).subset h)

/-- A line only loses characters. -/
theorem mem_of_mem_undecorate (h : c ∈ undecorate line) : c ∈ line := by
  unfold undecorate at h
  split at h
  · next heq =>
    refine mem_of_mem_trim ?_
    rw [heq]
    exact List.mem_cons_of_mem _ (mem_of_mem_trim h)
  · exact mem_of_mem_trim h

theorem trim_undecorate (line : List Char) : trim (undecorate line) = undecorate line := by
  unfold undecorate
  split
  · exact trim_trim _
  · exact trim_trim _

/-- No line holds a line break. -/
theorem unbroken_splitLines (cs : List Char) :
    ∀ line ∈ splitLines cs, ∀ c ∈ line, isLineBreak c = false := by
  fun_induction splitLines cs with
  | case1 => exact List.forall_mem_nil _
  | case2 cs ih => exact List.forall_mem_cons.mpr ⟨List.forall_mem_nil _, ih⟩
  | case3 c cs _ _ ih => exact List.forall_mem_cons.mpr ⟨List.forall_mem_nil _, ih⟩
  | case4 c cs _ hc ih =>
    have hc' : isLineBreak c = false := by simpa using hc
    cases hsplit : splitLines cs with
    | nil => simpa [consToLine] using hc'
    | cons first lines =>
      rw [hsplit] at ih
      obtain ⟨hfirst, hlines⟩ := List.forall_mem_cons.mp ih
      exact List.forall_mem_cons.mpr ⟨List.forall_mem_cons.mpr ⟨hc', hfirst⟩, hlines⟩

theorem trim_of_mem_undecoratedLines {body : List Char} (h : line ∈ undecoratedLines body) :
    trim line = line := by
  obtain ⟨inner, -, rfl⟩ := List.mem_map.mp h
  exact trim_undecorate inner

theorem unbroken_of_mem_undecoratedLines {body : List Char} (h : line ∈ undecoratedLines body) :
    ∀ c ∈ line, isLineBreak c = false := by
  obtain ⟨inner, hinner, rfl⟩ := List.mem_map.mp h
  exact fun c hc => unbroken_splitLines body inner hinner c (mem_of_mem_undecorate hc)

/-! ## Sharing out the lines -/

def TagLines.all (group : TagLines) : List (List Char) :=
  group.first :: group.others

/-- A line opens a tag if it begins with an at sign. -/
theorem opensTag_iff : opensTag line = true ↔ line.head? = some '@' := by
  cases line with
  | nil => simp [opensTag]
  | cons c cs => simpa [opensTag, List.isPrefixOf] using eq_comm

/-- Each line is in the description or in one tag, and their order is kept. -/
theorem sections_flatten (lines : List (List Char)) :
    (sections lines).1 ++ (sections lines).2.flatMap (·.all) = lines := by
  induction lines with
  | nil => rfl
  | cons line lines ih =>
    by_cases hline : line.head? = some '@'
    · obtain ⟨cs, rfl⟩ := List.head?_eq_some_iff.mp hline
      rw [sections_cons_tagged, List.nil_append, List.flatMap_cons, TagLines.all, List.cons_append,
        ih]
    · rw [sections_cons_untagged hline, List.cons_append, ih]

/-- The tags are those of the lines that open one. -/
theorem map_first_sections (lines : List (List Char)) :
    (sections lines).2.map (·.first) = lines.filter opensTag := by
  induction lines with
  | nil => rfl
  | cons line lines ih =>
    by_cases hline : line.head? = some '@'
    · obtain ⟨cs, rfl⟩ := List.head?_eq_some_iff.mp hline
      rw [sections_cons_tagged, List.map_cons, ih, List.filter_cons_of_pos (opensTag_iff.mpr hline)]
    · rw [sections_cons_untagged hline, List.filter_cons_of_neg (mt opensTag_iff.mp hline), ih]

/-- Whatever is read from a tag, its source are its lines. -/
theorem source_readTag (group : TagLines) : (readTag group).value.source = group.source := by
  have hparts (keyword : String) (cs : List Char) :
      (tagOfParts keyword group.source cs group.others).source = group.source := by
    simp only [tagOfParts]
    split
    · rfl
    · rfl
  simp only [readTag]
  split
  · rfl
  · split
    · exact hparts ..
    · exact hparts ..

/-- The source of a tag holds its lines. -/
theorem textLines_source {group : TagLines} (htrim : ∀ line ∈ group.all, trim line = line)
    (hunbroken : ∀ line ∈ group.all, ∀ c ∈ line, isLineBreak c = false) :
    textLines group.source.toList = group.all.filter hasText := by
  rw [TagLines.source, String.toList_ofList]
  exact textLines_trim_joinLines htrim hunbroken

theorem hasText_of_opensTag (h : opensTag line = true) : hasText line = true := by
  obtain ⟨cs, rfl⟩ := List.head?_eq_some_iff.mp (opensTag_iff.mp h)
  simp [hasText, isAllBlank, isBlank]

/-- Each line that opens a tag is the first of one, and the lines with text are those of the
description and of the tags, in order. -/
theorem Block.ofLines_keeps_lines (htrim : ∀ line ∈ lines, trim line = line)
    (hunbroken : ∀ line ∈ lines, ∀ c ∈ line, isLineBreak c = false) :
    ((Block.ofLines lines).tags.map fun tag => (textLines tag.source.toList).head?) =
        (lines.filter opensTag).map some ∧
      textLines (Block.ofLines lines).description.toList ++
          (Block.ofLines lines).tags.flatMap (fun tag => textLines tag.source.toList) =
        lines.filter hasText := by
  have hall := sections_flatten lines
  have hhead : ∀ line ∈ (sections lines).1, line ∈ lines := fun line hline =>
    hall ▸ List.mem_append_left _ hline
  have hgroups : ∀ group ∈ (sections lines).2, ∀ line ∈ group.all, line ∈ lines :=
    fun group hgroup line hline =>
      hall ▸ List.mem_append_right _ (List.mem_flatMap_of_mem hgroup hline)
  -- the lines of a tag lose only those without text
  have hsource : ∀ group ∈ (sections lines).2,
      textLines (readTag group).value.source.toList = group.all.filter hasText := by
    intro group hgroup
    rw [source_readTag]
    exact textLines_source (fun line hline => htrim line (hgroups group hgroup line hline))
      fun line hline => hunbroken line (hgroups group hgroup line hline)
  have hfirst : ∀ group ∈ (sections lines).2, hasText group.first = true := by
    intro group hgroup
    have hmem : group.first ∈ lines.filter opensTag := by
      rw [← map_first_sections]
      exact List.mem_map_of_mem hgroup
    exact hasText_of_opensTag (List.mem_filter.mp hmem).2
  constructor
  · rw [Block.ofLines, List.map_map, ← map_first_sections, List.map_map]
    refine List.map_congr_left fun group hgroup => ?_
    rw [Function.comp_apply, hsource group hgroup, TagLines.all,
      List.filter_cons_of_pos (hfirst group hgroup)]
    rfl
  · have htags : (Block.ofLines lines).tags.flatMap (fun tag => textLines tag.source.toList) =
        (sections lines).2.flatMap fun group => group.all.filter hasText := by
      rw [Block.ofLines, List.flatMap_map]
      exact List.flatMap_congr fun group hgroup => hsource group hgroup
    have hdescription : textLines (Block.ofLines lines).description.toList =
        (sections lines).1.filter hasText := by
      rw [Block.ofLines, String.toList_ofList]
      exact textLines_trim_joinLines (fun line hline => htrim line (hhead line hline))
        fun line hline => hunbroken line (hhead line hline)
    rw [htags, hdescription, ← List.filter_flatMap, ← List.filter_append, hall]

/-- Whatever stands between the signs of a block, each line that opens a tag opens the
source of one, in order; and the lines with text of the description and of the sources, in
order, are those of the block. -/
theorem Block.ofBody_keeps_lines (body : List Char) :
    ((Block.ofBody body).value.tags.map fun tag => (textLines tag.source.toList).head?) =
        ((undecoratedLines body).filter opensTag).map some ∧
      textLines (Block.ofBody body).value.description.toList ++
          (Block.ofBody body).value.tags.flatMap (fun tag => textLines tag.source.toList) =
        (undecoratedLines body).filter hasText := by
  rw [Block.value_ofBody]
  exact Block.ofLines_keeps_lines (fun _ => trim_of_mem_undecoratedLines)
    fun _ => unbroken_of_mem_undecoratedLines

end DocComment
