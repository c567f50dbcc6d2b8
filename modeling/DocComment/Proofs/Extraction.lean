import DocComment.Block
import DocComment.Proofs.Tags.Reading

/-!
# Extraction

A block is written on lines, each behind a gutter. What is found in its text:

* `blockBodies_closed`: a body that does not close the block is found between the
  signs around it.
* `exists_undecoratedLines`: its lines are found behind the gutters.
* `sections_lines`: they are cut in front of each tag.
* `allIn_text_iff`: the text holds the one block that was written, if and only if
  the brackets inside the brackets of each name are balanced.
-/

namespace DocComment

open Text

/-! ## Writing -/

structure WrittenBlock where
  /-- The lines of the description. -/
  description : List (List Char)
  tags : List WrittenTag

namespace WrittenBlock

def lines (block : WrittenBlock) : List (List Char) :=
  block.description ++ block.tags.flatMap (·.lines)

/-- A line behind the gutter. -/
def decorate (line : List Char) : List Char :=
  ' ' :: '*' :: ' ' :: line

/-- What stands between the signs of the block. -/
def body (block : WrittenBlock) : List Char :=
  '\n' :: (joinLines (block.lines.map decorate) ++ ['\n', ' '])

def text (block : WrittenBlock) : String :=
  String.ofList ('/' :: '*' :: '*' :: (block.body ++ ['*', '/']))

def toBlock (block : WrittenBlock) : Block where
  description := String.ofList (joinLines block.description)
  tags := block.tags.map (·.toTag)

end WrittenBlock

/-- The sign that closes a block does not stand in the text. -/
def Unclosed (cs : List Char) : Prop :=
  ¬ ['*', '/'] <:+: cs

/-- The description is a paragraph in which no line opens a tag, the tags are
valid, and no line is broken or closes the block. -/
structure WrittenBlock.Valid (block : WrittenBlock) : Prop where
  description : Paragraph block.description
  untagged : ∀ line ∈ block.description, line.head? ≠ some '@'
  tags : ∀ tag ∈ block.tags, tag.Valid
  unbroken : ∀ line ∈ block.lines, ∀ c ∈ line, isLineBreak c = false
  unclosed : ∀ line ∈ block.lines, Unclosed line

variable {c : Char} {cs ds rest : List Char} {line : List Char} {lines pad : List (List Char)}
  {block : WrittenBlock} {tags : List WrittenTag}

/-! ## The signs of the block -/

theorem unclosed_cons (hc : c ≠ '*') (h : Unclosed cs) : Unclosed (c :: cs) := by
  intro hinfix
  rcases List.infix_cons_iff.mp hinfix with hp | hp
  · exact hc (List.cons_prefix_cons.mp hp).1.symm
  · exact h hp

/-- A text without stars in front cannot hold the first half of a closing sign. -/
theorem unclosed_append_of_notMem (hcs : '*' ∉ cs) (h : Unclosed ds) : Unclosed (cs ++ ds) := by
  induction cs with
  | nil => exact h
  | cons c cs ih =>
    obtain ⟨hc, hrest⟩ := not_or.mp (mt List.mem_cons.mpr hcs)
    exact unclosed_cons (Ne.symm hc) (ih hrest)

theorem unclosed_append (h : Unclosed cs) (h' : Unclosed ds) (hds : ds.head? ≠ some '/') :
    Unclosed (cs ++ ds) := by
  intro hinfix
  rcases List.infix_append_iff.mp hinfix with hp | hp | ⟨front, back, heq, hfront, hback⟩
  · exact h hp
  · exact h' hp
  · -- the sign would be torn apart between its two characters
    rcases front with _ | ⟨a, _ | ⟨b, front⟩⟩
    · obtain rfl : back = ['*', '/'] := heq.symm
      exact h' hback.isInfix
    · obtain rfl : back = ['/'] := (List.cons.inj heq).2.symm
      rcases hback with ⟨more, rfl⟩
      exact hds rfl
    · obtain ⟨rfl, hrest⟩ := List.cons.inj heq
      obtain ⟨rfl, hnil⟩ := List.cons.inj hrest
      obtain rfl := (List.append_eq_nil_iff.mp hnil.symm).1
      exact h hfront.isInfix

/-- A block is not closed before the text that follows has been reached. -/
theorem openBody_append (h : Unclosed cs) (hrest : rest.head? ≠ some '/') :
    openBody (cs ++ rest) = (openBody rest).map fun found => (cs ++ found.1, found.2) := by
  induction cs with
  | nil => simp
  | cons c cs ih =>
    have hcs : Unclosed cs := fun hp => h (List.infix_cons hp)
    rw [List.cons_append, openBody, ih hcs, Option.map_map]
    · rfl
    · rintro more rfl heq
      -- the star would have to be followed by a slash
      cases cs with
      | nil =>
        rw [List.nil_append] at heq
        exact hrest (heq ▸ rfl)
      | cons d ds =>
        obtain ⟨rfl, -⟩ := List.cons.inj heq
        exact h (List.prefix_append ['*', '/'] ds).isInfix

/-- A body that does not close itself is the body of one block. -/
theorem blockBodies_closed (h : Unclosed cs) :
    blockBodies ('/' :: '*' :: '*' :: (cs ++ ['*', '/'])) = [cs] := by
  have hopen : openBody ['*', '/'] = some ([], []) := rfl
  rw [blockBodies, openBody_append h (by decide), hopen]
  simp

/-! ## The gutter -/

theorem unclosed_decorate (h : Unclosed line) : Unclosed (WrittenBlock.decorate line) := by
  have hgutter : Unclosed [' ', '*'] := by
    unfold Unclosed
    decide
  exact unclosed_append hgutter (unclosed_cons (by decide) h) (by simp)

/-- A closing sign does not go across a line feed. -/
theorem unclosed_joinLines (h : ∀ line ∈ lines, Unclosed line) : Unclosed (joinLines lines) := by
  induction lines with
  | nil => simp [Unclosed, joinLines]
  | cons line lines ih =>
    have hline := h line List.mem_cons_self
    have hlines := ih fun l hl => h l (List.mem_cons_of_mem _ hl)
    by_cases hne : lines = []
    · simpa [hne, joinLines] using hline
    · rw [joinLines_cons line hne]
      exact unclosed_append hline (unclosed_cons (by decide) hlines) (by simp)

/-- Lines do not close a block in which they stand on lines of their own. -/
theorem unclosed_framed (h : ∀ line ∈ lines, Unclosed line) :
    Unclosed ('\n' :: (joinLines lines ++ ['\n', ' '])) := by
  have hend : Unclosed ['\n', ' '] := by
    unfold Unclosed
    decide
  exact unclosed_cons (by decide) (unclosed_append (unclosed_joinLines h) hend (by decide))

theorem unclosed_body (h : block.Valid) : Unclosed block.body :=
  unclosed_framed (List.forall_mem_map.mpr fun line hline =>
    unclosed_decorate (h.unclosed line hline))

/-- A gutter of blanks, a star and blanks is removed from its line. -/
theorem undecorate_gutter {indent spacing : List Char} (hindent : ∀ c ∈ indent, isBlank c = true)
    (hspacing : ∀ c ∈ spacing, isBlank c = true) (line : List Char) :
    undecorate (indent ++ '*' :: (spacing ++ line)) = trim line := by
  have htrim : trim (indent ++ '*' :: (spacing ++ line)) = '*' :: trimEnd (spacing ++ line) := by
    rw [trim_blank_append hindent]
    exact trim_word_append (List.cons_ne_nil '*' []) (List.forall_mem_singleton.mpr rfl) _
  rw [undecorate, htrim]
  exact (trim_trimEnd _).trans (trim_blank_append hspacing line)

/-- The gutter is removed again. -/
theorem undecorate_decorate (h : trim line = line) :
    undecorate (WrittenBlock.decorate line) = line := by
  have hspace : ∀ c ∈ [' '], isBlank c = true := List.forall_mem_singleton.mpr rfl
  exact (undecorate_gutter hspace hspace line).trans h

/-- Lines behind a line break and in front of a line break and a space are found between
two others. -/
theorem splitLines_framed (h : ∀ line ∈ lines, ∀ c ∈ line, isLineBreak c = false)
    (hne : lines ≠ []) :
    splitLines ('\n' :: (joinLines lines ++ ['\n', ' '])) = [] :: (lines ++ [[' ']]) := by
  have hfirst (cs : List Char) : splitLines ('\n' :: cs) = [] :: splitLines cs :=
    splitLines_append_newline (List.forall_mem_nil _) cs
  have hlast : splitLines [' '] = [[' ']] :=
    splitLines_of_unbroken (List.forall_mem_singleton.mpr rfl) (List.cons_ne_nil _ _)
  rw [hfirst, splitLines_joinLines h hne, hlast]

/-- All lines of the block are found, between an empty line and further ones. -/
theorem exists_undecoratedLines (h : block.Valid) (htrim : ∀ line ∈ block.lines, trim line = line) :
    ∃ pad, Padding pad ∧ undecoratedLines block.body = [] :: (block.lines ++ pad) := by
  have hunbroken : ∀ line ∈ block.lines.map WrittenBlock.decorate,
      ∀ c ∈ line, isLineBreak c = false := by
    intro line hline
    rcases List.mem_map.mp hline with ⟨inner, hinner, rfl⟩
    have hgutter : ∀ c ∈ [' ', '*', ' '], isLineBreak c = false := by simp [isLineBreak]
    exact List.forall_mem_append.mpr ⟨hgutter, h.unbroken inner hinner⟩
  have hundecorate : (block.lines.map WrittenBlock.decorate).map undecorate = block.lines := by
    rw [List.map_map]
    have hsame : ∀ line ∈ block.lines, (undecorate ∘ WrittenBlock.decorate) line = id line :=
      fun line hline => undecorate_decorate (htrim line hline)
    rw [List.map_congr_left hsame, List.map_id]
  rw [undecoratedLines, WrittenBlock.body]
  -- without lines of its own the block still has the line that its sign stands on
  by_cases hne : block.lines = []
  · refine ⟨[[], []], by simp [Padding], ?_⟩
    rw [hne]
    rfl
  · refine ⟨[[]], padding_singleton, ?_⟩
    rw [splitLines_framed hunbroken (by simpa using hne), List.map_cons, List.map_append,
      hundecorate]
    rfl

/-! ## Sections -/

/-- The lines of a written tag, and empty lines behind them. -/
def Holds (lines : TagLines) (tag : WrittenTag) : Prop :=
  ∃ pad, Padding pad ∧ lines = ⟨tag.firstLine, tag.description.tail ++ pad⟩

/-- A line in front of the first tag belongs to the description. -/
theorem sections_cons_untagged (h : line.head? ≠ some '@') (lines : List (List Char)) :
    sections (line :: lines) = (line :: (sections lines).1, (sections lines).2) := by
  have hline : ['@'].isPrefixOf line = false := by
    cases line with
    | nil => rfl
    | cons c cs =>
      have hc : c ≠ '@' := by simpa using h
      simp [List.isPrefixOf, hc.symm]
  rw [sections]
  simp [hline]

/-- A line with an at sign begins a tag, which takes the lines up to the next one. -/
theorem sections_cons_tagged (cs : List Char) (lines : List (List Char)) :
    sections (('@' :: cs) :: lines) =
      ([], ⟨'@' :: cs, (sections lines).1⟩ :: (sections lines).2) := by
  rw [sections]
  simp [List.isPrefixOf]

/-- Lines that open no tag belong to what is in front of the next tag. -/
theorem sections_append_untagged (h : ∀ line ∈ pad, line.head? ≠ some '@')
    (lines : List (List Char)) :
    sections (pad ++ lines) = (pad ++ (sections lines).1, (sections lines).2) := by
  induction pad with
  | nil => rfl
  | cons line pad ih =>
    have hpad := ih fun l hl => h l (List.mem_cons_of_mem _ hl)
    rw [List.cons_append, sections_cons_untagged (h line List.mem_cons_self), hpad]
    rfl

theorem sections_untagged (h : ∀ line ∈ pad, line.head? ≠ some '@') : sections pad = (pad, []) := by
  have hsections := sections_append_untagged h []
  simpa [sections] using hsections

theorem sections_padding (h : Padding pad) : sections pad = (pad, []) := by
  refine sections_untagged fun line hline => ?_
  rw [h line hline]
  simp

/-- The lines are cut in front of each tag. -/
theorem sections_lines (h : ∀ tag ∈ tags, tag.Valid) (hpad : Padding pad) :
    Padding (sections (tags.flatMap (·.lines) ++ pad)).1 ∧
      List.Forall₂ Holds (sections (tags.flatMap (·.lines) ++ pad)).2 tags := by
  induction tags with
  | nil =>
    rw [List.flatMap_nil, List.nil_append, sections_padding hpad]
    exact ⟨hpad, .nil⟩
  | cons tag tags ih =>
    obtain ⟨hrest, hgroups⟩ := ih fun t ht => h t (List.mem_cons_of_mem _ ht)
    have htail : ∀ line ∈ tag.description.tail, line.head? ≠ some '@' := fun line hline =>
      (h tag List.mem_cons_self).untagged line (List.mem_of_mem_tail hline)
    rw [List.flatMap_cons, List.append_assoc, WrittenTag.lines, List.cons_append,
      WrittenTag.firstLine, sections_cons_tagged, sections_append_untagged htail]
    exact ⟨padding_nil, .cons ⟨_, hrest, rfl⟩ hgroups⟩

/-! ## Tags -/

/-- The tags are read as themselves if and only if all their brackets are
balanced. -/
theorem tagsOf_iff {groups : List TagLines} (hgroups : List.Forall₂ Holds groups tags)
    (h : ∀ tag ∈ tags, tag.Valid) :
    Block.tagsOf groups = pure (tags.map (·.toTag)) ↔ ∀ tag ∈ tags, tag.BracketsBalanced := by
  induction hgroups with
  | nil => exact iff_of_true rfl (List.forall_mem_nil _)
  | @cons lines tag groups tags hholds hgroups ih =>
    obtain ⟨pad, hpad, rfl⟩ := hholds
    have hfirst := WrittenTag.readTag_lines_iff (h tag List.mem_cons_self) hpad
    have hothers := ih fun t ht => h t (List.mem_cons_of_mem _ ht)
    rw [List.forall_mem_cons, ← hfirst, ← hothers, Block.tagsOf]
    simp only [Logged.eq_pure_iff, Logged.notices_bind, Logged.value_bind, Logged.notices_pure,
      Logged.value_pure, List.append_eq_nil_iff, List.map_cons, List.cons.injEq]
    tauto

/-- The text of a block holds the block that was written, and nothing is noted, if
and only if the brackets inside the brackets of each name are balanced. -/
theorem allIn_text_iff (block : WrittenBlock) (h : block.Valid) :
    Block.allIn block.text = pure [block.toBlock] ↔
      ∀ tag ∈ block.tags, tag.BracketsBalanced := by
  have htrim : ∀ line ∈ block.lines, trim line = line := by
    intro line hline
    rcases List.mem_append.mp hline with hline | hline
    · exact h.description.trimmed line hline
    · rcases List.mem_flatMap.mp hline with ⟨tag, htag, hline⟩
      exact (WrittenTag.paragraph_lines (h.tags tag htag)).trimmed line hline
  rcases exists_undecoratedLines h htrim with ⟨pad, hpad, hlines⟩
  obtain ⟨hrest, hgroups⟩ := sections_lines h.tags hpad
  have huntagged : ∀ line ∈ [] :: block.description, line.head? ≠ some '@' :=
    List.forall_mem_cons.mpr ⟨by simp, h.untagged⟩
  have hsections := sections_append_untagged huntagged (block.tags.flatMap (·.lines) ++ pad)
  rw [List.cons_append, ← List.append_assoc, ← WrittenBlock.lines, ← hlines] at hsections
  -- the description ends in front of the first tag, or with the empty lines if there is none
  have hdescription : trim (joinLines ([] :: block.description ++
      (sections (block.tags.flatMap (·.lines) ++ pad)).1)) = joinLines block.description :=
    trim_joinLines_padded padding_singleton hrest h.description.trim_joinLines
  rw [← tagsOf_iff hgroups h.tags, Block.allIn, WrittenBlock.text, String.toList_ofList,
    blockBodies_closed (unclosed_body h)]
  simp only [Block.ofBodies, Block.ofBody, hsections, hdescription, Logged.eq_pure_iff,
    Logged.notices_bind, Logged.value_bind, Logged.notices_pure, Logged.value_pure,
    List.append_nil, WrittenBlock.toBlock, List.cons.injEq, Block.mk.injEq, true_and, and_true]

/-- A block with brackets inside the brackets of a name and braces inside a type. -/
def WrittenBlock.sample : WrittenBlock where
  description := ["Draws a line.".toList, [], "* in one colour".toList]
  tags :=
    [{ keyword := "param".toList
       type := some "{x: number}".toList
       name := some (.bracketed "at".toList (some "[0]".toList))
       description := ["where to begin".toList, "(the corner)".toList] },
     { keyword := "returns".toList
       type := some [] }]

/-- The sample is found in its text. -/
theorem allIn_text_sample :
    WrittenBlock.sample.Valid ∧ (∀ tag ∈ WrittenBlock.sample.tags, tag.BracketsBalanced) ∧
      Block.allIn WrittenBlock.sample.text = pure [WrittenBlock.sample.toBlock] := by
  have hunbroken : WrittenBlock.sample.lines.all (·.all (!isLineBreak ·)) = true := by
    decide
  have hvalid : WrittenBlock.sample.Valid := by
    refine ⟨by decide, by decide, by decide, fun line hline => ?_, ?_⟩
    · exact forall_mem_of_all (List.all_eq_true.mp hunbroken line hline)
    · unfold Unclosed
      decide
  have hbalanced : ∀ tag ∈ WrittenBlock.sample.tags, tag.BracketsBalanced := by decide
  exact ⟨hvalid, hbalanced, (allIn_text_iff WrittenBlock.sample hvalid).mpr hbalanced⟩

end DocComment
