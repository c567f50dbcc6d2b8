import DocComment.Proofs.CommentLines

/-!
# Empty lines around a block

Empty lines in front of the lines of a block, or behind them, go to its description or to
its last tag, and are trimmed away there. So the block is read as without them, and the
same is noted (`Block.ofBody_of_padded`).
-/

namespace DocComment

open Text

/-! ## Empty lines behind a tag -/

section

variable {pad : List (List Char)} (h : Padding pad)

include h

theorem trim_joinLines_append_padding (lines : List (List Char)) :
    trim (joinLines (lines ++ pad)) = trim (joinLines lines) :=
  trim_joinLines_between padding_nil h lines

/-- Empty lines behind a tag do not change its source. -/
theorem source_append_padding (first : List Char) (others : List (List Char)) :
    TagLines.source ⟨first, others ++ pad⟩ = TagLines.source ⟨first, others⟩ :=
  congrArg String.ofList (trim_joinLines_append_padding h (first :: others))

theorem describe_append_padding (cs : List Char) (others : List (List Char)) :
    describe cs (others ++ pad) = describe cs others :=
  congrArg nonEmpty (trim_joinLines_append_padding h (dropMarker ['-', ' '] cs :: others))

/-- A tag is read alike with empty lines behind it. -/
theorem readTag_append_padding (first : List Char) (others : List (List Char)) :
    readTag ⟨first, others ++ pad⟩ = readTag ⟨first, others⟩ := by
  unfold readTag tagOfParts
  simp only [source_append_padding h, describe_append_padding h]

/-- Empty lines behind others leave the tags as they are, and may end the description. -/
theorem sections_append_padding (lines : List (List Char)) :
    Block.tagsOf (sections (lines ++ pad)).2 = Block.tagsOf (sections lines).2 ∧
      ∃ pad', Padding pad' ∧ (sections (lines ++ pad)).1 = (sections lines).1 ++ pad' := by
  induction lines with
  | nil =>
    rw [List.nil_append, sections_padding h]
    exact ⟨rfl, pad, h, rfl⟩
  | cons line lines ih =>
    obtain ⟨htags, pad', hpad', hhead⟩ := ih
    rw [List.cons_append]
    by_cases hline : line.head? = some '@'
    · obtain ⟨cs, rfl⟩ := List.head?_eq_some_iff.mp hline
      rw [sections_cons_tagged, sections_cons_tagged]
      constructor
      · -- the empty lines end the tag if no other tag follows
        rw [Block.tagsOf, Block.tagsOf, htags, hhead, readTag_append_padding hpad']
      · exact ⟨[], padding_nil, rfl⟩
    · rw [sections_cons_untagged hline, sections_cons_untagged hline]
      exact ⟨htags, pad', hpad', congrArg (List.cons line) hhead⟩

end

/-! ## Empty lines around a block -/

/-- A block is read as another one if its lines are those of the other with empty lines
around them. -/
theorem Block.ofBody_of_padded {body other : List Char} {front back : List (List Char)}
    (hfront : Padding front) (hback : Padding back)
    (h : undecoratedLines body = front ++ (undecoratedLines other ++ back)) :
    Block.ofBody body = Block.ofBody other := by
  have huntagged : ∀ line ∈ front, line.head? ≠ some '@' := by
    intro line hline
    rw [hfront line hline]
    simp
  obtain ⟨htags, pad, hpad, hhead⟩ := sections_append_padding hback (undecoratedLines other)
  simp only [Block.ofBody, h, sections_append_untagged huntagged, htags, hhead,
    trim_joinLines_between hfront hpad]

end DocComment
