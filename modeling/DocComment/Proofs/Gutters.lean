import DocComment.Proofs.Blocks
import DocComment.Proofs.EmptyLines

/-!
# Gutters

The lines of a block may stand behind gutters, which are blanks with a star among them, and
the signs of the block may stand on lines of their own. All that is decoration: the block
is read as from the bare lines between the signs, and the same is noted
(`Block.allIn_guttered`).

Only a line that begins with a star by itself is left out here, since its first star would
be taken for a gutter.
-/

namespace DocComment

open Text

/-! ## Lines with gutters -/

/-- A line behind a gutter of blanks, a star and blanks. -/
structure GutteredLine where
  indent : List Char
  spacing : List Char
  line : List Char

namespace GutteredLine

def chars (l : GutteredLine) : List Char :=
  l.indent ++ '*' :: (l.spacing ++ l.line)

/-- The gutter and the line hold no line break, the line does not begin with a star, and
the sign that closes a block stands neither in the line nor across its gutter. -/
structure Valid (l : GutteredLine) : Prop where
  indent : ∀ c ∈ l.indent, isBlank c = true ∧ isLineBreak c = false
  spacing : ∀ c ∈ l.spacing, isBlank c = true ∧ isLineBreak c = false
  unbroken : ∀ c ∈ l.line, isLineBreak c = false
  unstarred : (trim l.line).head? ≠ some '*'
  unclosed : Unclosed l.chars

instance : DecidablePred Valid := fun l =>
  decidable_of_iff
    (l.indent.all (fun c => isBlank c && !isLineBreak c) = true ∧
      l.spacing.all (fun c => isBlank c && !isLineBreak c) = true ∧
      l.line.all (!isLineBreak ·) = true ∧ (trim l.line).head? ≠ some '*' ∧
      ¬ ['*', '/'] <:+: l.chars)
    ⟨fun ⟨h1, h2, h3, h4, h5⟩ => ⟨by simpa using h1, by simpa using h2, forall_mem_of_all h3, h4, h5⟩,
      fun ⟨h1, h2, h3, h4, h5⟩ => ⟨by simpa using h1, by simpa using h2, by simpa using h3, h4, h5⟩⟩

variable {l : GutteredLine} {lines : List GutteredLine}

theorem Valid.unbroken_chars (h : l.Valid) : ∀ c ∈ l.chars, isLineBreak c = false := by
  intro c hc
  rcases List.mem_append.mp hc with hc | hc
  · exact (h.indent c hc).2
  · rcases List.mem_cons.mp hc with rfl | hc
    · rfl
    · rcases List.mem_append.mp hc with hc | hc
      · exact (h.spacing c hc).2
      · exact h.unbroken c hc

/-- What stands behind the gutter does not close the block. -/
theorem Valid.unclosed_line (h : l.Valid) : Unclosed l.line := by
  intro hheld
  have hsuffix : l.line <:+ l.chars :=
    ((List.suffix_append l.spacing l.line).trans (List.suffix_cons '*' _)).trans
      (List.suffix_append l.indent _)
  exact h.unclosed (hheld.trans hsuffix.isInfix)

/-- With and without its gutter, a line is the same without decoration. -/
theorem Valid.undecorate_chars (h : l.Valid) : undecorate l.chars = undecorate l.line := by
  have hbare : undecorate l.line = trim l.line := by
    unfold undecorate
    split
    · next hstar =>
      have hunstarred := h.unstarred
      rw [hstar] at hunstarred
      exact absurd rfl hunstarred
    · rfl
  rw [hbare]
  exact undecorate_gutter (fun c hc => (h.indent c hc).1) (fun c hc => (h.spacing c hc).1) l.line

/-! ## Blocks with gutters -/

/-- The body of a block whose lines stand behind gutters, on lines of their own. -/
def body (lines : List GutteredLine) : List Char :=
  '\n' :: (joinLines (lines.map (·.chars)) ++ ['\n', ' '])

def bare (lines : List GutteredLine) : List Char :=
  joinLines (lines.map (·.line))

theorem unclosed_body (h : ∀ l ∈ lines, l.Valid) : Unclosed (body lines) :=
  unclosed_framed (List.forall_mem_map.mpr fun l hl => (h l hl).unclosed)

theorem unclosed_bare (h : ∀ l ∈ lines, l.Valid) : Unclosed (bare lines) :=
  unclosed_joinLines (List.forall_mem_map.mpr fun l hl => (h l hl).unclosed_line)

/-- Without decoration there are the same lines, and an empty one at either end. -/
theorem undecoratedLines_body (h : ∀ l ∈ lines, l.Valid) :
    undecoratedLines (body lines) =
      [[]] ++ (undecoratedLines (' ' :: (bare lines ++ [' '])) ++ [[]]) := by
  by_cases hne : lines = []
  · subst hne
    rfl
  · have hchars : ∀ line ∈ lines.map (·.chars), ∀ c ∈ line, isLineBreak c = false :=
      List.forall_mem_map.mpr fun l hl => (h l hl).unbroken_chars
    have hbare : ∀ line ∈ lines.map (·.line), ∀ c ∈ line, isLineBreak c = false :=
      List.forall_mem_map.mpr fun l hl => (h l hl).unbroken
    -- the gutters go away line by line
    have hsame : (lines.map (·.chars)).map undecorate = (lines.map (·.line)).map undecorate := by
      rw [List.map_map, List.map_map]
      apply List.map_congr_left
      intro l hl
      exact (h l hl).undecorate_chars
    have hspaced : undecoratedLines (' ' :: (bare lines ++ [' '])) =
        (lines.map (·.line)).map undecorate :=
      undecoratedLines_spacedLines hbare (by simpa using hne)
    rw [hspaced, ← hsame, undecoratedLines, body, splitLines_framed hchars (by simpa using hne),
      List.map_cons, List.map_append]
    rfl

end GutteredLine

/-- A block whose lines stand behind gutters is read as the block of the bare lines, and
the same is noted. It is the only block of its text. -/
theorem Block.allIn_guttered (lines : List GutteredLine) (h : ∀ l ∈ lines, l.Valid) :
    Block.allIn (String.ofList (enclose (GutteredLine.body lines))) =
        Block.allIn (Record.wrap (String.ofList (GutteredLine.bare lines))) ∧
      ∃ block,
        (Block.allIn (String.ofList (enclose (GutteredLine.body lines)))).value = [block] := by
  have hguttered : Block.allIn (String.ofList (enclose (GutteredLine.body lines))) =
      Block.ofBodies [GutteredLine.body lines] :=
    Block.allIn_enclose (GutteredLine.unclosed_body h)
  have hbody : Block.ofBody (GutteredLine.body lines) =
      Block.ofBody (' ' :: (GutteredLine.bare lines ++ [' '])) :=
    Block.ofBody_of_padded padding_singleton padding_singleton
      (GutteredLine.undecoratedLines_body h)
  constructor
  · rw [hguttered, Block.allIn_wrap (GutteredLine.unclosed_bare h)]
    simp only [Block.ofBodies, hbody]
  · rw [hguttered, Block.value_ofBodies]
    exact ⟨_, rfl⟩

/-- A description and a tag with an open brace, behind gutters of several widths. -/
def GutteredLine.sample : List GutteredLine :=
  [⟨['\t'], [' '], "/ Adds **. ".toList⟩, ⟨[], [' ', ' '], []⟩,
    ⟨[' '], ['\u00a0'], " @param \x7bA b".toList⟩, ⟨[' ', ' '], [' '], "  c".toList⟩]

/-- The sample is read as its bare lines. -/
theorem Block.allIn_guttered_sample :
    (∀ l ∈ GutteredLine.sample, l.Valid) ∧
      Block.allIn (String.ofList (enclose (GutteredLine.body GutteredLine.sample))) =
        Block.allIn (Record.wrap (String.ofList (GutteredLine.bare GutteredLine.sample))) ∧
      ∃ block, (Block.allIn
        (String.ofList (enclose (GutteredLine.body GutteredLine.sample)))).value = [block] := by
  have hvalid : ∀ l ∈ GutteredLine.sample, l.Valid := by
    decide +kernel
  exact ⟨hvalid, Block.allIn_guttered GutteredLine.sample hvalid⟩

end DocComment
