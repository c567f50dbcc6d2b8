import DocComment.Proofs.Blocks
import DocComment.Proofs.EmptyLines

/-!
# Comments with closing signs

A comment is read between the signs of a block. If it holds the closing sign itself, the
block ends there, and whatever follows belongs to other blocks or to none. So what becomes
of the comment is what becomes of the text in front of its first closing sign
(`Record.ofComment_closed`).
-/

namespace DocComment

open Text

variable {cs front : List Char}

/-! ## The first closing sign -/

/-- A text that holds the closing sign has a first one. -/
theorem exists_first_closing (h : ¬ Unclosed cs) :
    ∃ front behind, cs = front ++ '*' :: '/' :: behind ∧ Unclosed front := by
  induction cs with
  | nil => exact absurd (by simp [Unclosed]) h
  | cons c cs ih =>
    by_cases hsign : ['*', '/'] <+: c :: cs
    · obtain ⟨behind, hbehind⟩ := hsign
      exact ⟨[], behind, hbehind.symm, by simp [Unclosed]⟩
    · -- the first character begins no sign, so there is one further on
      have hcs : ¬ Unclosed cs := by
        intro hunclosed
        apply h
        intro hheld
        rcases List.infix_cons_iff.mp hheld with hstarts | hheld
        · exact hsign hstarts
        · exact hunclosed hheld
      obtain ⟨front, behind, rfl, hfront⟩ := ih hcs
      refine ⟨c :: front, behind, rfl, ?_⟩
      intro hheld
      rcases List.infix_cons_iff.mp hheld with hstarts | hheld
      · have hfirst : c :: front <+: c :: (front ++ '*' :: '/' :: behind) :=
          List.prefix_append (c :: front) _
        exact hsign (hstarts.trans hfirst)
      · exact hfront hheld

/-- The first block of a comment ends at the first closing sign of the comment. -/
theorem blockBodies_wrap (h : Unclosed front) (behind : List Char) :
    blockBodies (Record.wrap (String.ofList (front ++ '*' :: '/' :: behind))).toList =
      (' ' :: front) :: blockBodies (behind ++ [' ', '*', '/']) := by
  have htext : (Record.wrap (String.ofList (front ++ '*' :: '/' :: behind))).toList =
      enclose (' ' :: front) ++ (behind ++ [' ', '*', '/']) := by
    simp [Record.wrap, String.toList_append, enclose]
  rw [htext]
  exact blockBodies_enclose_append (unclosed_cons (by decide) h) _

/-! ## The block in front of it -/

/-- A space behind the body of a block does not matter. -/
theorem Block.ofBody_append_space (body : List Char) :
    Block.ofBody (body ++ [' ']) = Block.ofBody body := by
  rcases splitLines_append_singleton (d := ' ') rfl body with hlines | ⟨front, last, hlast, hlines⟩
  · -- the space is a line of its own
    apply Block.ofBody_of_padded padding_nil padding_singleton
    rw [undecoratedLines, hlines, List.map_append]
    rfl
  · apply Block.ofBody_of_padded padding_nil padding_nil
    rw [undecoratedLines, undecoratedLines, hlines, hlast, List.map_append, List.map_append,
      List.map_singleton, List.map_singleton, undecorate_append_space, List.nil_append,
      List.append_nil]

/-- Without a closing sign, the comment is the body of its one block. -/
theorem Block.value_allIn_unclosed (h : Unclosed front) :
    (Block.allIn (Record.wrap (String.ofList front))).value =
      [(Block.ofBody (' ' :: front)).value] := by
  rw [Block.allIn_wrap h, Block.value_ofBodies, List.map_singleton, ← List.cons_append,
    Block.ofBody_append_space]

/-- The first closing sign ends the first block, whatever comes behind it. -/
theorem Block.value_allIn_closed (h : Unclosed front) (behind : List Char) :
    ∃ later, (Block.allIn (Record.wrap (String.ofList (front ++ '*' :: '/' :: behind)))).value =
      (Block.ofBody (' ' :: front)).value :: later := by
  rw [Block.allIn, blockBodies_wrap h, Block.value_ofBodies, List.map_cons]
  exact ⟨_, rfl⟩

/-! ## The record -/

/-- The record of a comment is that of its first block. -/
theorem Record.result_of_value {comment : String} {block : Block} {later : List Block}
    (h : (Block.allIn (Record.wrap comment)).value = block :: later) :
    (Record.ofComment comment).result = (Record.ofBlocks [block]).result := by
  have hresult : (Record.ofComment comment).result =
      (Record.ofBlocks (Block.allIn (Record.wrap comment)).value).result := rfl
  rw [hresult, h]
  rfl

/-- A wrapped comment holds a block, since the wrapping closes it. -/
theorem Block.exists_value_allIn (comment : String) :
    ∃ block later, (Block.allIn (Record.wrap comment)).value = block :: later := by
  by_cases hclosed : Unclosed comment.toList
  · have hvalue := Block.value_allIn_unclosed hclosed
    rw [String.ofList_toList] at hvalue
    exact ⟨_, _, hvalue⟩
  · obtain ⟨front, behind, hcomment, hfront⟩ := exists_first_closing hclosed
    obtain ⟨later, hvalue⟩ := Block.value_allIn_closed hfront behind
    rw [← hcomment, String.ofList_toList] at hvalue
    exact ⟨_, _, hvalue⟩

/-- What becomes of a comment with a closing sign is what becomes of the text in front of
its first one, whatever follows. Every comment holds a block, and its record, or its
fault, is that of the first block. -/
theorem Record.ofComment_closed (comment : String) :
    (¬ Unclosed comment.toList →
      ∃ front behind, comment.toList = front ++ '*' :: '/' :: behind ∧ Unclosed front) ∧
    (∀ front behind, comment.toList = front ++ '*' :: '/' :: behind → Unclosed front →
      (Record.ofComment comment).result = (Record.ofComment (String.ofList front)).result) ∧
    ∃ block later, (Block.allIn (Record.wrap comment)).value = block :: later ∧
      (Record.ofComment comment).result = (Record.ofBlocks [block]).result := by
  refine ⟨exists_first_closing, ?_, ?_⟩
  · intro front behind hcomment hfront
    obtain ⟨later, hvalue⟩ := Block.value_allIn_closed hfront behind
    rw [← hcomment, String.ofList_toList] at hvalue
    rw [Record.result_of_value hvalue,
      Record.result_of_value (Block.value_allIn_unclosed hfront)]
  · obtain ⟨block, later, hvalue⟩ := Block.exists_value_allIn comment
    exact ⟨block, later, hvalue, Record.result_of_value hvalue⟩

/-- A parameter with a star in front of the closing sign, and another block with a type
that is malformed. -/
theorem Record.ofComment_closed_sample :
    let front := "@param \x7bA\x7d b *".toList
    let behind := "/** @param \x7b<\x7d c".toList
    let comment := String.ofList (front ++ '*' :: '/' :: behind)
    ¬ Unclosed comment.toList ∧ comment.toList = front ++ '*' :: '/' :: behind ∧
      Unclosed front ∧
      (Record.ofComment comment).result = (Record.ofComment (String.ofList front)).result := by
  intro front behind comment
  have hcomment : comment.toList = front ++ '*' :: '/' :: behind := String.toList_ofList
  have hfront : Unclosed front := by
    unfold Unclosed
    decide +kernel
  have hclosed : ¬ Unclosed comment.toList := by
    rw [hcomment]
    exact not_not_intro ⟨front, behind, by simp⟩
  obtain ⟨-, hrecord, -⟩ := Record.ofComment_closed comment
  exact ⟨hclosed, hcomment, hfront, hrecord front behind hcomment hfront⟩

end DocComment
