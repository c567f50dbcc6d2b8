import DocComment.Proofs.CommentLines

/-!
# Unrelated tags

The record of a comment depends on its description, its parameter tags and its first
return tag (`Record.result_ofBlocks_congr`). So the lines of another tag can be taken
out of the comment, whatever they hold: the record stays, and so does the fault if
there is none (`Record.ofComment_unrelated`).
-/

namespace DocComment

open Text

variable {tag : Tag} {tags front back : List Tag} {block other : Block}

/-! ## Tags that matter -/

/-- Only the parameter tags become parameters. -/
theorem paramsOf_paramTags (tags : List Tag) : paramsOf (paramTags tags) = paramsOf tags := by
  unfold paramTags
  induction tags with
  | nil => rfl
  | cons tag tags ih =>
    by_cases hparam : paramKeywords.contains tag.keyword = true
    · rw [List.filter_cons, if_pos hparam, paramsOf, if_pos hparam, ih, paramsOf, if_pos hparam]
    · rw [List.filter_cons, if_neg hparam, ih, paramsOf, if_neg hparam]

/-- The record of a block follows from its description and the tags that matter. -/
theorem Record.result_ofBlocks_congr (hdescription : block.description = other.description)
    (hparams : paramTags block.tags = paramTags other.tags)
    (hreturns : returnTag block.tags = returnTag other.tags) :
    (Record.ofBlocks [block]).result = (Record.ofBlocks [other]).result := by
  unfold Record.ofBlocks
  simp only [Checked.result_bind, Checked.result_pure, result_returnsOf]
  rw [← paramsOf_paramTags block.tags, hparams, paramsOf_paramTags, hreturns, hdescription]

/-- A tag that is no parameter can be left out of the parameters. -/
theorem paramTags_of_notMem (h : tag.keyword ∉ paramKeywords) (front back : List Tag) :
    paramTags (front ++ tag :: back) = paramTags (front ++ back) := by
  unfold paramTags
  rw [List.filter_append, List.filter_cons, if_neg (by simpa using h), List.filter_append]

/-- A tag is not the first return tag if it is none, or if one stands in front of it. -/
theorem returnTag_of_notMem
    (h : tag.keyword ∉ returnKeywords ∨ ∃ first ∈ front, first.keyword ∈ returnKeywords)
    (back : List Tag) : returnTag (front ++ tag :: back) = returnTag (front ++ back) := by
  unfold returnTag
  rw [List.find?_append, List.find?_append]
  rcases h with h | ⟨first, hfirst, hkeyword⟩
  · rw [List.find?_cons_of_neg (by simpa using h)]
  · have hfound : (front.find? fun tag => returnKeywords.contains tag.keyword).isSome :=
      List.find?_isSome.mpr ⟨first, hfirst, by simpa using hkeyword⟩
    obtain ⟨found, hfound⟩ := Option.isSome_iff_exists.mp hfound
    rw [hfound, Option.some_or, Option.some_or]

/-! ## Lines that do not matter -/

/-- The record of a comment of lines is that of their block. -/
theorem Record.result_ofComment_lines {lines : List (List Char)}
    (hunbroken : ∀ line ∈ lines, ∀ c ∈ line, isLineBreak c = false)
    (hunclosed : ∀ line ∈ lines, Unclosed line) :
    (Record.ofComment (String.ofList (joinLines lines))).result =
      (Record.ofBlocks [Block.ofLines (lines.map undecorate)]).result := by
  rw [← Block.value_allIn_lines hunbroken hunclosed]
  rfl

/-- Lines that open one tag hold it alone. -/
theorem Block.ofLines_cons {first : List Char} {others : List (List Char)} {keyword : String}
    (hfirst : keywordOf? first = some keyword) (hothers : ∀ line ∈ others, keywordOf? line = none) :
    ∃ tag : Tag, tag.keyword = keyword ∧
      Block.ofLines (first :: others) = { description := "", tags := [tag] } := by
  obtain ⟨cs, rfl⟩ := List.head?_eq_some_iff.mp (head_of_keywordOf? hfirst)
  have hsections : sections others = (others, []) :=
    sections_untagged fun line hline => keywordOf?_eq_none_iff.mp (hothers line hline)
  refine ⟨(readTag ⟨'@' :: cs, others⟩).value, ?_, ?_⟩
  · rw [keyword_readTag]
    exact Option.some.inj hfirst
  · rw [Block.ofLines, sections_cons_tagged, hsections]
    rfl

/-- Lines of which the first opens a tag begin with it, without their decoration. -/
theorem beginsWithTag_of_keywordOf? {lines : List (List Char)}
    (h : ∀ line ∈ lines.head?, (keywordOf? (undecorate line)).isSome) :
    BeginsWithTag (lines.map undecorate) := by
  intro line hline
  rw [List.head?_map] at hline
  obtain ⟨written, hwritten, rfl⟩ := Option.map_eq_some_iff.mp hline
  obtain ⟨opened, hopened⟩ := Option.isSome_iff_exists.mp (h written hwritten)
  exact head_of_keywordOf? hopened

/-- A line that opens a tag opens one with its keyword. -/
theorem Block.exists_tag_of_keywordOf? {lines : List (List Char)} {line : List Char}
    {keyword : String} (hline : line ∈ lines) (h : keywordOf? (undecorate line) = some keyword) :
    ∃ tag ∈ (Block.ofLines (lines.map undecorate)).tags, tag.keyword = keyword := by
  have hmem : keyword ∈ (lines.map undecorate).filterMap keywordOf? :=
    List.mem_filterMap.mpr ⟨undecorate line, List.mem_map_of_mem hline, h⟩
  rw [← Block.keywords_ofLines] at hmem
  exact List.mem_map.mp hmem

/-- The lines of a tag that is no parameter and not the first result can be taken out of
a comment: what becomes of it stays the same. -/
theorem Record.ofComment_unrelated (before others after : List (List Char)) (first : List Char)
    (keyword : String)
    (hunbroken : ∀ line ∈ before ++ first :: others ++ after, ∀ c ∈ line, isLineBreak c = false)
    (hunclosed : ∀ line ∈ before ++ first :: others ++ after, Unclosed line)
    (hfirst : keywordOf? (undecorate first) = some keyword)
    (hparam : keyword ∉ paramKeywords)
    (hreturn : keyword ∉ returnKeywords ∨
      ∃ line ∈ before, ∃ earlier ∈ returnKeywords, keywordOf? (undecorate line) = some earlier)
    (hothers : ∀ line ∈ others, keywordOf? (undecorate line) = none)
    (hafter : ∀ line ∈ after.head?, (keywordOf? (undecorate line)).isSome) :
    (Record.ofComment (String.ofList (joinLines (before ++ first :: others ++ after)))).result =
      (Record.ofComment (String.ofList (joinLines (before ++ after)))).result := by
  have hkept : ∀ line ∈ before ++ after, line ∈ before ++ first :: others ++ after := by
    intro line hline
    rcases List.mem_append.mp hline with hline | hline
    · exact List.mem_append_left after (List.mem_append_left _ hline)
    · exact List.mem_append_right _ hline
  rw [Record.result_ofComment_lines hunbroken hunclosed,
    Record.result_ofComment_lines (fun line hline => hunbroken line (hkept line hline))
      fun line hline => hunclosed line (hkept line hline)]
  -- the tags of the three parts stand behind each other
  have hothers' : ∀ line ∈ others.map undecorate, keywordOf? line = none :=
    List.forall_mem_map.mpr hothers
  obtain ⟨tag, rfl, htag⟩ := Block.ofLines_cons hfirst hothers'
  have hbegins := beginsWithTag_of_keywordOf? hafter
  have hmiddle : BeginsWithTag
      (undecorate first :: others.map undecorate ++ after.map undecorate) := by
    rintro line ⟨⟩
    exact head_of_keywordOf? hfirst
  have hreturn' : tag.keyword ∉ returnKeywords ∨
      ∃ earlier ∈ (Block.ofLines (before.map undecorate)).tags,
        earlier.keyword ∈ returnKeywords := by
    refine hreturn.imp_right ?_
    rintro ⟨line, hline, earlier, hearlier, hopened⟩
    obtain ⟨found, hfound, rfl⟩ := Block.exists_tag_of_keywordOf? hline hopened
    exact ⟨found, hfound, hearlier⟩
  rw [List.map_append, List.map_append, List.map_cons, List.append_assoc, List.map_append,
    Block.ofLines_append hmiddle, Block.ofLines_append hbegins, htag, Block.ofLines_append hbegins]
  exact Record.result_ofBlocks_congr rfl (paramTags_of_notMem hparam _ _)
    (returnTag_of_notMem hreturn' _)

namespace UnrelatedSample

/-- A description and a result. -/
def before : List (List Char) := ["Adds.".toList, " * @returns \x7bA\x7d".toList]

/-- The first line of a second result, whose type is not closed. -/
def first : List Char := "* @return \x7bB".toList

def others : List (List Char) := [[], "* [c\x7d @d".toList]

/-- A parameter. -/
def after : List (List Char) := ["@param \x7bC\x7d e".toList, "f".toList]

end UnrelatedSample

open UnrelatedSample in
/-- The second result can be taken out of the sample. -/
theorem Record.ofComment_unrelated_sample :
    ((∀ line ∈ before ++ first :: others ++ after, ∀ c ∈ line, isLineBreak c = false) ∧
      (∀ line ∈ before ++ first :: others ++ after, Unclosed line) ∧
      keywordOf? (undecorate first) = some "return" ∧ "return" ∉ paramKeywords ∧
      (∃ line ∈ before, ∃ earlier ∈ returnKeywords,
        keywordOf? (undecorate line) = some earlier) ∧
      (∀ line ∈ others, keywordOf? (undecorate line) = none) ∧
      ∀ line ∈ after.head?, (keywordOf? (undecorate line)).isSome) ∧
    (Record.ofComment (String.ofList (joinLines (before ++ first :: others ++ after)))).result =
      (Record.ofComment (String.ofList (joinLines (before ++ after)))).result := by
  have hall : (before ++ first :: others ++ after).all (·.all (!isLineBreak ·)) = true := by
    decide +kernel
  have hunbroken : ∀ line ∈ before ++ first :: others ++ after,
      ∀ c ∈ line, isLineBreak c = false :=
    fun line hline => forall_mem_of_all (List.all_eq_true.mp hall line hline)
  have hunclosed : ∀ line ∈ before ++ first :: others ++ after, Unclosed line := by
    unfold Unclosed
    decide +kernel
  have hfirst : keywordOf? (undecorate first) = some "return" := by decide +kernel
  have hparam : "return" ∉ paramKeywords := by decide
  have hreturn : ∃ line ∈ before, ∃ earlier ∈ returnKeywords,
      keywordOf? (undecorate line) = some earlier := by decide +kernel
  have hothers : ∀ line ∈ others, keywordOf? (undecorate line) = none := by decide +kernel
  have hafter : ∀ line ∈ after.head?, (keywordOf? (undecorate line)).isSome := by decide +kernel
  exact ⟨⟨hunbroken, hunclosed, hfirst, hparam, hreturn, hothers, hafter⟩,
    Record.ofComment_unrelated before others after first "return" hunbroken hunclosed hfirst hparam
      (.inr hreturn) hothers hafter⟩

end DocComment
