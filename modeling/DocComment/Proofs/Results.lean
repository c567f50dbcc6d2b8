import DocComment.Proofs.Tags.Regular

/-!
# Descriptions of results

The result of a tag without a type is described by the source of the tag behind its
keyword; the description of the tag itself is put together from the parts of its lines.
Both are the same text, except for the hyphen that sets the description off, which stays
in front of the former (`Block.resultDescription_of_tag`).
-/

namespace DocComment

open Text

variable {cs : List Char}

/-! ## Text behind a keyword -/

theorem dropMarker_append (marker cs : List Char) : dropMarker marker (marker ++ cs) = cs := by
  rw [dropMarker, if_pos (List.isPrefixOf_iff_prefix.mpr (List.prefix_append marker cs)),
    List.drop_left]

/-- Something stands behind the hyphen and the space that set off a description, since its
line is trimmed. -/
theorem trim_joinLines_ne_nil {front rest : List Char} (others : List (List Char))
    (htrim : trim (front ++ '-' :: ' ' :: rest) = front ++ '-' :: ' ' :: rest) :
    trim (joinLines (rest :: others)) ≠ [] := by
  intro hnil
  -- otherwise the line would end with a blank
  have hrest : ∀ c ∈ rest, isBlank c = true := by
    intro c hc
    apply trim_eq_nil_iff.mp hnil
    rw [← List.append_nil rest, joinLines_append_cons]
    exact List.mem_append_left _ hc
  obtain ⟨c, hlast⟩ : ∃ c, (' ' :: rest).getLast? = some c :=
    Option.isSome_iff_exists.mp (by simp)
  have hblank : isBlank c = true := by
    have hall : ∀ c ∈ ' ' :: rest, isBlank c = true := List.forall_mem_cons.mpr ⟨rfl, hrest⟩
    exact hall c (List.mem_of_getLast? hlast)
  have hlast' : (front ++ '-' :: ' ' :: rest).getLast? = some c := by
    rw [List.getLast?_append_of_ne_nil _ (List.cons_ne_nil _ _),
      List.getLast?_cons_of_ne_nil (List.cons_ne_nil _ _), hlast]
  have hfalse := getLast_of_trim htrim c hlast'
  rw [hblank] at hfalse
  cases hfalse

/-! ## Tags without a type -/

/-- What stands behind the keyword in the first line of a tag. -/
def Tag.lead (tag : Tag) : List Char :=
  trimStart (dropMarker ('@' :: tag.keyword.toList) ((splitLines tag.source.toList).headD []))

/-- What leads the description of a tag is what stands behind its keyword. -/
theorem lead_readTag {others : List (List Char)} (h : TagLines.Regular ⟨'@' :: cs, others⟩) :
    (readTag ⟨'@' :: cs, others⟩).value.lead = trimStart (firstWord cs).2 := by
  obtain ⟨core, pad, -, -, hlines⟩ := splitLines_source h
  have hsplit : '@' :: cs = ('@' :: (firstWord cs).1) ++ (firstWord cs).2 :=
    congrArg (List.cons '@') (firstWord_parts cs).symm
  rw [Tag.lead, source_readTag, keyword_readTag, hlines, String.toList_ofList, List.headD_cons,
    hsplit, dropMarker_append]

section

variable {others : List (List Char)} (htype : (readTag ⟨'@' :: cs, others⟩).value.type = none)

include htype

/-- A tag without a type describes the result by its text behind the keyword. -/
theorem resultDescription_readTag :
    (readTag ⟨'@' :: cs, others⟩).value.resultDescription =
      nonEmpty (trim (joinLines (trimStart (firstWord cs).2 :: others))) := by
  have hfallback (tag : Tag) (h : tag.type = none) : tag.resultDescription =
      nonEmpty (trim (dropMarker ('@' :: tag.keyword.toList) tag.source.toList)) := by
    rw [Tag.resultDescription, h]
    rfl
  rw [hfallback _ htype, source_readTag, keyword_readTag, toList_source, String.toList_ofList,
    dropMarker_append, trim_trimEnd, trim_joinLines_trimStart]

variable (hword : (firstWord cs).1 ≠ [])
  (hunnamed : String.ofList (firstWord cs).1 ∉ namedKeywords)

include hword hunnamed

/-- Behind a keyword without a name and without a type is the description. -/
theorem description_readTag : (readTag ⟨'@' :: cs, others⟩).value.description =
    describe (trimStart (firstWord cs).2) others := by
  have hparts (keyword source : String) (cs : List Char) (hkeyword : keyword ∉ namedKeywords)
      (h : (tagOfParts keyword source cs others).type = none) :
      (tagOfParts keyword source cs others).description = describe cs others := by
    have hnamed : namedKeywords.contains keyword = false := by simpa using hkeyword
    simp only [tagOfParts, hnamed, Bool.false_and, Bool.false_eq_true, if_false] at h ⊢
    unfold typeAt at h ⊢
    split
    · next hfound =>
      rw [hfound] at h
      cases h
    · rfl
  rw [value_readTag cs hword] at htype ⊢
  exact hparts _ _ _ hunnamed htype

/-- Without a hyphen in front, nothing is taken off the description. -/
theorem resultDescription_of_not_hyphen (hlead : ¬ ['-', ' '] <+: trimStart (firstWord cs).2) :
    (readTag ⟨'@' :: cs, others⟩).value.resultDescription =
      (readTag ⟨'@' :: cs, others⟩).value.description := by
  have hmarker : dropMarker ['-', ' '] (trimStart (firstWord cs).2) =
      trimStart (firstWord cs).2 := by
    rw [dropMarker, if_neg (by rwa [List.isPrefixOf_iff_prefix])]
  rw [resultDescription_readTag htype, description_readTag htype hword hunnamed, describe, hmarker]

/-- The description loses its hyphen, but the result has it back from the source. -/
theorem resultDescription_of_hyphen (htrim : trim ('@' :: cs) = '@' :: cs)
    (hlead : ['-', ' '] <+: trimStart (firstWord cs).2) :
    ∃ blanks description, blanks ≠ [] ∧ (∀ c ∈ blanks, isBlank c = true) ∧
      (readTag ⟨'@' :: cs, others⟩).value.description = some description ∧
      (readTag ⟨'@' :: cs, others⟩).value.resultDescription =
        some (String.ofList ('-' :: (blanks ++ description.toList))) := by
  obtain ⟨rest, hrest⟩ := hlead
  have hmarker : dropMarker ['-', ' '] (trimStart (firstWord cs).2) = rest := by
    rw [← hrest, dropMarker_append]
  obtain ⟨front, hfront⟩ : trimStart (firstWord cs).2 <:+ '@' :: cs :=
    ((trimStart_suffix _).trans (List.dropWhile_suffix _)).trans (List.suffix_cons '@' cs)
  have hne : trim (joinLines (rest :: others)) ≠ [] := by
    rw [← hfront, ← hrest] at htrim
    exact trim_joinLines_ne_nil others htrim
  obtain ⟨blanks, hblanks, hblank, hend⟩ := exists_blanks_trimEnd (c := ' ') rfl hne
  -- the text behind the keyword is trimmed once, so the blanks behind the hyphen stay
  have htext : trim (joinLines (trimStart (firstWord cs).2 :: others)) =
      '-' :: (blanks ++ trim (joinLines (rest :: others))) := by
    calc trim (joinLines (trimStart (firstWord cs).2 :: others))
        = trim (['-'] ++ ' ' :: joinLines (rest :: others)) := by
          rw [← hrest, joinLines_append_cons]
          rfl
      _ = ['-'] ++ trimEnd (' ' :: joinLines (rest :: others)) :=
          trim_word_append (List.cons_ne_nil _ _) (List.forall_mem_singleton.mpr rfl) _
      _ = '-' :: (blanks ++ trim (joinLines (rest :: others))) := by
          rw [hend, List.singleton_append]
  refine ⟨blanks, String.ofList (trim (joinLines (rest :: others))), hblanks, hblank, ?_, ?_⟩
  · rw [description_readTag htype hword hunnamed, describe, hmarker, nonEmpty,
      if_neg (by simpa using hne)]
  · rw [resultDescription_readTag htype, htext, String.toList_ofList]
    rfl

end

/-! ## Return tags -/

/-- A type that is not empty leaves the description to the tag. -/
theorem resultDescription_of_typed {tag : Tag} {type : String} (h : tag.Filled)
    (htype : tag.type = some type) (hne : type ≠ "") :
    tag.resultDescription = tag.description := by
  have hfilled : Tag.filled tag.type = some type := by
    rw [htype, Tag.filled, Option.filter_some, if_pos (by simpa using hne)]
  rw [Tag.resultDescription, hfilled]
  exact h

/-- The source of a return tag begins with the keyword. Without a type, the result is
described as the tag is, or, if a hyphen and a space stand behind the keyword, by a hyphen,
blanks and the description of the tag. With a type that is not empty it is described as
the tag is. -/
theorem Block.resultDescription_of_tag (text : String) :
    ∀ block ∈ (Block.allIn text).value, ∀ tag ∈ block.tags, tag.keyword ∈ returnKeywords →
      '@' :: tag.keyword.toList <+: tag.source.toList ∧
      (tag.type = none → ¬ ['-', ' '] <+: tag.lead → tag.resultDescription = tag.description) ∧
      (tag.type = none → ['-', ' '] <+: tag.lead →
        ∃ blanks description, blanks ≠ [] ∧ (∀ c ∈ blanks, isBlank c = true) ∧
          tag.description = some description ∧
          tag.resultDescription = some (String.ofList ('-' :: (blanks ++ description.toList)))) ∧
      ∀ type, tag.type = some type → type ≠ "" → tag.resultDescription = tag.description := by
  intro block hblock tag htag hreturn
  obtain ⟨group, hgroup, rfl⟩ := Block.exists_lines_of_mem hblock htag
  have hregular := hgroup.tag
  obtain ⟨cs, others, rfl⟩ := hgroup.exists_first
  have hunnamed : ∀ keyword ∈ returnKeywords, keyword ∉ namedKeywords ∧ keyword ≠ "" := by
    decide
  obtain ⟨hkeyword, hne⟩ := hunnamed _ hreturn
  rw [keyword_readTag] at hkeyword hne
  have hword : (firstWord cs).1 ≠ [] := by
    intro hnil
    exact hne (congrArg String.ofList hnil)
  rw [lead_readTag hgroup]
  refine ⟨hregular.begins, ?_, ?_, ?_⟩
  · intro htype hlead
    exact resultDescription_of_not_hyphen htype hword hkeyword hlead
  · intro htype hlead
    have htrim : trim ('@' :: cs) = '@' :: cs := hgroup.trimmed ('@' :: cs) List.mem_cons_self
    exact resultDescription_of_hyphen htype hword hkeyword htrim hlead
  · intro type htype hne
    exact resultDescription_of_typed (filled_readTag _) htype hne

/-- A return tag whose description is set off by a hyphen, behind one with an open brace. -/
theorem Block.resultDescription_of_tag_hyphen :
    let text := String.ofList ("/** @return ".toList ++ '{' :: "a\n * @returns -  b\n * c */".toList)
    let first : Tag :=
      { keyword := "return", description := some (String.ofList ('{' :: "a".toList))
        source := String.ofList ("@return ".toList ++ '{' :: "a".toList) }
    let second : Tag :=
      { keyword := "returns", description := some "b\nc", source := "@returns -  b\nc" }
    { tags := [first, second] } ∈ (Block.allIn text).value ∧
      first.keyword ∈ returnKeywords ∧ second.keyword ∈ returnKeywords ∧
      ¬ ['-', ' '] <+: first.lead ∧ first.resultDescription = first.description ∧
      ['-', ' '] <+: second.lead ∧
      ∃ blanks description, blanks ≠ [] ∧ (∀ c ∈ blanks, isBlank c = true) ∧
        second.description = some description ∧
        second.resultDescription = some (String.ofList ('-' :: (blanks ++ description.toList))) := by
  intro text first second
  have hblock : { tags := [first, second] } ∈ (Block.allIn text).value := by
    decide +kernel
  have hfirst : first.keyword ∈ returnKeywords := by decide
  have hsecond : second.keyword ∈ returnKeywords := by decide
  have hlead : ¬ ['-', ' '] <+: first.lead := by decide +kernel
  have hlead' : ['-', ' '] <+: second.lead := by decide +kernel
  obtain ⟨-, hplain, -, -⟩ :=
    Block.resultDescription_of_tag text _ hblock first List.mem_cons_self hfirst
  obtain ⟨-, -, hhyphen, -⟩ := Block.resultDescription_of_tag text _ hblock second
    (List.mem_cons_of_mem _ List.mem_cons_self) hsecond
  exact ⟨hblock, hfirst, hsecond, hlead, hplain rfl hlead, hlead', hhyphen rfl hlead'⟩

end DocComment
