import DocComment.Proofs.Tags.Names

/-!
# Reading tags

The lines of a written tag, with empty lines behind them, are read as the tag,
except that the name is what is read at the place of the name (`readTag_lines`).
So the tag is read as itself if and only if the brackets inside the brackets of
its name are balanced (`readTag_lines_iff`).
-/

namespace DocComment

open Text

variable {rest : List Char} {tag : WrittenTag} {pad : List (List Char)}

/-- A trimmed type is read as it stands between braces if and only if its own braces
are balanced. -/
theorem typeAt_eq_some_iff {type : List Char} (h : trim type = type) :
    (typeAt ('{' :: (type ++ '}' :: rest))).type = some (String.ofList type) ↔
      Balanced '{' '}' type := by
  constructor
  · intro htype
    unfold typeAt at htype
    split at htype
    · next inner behind hfound =>
      obtain ⟨htext, hbalanced⟩ := (bracketedPart_eq_some_iff (by decide)).mp hfound
      have htrim : trim inner = type := String.ofList_injective (Option.some.inj htype)
      -- the braces are cut where the type ends, or trimming would not give the type
      have heq : inner = type := eq_of_trim_eq h rfl (List.cons.inj htext).2 htrim
      exact heq ▸ hbalanced
    · cases htype
  · intro hbalanced
    have hfound : bracketedPart '{' '}' ('{' :: (type ++ '}' :: rest)) = some (type, rest) :=
      (bracketedPart_eq_some_iff (by decide)).mpr ⟨rfl, hbalanced⟩
    rw [typeAt, hfound]
    exact congrArg (some ∘ String.ofList) h

/-- A lone `@` has a source and no other fields. -/
theorem value_readTag_lone {cs : List Char} (h : (firstWord cs).1 = [])
    (others : List (List Char)) :
    (readTag ⟨'@' :: cs, others⟩).value =
      { keyword := "", source := TagLines.source ⟨'@' :: cs, others⟩ } := by
  simp only [readTag, List.drop_succ_cons, List.drop_zero, h]
  rfl

/-- Behind the keyword are the parts of the tag. -/
theorem value_readTag (cs : List Char) (h : (firstWord cs).1 ≠ []) (others : List (List Char)) :
    (readTag ⟨'@' :: cs, others⟩).value =
      tagOfParts (String.ofList (firstWord cs).1) (TagLines.source ⟨'@' :: cs, others⟩)
        (trimStart (firstWord cs).2) others := by
  simp only [readTag, List.drop_succ_cons, List.drop_zero, List.isEmpty_eq_false_iff.mpr h,
    Bool.false_eq_true, ↓reduceIte]
  split
  · rfl
  · rfl

namespace WrittenTag

/-! ## Between the parts -/

/-- A part behind a space begins with a blank, and so does what follows if there is no part. -/
theorem head_spaced (part : Option (List Char)) (hrest : ∀ c ∈ rest.head?, isBlank c = true) :
    ∀ c ∈ (spaced part ++ rest).head?, isBlank c = true := by
  cases part with
  | none => exact hrest
  | some part =>
    intro c hc
    obtain rfl : ' ' = c := by simpa [spaced] using hc
    decide

theorem head_remark (tag : WrittenTag) : ∀ c ∈ tag.remark.head?, isBlank c = true := by
  rw [remark, ← List.append_nil (spaced _)]
  exact head_spaced _ (by simp)

theorem head_typeAndBehind (tag : WrittenTag) : ∀ c ∈ tag.typeAndBehind.head?, isBlank c = true :=
  head_spaced _ (head_spaced _ tag.head_remark)

/-- What stands behind the type: the name with the rest, or the start of the
description. -/
theorem trimStart_nameAndRemark (h : tag.Valid) :
    trimStart tag.nameAndRemark =
      match tag.name with
      | none => trimStart tag.remark
      | some n => n.chars ++ tag.remark := by
  rw [nameAndRemark]
  cases hname : tag.name with
  | none => rfl
  | some n =>
    rcases n.head_chars (h.name n hname) with ⟨c, hhead, hc⟩
    have hstart : trimStart (n.chars ++ tag.remark) = n.chars ++ tag.remark := by
      refine trimStart_of_head fun d hd => ?_
      obtain rfl : c = d := by simpa [List.head?_append, hhead] using hd
      exact hc
    simpa [spaced, trimStart, isBlank] using hstart

/-- Without a type no brace is opened behind the keyword. -/
theorem head_nameAndRemark (h : tag.Valid) (htype : tag.type = none) :
    (trimStart tag.nameAndRemark).head? ≠ some '{' := by
  rw [trimStart_nameAndRemark h]
  cases hname : tag.name with
  | none =>
    rw [remark]
    cases tag.description.head? with
    | none => simp [spaced, trimStart]
    | some line => simp [spaced, trimStart, isBlank]
  | some n =>
    rcases n.head_chars (h.name n hname) with ⟨c, hhead, -⟩
    have hbrace := h.unbraced htype n hname
    simpa [List.head?_append, hhead] using hbrace

/-! ## The type -/

/-- The type is read as itself, and no brace is left open. -/
theorem typeAt_typeAndBehind (h : tag.Valid) :
    typeAt (trimStart tag.typeAndBehind) =
        ⟨tag.type.map String.ofList, trimStart tag.nameAndRemark⟩ ∧
      (['{'].isPrefixOf (trimStart tag.typeAndBehind) && tag.type.isNone) = false := by
  rw [typeAndBehind]
  cases htype : tag.type with
  -- what stands behind does not begin with a brace, so no type is looked for
  | none =>
    have hhead := head_nameAndRemark h htype
    simp only [Option.map_none, spaced, List.nil_append]
    cases hbehind : trimStart tag.nameAndRemark with
    | nil => exact ⟨rfl, rfl⟩
    | cons c cs =>
      rw [hbehind] at hhead
      have hc : c ≠ '{' := by simpa using hhead
      constructor
      · simp [typeAt, bracketedPart, hc]
      · simp [List.isPrefixOf, hc.symm]
  -- the braces of the type are balanced, so they are closed by the one behind the type
  | some type =>
    obtain ⟨htrim, hbalanced⟩ := h.type type htype
    have hstart : trimStart (spaced (some ('{' :: (type ++ ['}']))) ++ tag.nameAndRemark) =
        '{' :: (type ++ '}' :: tag.nameAndRemark) := by
      simp [spaced, trimStart, isBlank]
    have hfound : bracketedPart '{' '}' ('{' :: (type ++ '}' :: tag.nameAndRemark)) =
        some (type, tag.nameAndRemark) :=
      (bracketedPart_eq_some_iff (by decide)).mpr ⟨rfl, hbalanced⟩
    constructor
    · rw [Option.map_some, hstart, typeAt, hfound]
      simp [htrim]
    · simp

/-! ## The description -/

/-- A paragraph is left out only if it has no lines. -/
theorem textOf_eq_nonEmpty {lines : List (List Char)} (h : Paragraph lines) :
    nonEmpty (joinLines lines) = textOf lines := by
  cases lines with
  | nil => rfl
  | cons line lines =>
    have hne : joinLines (line :: lines) ≠ [] := by
      intro heq
      have hhead := head?_joinLines (h.first line rfl) lines
      rw [heq] at hhead
      exact h.first line rfl (List.head?_eq_none_iff.mp hhead.symm)
    rw [nonEmpty, if_neg (by simpa using hne), textOf]

/-- The description is read as itself, whatever empty lines stand behind it. -/
theorem describe_remark (h : tag.Valid) (hpad : Padding pad) :
    describe (trimStart tag.remark) (tag.description.tail ++ pad) = textOf tag.description := by
  have hparagraph := h.description
  rw [remark, describe, ← textOf_eq_nonEmpty hparagraph]
  have htrim := trim_joinLines_padded padding_nil hpad hparagraph.trim_joinLines
  rw [List.nil_append] at htrim
  cases hdescription : tag.description with
  | nil =>
    -- an empty first line is padding as well
    have hblank : Padding ([] :: pad) := List.forall_mem_cons.mpr ⟨rfl, hpad⟩
    have hnil : trim (joinLines ([] :: pad)) = [] := by
      have htrim' := trim_between (isBlank_joinLines hblank) (List.forall_mem_nil _) []
      simpa using htrim'
    simpa [spaced, trimStart, dropMarker, joinLines] using congrArg nonEmpty hnil
  | cons line lines =>
    rw [hdescription] at htrim
    have hmarker :
        dropMarker ['-', ' '] (trimStart (spaced (some ('-' :: ' ' :: line)))) = line := by
      simp [spaced, trimStart, isBlank, dropMarker]
    rw [List.head?_cons, Option.map_some, hmarker, List.tail_cons, ← List.cons_append, htrim]

/-! ## The lines -/

/-- A text does not end in a blank if its two parts do not. -/
theorem getLast_append {cs ds : List Char} (h : ∀ c ∈ cs.getLast?, isBlank c = false)
    (h' : ∀ c ∈ ds.getLast?, isBlank c = false) : ∀ c ∈ (cs ++ ds).getLast?, isBlank c = false := by
  intro c hc
  rw [List.getLast?_append] at hc
  cases hlast : ds.getLast? with
  | none => exact h c (by simpa [hlast] using hc)
  | some d => exact h' c (by simpa [hlast] using hc)

/-- A part behind a space ends as the part does. -/
theorem getLast_spaced {part : Option (List Char)}
    (h : ∀ cs ∈ part, cs ≠ [] ∧ ∀ c ∈ cs.getLast?, isBlank c = false) :
    ∀ c ∈ (spaced part).getLast?, isBlank c = false := by
  cases part with
  | none => simp [spaced]
  | some cs =>
    obtain ⟨hne, hlast⟩ := h cs rfl
    rwa [spaced, List.getLast?_cons_of_ne_nil hne]

/-- The first line of a tag is trimmed. -/
theorem trim_firstLine (h : tag.Valid) : trim tag.firstLine = tag.firstLine := by
  have hkeyword : ∀ c ∈ tag.keyword.getLast?, isBlank c = false := fun c hc =>
    h.keyword_word c (List.mem_of_getLast? hc)
  -- none of the parts of the line ends with a blank, so neither does the last one that is there
  have hremark : ∀ c ∈ tag.remark.getLast?, isBlank c = false := by
    refine getLast_spaced fun cs hcs => ?_
    rcases Option.map_eq_some_iff.mp hcs with ⟨line, hline, rfl⟩
    have hne := h.description.first line hline
    refine ⟨List.cons_ne_nil _ _, ?_⟩
    rw [List.getLast?_cons_of_ne_nil (List.cons_ne_nil _ _), List.getLast?_cons_of_ne_nil hne]
    exact getLast_of_trim (h.description.trimmed line (List.mem_of_head? hline))
  have hname : ∀ c ∈ (spaced (tag.name.map (·.chars))).getLast?, isBlank c = false := by
    refine getLast_spaced fun cs hcs => ?_
    rcases Option.map_eq_some_iff.mp hcs with ⟨n, hn, rfl⟩
    rcases n.head_chars (h.name n hn) with ⟨c, hhead, -⟩
    refine ⟨fun heq => ?_, n.getLast_chars (h.name n hn)⟩
    simp [heq] at hhead
  have htype : ∀ c ∈ (spaced (tag.type.map fun type => '{' :: (type ++ ['}']))).getLast?,
      isBlank c = false := by
    refine getLast_spaced fun cs hcs => ?_
    rcases Option.map_eq_some_iff.mp hcs with ⟨type, -, rfl⟩
    refine ⟨List.cons_ne_nil _ _, fun c hc => ?_⟩
    rw [← List.cons_append, List.getLast?_concat] at hc
    obtain rfl : '}' = c := by simpa using hc
    decide
  refine trim_eq_self_iff.mpr ⟨fun c hc => ?_, ?_⟩
  · obtain rfl : '@' = c := by simpa [firstLine] using hc
    decide
  · have hfront : ∀ c ∈ ('@' :: tag.keyword).getLast?, isBlank c = false := by
      rwa [List.getLast?_cons_of_ne_nil h.keyword_ne]
    exact getLast_append hfront (getLast_append htype (getLast_append hname hremark))

/-- The lines of a tag are a paragraph. -/
theorem paragraph_lines (h : tag.Valid) : Paragraph tag.lines := by
  refine ⟨fun line hline => ?_, fun line hline => ?_, fun line hline => ?_⟩
  · rcases List.mem_cons.mp hline with rfl | hline
    · exact trim_firstLine h
    · exact h.description.trimmed line (List.mem_of_mem_tail hline)
  · obtain rfl : tag.firstLine = line := by simpa [lines] using hline
    exact List.cons_ne_nil _ _
  · rw [lines] at hline
    -- the last line is the first one, or the last one of the description
    by_cases htail : tag.description.tail = []
    · obtain rfl : tag.firstLine = line := by simpa [htail] using hline
      exact List.cons_ne_nil _ _
    · rw [List.getLast?_cons_of_ne_nil htail] at hline
      refine h.description.last line ?_
      cases hdescription : tag.description with
      | nil => simp [hdescription] at htail
      | cons first others =>
        rw [hdescription, List.tail_cons] at hline htail
        rwa [List.getLast?_cons_of_ne_nil htail]

/-- The source of a tag is its lines, without the empty ones behind them. -/
theorem source_lines (h : tag.Valid) (hpad : Padding pad) :
    TagLines.source ⟨tag.firstLine, tag.description.tail ++ pad⟩ =
      String.ofList (joinLines tag.lines) := by
  have htrim := trim_joinLines_padded padding_nil hpad (paragraph_lines h).trim_joinLines
  rw [List.nil_append] at htrim
  exact congrArg String.ofList htrim

/-! ## The tag -/

/-- The tag if something else is read as its name. -/
def withName (tag : WrittenTag) (part : NamePart) (pad : List (List Char)) : Tag :=
  { tag.toTag with
    name := some part.name
    optional := part.optional
    default := part.default
    description := describe part.behind (tag.description.tail ++ pad) }

/-- The tag with the name that is read at the place of its name. -/
def reading (tag : WrittenTag) (pad : List (List Char)) : Tag :=
  match tag.name with
  | none => tag.toTag
  | some n => tag.withName (nameAt (n.chars ++ tag.remark)) pad

/-- A tag is read as itself, but perhaps for its name. -/
theorem tagOfParts_typeAndBehind (h : tag.Valid) (hpad : Padding pad) :
    tagOfParts (String.ofList tag.keyword) (String.ofList (joinLines tag.lines))
      (trimStart tag.typeAndBehind) (tag.description.tail ++ pad) = tag.reading pad := by
  have hnamed := h.named
  have hbehind := trimStart_nameAndRemark h
  unfold tagOfParts reading
  rw [(typeAt_typeAndBehind h).1]
  cases hname : tag.name with
  -- no name is looked for behind such a keyword
  | none =>
    rw [hname] at hnamed hbehind
    simp only [← hnamed, hbehind, Option.isSome_none, Bool.false_and, Bool.false_eq_true,
      ↓reduceIte, describe_remark h hpad]
    simp [toTag, hname]
  -- a name is there to be read, whatever it is read as
  | some n =>
    rw [hname] at hnamed hbehind
    rcases n.head_chars (h.name n hname) with ⟨c, hhead, -⟩
    have hne : (n.chars ++ tag.remark).isEmpty = false := by
      cases hchars : n.chars with
      | nil => simp [hchars] at hhead
      | cons d ds => rfl
    simp only [← hnamed, hbehind, hne, Option.isSome_some, Bool.not_false, Bool.and_self,
      ↓reduceIte]
    simp [withName, toTag]

/-- The name is read as itself if and only if its brackets are balanced. -/
theorem reading_eq_toTag_iff (h : tag.Valid) (hpad : Padding pad) :
    tag.reading pad = tag.toTag ↔ tag.BracketsBalanced := by
  unfold reading
  cases hname : tag.name with
  | none => exact iff_of_true rfl fun n hn => by simp [hname] at hn
  | some n =>
    have hvalid := h.name n hname
    have htag : tag.toTag.name = some (String.ofList n.label) ∧
        tag.toTag.optional = n.isBracketed ∧
        tag.toTag.default = n.default.map String.ofList := by
      simp [toTag, hname]
    constructor
    · -- the three fields that are read with the name tell where its bracket was closed
      intro heq m hm
      obtain rfl : n = m := Option.some.inj (hname.symm.trans hm)
      have hlabel := (congrArg Tag.name heq).trans htag.1
      have hoptional := (congrArg Tag.optional heq).trans htag.2.1
      have hdefault := (congrArg Tag.default heq).trans htag.2.2
      exact n.bracketsBalanced_of_nameAt hvalid (Option.some.inj hlabel) hoptional hdefault
    · intro hbalanced
      have hpart := n.nameAt_chars hvalid (hbalanced n hname) tag.head_remark
      have hdescription := describe_remark h hpad
      simp only [withName, hpart, hdescription, ← htag.1, ← htag.2.1, ← htag.2.2]
      rfl

theorem firstWord_firstLine (h : ∀ c ∈ tag.keyword, isBlank c = false) :
    firstWord (tag.firstLine.drop 1) = (tag.keyword, tag.typeAndBehind) :=
  firstWord_append h tag.head_typeAndBehind

theorem value_readTag (hne : tag.keyword ≠ []) (hword : ∀ c ∈ tag.keyword, isBlank c = false)
    (others : List (List Char)) :
    (readTag ⟨tag.firstLine, others⟩).value =
      tagOfParts (String.ofList tag.keyword) (TagLines.source ⟨tag.firstLine, others⟩)
        (trimStart tag.typeAndBehind) others := by
  have hfirst : firstWord (tag.keyword ++ tag.typeAndBehind) = (tag.keyword, tag.typeAndBehind) :=
    firstWord_firstLine hword
  have hvalue :=
    DocComment.value_readTag (tag.keyword ++ tag.typeAndBehind) (by rwa [hfirst]) others
  rw [hfirst] at hvalue
  exact hvalue

/-- A written tag is read without a notice, and all but its name is read as it was
written. -/
theorem readTag_lines (h : tag.Valid) (hpad : Padding pad) :
    readTag ⟨tag.firstLine, tag.description.tail ++ pad⟩ = pure (tag.reading pad) := by
  obtain ⟨htype, hopen⟩ := typeAt_typeAndBehind h
  have hnone : (tag.type.map String.ofList).isNone = tag.type.isNone := by cases tag.type <;> rfl
  have htag := tagOfParts_typeAndBehind h hpad
  rw [← source_lines h hpad] at htag
  unfold readTag
  simp only [firstWord_firstLine h.keyword_word, htype, hnone, hopen,
    List.isEmpty_eq_false_iff.mpr h.keyword_ne, Bool.false_eq_true, ↓reduceIte]
  rw [htag]

/-- A written tag is read as itself if and only if its brackets are balanced. -/
theorem readTag_lines_iff (h : tag.Valid) (hpad : Padding pad) :
    readTag ⟨tag.firstLine, tag.description.tail ++ pad⟩ = pure tag.toTag ↔
      tag.BracketsBalanced := by
  rw [readTag_lines h hpad, ← reading_eq_toTag_iff h hpad]
  constructor
  · intro heq
    exact congrArg Logged.value heq
  · intro heq
    rw [heq]

end WrittenTag

end DocComment
