import DocComment.Proofs.Blocks
import DocComment.Proofs.Sections

/-!
# Regular tags

Every tag of a text is read from regular lines (`Block.exists_lines_of_mem`): the first
opens a tag and no other does, each is trimmed, and none is broken. So the lines of the
source are these lines (`splitLines_source`), and the source begins with the keyword
(`toList_source`).

What is read from regular lines is regular as well (`TagLines.Regular.tag`): each field is
trimmed, or a single word, and says something if it is there. The fields are told apart,
too: a type has no open brace, and a bracketed name no equals sign.

A plain name is the first word of what stands in front of it, and that word is always
there (`readTag?_eq_some`).
-/

namespace DocComment

open Text

variable {cs inner behind : List Char} {line : List Char} {group : TagLines}

/-! ## Lines of a tag -/

/-- The lines of one tag: the first opens it, no other opens one, and all of them are
trimmed and have no line break. -/
structure TagLines.Regular (group : TagLines) : Prop where
  opened : group.first.head? = some '@'
  untagged : ∀ line ∈ group.others, line.head? ≠ some '@'
  trimmed : ∀ line ∈ group.all, trim line = line
  unbroken : ∀ line ∈ group.all, ∀ c ∈ line, isLineBreak c = false

/-- The first line of a tag begins with an at sign. -/
theorem TagLines.Regular.exists_first (h : group.Regular) :
    ∃ cs others, group = ⟨'@' :: cs, others⟩ := by
  obtain ⟨first, others⟩ := group
  obtain ⟨cs, rfl⟩ : ∃ cs, first = '@' :: cs := List.head?_eq_some_iff.mp h.opened
  exact ⟨cs, others, rfl⟩

theorem TagLines.Regular.first_ne_nil (h : group.Regular) : group.first ≠ [] := by
  obtain ⟨cs, others, rfl⟩ := h.exists_first
  exact List.cons_ne_nil '@' cs

/-- Only the first line of a tag opens one, and no line of the description does. -/
theorem sections_untagged_others (lines : List (List Char)) :
    (∀ line ∈ (sections lines).1, line.head? ≠ some '@') ∧
      ∀ group ∈ (sections lines).2, ∀ line ∈ group.others, line.head? ≠ some '@' := by
  induction lines with
  | nil => exact ⟨List.forall_mem_nil _, List.forall_mem_nil _⟩
  | cons line lines ih =>
    by_cases hline : line.head? = some '@'
    · obtain ⟨cs, rfl⟩ := List.head?_eq_some_iff.mp hline
      rw [sections_cons_tagged]
      exact ⟨List.forall_mem_nil _, List.forall_mem_cons.mpr ih⟩
    · rw [sections_cons_untagged hline]
      exact ⟨List.forall_mem_cons.mpr ⟨hline, ih.1⟩, ih.2⟩

/-- The lines of a block are cut into regular groups. -/
theorem regular_of_mem_sections {body : List Char}
    (h : group ∈ (sections (undecoratedLines body)).2) : group.Regular := by
  -- each line of the group is a line of the body, and those are trimmed and unbroken
  have hmem : ∀ line ∈ group.all, line ∈ undecoratedLines body := by
    intro line hline
    rw [← sections_flatten (undecoratedLines body)]
    exact List.mem_append_right _ (List.mem_flatMap_of_mem h hline)
  have hfirst : group.first ∈ (undecoratedLines body).filter opensTag := by
    rw [← map_first_sections]
    exact List.mem_map_of_mem h
  constructor
  · exact opensTag_iff.mp (List.mem_filter.mp hfirst).2
  · exact (sections_untagged_others _).2 group h
  · intro line hline
    exact trim_of_mem_undecoratedLines (hmem line hline)
  · intro line hline
    exact unbroken_of_mem_undecoratedLines (hmem line hline)

/-- Every tag of a text is read from regular lines. -/
theorem Block.exists_lines_of_mem {text : String} {block : Block} {tag : Tag}
    (hblock : block ∈ (Block.allIn text).value) (htag : tag ∈ block.tags) :
    ∃ group : TagLines, group.Regular ∧ tag = (readTag group).value := by
  rw [Block.allIn, Block.value_ofBodies] at hblock
  obtain ⟨body, -, rfl⟩ := List.mem_map.mp hblock
  rw [Block.value_ofBody] at htag
  obtain ⟨group, hgroup, rfl⟩ := List.mem_map.mp htag
  exact ⟨group, regular_of_mem_sections hgroup, rfl⟩

/-! ## The source -/

/-- The source begins with the keyword. -/
theorem toList_source (cs : List Char) (others : List (List Char)) :
    (TagLines.source ⟨'@' :: cs, others⟩).toList =
      '@' :: (firstWord cs).1 ++ trimEnd (joinLines ((firstWord cs).2 :: others)) := by
  have hsplit : '@' :: cs = ('@' :: (firstWord cs).1) ++ (firstWord cs).2 :=
    congrArg (List.cons '@') (firstWord_parts cs).symm
  have hword : ∀ c ∈ '@' :: (firstWord cs).1, isBlank c = false :=
    List.forall_mem_cons.mpr ⟨rfl, not_isBlank_firstWord cs⟩
  rw [TagLines.source, String.toList_ofList, hsplit, joinLines_append_cons,
    trim_word_append (List.cons_ne_nil _ _) hword]

/-- The lines of the source are those of the tag, but for empty lines at the end. -/
theorem splitLines_source (h : group.Regular) :
    ∃ core pad, Padding pad ∧ group.others = core ++ pad ∧
      splitLines group.source.toList = group.first :: core := by
  obtain ⟨core, pad, hpad, hlast, hall⟩ := exists_core_append_padding group.all
  cases core with
  | nil =>
    -- the first line is not empty
    have hfirst : group.first = [] := by
      apply hpad
      rw [List.nil_append] at hall
      rw [← hall]
      exact List.mem_cons_self
    exact absurd hfirst h.first_ne_nil
  | cons first core =>
    obtain ⟨rfl, hothers⟩ := List.cons.inj hall
    have hcore : ∀ line ∈ group.first :: core, line ∈ group.all := by
      intro line hline
      rw [hall]
      exact List.mem_append_left pad hline
    have hparagraph : Paragraph (group.first :: core) := by
      constructor
      · intro line hline
        exact h.trimmed line (hcore line hline)
      · rintro line ⟨⟩
        exact h.first_ne_nil
      · exact hlast
    have hsource : group.source.toList = joinLines (group.first :: core) := by
      have hpadded := trim_joinLines_padded padding_nil hpad hparagraph.trim_joinLines
      rw [List.nil_append, ← hall] at hpadded
      rw [TagLines.source, String.toList_ofList]
      exact hpadded
    refine ⟨core, pad, hpad, hothers, ?_⟩
    rw [hsource]
    exact splitLines_joinLines_of_last (fun line hline => h.unbroken line (hcore line hline)) hlast

/-! ## The type -/

theorem balanced_trim {opening closing : Char} (h : Balanced opening closing cs)
    (ho : isBlank opening = false) (hc : isBlank closing = false) :
    Balanced opening closing (trim cs) := by
  obtain ⟨front, back, hfront, hback, hcs⟩ := exists_around_trim cs
  -- blanks are no brackets, so the counts stay the same
  have hnone (bracket : Char) (hbracket : isBlank bracket = false) (blanks : List Char)
      (hblanks : ∀ c ∈ blanks, isBlank c = true) : blanks.count bracket = 0 := by
    apply List.count_eq_zero_of_not_mem
    intro hmem
    rw [hblanks bracket hmem] at hbracket
    cases hbracket
  constructor
  · intro start hstart
    have hprefix : front ++ start <+: cs := by
      rw [← hcs]
      exact (List.prefix_append_right_inj front).mpr (hstart.trans (List.prefix_append _ _))
    have hle := h.covered _ hprefix
    rw [List.count_append, List.count_append, hnone opening ho front hfront,
      hnone closing hc front hfront] at hle
    omega
  · have hclosed := h.closed
    rw [← hcs] at hclosed
    simp only [List.count_append, hnone opening ho front hfront, hnone closing hc front hfront,
      hnone opening ho back hback, hnone closing hc back hback] at hclosed
    omega

/-- A type is trimmed, stands in one line as the text does, and leaves no brace open. -/
theorem regular_typeAt (hunbroken : ∀ c ∈ cs, isLineBreak c = false) :
    ∀ type ∈ (typeAt cs).type, trim type.toList = type.toList ∧
      (∀ c ∈ type.toList, isLineBreak c = false) ∧ Balanced '{' '}' type.toList := by
  unfold typeAt
  split
  · next inner behind hfound =>
    rintro type ⟨⟩
    obtain ⟨rfl, hbalanced⟩ := (bracketedPart_eq_some_iff (by decide)).mp hfound
    rw [String.toList_ofList]
    refine ⟨trim_trim inner, ?_, balanced_trim hbalanced rfl rfl⟩
    intro c hc
    apply hunbroken
    exact List.mem_cons_of_mem _ (List.mem_append_left _ (mem_of_mem_trim hc))
  · rintro type ⟨⟩

/-- What stands behind the type does not begin with a blank. -/
theorem head_behind_typeAt (h : ∀ c ∈ cs.head?, isBlank c = false) :
    ∀ c ∈ (typeAt cs).behind.head?, isBlank c = false := by
  unfold typeAt
  split
  · exact head_trimStart _
  · exact h

/-! ## The name -/

/-- Only a bracketed name is given a value. A bracketed name is trimmed and has no equals
sign, and a plain name is a word. -/
structure NamePart.Regular (part : NamePart) : Prop where
  valued : part.default ≠ none → part.optional = true
  bracketed : part.optional = true → trim part.name.toList = part.name.toList ∧
    '=' ∉ part.name.toList
  plain : part.optional = false → part.name ≠ "" ∧ ∀ c ∈ part.name.toList, isBlank c = false

/-- A bracketed name is regular whatever the brackets enclose. -/
theorem regular_bracketedName (inner behind : List Char) :
    (bracketedName inner behind).Regular := by
  simp only [bracketedName]
  split
  · -- there is no equals sign, so there is no value and none in the name
    next hdrop =>
    constructor
    · intro hvalue
      exact absurd rfl hvalue
    · intro _
      rw [String.toList_ofList]
      refine ⟨trim_trim inner, ?_⟩
      intro hmem
      have hequals := List.dropWhile_eq_nil_iff.mp hdrop '=' hmem
      cases hequals
    · intro hoptional
      cases hoptional
  · constructor
    · intro _
      rfl
    · intro _
      rw [String.toList_ofList]
      refine ⟨trim_trim _, ?_⟩
      intro hmem
      have hequals := List.mem_takeWhile_imp (mem_of_mem_trim hmem)
      cases hequals
    · intro hoptional
      cases hoptional

/-- A name is regular where a word stands. -/
theorem regular_nameAt (hne : cs ≠ []) (h : ∀ c ∈ cs.head?, isBlank c = false) :
    (nameAt cs).Regular := by
  unfold nameAt
  split
  · -- between brackets anything is a name
    exact regular_bracketedName _ _
  · constructor
    · intro hvalue
      exact absurd rfl hvalue
    · intro hoptional
      cases hoptional
    · intro _
      constructor
      · intro hempty
        exact firstWord_ne_nil hne h (String.ofList_injective hempty)
      · rw [String.toList_ofList]
        exact not_isBlank_firstWord cs

/-! ## The description -/

/-- A description is trimmed, and it says something. -/
theorem regular_describe (cs : List Char) (others : List (List Char)) :
    ∀ text ∈ describe cs others, text ≠ "" ∧ trim text.toList = text.toList := by
  unfold describe nonEmpty
  split
  · rintro text ⟨⟩
  · next hempty =>
    rintro text ⟨⟩
    constructor
    · intro htext
      exact hempty (List.isEmpty_iff.mpr (String.ofList_injective htext))
    · rw [String.toList_ofList]
      exact trim_trim _

/-! ## The tag -/

/-- The keyword is a word. The source is trimmed, begins with the keyword and opens no
other tag. -/
structure Tag.RegularSource (tag : Tag) : Prop where
  keyword : ∀ c ∈ tag.keyword.toList, isBlank c = false
  trimmed : trim tag.source.toList = tag.source.toList
  begins : '@' :: tag.keyword.toList <+: tag.source.toList
  untagged : ∀ line ∈ (splitLines tag.source.toList).tail, line.head? ≠ some '@'

/-- Only some keywords have a name behind them, and only a bracketed name is given a value.
The fields that are there say something, a bracketed name and a type apart, which may be
empty. -/
structure Tag.RegularFields (tag : Tag) : Prop where
  unnamed : tag.keyword ∉ namedKeywords → tag.name = none
  valued : tag.default ≠ none → tag.optional = true
  bracketed : tag.optional = true →
    ∃ name, tag.name = some name ∧ trim name.toList = name.toList ∧ '=' ∉ name.toList
  plain : tag.optional = false →
    ∀ name ∈ tag.name, name ≠ "" ∧ ∀ c ∈ name.toList, isBlank c = false
  type : ∀ type ∈ tag.type, trim type.toList = type.toList ∧
    (∀ c ∈ type.toList, isLineBreak c = false) ∧ Balanced '{' '}' type.toList
  description : ∀ text ∈ tag.description, text ≠ "" ∧ trim text.toList = text.toList

/-- A tag as it is read from regular lines. -/
structure Tag.Regular (tag : Tag) : Prop extends tag.RegularSource, tag.RegularFields

/-- Without a name only the type and the description are left to look at. -/
theorem Tag.RegularFields.of_unnamed {tag : Tag} (hname : tag.name = none)
    (hoptional : tag.optional = false) (hdefault : tag.default = none)
    (htype : ∀ type ∈ tag.type, trim type.toList = type.toList ∧
      (∀ c ∈ type.toList, isLineBreak c = false) ∧ Balanced '{' '}' type.toList)
    (hdescription : ∀ text ∈ tag.description, text ≠ "" ∧ trim text.toList = text.toList) :
    tag.RegularFields := by
  constructor
  · intro _
    exact hname
  · intro hvalue
    exact absurd hdefault hvalue
  · intro htrue
    rw [hoptional] at htrue
    cases htrue
  · intro _ name hfound
    rw [hname] at hfound
    cases hfound
  · exact htype
  · exact hdescription

/-- The fields of a tag are regular if its text is not broken and does not begin with a blank.
-/
theorem regularFields_tagOfParts (keyword source : String) (others : List (List Char))
    (h : ∀ c ∈ cs.head?, isBlank c = false) (hunbroken : ∀ c ∈ cs, isLineBreak c = false) :
    (tagOfParts keyword source cs others).RegularFields := by
  simp only [tagOfParts]
  split
  · -- a name is taken only where a word stands
    next hnamed =>
    obtain ⟨hkeyword, hbehind⟩ := Bool.and_eq_true_iff.mp hnamed
    have hname : (nameAt (typeAt cs).behind).Regular :=
      regular_nameAt (by simpa using hbehind) (head_behind_typeAt h)
    constructor
    · intro hunnamed
      exact absurd (by simpa using hkeyword) hunnamed
    · exact hname.valued
    · intro hoptional
      exact ⟨_, rfl, hname.bracketed hoptional⟩
    · rintro hoptional name ⟨⟩
      exact hname.plain hoptional
    · exact regular_typeAt hunbroken
    · exact regular_describe _ others
  · exact .of_unnamed rfl rfl rfl (regular_typeAt hunbroken) (regular_describe _ others)

/-- The source of a tag is regular if its lines are. -/
theorem regularSource_readTag (h : group.Regular) : (readTag group).value.RegularSource := by
  obtain ⟨cs, others, rfl⟩ := h.exists_first
  constructor
  · rw [keyword_readTag, String.toList_ofList]
    exact not_isBlank_firstWord cs
  · rw [source_readTag, TagLines.source, String.toList_ofList]
    exact trim_trim _
  · rw [keyword_readTag, source_readTag, toList_source, String.toList_ofList]
    exact List.prefix_append _ _
  · -- behind the first line the source has lines of the group only, and none of them opens a tag
    obtain ⟨core, pad, -, hothers, hlines⟩ := splitLines_source h
    rw [source_readTag, hlines]
    intro line hline
    apply h.untagged
    rw [hothers]
    exact List.mem_append_left pad hline

/-- What is read from regular lines is regular. -/
theorem TagLines.Regular.tag (h : group.Regular) : (readTag group).value.Regular := by
  refine ⟨regularSource_readTag h, ?_⟩
  obtain ⟨cs, others, rfl⟩ := h.exists_first
  by_cases hword : (firstWord cs).1 = []
  · rw [value_readTag_lone hword]
    exact .of_unnamed rfl rfl rfl nofun nofun
  · rw [value_readTag cs hword]
    apply regularFields_tagOfParts _ _ _ (head_trimStart _)
    intro c hc
    have hbehind : c ∈ (firstWord cs).2 := (trimStart_suffix _).subset hc
    apply h.unbroken ('@' :: cs) List.mem_cons_self
    exact List.mem_cons_of_mem _ ((List.dropWhile_suffix _).subset hbehind)

/-! ## Taking the first word -/

/-- The first word of a text, and what stands behind it. A blank text has no first word. -/
def firstWord? (cs : List Char) : Option (List Char × List Char) :=
  match trimStart cs with
  | [] => none
  | c :: cs => some (firstWord (c :: cs))

/-- The name at the start of a text: a bracketed part or else the first word, if there is
one. -/
def nameAt? (cs : List Char) : Option NamePart :=
  match bracketedPart '[' ']' cs with
  | some (inner, behind) => some (bracketedName inner behind)
  | none => do
    let (word, behind) ← firstWord? cs
    return ⟨String.ofList word, false, none, trimStart behind⟩

/-- The tag with a given keyword, unless its name is looked for where no word is. -/
def tagOfParts? (keyword source : String) (cs : List Char) (others : List (List Char)) :
    Option Tag :=
  let type := typeAt cs
  if namedKeywords.contains keyword && !type.behind.isEmpty then do
    let name ← nameAt? type.behind
    return { keyword, source, type := type.type
             name := some name.name, optional := name.optional, default := name.default
             description := describe name.behind others }
  else return { keyword, source, type := type.type, description := describe type.behind others }

/-- The tag that some lines hold, unless a word is taken where there is none. -/
def readTag? (lines : TagLines) : Option Tag :=
  let (keyword, behind) := firstWord (lines.first.drop 1)
  if keyword.isEmpty then some { keyword := "", source := lines.source }
  else tagOfParts? (String.ofList keyword) lines.source (trimStart behind) lines.others

/-- Where a word stands, a name is found without asking for one that is not there. -/
theorem nameAt?_eq_some (hne : cs ≠ []) (h : ∀ c ∈ cs.head?, isBlank c = false) :
    nameAt? cs = some (nameAt cs) := by
  have hword : firstWord? cs = some (firstWord cs) := by
    obtain ⟨c, cs, rfl⟩ := List.exists_cons_of_ne_nil hne
    rw [firstWord?, trimStart_of_head h]
  unfold nameAt? nameAt
  cases bracketedPart '[' ']' cs with
  | some parts => rfl
  | none =>
    simp only [hword]
    rfl

/-- No tag asks for a word that is not there. -/
theorem tagOfParts?_eq_some (keyword source : String) (others : List (List Char))
    (h : ∀ c ∈ cs.head?, isBlank c = false) :
    tagOfParts? keyword source cs others = some (tagOfParts keyword source cs others) := by
  simp only [tagOfParts?, tagOfParts]
  split
  · next hnamed =>
    have hbehind : (typeAt cs).behind ≠ [] := by
      simpa using (Bool.and_eq_true_iff.mp hnamed).2
    rw [nameAt?_eq_some hbehind (head_behind_typeAt h)]
    rfl
  · rfl

/-- Whatever else the lines of a tag hold, a word is only taken where there is one. -/
theorem readTag?_eq_some (h : group.Regular) : readTag? group = some (readTag group).value := by
  obtain ⟨cs, others, rfl⟩ := h.exists_first
  by_cases hword : (firstWord cs).1 = []
  · rw [value_readTag_lone hword]
    simp [readTag?, hword]
  · rw [value_readTag cs hword, ← tagOfParts?_eq_some _ _ _ (head_trimStart _)]
    simp [readTag?, hword]

/-- Every tag of a text is regular, and the tags of a block are read without a word being
taken where there is none. -/
theorem Block.tags_regular (text : String) :
    (∀ block ∈ (Block.allIn text).value, ∀ tag ∈ block.tags, tag.Regular) ∧
      ∀ body ∈ blockBodies text.toList,
        (sections (undecoratedLines body)).2.map readTag? =
          (Block.ofBody body).value.tags.map some := by
  constructor
  · intro block hblock tag htag
    obtain ⟨group, hgroup, rfl⟩ := Block.exists_lines_of_mem hblock htag
    exact hgroup.tag
  · intro body _
    rw [Block.value_ofBody, Block.ofLines, List.map_map]
    apply List.map_congr_left
    intro group hgroup
    exact readTag?_eq_some (regular_of_mem_sections hgroup)

/-- A tag whose fields are all there, and a lone `@` behind it. -/
theorem Block.tags_regular_sample :
    let text := String.ofList
      ("/** @param ".toList ++ '{' :: "a[] ".toList ++ '}' :: "[ b = c=d ] -  e\n*  f\n\n@ g */".toList)
    let tag : Tag :=
      { keyword := "param", type := some "a[]", name := some "b", optional := true
        default := some "c=d", description := some "e\nf"
        source := String.ofList
          ("@param ".toList ++ '{' :: "a[] ".toList ++ '}' :: "[ b = c=d ] -  e\nf".toList) }
    { tags := [tag, { keyword := "", source := "@ g" }] } ∈ (Block.allIn text).value ∧
      tag.Regular ∧
      ∃ body ∈ blockBodies text.toList,
        (sections (undecoratedLines body)).2.map readTag? =
          (Block.ofBody body).value.tags.map some := by
  intro text tag
  have hblock : { tags := [tag, { keyword := "", source := "@ g" }] } ∈
      (Block.allIn text).value := by
    decide +kernel
  have hbody : (blockBodies text.toList).head?.isSome = true := by
    decide +kernel
  obtain ⟨body, hhead⟩ := Option.isSome_iff_exists.mp hbody
  have hmem : body ∈ blockBodies text.toList := List.mem_of_head? hhead
  obtain ⟨hregular, hread⟩ := Block.tags_regular text
  exact ⟨hblock, hregular _ hblock tag List.mem_cons_self, body, hmem, hread body hmem⟩

end DocComment
