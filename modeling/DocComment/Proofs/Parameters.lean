import DocComment.Proofs.CommentLines
import DocComment.Proofs.Tags.Braces

/-!
# Comments on one parameter

A comment of one line that opens a tag is read as that tag. If the line is that of
a parameter with a type and a plain name, the type is read as it was written if and
only if its braces are balanced; braces inside string literals count like any
other. Then the record holds the one parameter (`Record.ofComment_param`).
-/

namespace DocComment

open Text

/-! ## Comments of one line -/

section

variable {line : List Char} {comment : String}

/-- A comment of one line that opens a tag holds the tag of that line. -/
theorem Record.tagsIn_line (hline : comment.toList = '@' :: line)
    (htrim : trim ('@' :: line) = '@' :: line)
    (hunbroken : ∀ c ∈ '@' :: line, isLineBreak c = false) (hclosed : Unclosed ('@' :: line)) :
    Record.tagsIn comment = [(readTag ⟨'@' :: line, []⟩).value] := by
  have hcomment : comment = String.ofList (joinLines ['@' :: line]) := by
    rw [joinLines, ← hline, String.ofList_toList]
  have hundecorate : undecorate ('@' :: line) = '@' :: line := by
    rw [undecorate, htrim]
    rfl
  have hblocks := Block.value_allIn_lines (List.forall_mem_singleton.mpr hunbroken)
    (List.forall_mem_singleton.mpr hclosed)
  rw [← hcomment, List.map_singleton, hundecorate] at hblocks
  unfold Record.tagsIn Block.firstTagsIn
  rw [Logged.value_bind, Logged.value_pure, hblocks]
  simp only [Block.ofLines, sections_cons_tagged]
  rfl

end

/-! ## The line of a parameter -/

/-- A comment on one parameter with a type. -/
def paramComment (type name : String) : String :=
  "@param \x7b" ++ type ++ "\x7d " ++ name

/-- The tag that a comment on one parameter holds. -/
def WrittenTag.param (type name : List Char) : WrittenTag where
  keyword := "param".toList
  type := some type
  name := some (.plain name)

/-- The keyword is a word. -/
theorem word_param : "param".toList ≠ [] ∧ ∀ c ∈ "param".toList, isBlank c = false :=
  ⟨by decide, forall_mem_of_all (by decide)⟩

section

variable {type name : List Char}

/-- The line of a parameter: the keyword, the type between braces, and the name. -/
theorem firstLine_param (type name : List Char) :
    (WrittenTag.param type name).firstLine =
      "@param \x7b".toList ++ (type ++ '}' :: ' ' :: name) := by
  simp [WrittenTag.param, WrittenTag.firstLine, WrittenTag.typeAndBehind, WrittenTag.nameAndRemark,
    WrittenTag.remark, WrittenTag.spaced, WrittenName.chars]

theorem toList_paramComment (type name : String) :
    (paramComment type name).toList = (WrittenTag.param type.toList name.toList).firstLine := by
  rw [firstLine_param]
  simp [paramComment, String.toList_append]

/-- The line ends in the name. -/
theorem trim_firstLine_param (hne : name ≠ []) (hword : ∀ c ∈ name, isBlank c = false) :
    trim (WrittenTag.param type name).firstLine = (WrittenTag.param type name).firstLine := by
  refine trim_eq_self_iff.mpr ⟨fun c hc => ?_, fun c hc => ?_⟩
  · obtain rfl : '@' = c := by simpa [WrittenTag.firstLine] using hc
    decide
  · have hsplit : (WrittenTag.param type name).firstLine =
        ("@param \x7b".toList ++ (type ++ ['}', ' '])) ++ name := by
      rw [firstLine_param]
      simp
    rw [hsplit, List.getLast?_append_of_ne_nil _ hne] at hc
    exact hword c (List.mem_of_getLast? hc)

theorem unbroken_firstLine_param (hline : ∀ c ∈ type, isLineBreak c = false)
    (hword : ∀ c ∈ name, isBlank c = false) :
    ∀ c ∈ (WrittenTag.param type name).firstLine, isLineBreak c = false := by
  have hname : ∀ c ∈ ['}', ' '] ++ name, isLineBreak c = false := by
    refine List.forall_mem_append.mpr ⟨forall_mem_of_all (by decide), fun c hc => ?_⟩
    by_contra hbreak
    have hblank := isBlank_of_isLineBreak (by simpa using hbreak)
    simp [hword c hc] at hblank
  have hopening : ∀ c ∈ "@param \x7b".toList, isLineBreak c = false :=
    forall_mem_of_all (by decide)
  rw [firstLine_param]
  exact List.forall_mem_append.mpr ⟨hopening, List.forall_mem_append.mpr ⟨hline, hname⟩⟩

theorem unclosed_firstLine_param (htype : Unclosed type) (hname : Unclosed name) :
    Unclosed (WrittenTag.param type name).firstLine := by
  have hbehind : Unclosed ('}' :: ' ' :: name) :=
    unclosed_cons (by decide) (unclosed_cons (by decide) hname)
  rw [firstLine_param]
  exact unclosed_append_of_notMem (by decide) (unclosed_append htype hbehind (by simp))

/-- The type of a tag is what is read behind the keyword. -/
theorem type_tagOfParts (keyword source : String) (cs : List Char) (others : List (List Char)) :
    (tagOfParts keyword source cs others).type = (typeAt cs).type := by
  simp only [tagOfParts]
  split
  · rfl
  · rfl

/-- The type that is read is the one that was written if and only if its braces are
balanced. -/
theorem type_readTag_param_iff (type name : List Char) (h : trim type = type) :
    (readTag ⟨(WrittenTag.param type name).firstLine, []⟩).value.type = some (String.ofList type) ↔
      Balanced '{' '}' type := by
  have hbehind : trimStart (WrittenTag.param type name).typeAndBehind =
      '{' :: (type ++ '}' :: ' ' :: name) := by
    simp [WrittenTag.param, WrittenTag.typeAndBehind, WrittenTag.nameAndRemark, WrittenTag.remark,
      WrittenTag.spaced, WrittenName.chars, trimStart, isBlank]
  rw [WrittenTag.value_readTag word_param.1 word_param.2, type_tagOfParts, hbehind]
  exact typeAt_eq_some_iff h

/-- A parameter with balanced braces is a written tag that can be read back. -/
theorem WrittenTag.valid_param (htrim : trim type = type)
    (hbalanced : Balanced '{' '}' type) (hne : name ≠ []) (hword : ∀ c ∈ name, isBlank c = false)
    (hbracket : name.head? ≠ some '[') : (WrittenTag.param type name).Valid where
  keyword_ne := word_param.1
  keyword_word := word_param.2
  named := (by decide : true = namedKeywords.contains (String.ofList "param".toList))
  type := by
    rintro _ ⟨⟩
    exact ⟨htrim, hbalanced⟩
  name := by
    rintro _ ⟨⟩
    exact ⟨hne, hword, hbracket⟩
  unbraced := nofun
  description := (by decide : Paragraph [])
  untagged := nofun

theorem value_readTag_param (h : (WrittenTag.param type name).Valid) :
    (readTag ⟨(WrittenTag.param type name).firstLine, []⟩).value =
      (WrittenTag.param type name).toTag := by
  have hplain : (WrittenTag.param type name).BracketsBalanced := by
    intro n hn
    obtain rfl := Option.some.inj hn
    trivial
  exact congrArg Logged.value ((WrittenTag.readTag_lines_iff h padding_nil).mpr hplain)

end

/-! ## The record of a parameter -/

/-- The tag of a parameter whose type is accepted becomes the one parameter. -/
theorem Record.exists_ofComment_of_tagsIn {comment : String} {tag : Tag} {type : String}
    {t : TypeExpr} (htags : Record.tagsIn comment = [tag]) (hkeyword : tag.keyword = "param")
    (htype : tag.type = some type) (hread : typeOfText (some type) = .ok (some t)) :
    ∃ record param, (Record.ofComment comment).result = .ok record ∧ record.params = [param] ∧
      tag.Describes param ∧ param.optional = (tag.optional || t.kind == .optional) := by
  have hparams : paramTags [tag] = [tag] :=
    List.filter_cons_of_pos (by rw [hkeyword]; decide)
  have hreturn : returnTag [tag] = none :=
    List.find?_cons_of_neg (by rw [hkeyword]; decide)
  have hblame : tag.blame = none := by
    have hsettles := tag.settles_typeOfText
    rw [htype, hread] at hsettles
    exact hsettles.of_ok.1
  -- nothing is to blame, so there is a record, and it describes the one tag
  have hnone : blamedFor [tag] = none := by
    rw [blamedFor, hparams, hreturn, find?_isMalformed_cons, hblame]
    rfl
  have hsettles := Record.settles_ofComment comment
  rw [htags, hnone] at hsettles
  obtain ⟨record, hok, hdescribes⟩ := hsettles
  have hall := hdescribes.params
  rw [hparams] at hall
  obtain ⟨param, others, hparam, hothers, hrecord⟩ := List.forall₂_cons_left_iff.mp hall
  rw [List.forall₂_nil_left_iff.mp hothers] at hrecord
  refine ⟨record, param, hok, hrecord, hparam, ?_⟩
  have hoptional := hparam.optional
  rw [result_canBeOmitted, htype, hread] at hoptional
  exact (Except.ok.inj hoptional).symm

/-- Between the braces of the line of a parameter, a type that is accepted is read
as it was written if and only if its braces are balanced, and they are if those of
its string literals are. Then the record has the one parameter, with the shape of
the type, and the parameter is optional if the type is. -/
theorem Record.ofComment_param (type name : String) (t : TypeExpr)
    (hparse : TypeExpr.parse type = .ok t) (htrim : trim type.toList = type.toList)
    (hline : ∀ c ∈ type.toList, isLineBreak c = false) (hclosed : Unclosed type.toList)
    (hne : name ≠ "") (hword : ∀ c ∈ name.toList, isBlank c = false)
    (hbracket : name.toList.head? ≠ some '[') (hclosed' : Unclosed name.toList) :
    ((Record.tagsIn (paramComment type name)).map (·.type) = [some type] ↔
      Balanced '{' '}' type.toList) ∧
    ((∀ literal ∈ t.literals, Balanced '{' '}' literal.toList) → Balanced '{' '}' type.toList) ∧
    (Balanced '{' '}' type.toList →
      ∃ record param, (Record.ofComment (paramComment type name)).result = .ok record ∧
        record.params = [param] ∧ param.name = name ∧
        (shapeOfText (some type)).result = .ok param.type ∧
        param.optional = (t.kind == .optional)) := by
  have hnil : name.toList ≠ [] := by simpa using hne
  have htags := Record.tagsIn_line (toList_paramComment type name)
    (trim_firstLine_param hnil hword) (unbroken_firstLine_param hline hword)
    (unclosed_firstLine_param hclosed hclosed')
  change Record.tagsIn _ =
    [(readTag ⟨(WrittenTag.param type.toList name.toList).firstLine, []⟩).value] at htags
  refine ⟨?_, balanced_of_literals hparse htrim, fun hbalanced => ?_⟩
  · rw [htags, List.map_singleton, List.singleton_inj,
      ← type_readTag_param_iff type.toList name.toList htrim, String.ofList_toList]
  · rw [value_readTag_param (WrittenTag.valid_param htrim hbalanced hnil hword hbracket)] at htags
    have htype : (WrittenTag.param type.toList name.toList).toTag.type = some type :=
      congrArg some String.ofList_toList
    -- the type is read from between the braces as it is alone
    have hfound : typeOfText (some type) = .ok (some t) := by
      refine typeOfText_of_parseChars ?_
      rw [Option.getD_some, htrim]
      exact hparse
    obtain ⟨record, param, hok, hparams, hdescribes, hoptional⟩ :=
      Record.exists_ofComment_of_tagsIn htags String.ofList_toList htype hfound
    have hname : param.name = name := hdescribes.name.trans String.ofList_toList
    exact ⟨record, param, hok, hparams, hname, htype ▸ hdescribes.type, hoptional⟩

/-- A record with a string literal that holds braces is read between its braces. -/
theorem Record.ofComment_param_record :
    Balanced '{' '}' "\x7ba: '\x7b\x7d'\x7d".toList ∧
      ∃ record param, (Record.ofComment (paramComment "\x7ba: '\x7b\x7d'\x7d" "x")).result = .ok record ∧
        record.params = [param] ∧ param.name = "x" ∧
        (shapeOfText (some "\x7ba: '\x7b\x7d'\x7d")).result = .ok param.type ∧
        param.optional = false := by
  have hbalanced : Balanced '{' '}' "\x7ba: '\x7b\x7d'\x7d".toList := by
    decide +kernel
  have hparse : TypeExpr.parse "\x7ba: '\x7b\x7d'\x7d" =
      .ok (.record [.typed "a" (.string "'\x7b\x7d'")]) := by
    decide +kernel
  have hclosed : Unclosed "\x7ba: '\x7b\x7d'\x7d".toList := by
    unfold Unclosed
    decide +kernel
  have hclosed' : Unclosed "x".toList := by
    unfold Unclosed
    decide
  have hparam := Record.ofComment_param "\x7ba: '\x7b\x7d'\x7d" "x" _ hparse (by decide +kernel)
    (forall_mem_of_all (by decide)) hclosed (by decide) (forall_mem_of_all (by decide)) (by decide)
    hclosed'
  exact ⟨hbalanced, hparam.2.2 hbalanced⟩

/-- A closing brace inside a string literal ends the type in front of it. -/
theorem Record.not_ofComment_param_of_literal :
    ¬ ∀ (type name : String) (t : TypeExpr), TypeExpr.parse type = .ok t →
      trim type.toList = type.toList → (∀ c ∈ type.toList, isLineBreak c = false) →
      Unclosed type.toList → name ≠ "" → (∀ c ∈ name.toList, isBlank c = false) →
      name.toList.head? ≠ some '[' → Unclosed name.toList →
      ∃ record param, (Record.ofComment (paramComment type name)).result = .ok record ∧
        record.params = [param] ∧ param.name = name ∧
        (shapeOfText (some type)).result = .ok param.type ∧
        param.optional = (t.kind == .optional) := by
  intro h
  have hparse : TypeExpr.parse "\"\x7d\"" = .ok (.string "\"\x7d\"") := by
    decide +kernel
  have hclosed : Unclosed "\"\x7d\"".toList := by
    unfold Unclosed
    decide
  have hclosed' : Unclosed "x".toList := by
    unfold Unclosed
    decide
  have hfault : (Record.ofComment (paramComment "\"\x7d\"" "x")).result.isOk = false := by
    decide +kernel
  obtain ⟨record, -, hok, -⟩ := h "\"\x7d\"" "x" _ hparse (by decide)
    (forall_mem_of_all (by decide)) hclosed (by decide) (forall_mem_of_all (by decide)) (by decide)
    hclosed'
  rw [hok] at hfault
  cases hfault

end DocComment
