import DocComment.Proofs.Parsing
import DocComment.Proofs.Shapes

/-!
# Records of tags

Only the types of the parameters and of the first return tag are looked at. A
record is refused because of one of them, and the parameters come first
(`blamedFor`); otherwise it says what these tags say.

What comes of a computation over tags is settled by the tag that is blamed, if
there is one (`Settles`). One computation after the other blames the tag that the
first blames, or else that of the second (`Settles.bind`). So it is enough to settle
what comes of one type (`Tag.settles_typeOfText`); the parameters follow by
induction, and `Record.settles_ofComment` puts all together.
-/

namespace DocComment

open Text

variable {α β : Type} {tag : Tag} {tags : List Tag}

/-! ## Types of tags -/

namespace Tag

/-- The text of the type of a tag, empty if there is none. -/
def typeText (tag : Tag) : List Char :=
  trim (tag.type.getD "").toList

def isMalformed (tag : Tag) : Bool :=
  !tag.typeText.isEmpty && !(TypeExpr.parseChars tag.typeText).isOk

end Tag

/-! ## Blame -/

/-- If a tag is blamed, the outcome is a fault that names its type; otherwise it is
a value with a property. -/
def Settles (blamed : Option Tag) (outcome : Except SyntaxFault α) (holds : α → Prop) : Prop :=
  match blamed with
  | some tag => ∃ fault, outcome = .error fault ∧ fault.expression = String.ofList tag.typeText
  | none => ∃ value, outcome = .ok value ∧ holds value

section

variable {blamed other : Option Tag} {outcome : Except SyntaxFault α} {holds : α → Prop}
  {holds' : β → Prop}

/-- One step after the other is settled by the first blame of the two. -/
theorem Settles.bind (h : Settles blamed outcome holds) {next : α → Except SyntaxFault β}
    (hnext : ∀ value, holds value → Settles other (next value) holds') :
    Settles (blamed.or other) (outcome.bind next) holds' := by
  cases blamed with
  | some tag =>
    obtain ⟨fault, rfl, htext⟩ := h
    exact ⟨fault, rfl, htext⟩
  | none =>
    obtain ⟨value, rfl, hvalue⟩ := h
    exact hnext value hvalue

theorem Settles.map (h : Settles blamed outcome holds) {f : α → β}
    (hf : ∀ value, holds value → holds' (f value)) : Settles blamed (outcome.map f) holds' := by
  cases blamed with
  | some tag =>
    obtain ⟨fault, rfl, htext⟩ := h
    exact ⟨fault, rfl, htext⟩
  | none =>
    obtain ⟨value, rfl, hvalue⟩ := h
    exact ⟨f value, rfl, hf value hvalue⟩

/-- There is a fault if and only if a tag is blamed. -/
theorem Settles.exists_error_iff (h : Settles blamed outcome holds) :
    (∃ fault, outcome = .error fault) ↔ ∃ tag, blamed = some tag := by
  cases blamed with
  | some tag =>
    obtain ⟨fault, rfl, -⟩ := h
    exact iff_of_true ⟨fault, rfl⟩ ⟨tag, rfl⟩
  | none =>
    obtain ⟨value, rfl, -⟩ := h
    exact iff_of_false nofun nofun

/-- A fault names the type of the tag that is blamed. -/
theorem Settles.exists_of_error {fault : SyntaxFault}
    (h : Settles blamed (.error fault) holds) :
    ∃ tag, blamed = some tag ∧ fault.expression = String.ofList tag.typeText := by
  cases blamed with
  | some tag =>
    obtain ⟨found, heq, htext⟩ := h
    obtain rfl := Except.error.inj heq
    exact ⟨tag, rfl, htext⟩
  | none =>
    obtain ⟨value, heq, -⟩ := h
    cases heq

/-- A value has the property, and no tag is blamed. -/
theorem Settles.of_ok {value : α} (h : Settles blamed (.ok value) holds) :
    blamed = none ∧ holds value := by
  cases blamed with
  | some tag =>
    obtain ⟨fault, heq, -⟩ := h
    cases heq
  | none =>
    obtain ⟨found, heq, hfound⟩ := h
    exact ⟨rfl, Except.ok.inj heq ▸ hfound⟩

end

/-! ## What a tag says -/

namespace Tag

/-- The tag, if it is to blame. -/
def blame (tag : Tag) : Option Tag :=
  if tag.isMalformed then some tag else none

/-- A tag is to blame exactly if its type is not read. -/
theorem settles_typeOfText (tag : Tag) :
    Settles tag.blame (typeOfText tag.type) fun found => typeOfText tag.type = .ok found := by
  unfold blame isMalformed
  by_cases hblank : tag.typeText = []
  · rw [hblank]
    exact ⟨none, typeOfText_of_blank hblank, typeOfText_of_blank hblank⟩
  · have hread : typeOfText tag.type = (TypeExpr.parseChars tag.typeText).map some :=
      typeOfText_of_ne_nil hblank
    rw [List.isEmpty_eq_false_iff.mpr hblank, hread]
    rcases parseChars_cases tag.typeText with ⟨_, d, -, hok⟩ | ⟨-, fault, herror, htext⟩
    · rw [hok]
      exact ⟨some d.tree, rfl, rfl⟩
    · rw [herror]
      exact ⟨fault, rfl, htext⟩

structure Describes (tag : Tag) (param : Param) : Prop where
  name : param.name = tag.name.getD ""
  description : param.description = tag.description
  type : (shapeOfText tag.type).result = .ok param.type
  optional : tag.canBeOmitted.result = .ok param.optional

structure DescribesResult (tag : Tag) (returns : Returns) : Prop where
  description : returns.description = tag.resultDescription
  type : (shapeOfText tag.type).result = .ok returns.type

/-- What is said about a tag is left out if it is empty. -/
def Filled (tag : Tag) : Prop :=
  filled tag.description = tag.description

/-- A parameter fails as its type does, and otherwise describes its tag. -/
theorem settles_toParam (h : tag.Filled) :
    Settles tag.blame tag.toParam.result tag.Describes := by
  have hshape := result_shapeOfText tag.type
  have homitted := result_canBeOmitted tag
  -- the type is read twice, for the shape and for the mark, with the same outcome
  have hresult : tag.toParam.result = (typeOfText tag.type).map fun found =>
      { name := tag.name.getD ""
        description := filled tag.description
        type := (found.map fun t => (t.shapeOf (trim (tag.type.getD "").toList)).value).getD .absent
        optional := tag.optional || found.any (·.kind == .optional) } := by
    unfold toParam
    simp only [Checked.result_bind, Checked.result_pure, hshape, homitted]
    cases typeOfText tag.type with
    | ok found => rfl
    | error fault => rfl
  rw [hresult]
  refine tag.settles_typeOfText.map fun found hfound => ⟨rfl, h, ?_, ?_⟩
  · rw [hshape, hfound]
    rfl
  · rw [homitted, hfound]
    rfl

theorem settles_toReturns (tag : Tag) :
    Settles tag.blame tag.toReturns.result tag.DescribesResult := by
  have hshape := result_shapeOfText tag.type
  have hresult : tag.toReturns.result = (typeOfText tag.type).map fun found =>
      { description := tag.resultDescription
        type := (found.map fun t => (t.shapeOf (trim (tag.type.getD "").toList)).value).getD .absent
        } := by
    unfold toReturns
    simp only [Checked.result_bind, Checked.result_pure, hshape]
    cases typeOfText tag.type with
    | ok found => rfl
    | error fault => rfl
  rw [hresult]
  refine tag.settles_typeOfText.map fun found hfound => ⟨rfl, ?_⟩
  rw [hshape, hfound]
  rfl

end Tag

/-! ## Parameters and results -/

def paramTags (tags : List Tag) : List Tag :=
  tags.filter fun tag => paramKeywords.contains tag.keyword

/-- The tag of the result: the first return tag. -/
def returnTag (tags : List Tag) : Option Tag :=
  tags.find? fun tag => returnKeywords.contains tag.keyword

/-- The first tag with a malformed type is the first tag, if it is to blame, or is
found behind it. -/
theorem find?_isMalformed_cons (tag : Tag) (tags : List Tag) :
    (tag :: tags).find? (·.isMalformed) = tag.blame.or (tags.find? (·.isMalformed)) := by
  unfold Tag.blame
  cases hbad : tag.isMalformed with
  | true => exact List.find?_cons_of_pos hbad
  | false => exact List.find?_cons_of_neg (by simp [hbad])

/-- Parameters are settled by the first tag that is malformed. -/
theorem settles_paramsOf (h : ∀ tag ∈ tags, tag.Filled) :
    Settles ((paramTags tags).find? (·.isMalformed)) (paramsOf tags).result
      (List.Forall₂ Tag.Describes (paramTags tags)) := by
  induction tags with
  | nil => exact ⟨[], rfl, .nil⟩
  | cons tag tags ih =>
    have hfirst := Tag.settles_toParam (h tag List.mem_cons_self)
    have hothers := ih fun t ht => h t (List.mem_cons_of_mem _ ht)
    unfold paramTags paramsOf
    by_cases hparam : paramKeywords.contains tag.keyword = true
    · rw [List.filter_cons, if_pos hparam, if_pos hparam, find?_isMalformed_cons]
      simp only [Checked.result_bind, Checked.result_pure]
      refine hfirst.bind fun param hdescribes => ?_
      exact hothers.map fun params hall => .cons hdescribes hall
    · rw [List.filter_cons, if_neg hparam, if_neg hparam]
      exact hothers

/-- The result is what the first return tag makes of its type. -/
theorem result_returnsOf (tags : List Tag) :
    (returnsOf tags).result =
      match returnTag tags with
      | none => .ok none
      | some tag => tag.toReturns.result.map some := by
  unfold returnTag returnsOf
  rw [← List.head?_filter]
  cases tags.filter fun tag => returnKeywords.contains tag.keyword with
  | nil => rfl
  | cons tag others =>
    -- the notice about further return tags leaves the result alone
    cases others with
    | nil => exact Checked.result_bind tag.toReturns _
    | cons other others => exact Checked.result_bind tag.toReturns _

theorem settles_returnsOf (tags : List Tag) :
    Settles ((returnTag tags).filter (·.isMalformed)) (returnsOf tags).result
      (Option.Rel Tag.DescribesResult (returnTag tags)) := by
  rw [result_returnsOf]
  cases returnTag tags with
  | none => exact ⟨none, rfl, .none⟩
  | some tag => exact tag.settles_toReturns.map fun returns hdescribes => .some hdescribes

/-! ## Descriptions of tags -/

theorem filled_nonEmpty (cs : List Char) : Tag.filled (nonEmpty cs) = nonEmpty cs := by
  unfold Tag.filled nonEmpty
  split
  · rfl
  · next hne =>
    have hcs : String.ofList cs ≠ "" := by
      intro heq
      have hnil : cs = [] := by simpa using congrArg String.toList heq
      exact hne (by simp [hnil])
    simp [hcs]

theorem filled_tagOfParts (keyword source : String) (cs : List Char) (others : List (List Char)) :
    (tagOfParts keyword source cs others).Filled := by
  simp only [tagOfParts]
  split
  · exact filled_nonEmpty _
  · exact filled_nonEmpty _

/-- A tag that was read has no empty texts. -/
theorem filled_readTag (lines : TagLines) : (readTag lines).value.Filled := by
  simp only [readTag]
  split
  · -- a lone `@` says nothing
    exact filled_nonEmpty []
  · split
    · exact filled_tagOfParts ..
    · exact filled_tagOfParts ..

theorem filled_tagsOf (groups : List TagLines) :
    ∀ tag ∈ (Block.tagsOf groups).value, tag.Filled := by
  induction groups with
  | nil => exact List.forall_mem_nil _
  | cons lines groups ih => exact List.forall_mem_cons.mpr ⟨filled_readTag lines, ih⟩

theorem filled_ofBodies (bodies : List (List Char)) :
    ∀ block ∈ (Block.ofBodies bodies).value, ∀ tag ∈ block.tags, tag.Filled := by
  induction bodies with
  | nil => exact List.forall_mem_nil _
  | cons body bodies ih => exact List.forall_mem_cons.mpr ⟨filled_tagsOf _, ih⟩

/-! ## Comments -/

/-- The tag because of which there is no record: the first parameter with a
malformed type, or else the result if its type is malformed. -/
def blamedFor (tags : List Tag) : Option Tag :=
  ((paramTags tags).find? (·.isMalformed)).or ((returnTag tags).filter (·.isMalformed))

structure Record.Describes (record : Record) (tags : List Tag) : Prop where
  params : List.Forall₂ Tag.Describes (paramTags tags) record.params
  returns : Option.Rel Tag.DescribesResult (returnTag tags) record.returns

theorem Record.settles_ofBlocks {block : Block} (h : ∀ tag ∈ block.tags, tag.Filled)
    (blocks : List Block) :
    Settles (blamedFor block.tags) (Record.ofBlocks (block :: blocks)).result
      fun record => record.Describes block.tags := by
  unfold Record.ofBlocks blamedFor
  simp only [Checked.result_bind, Checked.result_pure]
  refine (settles_paramsOf h).bind fun params hparams => ?_
  exact (settles_returnsOf block.tags).map fun returns hreturns => ⟨hparams, hreturns⟩

/-- The tags of the first block of a comment. -/
def Record.tagsIn (comment : String) : List Tag :=
  (Block.firstTagsIn (Record.wrap comment)).value

/-- What becomes of a comment is settled by its tags. -/
theorem Record.settles_ofComment (comment : String) :
    Settles (blamedFor (Record.tagsIn comment)) (Record.ofComment comment).result
      fun record => record.Describes (Record.tagsIn comment) := by
  have hfilled : ∀ block ∈ (Block.allIn (Record.wrap comment)).value,
      ∀ tag ∈ block.tags, tag.Filled :=
    filled_ofBodies (blockBodies (Record.wrap comment).toList)
  have hresult : (Record.ofComment comment).result =
      (Record.ofBlocks (Block.allIn (Record.wrap comment)).value).result := rfl
  have htags : Record.tagsIn comment =
      ((Block.allIn (Record.wrap comment)).value.head?.map (·.tags)).getD [] := rfl
  rw [hresult, htags]
  cases hblocks : (Block.allIn (Record.wrap comment)).value with
  | nil => exact ⟨Record.empty, rfl, .nil, .none⟩
  | cons block blocks =>
    rw [hblocks] at hfilled
    exact Record.settles_ofBlocks (hfilled block List.mem_cons_self) blocks

/-- A tag is to blame if one that is evaluated is malformed. -/
theorem exists_blamedFor_iff (tags : List Tag) :
    (∃ tag, blamedFor tags = some tag) ↔
      (∃ tag ∈ paramTags tags, tag.isMalformed = true) ∨
        ∃ tag ∈ returnTag tags, tag.isMalformed = true := by
  unfold blamedFor
  rw [← Option.isSome_iff_exists, Option.isSome_or, Bool.or_eq_true, List.find?_isSome,
    Option.isSome_filter, Option.any_eq_true]
  rfl

/-- A type that is read has a shape, and so does its node. -/
theorem Tag.exists_shape_of_parseChars {t : TypeExpr}
    (h : TypeExpr.parseChars tag.typeText = .ok t) :
    ∃ shape,
      (Node.shapeOf (some (String.ofList tag.typeText)) (some t.toNode)).result = .ok shape ∧
        (shapeOfText tag.type).result = .ok shape := by
  refine ⟨_, Node.shapeOf_toNode tag.typeText t, ?_⟩
  have hread : typeOfText tag.type = .ok (some t) := typeOfText_of_parseChars h
  rw [result_shapeOfText, hread]
  rfl

/-- There is no record of a comment if and only if a parameter, or the first
return tag, has a malformed type. The fault names the type of the first such
parameter, also behind a malformed result, and only else that of the result.
Otherwise the record says what the parameters and the first return tag say, and
each type that is read has a shape. -/
theorem Record.ofComment_result (comment : String) :
    ((∃ fault, (Record.ofComment comment).result = .error fault) ↔
      (∃ tag ∈ paramTags (Record.tagsIn comment), tag.isMalformed = true) ∨
        ∃ tag ∈ returnTag (Record.tagsIn comment), tag.isMalformed = true) ∧
    (∀ fault, (Record.ofComment comment).result = .error fault →
      ∃ tag, blamedFor (Record.tagsIn comment) = some tag ∧
        fault.expression = String.ofList tag.typeText) ∧
    (∀ record, (Record.ofComment comment).result = .ok record →
      record.Describes (Record.tagsIn comment)) ∧
    (∀ tag ∈ Record.tagsIn comment, ∀ t, TypeExpr.parseChars tag.typeText = .ok t →
      ∃ shape, (Node.shapeOf (some (String.ofList tag.typeText)) (some t.toNode)).result = .ok shape ∧
        (shapeOfText tag.type).result = .ok shape) := by
  have hsettles := Record.settles_ofComment comment
  refine ⟨?_, ?_, ?_, fun tag _ t ht => Tag.exists_shape_of_parseChars ht⟩
  · rw [← exists_blamedFor_iff, ← hsettles.exists_error_iff]
  · intro fault hfault
    rw [hfault] at hsettles
    exact hsettles.exists_of_error
  · intro record hrecord
    rw [hrecord] at hsettles
    exact hsettles.of_ok.2

end DocComment
