import DocComment.Proofs.Shapes

/-!
# Well-formed nodes

A node is loose: any parts can be given for any kind. The nodes of texts are not. Each
has the parts of its kind and no others, at every depth, and each word is one of its
terminal (`Node.WellFormed`). Whatever writes a node or takes its shape fails only where
a part is missing or the kind is unknown, so it never fails on a node that is well formed
(`WellFormed.exists_chars`, `WellFormed.exists_shape`). A text that goes through its node
is then rejected by the grammar or not at all (`parse_wellFormed`).
-/

namespace DocComment

open Text

/-! ## Well-formed nodes -/

/-- The words that a node of a kind is made of, if it is made of one word alone. -/
def Kind.words? : Kind → Option (Language Char)
  | .name | .typeOf => some nameLanguage
  | .string => some stringLanguage
  | .number => some numberLanguage
  | _ => none

namespace Node

/-- What a node stands for: a type, or a named member of a record or an arrow. -/
inductive Role where
  | type
  | member (kind : Kind)

/-- A node with the parts of its kind and no others. -/
inductive WellFormed : Role → Node → Prop where
  | word {kind text words} (hkind : kind.words? = some words) (htext : text.toList ∈ words) :
      WellFormed .type { kind, name := some text }
  | sign {kind} (hkind : kind = .any ∨ kind = .unknown) : WellFormed .type { kind }
  | union {left right} (hleft : WellFormed .type left) (hright : WellFormed .type right) :
      WellFormed .type { kind := .union, left := some left, right := some right }
  | marked {kind value}
      (hkind : kind ∈ [Kind.optional, .nullable, .notNullable, .variadic, .parens])
      (hvalue : WellFormed .type value) : WellFormed .type { kind, value := some value }
  | generic {subject objects} (hsubject : subject.toList ∈ nameLanguage) (hne : objects ≠ [])
      (hobjects : ∀ node ∈ objects, WellFormed .type node) :
      WellFormed .type
        { kind := .generic, subject := some { kind := .name, name := some subject }, objects }
  | tuple {entries} (hentries : ∀ node ∈ entries, WellFormed .type node) :
      WellFormed .type { kind := .tuple, entries }
  | record {fields} (hfields : ∀ node ∈ fields, WellFormed (.member .recordField) node) :
      WellFormed .type { kind := .record, fields }
  | function {params} {returns : Option Node} (hparams : ∀ node ∈ params, WellFormed .type node)
      (hreturns : ∀ node ∈ returns, WellFormed .type node) :
      WellFormed .type { kind := .function, params, returns }
  | arrow {params returns} (hparams : ∀ node ∈ params, WellFormed (.member .parameter) node)
      (hreturns : WellFormed .type returns) :
      WellFormed .type { kind := .arrow, params, returns := some returns }
  | member {kind label} {value : Option Node} (hkind : kind = .recordField ∨ kind = .parameter)
      (hlabel : label.toList ∈ nameLanguage) (hvalue : ∀ node ∈ value, WellFormed .type node) :
      WellFormed (.member kind) { kind, name := some label, value }

/-! ## What is made of them -/

/-- Nodes that can be written one by one can be written together. -/
theorem exists_charsOfAll {nodes : List Node} (h : ∀ node ∈ nodes, ∃ cs, node.chars = .ok cs) :
    ∃ css, charsOfAll nodes = .ok css := by
  induction nodes with
  | nil => exact ⟨[], rfl⟩
  | cons node nodes ih =>
    obtain ⟨cs, hcs⟩ := h node List.mem_cons_self
    obtain ⟨css, hcss⟩ := ih fun later hlater => h later (List.mem_cons_of_mem node hlater)
    refine ⟨cs :: css, ?_⟩
    rw [charsOfAll, hcs, hcss]
    rfl

/-- A well-formed node can be written. -/
theorem WellFormed.exists_chars {role : Role} {node : Node} (h : WellFormed role node) :
    ∃ cs, node.chars = .ok cs := by
  -- each rule of well-formedness puts the parts there that its kind writes
  induction h with
  | @word kind text words hkind htext =>
    cases kind
    case name | string | number | typeOf => exact ⟨_, rfl⟩
    all_goals cases hkind
  | sign hkind => rcases hkind with rfl | rfl <;> exact ⟨_, rfl⟩
  | union hleft hright ihleft ihright =>
    obtain ⟨first, hfirst⟩ := ihleft
    obtain ⟨second, hsecond⟩ := ihright
    simp only [Node.chars, charsOfPart, hfirst, hsecond]
    exact ⟨_, rfl⟩
  | @marked kind value hkind hvalue ih =>
    obtain ⟨cs, hcs⟩ := ih
    simp only [List.mem_cons, List.not_mem_nil, or_false] at hkind
    rcases hkind with rfl | rfl | rfl | rfl | rfl
    all_goals
      simp only [Node.chars, charsOfPart, hcs]
      exact ⟨_, rfl⟩
  | generic hsubject hne hobjects ih =>
    obtain ⟨css, hcss⟩ := exists_charsOfAll ih
    simp only [Node.chars, hcss]
    exact ⟨_, rfl⟩
  | tuple hentries ih =>
    obtain ⟨css, hcss⟩ := exists_charsOfAll ih
    simp only [Node.chars, hcss]
    exact ⟨_, rfl⟩
  | record hfields ih =>
    obtain ⟨css, hcss⟩ := exists_charsOfAll ih
    simp only [Node.chars, hcss]
    exact ⟨_, rfl⟩
  | @function params returns hparams hreturns ihparams ihreturns =>
    obtain ⟨css, hcss⟩ := exists_charsOfAll ihparams
    cases returns with
    | none =>
      simp only [Node.chars, hcss]
      exact ⟨_, rfl⟩
    | some returns =>
      obtain ⟨cs, hcs⟩ := ihreturns returns rfl
      simp only [Node.chars, hcss, hcs]
      exact ⟨_, rfl⟩
  | arrow hparams hreturns ihparams ihreturns =>
    obtain ⟨css, hcss⟩ := exists_charsOfAll ihparams
    obtain ⟨cs, hcs⟩ := ihreturns
    simp only [Node.chars, charsOfPart, hcss, hcs]
    exact ⟨_, rfl⟩
  | @member kind label value hkind hlabel hvalue ih =>
    cases value with
    | none => rcases hkind with rfl | rfl <;> exact ⟨_, rfl⟩
    | some value =>
      obtain ⟨cs, hcs⟩ := ih value rfl
      rcases hkind with rfl | rfl
      all_goals
        simp only [Node.chars, hcs]
        exact ⟨_, rfl⟩

theorem WellFormed.exists_render {role : Role} {node : Node} (h : WellFormed role node) :
    ∃ text, node.render = .ok text := by
  obtain ⟨cs, hcs⟩ := h.exists_chars
  refine ⟨String.ofList cs, ?_⟩
  rw [render, hcs]
  rfl

/-- Nodes that have shapes one by one have them together. -/
theorem exists_shapes {nodes : List Node}
    (h : ∀ node ∈ nodes, ∃ shape, node.shape.result = .ok shape) :
    ∃ members, (shapes nodes).result = .ok members := by
  induction nodes with
  | nil => exact ⟨[], rfl⟩
  | cons node nodes ih =>
    obtain ⟨shape, hshape⟩ := h node List.mem_cons_self
    obtain ⟨members, hmembers⟩ := ih fun later hlater => h later (List.mem_cons_of_mem node hlater)
    refine ⟨shape :: members, ?_⟩
    simp only [shapes, Checked.result_bind, hshape, hmembers]
    rfl

/-- A well-formed type has a shape. -/
theorem WellFormed.exists_shape {node : Node} (h : WellFormed .type node) :
    ∃ shape, node.shape.result = .ok shape := by
  generalize hrole : Role.type = role at h
  induction h with
  | @word kind text words hkind htext =>
    cases kind
    case name | string | number | typeOf => exact ⟨_, rfl⟩
    all_goals cases hkind
  | sign hkind => rcases hkind with rfl | rfl <;> exact ⟨_, rfl⟩
  | union hleft hright ihleft ihright =>
    obtain ⟨first, hfirst⟩ := ihleft rfl
    obtain ⟨second, hsecond⟩ := ihright rfl
    simp only [Node.shape, shapeOfPart, Checked.result_bind, hfirst, hsecond]
    exact ⟨_, rfl⟩
  | @marked kind value hkind hvalue ih =>
    obtain ⟨text, htext⟩ := hvalue.exists_render
    simp only [List.mem_cons, List.not_mem_nil, or_false] at hkind
    rcases hkind with rfl | rfl | rfl | rfl | rfl
    · -- an optional type is named by its operand; the other marks have no shape
      simp only [Node.shape, htext]
      exact ⟨_, rfl⟩
    all_goals exact ⟨_, rfl⟩
  | generic hsubject hne hobjects ih =>
    obtain ⟨members, hmembers⟩ := exists_shapes fun node hnode => ih node hnode rfl
    simp only [Node.shape, Option.bind_some, Checked.result_bind, hmembers]
    exact ⟨_, rfl⟩
  | tuple hentries ih =>
    obtain ⟨members, hmembers⟩ := exists_shapes fun node hnode => ih node hnode rfl
    simp only [Node.shape, Checked.result_bind, hmembers]
    exact ⟨_, rfl⟩
  | record | function | arrow => exact ⟨_, rfl⟩
  | member => cases hrole

/-- A well-formed type has a shape, also if it comes with a text. -/
theorem WellFormed.exists_shapeOf {node : Node} (h : WellFormed .type node)
    (source : Option String) : ∃ shape, (shapeOf source (some node)).result = .ok shape := by
  obtain ⟨shape, hshape⟩ := h.exists_shape
  simp only [shapeOf]
  split
  · exact ⟨_, rfl⟩
  · exact ⟨shape, hshape⟩

end Node

/-! ## Nodes of texts -/

namespace TypeExpr

theorem mem_toNodes {ts : List TypeExpr} {node : Node} (h : node ∈ toNodes ts) :
    ∃ t ∈ ts, t.toNode = node := by
  induction ts with
  | nil => cases h
  | cons t ts ih =>
    rcases List.mem_cons.mp h with rfl | h
    · exact ⟨t, List.mem_cons_self, rfl⟩
    · obtain ⟨later, hlater, hnode⟩ := ih h
      exact ⟨later, List.mem_cons_of_mem t hlater, hnode⟩

theorem mem_fieldNodes {kind : Kind} {fs : List Field} {node : Node}
    (h : node ∈ fieldNodes kind fs) : ∃ f ∈ fs, fieldNode kind f = node := by
  induction fs with
  | nil => cases h
  | cons f fs ih =>
    rcases List.mem_cons.mp h with rfl | h
    · exact ⟨f, List.mem_cons_self, rfl⟩
    · obtain ⟨later, hlater, hnode⟩ := ih h
      exact ⟨later, List.mem_cons_of_mem f hlater, hnode⟩

theorem wellFormed_toNodes {ts : List TypeExpr} (h : ∀ t ∈ ts, t.toNode.WellFormed .type) :
    ∀ node ∈ toNodes ts, node.WellFormed .type := by
  intro node hnode
  obtain ⟨t, ht, rfl⟩ := mem_toNodes hnode
  exact h t ht

/-- The nodes of fields with names are well-formed members. -/
theorem wellFormed_fieldNodes {kind : Kind} {fs : List Field}
    (hkind : kind = .recordField ∨ kind = .parameter)
    (hlabels : ∀ f ∈ fs, f.label.toList ∈ nameLanguage)
    (htypes : ∀ f ∈ fs, ∀ t, f.type? = some t → t.toNode.WellFormed .type) :
    ∀ node ∈ fieldNodes kind fs, node.WellFormed (.member kind) := by
  intro node hnode
  obtain ⟨f, hf, rfl⟩ := mem_fieldNodes hnode
  cases f with
  | bare label => exact .member hkind (hlabels _ hf) nofun
  | typed label type =>
    refine .member hkind (hlabels _ hf) ?_
    rintro _ ⟨⟩
    exact htypes _ hf type rfl

/-- The node of a tree that the layers can build is well formed. -/
theorem Formed.wellFormed_toNode {wide : Prop} {n : Nonterminal} {t : TypeExpr}
    (h : Formed wide n t) : t.toNode.WellFormed .type := by
  induction h with
  | name htext | string htext | number htext | typeOf htext => exact .word rfl htext
  | any => exact .sign (.inl rfl)
  | unknown => exact .sign (.inr rfl)
  | parens _ ih => exact .marked (by decide) ih
  | tuple _ ih => exact .tuple (wellFormed_toNodes ih)
  | record hlabels _ ih => exact .record (wellFormed_fieldNodes (.inl rfl) hlabels ih)
  | @generic subject arguments hsubject hne _ ih =>
    -- arguments stay at least one
    refine .generic hsubject ?_ (wellFormed_toNodes ih)
    cases arguments with
    | nil => exact absurd rfl hne
    | cons t ts => exact List.cons_ne_nil _ _
  | function _ ih => exact .function (wellFormed_toNodes ih) nofun
  | plain _ ih | unmarked _ ih | operand _ ih => exact ih
  | optional _ ih => exact .marked (by decide) ih
  | nullableBehind _ _ ih | nullable _ _ ih => exact .marked (by decide) ih
  | notNullableBehind _ _ ih | notNullable _ ih => exact .marked (by decide) ih
  | variadic _ ih => exact .marked (by decide) ih
  | functionReturning _ _ ihparams ihreturns =>
    refine .function (wellFormed_toNodes ihparams) ?_
    rintro _ ⟨⟩
    exact ihreturns
  | union _ _ _ ihleft ihright => exact .union ihleft ihright
  | arrow hlabels _ _ ihtypes ihreturns =>
    exact .arrow (wellFormed_fieldNodes (.inr rfl) hlabels ihtypes) ihreturns

end TypeExpr

/-! ## Shapes by way of nodes -/

/-- The shape of a text by way of its node. The text may be rejected, and there may be no
shape of the node. -/
def shapeByNode (text : Option String) : Except (SyntaxFault ⊕ NodeFault) Shape := do
  let found ← (typeOfText text).mapError .inl
  let source := String.ofList (trim (text.getD "").toList)
  (Node.shapeOf (some source) (found.map TypeExpr.toNode)).result.mapError .inr

/-- By way of its node a text has the shape that it has by way of its tree. -/
theorem shapeByNode_eq (text : Option String) :
    shapeByNode text = (shapeOfText text).result.mapError .inl := by
  rw [result_shapeOfText, shapeByNode]
  cases typeOfText text with
  | error fault => rfl
  | ok found =>
    cases found with
    | none => rfl
    | some t =>
      have hshape := Node.shapeOf_toNode (trim (text.getD "").toList) t
      change (Node.shapeOf _ (some t.toNode)).result.mapError Sum.inr = _
      rw [hshape]
      rfl

/-- By way of its node a text is rejected by the grammar or not at all. -/
theorem exists_of_shapeByNode {text : Option String} {fault : SyntaxFault ⊕ NodeFault}
    (h : shapeByNode text = .error fault) :
    ∃ cause, fault = .inl cause ∧
      TypeExpr.parseChars (trim (text.getD "").toList) = .error cause := by
  by_cases hblank : trim (text.getD "").toList = []
  · rw [shapeByNode, typeOfText_of_blank hblank] at h
    cases h
  rw [shapeByNode, typeOfText_of_ne_nil hblank] at h
  cases hparse : TypeExpr.parseChars (trim (text.getD "").toList) with
  | error cause =>
    rw [hparse] at h
    exact ⟨cause, (Except.error.inj h).symm, rfl⟩
  -- a tree that is read has a well-formed node, and so a shape
  | ok t =>
    have hnode := (TypeExpr.formed_of_parseChars hparse).wellFormed_toNode
    obtain ⟨shape, hshape⟩ :=
      hnode.exists_shapeOf (some (String.ofList (trim (text.getD "").toList)))
    rw [hparse] at h
    change (Node.shapeOf _ (some t.toNode)).result.mapError Sum.inr = _ at h
    rw [hshape] at h
    cases h

/-- The node of each text that is accepted is well formed and can be written. So a text
has the shape of its node as it has the shape of its tree, and what it is rejected for is
a fault of the grammar. -/
theorem parse_wellFormed :
    (∀ text t, TypeExpr.parse text = .ok t →
      t.toNode.WellFormed .type ∧ ∃ rendered, t.toNode.render = .ok rendered) ∧
    ∀ text : Option String,
      shapeByNode text = (shapeOfText text).result.mapError .inl ∧
        ∀ fault, shapeByNode text = .error fault →
          ∃ cause, fault = .inl cause ∧
            TypeExpr.parseChars (trim (text.getD "").toList) = .error cause := by
  constructor
  · intro text t h
    have hnode := (TypeExpr.formed_of_parse h).wellFormed_toNode
    exact ⟨hnode, hnode.exists_render⟩
  · intro text
    exact ⟨shapeByNode_eq text, fun fault => exists_of_shapeByNode⟩

/-- An array of records whose first field has no type, and an argument list that is not
closed. -/
theorem parse_wellFormed_sample :
    TypeExpr.parse "\x7ba, b: B\x7d[]" =
        .ok (.generic "Array" [.record [.bare "a", .typed "b" (.name "B")]]) ∧
      (TypeExpr.generic "Array"
        [.record [.bare "a", .typed "b" (.name "B")]]).toNode.WellFormed .type ∧
      ∃ cause, shapeByNode (some "A<B") = .error (.inl cause) := by
  obtain ⟨hnodes, htexts⟩ := parse_wellFormed
  have hread : TypeExpr.parse "\x7ba, b: B\x7d[]" =
      .ok (.generic "Array" [.record [.bare "a", .typed "b" (.name "B")]]) := by
    decide +kernel
  refine ⟨hread, (hnodes _ _ hread).1, ?_⟩
  have hrejected : (shapeByNode (some "A<B")).isOk = false := by decide +kernel
  cases hfault : shapeByNode (some "A<B") with
  | ok shape =>
    rw [hfault] at hrejected
    cases hrejected
  | error fault =>
    obtain ⟨cause, rfl, -⟩ := (htexts (some "A<B")).2 fault hfault
    exact ⟨cause, rfl⟩

end DocComment
