import DocComment.Proofs.CleanNames
import DocComment.Proofs.Spacing

/-!
# Shapes that are shown

The text that shows a shape is written like a type: a composite shape looks like a
container with its arguments. If all its names are names of the grammar and each
composite has members, the text is that of a canonical type with the same shape
(`Shape.exists_shows`), so the shape is read back from it (`shapeOfText_text`). The
names that the rules give to unions and tuples are names like others there.
-/

namespace DocComment

open Text Token TypeExpr

/-- The shapes of names and containers: each name is a name of the grammar, and a
composite has members, none of which is absent. -/
inductive Shape.Nominal : Shape → Prop
  | bare {name} (hname : name.toList ∈ nameLanguage) : Nominal (.bare name)
  | composite {name members} (hname : name.toList ∈ nameLanguage) (hne : members ≠ [])
      (h : ∀ member ∈ members, Nominal member) : Nominal (.composite name members)

/-- The type has the shape, and it is written as the shape is shown. -/
structure TypeExpr.Shows (t : TypeExpr) (shape : Shape) : Prop where
  canonical : Canonical t
  chars : t.chars = shape.chars
  shape : t.shape.value = shape

variable {shape : Shape} {shapes : List Shape} {t : TypeExpr} {types : List TypeExpr}

/-! ## Types behind shapes -/

/-- Types that show shapes are written as these. -/
theorem chars_of_shows (h : List.Forall₂ Shows types shapes) :
    TypeExpr.charsOfAll types = Shape.charsOfAll shapes := by
  induction h with
  | nil => rfl
  | cons h _ ih => rw [TypeExpr.charsOfAll, Shape.charsOfAll, h.chars, ih]

/-- Types that show shapes have these shapes. -/
theorem shapes_of_shows (h : List.Forall₂ Shows types shapes) :
    (TypeExpr.shapes types).value = shapes := by
  induction h with
  | nil => rfl
  | cons h _ ih =>
    rw [TypeExpr.shapes, Logged.value_bind, Logged.value_bind, Logged.value_pure, h.shape, ih]

theorem canonical_of_shows (h : List.Forall₂ Shows types shapes) : ∀ t ∈ types, Canonical t := by
  induction h with
  | nil => exact List.forall_mem_nil _
  | cons h _ ih => exact List.forall_mem_cons.mpr ⟨h.canonical, ih⟩

/-- Each member has its own type. -/
theorem exists_forall_shows (h : ∀ shape ∈ shapes, ∃ t, TypeExpr.Shows t shape) :
    ∃ types, List.Forall₂ Shows types shapes := by
  induction shapes with
  | nil => exact ⟨[], .nil⟩
  | cons shape shapes ih =>
    obtain ⟨hfirst, hothers⟩ := List.forall_mem_cons.mp h
    obtain ⟨t, ht⟩ := hfirst
    obtain ⟨types, htypes⟩ := ih hothers
    exact ⟨t :: types, .cons ht htypes⟩

/-- A shape of names and containers is shown by a name or a container. -/
theorem Shape.Nominal.exists_shows (h : shape.Nominal) :
    ∃ t, TypeExpr.Shows t shape ∧ ∀ operand, t ≠ .optional operand := by
  induction h with
  | @bare name hname =>
    exact ⟨.name name, ⟨.operand (.unmarked (.plain (.name hname))), rfl, rfl⟩, nofun⟩
  | @composite name members hname hne _ ih =>
    have hmembers : ∀ member ∈ members, ∃ t, TypeExpr.Shows t member := fun member hmember =>
      (ih member hmember).imp fun t ht => ht.1
    obtain ⟨types, htypes⟩ := exists_forall_shows hmembers
    have htypes_ne : types ≠ [] := by
      rintro rfl
      exact hne (List.forall₂_nil_left_iff.mp htypes)
    -- canonical, written as the shape is, and of that shape
    refine ⟨.generic name types, ⟨?_, ?_, ?_⟩, nofun⟩
    · exact .operand (.unmarked (.plain (.generic hname htypes_ne (canonical_of_shows htypes))))
    · rw [TypeExpr.chars, Shape.chars, chars_of_shows htypes]
    · rw [TypeExpr.shape, Logged.value_bind, Logged.value_pure, shapes_of_shows htypes]

/-! ## Reading what is shown -/

/-- A canonical type is read from what shows its shape. -/
theorem TypeExpr.Shows.parse_text (h : TypeExpr.Shows t shape) : parse shape.text = .ok t := by
  have htext : shape.text = t.render := by rw [Shape.text, render, h.chars]
  rw [htext, parse_render h.canonical.widen, (reread_eq_iff t).mpr h.canonical.isSteady]

/-- The text of such a shape is read back to the shape. -/
theorem Shape.Nominal.result_shapeOfText (h : shape.Nominal) :
    (shapeOfText (some shape.text)).result = .ok shape := by
  obtain ⟨t, hshows, hother⟩ := h.exists_shows
  have hparse : parseChars shape.text.toList = .ok t := hshows.parse_text
  rw [result_shapeOfText_of_parseChars (parseChars_trim hparse), TypeExpr.shapeOf_eq hother,
    hshows.shape]

/-- A shape of names and containers is read back from the text that shows it, and no
other one is shown by this text. -/
theorem shapeOfText_text (shape : Shape) (h : shape.Nominal) :
    (shapeOfText (some shape.text)).result = .ok shape ∧
      ∀ other : Shape, other.Nominal → other.text = shape.text → other = shape := by
  refine ⟨h.result_shapeOfText, fun other hother htext => ?_⟩
  have hread := hother.result_shapeOfText
  rw [htext, h.result_shapeOfText] at hread
  exact (Except.ok.inj hread).symm

/-- Words of the grammar are read as names where they stand for names. -/
theorem shapeOfText_text_words :
    let shape := Shape.composite "function" [.bare "typeof", .composite "a.b-c" [.bare "x"]]
    shape.text = "function<typeof, a.b-c<x>>" ∧ shape.Nominal ∧
      (shapeOfText (some shape.text)).result = .ok shape ∧
      ∀ other : Shape, other.Nominal → other.text = shape.text → other = shape := by
  intro shape
  have hname {c : Char} (hc : isNameStart c = true) (cs : List Char) :
      c :: nameTail false cs ∈ nameLanguage := (longest_name hc cs).mem
  have hnominal : shape.Nominal := by
    refine .composite (hname (c := 'f') rfl "unction".toList) (List.cons_ne_nil _ _) ?_
    refine List.forall_mem_cons.mpr ⟨.bare (hname (c := 't') rfl "ypeof".toList), ?_⟩
    refine List.forall_mem_singleton.mpr ?_
    refine .composite (hname (c := 'a') rfl ".b-c".toList) (List.cons_ne_nil _ _) ?_
    exact List.forall_mem_singleton.mpr (.bare (hname (c := 'x') rfl []))
  exact ⟨by decide, hnominal, shapeOfText_text shape hnominal⟩

end DocComment
