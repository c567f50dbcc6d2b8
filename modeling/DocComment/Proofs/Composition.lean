import DocComment.Proofs.Labels
import DocComment.Proofs.Parts

/-!
# Types are read part by part

A type expression that is put together from texts without an arrow is read as the type that is
put together from what the texts are read as (`parse_parts`). Neither a comma, a bar, a colon
nor a closing bracket of a part can be taken for one of the whole, and the reading that is
preferred for a part by itself is preferred inside the whole.
-/

namespace DocComment

open Text Token

variable {subject : String} {e e₁ e₂ : List Char} {t t₁ t₂ : TypeExpr} {es : List (List Char)}
  {ts : List TypeExpr}

/-! ## Brackets around parts -/

/-- Parts that are read can be put between brackets. -/
theorem parseChars_tuple (h : List.Forall₂ ReadsAs es ts) (hne : es ≠ []) :
    TypeExpr.parseChars (Notation.bracketed '[' ']' es) = .ok (.tuple ts) := by
  have hback : EndsPart [']'] := .of_head (by decide) (by decide)
  have hitems := yields_items h hne hback
  have htokens : tokensOf (Notation.bracketed '[' ']' es) =
      .leftBracket :: tokensOf (joinWith [',', ' '] es ++ [']']) := tokensOf_mark rfl
  have htuple : Yields .primary (tokensOf (Notation.bracketed '[' ']' es)) [] (.tuple ts) :=
    htokens ▸ hitems.someTypes.tuple
  exact htuple.type_of_primary.parseChars_eq

theorem parseChars_parens (h : ReadsAs e t) :
    TypeExpr.parseChars (Notation.bracketed '(' ')' [e]) = .ok (.parens t) := by
  have hback : EndsPart [')'] := .of_head (by decide) (by decide)
  have hinner := h.yields_append hback h.yields
  have htokens : tokensOf (Notation.bracketed '(' ')' [e]) =
      .leftParen :: tokensOf (e ++ [')']) := tokensOf_mark rfl
  have hparens : Yields .primary (tokensOf (Notation.bracketed '(' ')' [e])) [] (.parens t) :=
    htokens ▸ hinner.parens
  exact hparens.type_of_primary.parseChars_eq

/-! ## Names and words in front of parts -/

/-- The end of a text may close a part, since no type stands behind it. -/
theorem endsPart_greater : EndsPart ['>'] where
  head := by
    rintro _ ⟨⟩
    decide
  greater _ := rfl

/-- Parts that are read can be the arguments of a name. -/
theorem parseChars_generic (hsubject : subject.toList ∈ nameLanguage)
    (h : List.Forall₂ ReadsAs es ts) (hne : es ≠ []) :
    TypeExpr.parseChars (Notation.generic subject.toList es) = .ok (.generic subject ts) := by
  have hitems := yields_items h hne endsPart_greater
  have hless (later : Bool) : nameTail later (Notation.bracketed '<' '>' es) = [] := by
    cases later <;> exact nameTail_eq_nil rfl rfl _
  have htokens : tokensOf (Notation.generic subject.toList es) =
      .name subject :: .less :: tokensOf (joinWith [',', ' '] es ++ ['>']) := by
    rw [Notation.generic, tokensOf_append_name hsubject hless]
    exact congrArg _ (tokensOf_mark rfl)
  have hgeneric : Yields .primary (tokensOf (Notation.generic subject.toList es)) []
      (.generic subject ts) := htokens ▸ hitems.generic
  exact hgeneric.type_of_primary.parseChars_eq

theorem parseChars_record (hsubject : subject.toList ∈ nameLanguage) (h : ReadsAs e t) :
    TypeExpr.parseChars (Notation.bracketed '{' '}' [Notation.typed subject.toList e]) =
      .ok (.record [.typed subject t]) :=
  parseChars_record_labelled hsubject (parseChars_space h.parse_eq) rfl

/-- Parts that are read can be the parameters and the result of a function. -/
theorem parseChars_function (h : List.Forall₂ ReadsAs es ts) (hne : es ≠ []) (h' : ReadsAs e t) :
    TypeExpr.parseChars (Notation.typed (Notation.function es) e) =
      .ok (.functionReturning ts t) := by
  have hback : EndsPart (')' :: ':' :: ' ' :: e) := .of_head (by decide) (by decide)
  have hparams := yields_items h hne hback
  rw [tokensOf_mark rfl, tokensOf_mark rfl, tokensOf_cons_spacing rfl] at hparams
  -- the keyword does not go on over the parenthesis
  have hparen (later : Bool) :
      nameTail later ('(' :: (joinWith [',', ' '] es ++ ')' :: ':' :: ' ' :: e)) = [] := by
    cases later <;> exact nameTail_eq_nil rfl rfl _
  have hsplit : Notation.typed (Notation.function es) e =
      ("function" : String).toList ++
        '(' :: (joinWith [',', ' '] es ++ ')' :: ':' :: ' ' :: e) := by
    simp [Notation.typed, Notation.function, Notation.bracketed]
  have htokens : tokensOf (Notation.typed (Notation.function es) e) =
      .name "function" :: .leftParen ::
        tokensOf (joinWith [',', ' '] es ++ ')' :: ':' :: ' ' :: e) := by
    rw [hsplit, tokensOf_append_name TypeExpr.function_mem hparen, tokensOf_mark rfl]
  have hfunction : Yields .primary (tokensOf (Notation.typed (Notation.function es) e)) []
      (.functionReturning ts t) := htokens ▸ hparams.someTypes.functionReturning h'.yields
  exact hfunction.type_of_primary.parseChars_eq

/-! ## Unions of parts -/

/-- The first part of a union is neither a union nor open at its end; either would take the bar
for its own. -/
theorem parseChars_union (h₁ : ReadsAs e₁ t₁) (h₂ : ReadsAs e₂ t₂)
    (hunion : ∀ left right, t₁ ≠ .union left right) (hresult : t₁.endsInResult = false) :
    TypeExpr.parseChars (Notation.union e₁ e₂) = .ok (.union t₁ t₂) := by
  have hback : EndsPart ('|' :: e₂) := .of_head (by decide) (by decide)
  have hoperand := h₁.yields_append hback (h₁.yields.exists_operand h₁.arrow_notMem hunion)
  rw [tokensOf_mark rfl] at hoperand
  exact (hoperand.union hresult h₂.yields).parseChars_eq

/-! ## Types of parts -/

/-- A container, a tuple, a type between parentheses, a record, a function type with a result
and a union are read part by part. In front of the bar of a union there must stand an operand
that does not take the bar itself: no union, and no function type that ends in its result. -/
theorem parse_parts (hsubject : subject.toList ∈ nameLanguage) (hes : List.Forall₂ ReadsAs es ts)
    (hne : es ≠ []) (he : ReadsAs e t) (h₁ : ReadsAs e₁ t₁) (h₂ : ReadsAs e₂ t₂) :
    TypeExpr.parse (.ofList (Notation.generic subject.toList es)) = .ok (.generic subject ts) ∧
    TypeExpr.parse (.ofList (Notation.bracketed '[' ']' es)) = .ok (.tuple ts) ∧
    TypeExpr.parse (.ofList (Notation.bracketed '(' ')' [e])) = .ok (.parens t) ∧
    TypeExpr.parse (.ofList (Notation.bracketed '{' '}' [Notation.typed subject.toList e])) =
      .ok (.record [.typed subject t]) ∧
    TypeExpr.parse (.ofList (Notation.typed (Notation.function es) e)) =
      .ok (.functionReturning ts t) ∧
    ((∀ left right, t₁ ≠ .union left right) → t₁.endsInResult = false →
      TypeExpr.parse (.ofList (Notation.union e₁ e₂)) = .ok (.union t₁ t₂)) := by
  simp only [TypeExpr.parse, String.toList_ofList]
  exact ⟨parseChars_generic hsubject hes hne, parseChars_tuple hes hne, parseChars_parens he,
    parseChars_record hsubject he, parseChars_function hes hne he, parseChars_union h₁ h₂⟩

/-- Neither the mark in front of the closing sign nor the signs in a literal are taken for signs
of the whole, and a bar behind an operator belongs to the union. -/
theorem parse_parts_marked :
    TypeExpr.parse "Map<',>', A=>" =
        .ok (.generic "Map" [.string "',>'", .optional (.name "A")]) ∧
      TypeExpr.parse "function(',>', A=): ?B" =
        .ok (.functionReturning [.string "',>'", .optional (.name "A")] (.nullable (.name "B"))) ∧
      TypeExpr.parse "?B|C|D" =
        .ok (.union (.nullable (.name "B")) (.union (.name "C") (.name "D"))) := by
  have hsubject : ("Map" : String).toList ∈ nameLanguage :=
    (longest_name (show isNameStart 'M' = true from rfl) ['a', 'p']).mem
  have hliteral : ReadsAs "',>'".toList (.string "',>'") := ⟨by decide +kernel, by decide⟩
  have hoptional : ReadsAs "A=".toList (.optional (.name "A")) := ⟨by decide +kernel, by decide⟩
  have hnullable : ReadsAs "?B".toList (.nullable (.name "B")) := ⟨by decide +kernel, by decide⟩
  have hunion : ReadsAs "C|D".toList (.union (.name "C") (.name "D")) :=
    ⟨by decide +kernel, by decide⟩
  obtain ⟨hgeneric, -, -, -, hfunction, hbar⟩ := parse_parts hsubject
    (.cons hliteral (.cons hoptional .nil)) (List.cons_ne_nil _ _) hnullable hnullable hunion
  exact ⟨hgeneric, hfunction, hbar nofun rfl⟩

end DocComment
