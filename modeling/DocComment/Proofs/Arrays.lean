import DocComment.Proofs.CleanNames
import DocComment.Proofs.Composition
import DocComment.Proofs.OptionalTypes

/-!
# Spellings of an array

Brackets behind a type, and the name `Array` in front of the type with or without a dot, are
three spellings of one container (`parse_array`). The brackets go to the whole type if it does
not end in an operand of its own, such as the result of a function type, that would take them
instead.
-/

namespace DocComment

open Text Token TokenDerivation DocComment.Derivation

variable {text : String} {cs : List Char} {t : TypeExpr}

/-! ## Operands for brackets -/

theorem TypeExpr.endsInResult_of_endsInOperand (h : t.endsInOperand = false) :
    t.endsInResult = false := by
  cases t <;> first | rfl | cases h

/-- A type that ends in no operand of its own is an operand without a sign in front. -/
theorem ReadsAs.yields_suffixed (h : ReadsAs cs t) (hoperand : t.endsInOperand = false) :
    Yields .suffixed (tokensOf cs) [] t := by
  have hunion : ∀ left right, t ≠ .union left right := by
    rintro left right rfl
    cases hoperand
  have hprefixed := h.yields.exists_operand h.arrow_notMem hunion
  obtain ⟨_, d, hd, rfl⟩ := hprefixed.derivation
  cases d with
  | unmarked d => exact ⟨hprefixed.level_eq, _, d, ((preferred_of_child rfl).mp hd).2, rfl⟩
  | nullable | notNullable | variadic => cases hoperand

/-! ## The spellings -/

/-- Brackets behind a text are an operator on the whole of it, unless it ends in an operand. -/
theorem parseChars_brackets (h : ReadsAs cs t) (hoperand : t.endsInOperand = false) :
    TypeExpr.parseChars (cs ++ ['[', ']']) = .ok (.generic "Array" [t]) := by
  have hback : EndsPart ['[', ']'] := .of_head (by decide) (by decide)
  have hentry := h.yields_append hback (h.yields_suffixed hoperand)
  have harray := hentry.array (TypeExpr.endsInResult_of_endsInOperand hoperand)
  exact harray.unmarked.operand.parseChars_eq

theorem array_mem : ("Array" : String).toList ∈ nameLanguage :=
  (longest_name (show isNameStart 'A' = true from rfl) ['r', 'r', 'a', 'y']).mem

/-- The dot in front of the arguments is not part of the name. -/
theorem parseChars_dottedArray (h : ReadsAs cs t) :
    TypeExpr.parseChars ("Array".toList ++ '.' :: '<' :: (cs ++ ['>'])) =
      .ok (.generic "Array" [t]) := by
  have hentry := h.yields_append endsPart_greater h.yields
  have hdot (later : Bool) : nameTail later ('.' :: '<' :: (cs ++ ['>'])) = [] := by
    cases later <;> rfl
  have htokens : tokensOf ("Array".toList ++ '.' :: '<' :: (cs ++ ['>'])) =
      .name "Array" :: .dot false :: .less :: tokensOf (cs ++ ['>']) := by
    rw [tokensOf_append_name array_mem hdot, tokensOf_mark rfl, tokensOf_mark rfl]
    rfl
  have hgeneric : Yields .primary (tokensOf ("Array".toList ++ '.' :: '<' :: (cs ++ ['>']))) []
      (.generic "Array" [t]) := htokens ▸ hentry.oneType.dottedGeneric
  exact hgeneric.type_of_primary.parseChars_eq

/-- A container has the same shape however it is spelled. -/
theorem shapeOfText_generic {subject : String} {arguments : List TypeExpr}
    (h : TypeExpr.parse text = .ok (.generic subject arguments)) :
    (shapeOfText (some text)).result = .ok (TypeExpr.generic subject arguments).shape.value := by
  rw [result_shapeOfText_of_parseChars (parseChars_trim h), TypeExpr.shapeOf_eq (by simp)]

/-- The three spellings of an array of a type are read as one type, and so they have one
shape. -/
theorem parse_array (h : ReadsAs text.toList t) (hoperand : t.endsInOperand = false) :
    (TypeExpr.parse (text ++ "[]") = .ok (.generic "Array" [t]) ∧
      TypeExpr.parse ("Array<" ++ text ++ ">") = .ok (.generic "Array" [t]) ∧
      TypeExpr.parse ("Array.<" ++ text ++ ">") = .ok (.generic "Array" [t])) ∧
    ∃ shape, (shapeOfText (some (text ++ "[]"))).result = .ok shape ∧
      (shapeOfText (some ("Array<" ++ text ++ ">"))).result = .ok shape ∧
      (shapeOfText (some ("Array.<" ++ text ++ ">"))).result = .ok shape := by
  -- the suffix is the one spelling that looks at how the operand ends
  have hbrackets : TypeExpr.parse (text ++ "[]") = .ok (.generic "Array" [t]) := by
    have hsplit : (text ++ "[]").toList = text.toList ++ ['[', ']'] := by simp
    rw [TypeExpr.parse, hsplit]
    exact parseChars_brackets h hoperand
  have harray : TypeExpr.parse ("Array<" ++ text ++ ">") = .ok (.generic "Array" [t]) := by
    have hsplit : ("Array<" ++ text ++ ">").toList =
        Notation.generic "Array".toList [text.toList] := by
      simp [Notation.generic, Notation.bracketed, joinWith]
    rw [TypeExpr.parse, hsplit]
    exact parseChars_generic array_mem (.cons h .nil) (List.cons_ne_nil _ _)
  have hdotted : TypeExpr.parse ("Array.<" ++ text ++ ">") = .ok (.generic "Array" [t]) := by
    have hsplit : ("Array.<" ++ text ++ ">").toList =
        "Array".toList ++ '.' :: '<' :: (text.toList ++ ['>']) := by simp
    rw [TypeExpr.parse, hsplit]
    exact parseChars_dottedArray h
  exact ⟨⟨hbrackets, harray, hdotted⟩, _, shapeOfText_generic hbrackets,
    shapeOfText_generic harray, shapeOfText_generic hdotted⟩

/-- An equals sign stays with the entry in front of all that can close the array. -/
theorem parse_array_optional :
    (TypeExpr.parse "A=[]" = .ok (.generic "Array" [.optional (.name "A")]) ∧
      TypeExpr.parse "Array<A=>" = .ok (.generic "Array" [.optional (.name "A")]) ∧
      TypeExpr.parse "Array.<A=>" = .ok (.generic "Array" [.optional (.name "A")])) ∧
    ∃ shape, (shapeOfText (some "A=[]")).result = .ok shape ∧
      (shapeOfText (some "Array<A=>")).result = .ok shape ∧
      (shapeOfText (some "Array.<A=>")).result = .ok shape := by
  have hentry : ReadsAs "A=".toList (.optional (.name "A")) := ⟨by decide +kernel, by decide⟩
  exact parse_array hentry rfl

end DocComment
