import DocComment.Proofs.Lexing.Characters
import DocComment.Proofs.Records

/-!
# Marks of optional types

Whether a type is marked as optional is decided at the root of its tree. An equals
sign at the end of the text is the mark of the root, unless the root is a form that
ends in an operand of its own: then the mark belongs to that operand
(`Tag.result_hasMarkedType_of_parseChars`).
-/

namespace DocComment

open Text Token

/-! ## The end of a text -/

section

variable {p q r text : List Char} {x : String} {t : Terminal}

namespace Terminal

/-- A text ends in an equals sign if that is the last terminal that is read. -/
theorem getLast_of_readsText (hr : r <:+ p) (h : t.ReadsText r x []) :
    p.getLast? = some '=' ↔ t = .equals := by
  obtain ⟨front, rfl⟩ := hr
  obtain ⟨spacing, text, -, rfl, -, hlongest⟩ := h
  have hne := ne_nil_of_mem_language hlongest.mem
  rw [List.append_nil, ← List.append_assoc, List.getLast?_append_of_ne_nil _ hne]
  exact getLast_eq_equals_iff hlongest.mem

end Terminal

end

/-! ## The root of a tree -/

/-- Whether a type can end in an operand of its own; an operator behind the type
belongs to that operand then. -/
def TypeExpr.endsInOperand : TypeExpr → Bool
  | union .. | arrow .. | functionReturning .. | nullable _ | notNullable _ | variadic _ => true
  | _ => false

/-- The root of a tree is optional if an equals sign ends the text and belongs to
no operand. -/
def TypeExpr.MarkedAtEnd (t : TypeExpr) (p : List Char) : Prop :=
  t.kind = .optional ↔ p.getLast? = some '=' ∧ t.endsInOperand = false

section

variable {k : Nat} {p r : List Char} {x : String} {t : TypeExpr} {terminal : Terminal}

/-- A type that ends in an operand is not optional itself. -/
theorem TypeExpr.markedAtEnd_of_endsInOperand (h : t.endsInOperand = true) :
    t.MarkedAtEnd p := by
  unfold MarkedAtEnd
  rw [h]
  cases t <;> simp_all [endsInOperand, kind]

/-- A tree is not optional if another terminal than an equals sign comes last. -/
theorem TypeExpr.markedAtEnd_of_reads (hr : r <:+ p) (h : terminal.ReadsText r x [])
    (hterminal : terminal ≠ .equals) (hkind : t.kind ≠ .optional) : t.MarkedAtEnd p := by
  unfold MarkedAtEnd
  rw [Terminal.getLast_of_readsText hr h]
  tauto

namespace TextDerivation

open Terminal TypeExpr DocComment.Derivation

/-- A primary is not optional, whatever its result may end in. -/
theorem markedAtEnd_primary (d : TextDerivation .primary k p []) : d.tree.MarkedAtEnd p := by
  -- a primary ends with its last terminal, or in the result of a function
  cases d with
  | name word | any word | unknown word | string word | number word =>
    exact markedAtEnd_of_reads (List.suffix_refl p) word nofun nofun
  | functionReturning => exact markedAtEnd_of_endsInOperand rfl
  | typeOf word value =>
    exact markedAtEnd_of_reads (suffix_of_readsText word) value nofun nofun
  | tuple opening inner closing | record opening inner closing | parens opening inner closing =>
    have hclosing := (suffix inner).trans (suffix_of_readsText opening)
    exact markedAtEnd_of_reads hclosing closing nofun nofun
  | generic word opening inner closing | function word opening inner closing =>
    have hclosing := ((suffix inner).trans (suffix_of_readsText opening)).trans
      (suffix_of_readsText word)
    exact markedAtEnd_of_reads hclosing closing nofun nofun
  | dottedGeneric word dot opening inner closing =>
    have hclosing := (((suffix inner).trans (suffix_of_readsText opening)).trans
      (suffix_of_readsText dot)).trans (suffix_of_readsText word)
    exact markedAtEnd_of_reads hclosing closing nofun nofun

theorem markedAtEnd_suffixed (d : TextDerivation .suffixed k p []) : d.tree.MarkedAtEnd p := by
  cases d with
  | plain d => exact markedAtEnd_primary d
  | optional d mark =>
    have hlast := (getLast_of_readsText (suffix d) mark).mpr rfl
    exact iff_of_true rfl ⟨hlast, rfl⟩
  | array d opening closing =>
    have hclosing := (suffix_of_readsText opening).trans (suffix d)
    exact markedAtEnd_of_reads hclosing closing nofun nofun
  | nullableBehind | notNullableBehind => exact markedAtEnd_of_endsInOperand rfl

theorem markedAtEnd_prefixed (d : TextDerivation .prefixed k p []) : d.tree.MarkedAtEnd p := by
  cases d with
  | unmarked d => exact markedAtEnd_suffixed d
  | nullable | notNullable | variadic => exact markedAtEnd_of_endsInOperand rfl

theorem markedAtEnd_type (d : TextDerivation .type k p []) : d.tree.MarkedAtEnd p := by
  cases d with
  | operand d => exact markedAtEnd_prefixed d
  | union | arrow => exact markedAtEnd_of_endsInOperand rfl

end TextDerivation

end

/-! ## The type of a tag -/

/-- A type that is read is marked as optional if and only if its text ends in an
equals sign and the root of its tree does not end in an operand of its own. -/
theorem Tag.result_hasMarkedType_of_parseChars (tag : Tag) (t : TypeExpr)
    (h : TypeExpr.parseChars tag.typeText = .ok t) :
    tag.hasMarkedType.result =
      .ok (tag.typeText.getLast? == some '=' && !t.endsInOperand) := by
  have hread : typeOfText tag.type = .ok (some t) := typeOfText_of_parseChars h
  obtain ⟨k, d, htree⟩ := exists_textDerivation_of_parseChars h (trim_trim _)
  have hmarked : t.MarkedAtEnd tag.typeText := htree ▸ TextDerivation.markedAtEnd_type d
  rw [result_hasMarkedType, hread]
  refine congrArg Except.ok (Bool.eq_iff_iff.mpr ?_)
  simpa [TypeExpr.MarkedAtEnd] using hmarked

/-- The mark behind a plain name makes the type optional. -/
theorem Tag.result_hasMarkedType_name :
    TypeExpr.parseChars ({ keyword := "param", type := some "string=" } : Tag).typeText =
        .ok (.optional (.name "string")) ∧
      ({ keyword := "param", type := some "string=" } : Tag).hasMarkedType.result = .ok true := by
  have hparse : TypeExpr.parseChars
      ({ keyword := "param", type := some "string=" } : Tag).typeText =
        .ok (.optional (.name "string")) := by
    decide +kernel
  exact ⟨hparse, Tag.result_hasMarkedType_of_parseChars _ _ hparse⟩

/-- The mark behind a nullable type belongs to the operand, so the type does not
carry the mark that ends its text. -/
theorem Tag.not_hasMarkedType_iff_final_equals :
    ¬ ∀ (tag : Tag) (t : TypeExpr), paramKeywords.contains tag.keyword = true →
      TypeExpr.parseChars tag.typeText = .ok t →
        (tag.hasMarkedType.result = .ok true ↔ tag.typeText.getLast? = some '=') := by
  intro h
  let tag : Tag := { keyword := "param", type := some "?string=" }
  have hparse : TypeExpr.parseChars tag.typeText =
      .ok (.nullable (.optional (.name "string"))) := by
    decide +kernel
  have hunmarked : tag.hasMarkedType.result = .ok false := by
    decide +kernel
  have hmarked := (h tag _ (by decide) hparse).mpr (by decide +kernel)
  rw [hunmarked] at hmarked
  cases hmarked

end DocComment
