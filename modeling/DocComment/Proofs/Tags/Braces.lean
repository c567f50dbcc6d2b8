import DocComment.Proofs.Lexing.Characters
import DocComment.Proofs.Parsing
import DocComment.Proofs.Tags.Brackets

/-!
# Braces of type expressions

The grammar opens and closes braces in pairs, around the fields of a record. Any
other brace stands in a string literal. So the braces of a type expression are
balanced if those of its string literals are (`balanced_of_literals`).
-/

namespace DocComment

open Text Token

/-! ## String literals of a tree -/

namespace TypeExpr

mutual

/-- The string literals of a type, in order. -/
def literals : TypeExpr → List String
  | string text => [text]
  | name _ | number _ | any | unknown | typeOf _ => []
  | optional inner | nullable inner | notNullable inner | variadic inner | parens inner =>
    literals inner
  | union left right => literals left ++ literals right
  | generic _ types | tuple types | function types => literalsOfAll types
  | functionReturning params returns => literalsOfAll params ++ literals returns
  | record fields => literalsOfFields fields
  | arrow params returns => literalsOfFields params ++ literals returns

def literalsOfAll : List TypeExpr → List String
  | [] => []
  | t :: ts => literals t ++ literalsOfAll ts

def literalsOfField : Field → List String
  | .bare _ => []
  | .typed _ type => literals type

def literalsOfFields : List Field → List String
  | [] => []
  | field :: fields => literalsOfField field ++ literalsOfFields fields

end

end TypeExpr

/-- The string literals of what is read as a nonterminal. -/
def Nonterminal.literals : (n : Nonterminal) → n.Value → List String
  | type, t | prefixed, t | suffixed, t | primary, t => t.literals
  | types, ts | maybeTypes, ts => TypeExpr.literalsOfAll ts
  | field, f => TypeExpr.literalsOfField f
  | fields, fs | maybeFields, fs => TypeExpr.literalsOfFields fs

/-! ## Stretches of a text -/

/-- The braces of the text between two places are balanced. -/
def Spans (p q : List Char) : Prop :=
  ∃ front, p = front ++ q ∧ Balanced '{' '}' front

/-- Whether a terminal never holds a brace. -/
def Terminal.isUnbraced : Terminal → Bool
  | string | leftBrace | rightBrace => false
  | _ => true

variable {p q r s : List Char} {x y : String} {t : Terminal}

theorem balanced_of_spacing {spacing : List Char} (h : ∀ c ∈ spacing, isSpacing c = true) :
    Balanced '{' '}' spacing := by
  refine balanced_of_notMem (fun hc => ?_) fun hc => ?_
  · cases h _ hc
  · cases h _ hc

namespace Spans

theorem refl (p : List Char) : Spans p p :=
  ⟨[], rfl, balanced_nil⟩

theorem trans (h : Spans p q) (h' : Spans q r) : Spans p r := by
  obtain ⟨front, rfl, hfront⟩ := h
  obtain ⟨behind, rfl, hbehind⟩ := h'
  exact ⟨front ++ behind, (List.append_assoc ..).symm, hfront.append hbehind⟩

theorem of_spacing {spacing : List Char} (h : ∀ c ∈ spacing, isSpacing c = true) (q : List Char) :
    Spans (spacing ++ q) q :=
  ⟨spacing, rfl, balanced_of_spacing h⟩

/-- A terminal is spanned if its text has balanced braces. -/
theorem of_reads (h : t.ReadsText p x q) (hx : Balanced '{' '}' x.toList) : Spans p q := by
  obtain ⟨spacing, text, hspacing, rfl, rfl, -⟩ := h
  refine (of_spacing hspacing _).trans ⟨text, rfl, ?_⟩
  simpa using hx

/-- A terminal that is neither a brace nor a string literal holds no brace. -/
theorem of_unbraced (h : t.ReadsText p x q) (ht : t.isUnbraced = true) : Spans p q := by
  refine of_reads h ?_
  obtain ⟨spacing, text, -, rfl, rfl, hlongest⟩ := h
  have hstring : t ≠ .string := by
    rintro rfl
    cases ht
  -- of the marks only the braces themselves are braces, and they are not unbraced
  have hopening : t.sign? ≠ some '{' := by
    intro hsign
    cases t <;> cases hsign
    cases ht
  have hclosing : t.sign? ≠ some '}' := by
    intro hsign
    cases t <;> cases hsign
    cases ht
  rw [String.toList_ofList]
  exact balanced_of_notMem
    (Terminal.notMem_of_mem_language hlongest.mem (by decide) (by decide) hstring
      (fun _ => by decide) hopening)
    (Terminal.notMem_of_mem_language hlongest.mem (by decide) (by decide) hstring
      (fun _ => by decide) hclosing)

/-- Braces span what they enclose. -/
theorem of_braces (opening : Terminal.leftBrace.ReadsText p x q) (inner : Spans q r)
    (closing : Terminal.rightBrace.ReadsText r y s) : Spans p s := by
  obtain ⟨front, rfl, hfront⟩ := inner
  obtain ⟨spacing, text, hspacing, rfl, -, hopening⟩ := opening
  obtain ⟨spacing', text', hspacing', rfl, -, hclosing⟩ := closing
  obtain rfl : text = ['{'] := hopening.mem
  obtain rfl : text' = ['}'] := hclosing.mem
  refine (of_spacing hspacing _).trans ⟨'{' :: (front ++ spacing' ++ ['}']), by simp, ?_⟩
  exact balanced_enclose (by decide) (hfront.append (balanced_of_spacing hspacing'))

end Spans

open Spans

/-- A derivation spans its stretch if the braces of each string literal are
balanced. -/
theorem TextDerivation.spans {n : Nonterminal} {k : Nat} (d : TextDerivation n k p q)
    (h : ∀ literal ∈ n.literals d.tree, Balanced '{' '}' literal.toList) : Spans p q := by
  induction d with
  | operand _ ih | unmarked _ ih | plain _ ih | someTypes _ ih | someFields _ ih => exact ih h
  | oneType _ ih | oneField _ ih => exact ih (List.forall_mem_append.mp h).1
  | noTypes | noFields => exact .refl _
  -- terminals without parts
  | name word | any word | unknown word | number word | bareField word => exact of_unbraced word rfl
  | typeOf word value => exact (of_unbraced word rfl).trans (of_unbraced value rfl)
  | string literal => exact of_reads literal (h _ List.mem_cons_self)
  -- one part
  | nullable mark _ ih | notNullable mark _ ih | variadic mark _ ih =>
    exact (of_unbraced mark rfl).trans (ih h)
  | optional _ mark ih | nullableBehind _ mark ih | notNullableBehind _ mark ih =>
    exact (ih h).trans (of_unbraced mark rfl)
  | array _ opening closing ih =>
    have hinner := ih (List.forall_mem_append.mp h).1
    exact hinner.trans ((of_unbraced opening rfl).trans (of_unbraced closing rfl))
  | typedField label colon _ ih =>
    exact (of_unbraced label rfl).trans ((of_unbraced colon rfl).trans (ih h))
  | tuple opening _ closing ih | parens opening _ closing ih =>
    exact (of_unbraced opening rfl).trans ((ih h).trans (of_unbraced closing rfl))
  | record opening _ closing ih => exact of_braces opening (ih h) closing
  | generic word opening _ closing ih | function word opening _ closing ih =>
    exact (of_unbraced word rfl).trans
      ((of_unbraced opening rfl).trans ((ih h).trans (of_unbraced closing rfl)))
  | dottedGeneric word dot opening _ closing ih =>
    exact (of_unbraced word rfl).trans ((of_unbraced dot rfl).trans
      ((of_unbraced opening rfl).trans ((ih h).trans (of_unbraced closing rfl))))
  -- two parts
  | union _ sign _ ih ih' | moreTypes _ sign _ ih ih' | moreFields _ sign _ ih ih' =>
    obtain ⟨hleft, hright⟩ := List.forall_mem_append.mp h
    exact (ih hleft).trans ((of_unbraced sign rfl).trans (ih' hright))
  | arrow opening _ closing sign _ ih ih' =>
    obtain ⟨hparams, hreturns⟩ := List.forall_mem_append.mp h
    exact (of_unbraced opening rfl).trans ((ih hparams).trans
      ((of_unbraced closing rfl).trans ((of_unbraced sign rfl).trans (ih' hreturns))))
  | functionReturning word opening _ closing colon _ ih ih' =>
    obtain ⟨hparams, hreturns⟩ := List.forall_mem_append.mp h
    exact (of_unbraced word rfl).trans ((of_unbraced opening rfl).trans ((ih hparams).trans
      ((of_unbraced closing rfl).trans ((of_unbraced colon rfl).trans (ih' hreturns)))))

/-- The braces of a type expression are balanced if those of its string literals
are. -/
theorem balanced_of_literals {cs : List Char} {t : TypeExpr}
    (h : TypeExpr.parseChars cs = .ok t) (htrim : trim cs = cs)
    (hliterals : ∀ literal ∈ t.literals, Balanced '{' '}' literal.toList) :
    Balanced '{' '}' cs := by
  obtain ⟨k, d, rfl⟩ := exists_textDerivation_of_parseChars h htrim
  obtain ⟨front, hfront, hbalanced⟩ := TextDerivation.spans d hliterals
  rw [hfront, List.append_nil]
  exact hbalanced

end DocComment
