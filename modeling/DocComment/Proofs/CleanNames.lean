import DocComment.Proofs.FlatNames
import DocComment.Proofs.Spacing

/-!
# Clean names

The names in a shape are not empty and do not begin with a blank, and they do not end with
one either, with one exception: the name of a type that is optional at the root is the
source without its mark, and keeps the blanks in front of the mark
(`shapeOfText_names`, `not_shapeOfText_names_trimmed`). All other names are words of the
type expression, fixed words, or operands that are written anew, and what is written never
begins or ends with a blank (`TypeExpr.Formed.isClean_chars`).
-/

namespace DocComment

open Text Token TypeExpr

variable {c d : Char} {cs ds : List Char} {name : String}

/-! ## Clean texts -/

/-- A text is not empty, and neither of its ends is blank. -/
structure Text.IsClean (cs : List Char) : Prop where
  ne_nil : cs ≠ []
  head : ∀ c ∈ cs.head?, isBlank c = false
  last : ∀ c ∈ cs.getLast?, isBlank c = false

namespace Text.IsClean

theorem trim_eq (h : IsClean cs) : trim cs = cs :=
  trim_eq_self_iff.mpr ⟨h.head, h.last⟩

/-- A text without blanks is clean. -/
theorem of_forall (hne : cs ≠ []) (h : ∀ c ∈ cs, isBlank c = false) : IsClean cs :=
  ⟨hne, fun c hc => h c (List.mem_of_head? hc), fun c hc => h c (List.mem_of_getLast? hc)⟩

theorem single (h : isBlank c = false) : IsClean [c] :=
  of_forall (List.cons_ne_nil c []) (List.forall_mem_singleton.mpr h)

/-- Whatever stands between two clean texts. -/
theorem between (h : IsClean cs) (middle : List Char) (h' : IsClean ds) :
    IsClean (cs ++ (middle ++ ds)) where
  ne_nil hnil := h.ne_nil (List.append_eq_nil_iff.mp hnil).1
  head := by
    rw [List.head?_append_of_ne_nil _ h.ne_nil]
    exact h.head
  last := by
    rw [← List.append_assoc, List.getLast?_append_of_ne_nil _ h'.ne_nil]
    exact h'.last

/-- Items between an opening and a closing sign. -/
theorem bracketed (h : isBlank c = false) (h' : isBlank d = false) (items : List (List Char)) :
    IsClean (Notation.bracketed c d items) :=
  (single h).between (joinWith [',', ' '] items) (single h')

/-- A word is clean. -/
theorem of_wordlike (hne : cs ≠ []) (h : ∀ c ∈ cs, isWordlike c = true) : IsClean cs := by
  refine of_forall hne fun c hc => Bool.eq_false_iff.mpr fun hblank => ?_
  have hwordlike := isWordlike_of_isBlank hblank
  rw [h c hc] at hwordlike
  cases hwordlike

theorem of_mem_name (h : cs ∈ nameLanguage) : IsClean cs :=
  of_wordlike (Terminal.ne_nil_of_mem_language (t := .name) h) (isWordlike_of_mem_name h)

theorem of_mem_number (h : cs ∈ numberLanguage) : IsClean cs :=
  of_wordlike (Terminal.ne_nil_of_mem_language (t := .number) h) (isWordlike_of_mem_number h)

/-- A string literal has its quotes at its ends. -/
theorem of_mem_string (h : cs ∈ stringLanguage) : IsClean cs := by
  refine ⟨Terminal.ne_nil_of_mem_language (t := .string) h, ?_, ?_⟩
  · obtain ⟨quote, tail, hquote, -, rfl⟩ := mem_stringLanguage.mp h
    rintro _ ⟨⟩
    rcases hquote with rfl | rfl <;> rfl
  · intro c hc
    rcases Terminal.getLast_of_mem_string h with hlast | hlast
    · obtain rfl := Option.some.inj (hc.symm.trans hlast)
      rfl
    · obtain rfl := Option.some.inj (hc.symm.trans hlast)
      rfl

end Text.IsClean

/-! ## Written types -/

namespace TypeExpr

variable {n : Nonterminal} {t : TypeExpr}

/-- What is written neither begins nor ends with a blank. -/
theorem Formed.isClean_chars (h : Formed True n t) : IsClean t.chars := by
  have hsign {c : Char} (hc : isBlank c = false) : IsClean [c] := .single hc
  have hfunction (params : List (List Char)) : IsClean (Notation.function params) :=
    (IsClean.of_mem_name function_mem).between ('(' :: joinWith [',', ' '] params) (hsign rfl)
  -- each type begins and ends with a sign, a word or one of its parts
  induction h with
  | name htext => exact .of_mem_name htext
  | string htext => exact .of_mem_string htext
  | number htext => exact .of_mem_number htext
  | any | unknown => exact hsign rfl
  | typeOf hvalue => exact (IsClean.of_mem_name typeof_mem).between [' '] (.of_mem_name hvalue)
  | parens | tuple | record => exact .bracketed rfl rfl _
  | generic hsubject =>
    exact (IsClean.of_mem_name hsubject).between ('<' :: joinWith [',', ' '] _) (hsign rfl)
  | function => exact hfunction _
  | plain _ ih | unmarked _ ih | operand _ ih => exact ih
  | optional _ ih => exact ih.between [] (hsign rfl)
  | nullableBehind _ _ ih | notNullableBehind _ _ ih | nullable _ _ ih | notNullable _ ih =>
    exact (hsign rfl).between [] ih
  | variadic _ ih => exact (hsign rfl).between ['.', '.'] ih
  | functionReturning _ _ _ ih => exact (hfunction _).between [':', ' '] ih
  | union _ _ _ ih ih' => exact ih.between ['|'] ih'
  | arrow _ _ _ _ ih => exact (IsClean.bracketed rfl rfl _).between [' ', '=', '>', ' '] ih

end TypeExpr

/-! ## Names in shapes -/

/-- The name that a shape has. -/
def Shape.name? : Shape → Option String
  | absent => none
  | bare name | composite name _ => some name

/-- The name of the shape of a type that can be read. -/
theorem TypeExpr.Formed.isClean_name {n : Nonterminal} {t : TypeExpr} (h : Formed True n t)
    (hname : t.shape.value.name? = some name) : IsClean name.toList := by
  have hword {word : String} (hne : word.toList ≠ [])
      (h : word.toList.all (!isBlank ·) = true) (hname : some word = some name) :
      IsClean name.toList := by
    obtain rfl := Option.some.inj hname
    exact .of_forall hne (forall_mem_of_all h)
  -- only the name of an optional type is a text that is written
  induction h with
  | name htext =>
    obtain rfl := Option.some.inj hname
    exact .of_mem_name htext
  | any => exact hword (by decide) (by decide) hname
  | tuple => exact hword (by decide) (by decide) hname
  | generic hsubject =>
    obtain rfl := Option.some.inj hname
    exact .of_mem_name hsubject
  | plain _ ih | unmarked _ ih | operand _ ih => exact ih hname
  | optional h =>
    obtain rfl := Option.some.inj hname
    rw [render, String.toList_ofList]
    exact h.isClean_chars
  | union => exact hword (by decide) (by decide) hname
  | _ => cases hname

/-- Only an optional type makes use of its source. -/
theorem TypeExpr.shapeOf_eq {t : TypeExpr} (h : ∀ operand, t ≠ .optional operand)
    (source : List Char) : t.shapeOf source = t.shape := by
  cases t with
  | optional operand => exact absurd rfl (h operand)
  | _ => rfl

/-- No name in a shape is empty or begins with a blank. A name that ends with a blank is that
of an optional type at the root: the source without its mark. -/
theorem shapeOfText_names (text : String) (t : TypeExpr)
    (h : TypeExpr.parseChars (trim text.toList) = .ok t) :
    ∃ shape, (shapeOfText (some text)).result = .ok shape ∧
      ∀ path found name, shape.at? path = some found → found.name? = some name →
        name ≠ "" ∧ trimStart name.toList = name.toList ∧
          (trim name.toList = name.toList ∨
            path = [] ∧ (∃ operand, t = .optional operand) ∧
              trim text.toList = name.toList ++ ['=']) := by
  have hformed : Formed True .type t := formed_of_parseChars h
  -- below the root, and at the root of all other types, the names are those of types
  have hclean {path : List Nat} {found : TypeExpr} {name : String}
      (hfound : t.at? path = some found) (hname : found.shape.value.name? = some name) :
      name ≠ "" ∧ trimStart name.toList = name.toList ∧ trim name.toList = name.toList := by
    have hclean := (hformed.at? hfound).isClean_name hname
    refine ⟨?_, trimStart_of_head hclean.head, hclean.trim_eq⟩
    rintro rfl
    exact hclean.ne_nil rfl
  refine ⟨_, result_shapeOfText_of_parseChars h, fun path found name hfound hname => ?_⟩
  by_cases hroot : path = [] ∧ ∃ operand, t = .optional operand
  · obtain ⟨rfl, operand, rfl⟩ := hroot
    obtain ⟨source, hsource, hoperand⟩ := TypeExpr.exists_of_parseChars_optional (trim_trim _) h
    obtain rfl := Option.some.inj hfound
    have hne : source ≠ [] := by
      rintro rfl
      cases hoperand
    rw [hsource] at hname
    obtain rfl := Option.some.inj hname
    have hhead : ∀ c ∈ source.head?, isBlank c = false := by
      intro c hc
      have htrimmed := head_of_trim (trim_trim text.toList)
      rw [hsource, List.head?_append_of_ne_nil _ hne] at htrimmed
      exact htrimmed c hc
    rw [dropFinal_concat, String.toList_ofList]
    refine ⟨?_, trimStart_of_head hhead, .inr ⟨rfl, ⟨operand, rfl⟩, hsource⟩⟩
    intro hempty
    exact hne (String.ofList_eq_empty_iff.mp hempty)
  · have hshape : (t.shapeOf (trim text.toList)).value.at? path =
        (t.at? path).map fun member => member.shape.value := by
      by_cases hpath : path = []
      · have hother := shapeOf_eq (fun operand heq => hroot ⟨hpath, operand, heq⟩)
          (trim text.toList)
        rw [hother, at?_shape]
      · exact at?_shapeOf _ t hpath
    rw [hshape] at hfound
    obtain ⟨member, hmember, rfl⟩ := Option.map_eq_some_iff.mp hfound
    obtain ⟨hne, hstart, htrim⟩ := hclean hmember hname
    exact ⟨hne, hstart, .inl htrim⟩

/-- The operand of an optional type is a clean name below the root. -/
theorem shapeOfText_names_argument :
    TypeExpr.parseChars (trim " A<(B) =>".toList) =
        .ok (.generic "A" [.optional (.parens (.name "B"))]) ∧
      ∃ shape, (shapeOfText (some " A<(B) =>")).result = .ok shape ∧
        shape.at? [0] = some (.bare "(B)") ∧ trim "(B)".toList = "(B)".toList := by
  have hparse : TypeExpr.parseChars (trim " A<(B) =>".toList) =
      .ok (.generic "A" [.optional (.parens (.name "B"))]) := by
    decide +kernel
  obtain ⟨shape, hshape, hnames⟩ := shapeOfText_names _ _ hparse
  have hargument : shape.at? [0] = some (.bare "(B)") := by
    rw [← Except.ok.inj ((result_shapeOfText_of_parseChars hparse).symm.trans hshape)]
    rfl
  obtain ⟨-, -, htrim | ⟨hroot, -⟩⟩ := hnames [0] _ "(B)" hargument rfl
  · exact ⟨hparse, shape, hshape, hargument, htrim⟩
  · cases hroot

/-- Not every name is trimmed: a blank in front of the mark of an optional type stays. -/
theorem not_shapeOfText_names_trimmed :
    ¬ ∀ text t, TypeExpr.parse text = .ok t →
      ∃ shape, (shapeOfText (some text)).result = .ok shape ∧
        ∀ path found name, shape.at? path = some found → found.name? = some name →
          name ≠ "" ∧ trim name.toList = name.toList := by
  intro h
  have hparse : TypeExpr.parse "A =" = .ok (.optional (.name "A")) := by decide +kernel
  obtain ⟨shape, hshape, hnames⟩ := h _ _ hparse
  have hroot : shape.at? [] = some (.bare "A ") := by
    rw [← Except.ok.inj ((result_shapeOfText_of_parseChars (parseChars_trim hparse)).symm.trans
      hshape)]
    rfl
  have htrim := (hnames [] _ "A " hroot rfl).2
  revert htrim
  decide

end DocComment
