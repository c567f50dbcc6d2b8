import DocComment.Proofs.Lexing.Lexemes

/-!
# Characters of terminals

What a text of a terminal is made of. Names and numbers hold characters of their
own, a mark is its own character, and only a string literal can hold any other
(`Terminal.notMem_of_mem_language`). A string literal ends in a quote
(`Terminal.getLast_of_mem_string`), so no terminal but an equals sign ends in one
(`Terminal.getLast_eq_equals_iff`).
-/

namespace DocComment

open Text Token

variable {c : Char} {text : List Char} {t : Terminal}

/-! ## Names -/

/-- Whether a character can stand in a name. -/
def isNameChar (c : Char) : Bool :=
  isNamePart true c || isNameJoint c

theorem isNameChar_of_isNamePart {later : Bool} (h : isNamePart later c = true) :
    isNameChar c = true := by
  unfold isNamePart at h
  unfold isNameChar isNamePart
  grind

theorem isNameChar_of_isNameStart (h : isNameStart c = true) : isNameChar c = true :=
  isNameChar_of_isNamePart (isNamePart_of_isNameStart h true)

/-- Segments are made of the characters of names. -/
theorem isNameChar_of_mem_segments {later : Bool} (h : text ∈ segments later) :
    ∀ c ∈ text, isNameChar c = true := by
  -- on the length, since behind a joint the rest begins two characters further
  induction hlength : text.length using Nat.strong_induction_on generalizing text later with
  | _ n ih =>
    subst hlength
    rcases mem_segments.mp h with
      rfl | ⟨c, rest, hc, hrest, rfl⟩ | ⟨c, d, rest, hc, hd, hrest, rfl⟩
    · exact List.forall_mem_nil _
    · have hbehind := ih rest.length (by simp) hrest rfl
      exact List.forall_mem_cons.mpr ⟨isNameChar_of_isNamePart hc, hbehind⟩
    · have hlength : rest.length < (c :: d :: rest).length := by
        rw [List.length_cons, List.length_cons]
        omega
      have hbehind := ih rest.length hlength hrest rfl
      have hjoint : isNameChar c = true := by simp [isNameChar, hc]
      exact List.forall_mem_cons.mpr
        ⟨hjoint, List.forall_mem_cons.mpr ⟨isNameChar_of_isNameStart hd, hbehind⟩⟩

theorem isNameChar_of_mem_name (h : text ∈ nameLanguage) : ∀ c ∈ text, isNameChar c = true := by
  rcases mem_oneOf_mul.mp h with ⟨c, rest, hc, hrest, rfl⟩
  exact List.forall_mem_cons.mpr ⟨isNameChar_of_isNameStart hc, isNameChar_of_mem_segments hrest⟩

/-! ## String literals -/

/-- The rest of a string literal ends in the closing quote. -/
theorem getLast_of_mem_quotation {quote : Char} (h : text ∈ quotation quote) :
    text.getLast? = some quote := by
  induction hlength : text.length using Nat.strong_induction_on generalizing text with
  | _ n ih =>
    subst hlength
    rcases mem_quotation.mp h with rfl | ⟨c, rest, -, -, hrest, rfl⟩ | ⟨c, rest, -, hrest, rfl⟩
    · rfl
    · simp [List.getLast?_cons, ih rest.length (by simp) hrest rfl]
    · have hlength : rest.length < ('\\' :: c :: rest).length := by
        rw [List.length_cons, List.length_cons]
        omega
      simp [List.getLast?_cons, ih rest.length hlength hrest rfl]

/-! ## Terminals -/

namespace Terminal

theorem getLast_of_mem_string (h : text ∈ stringLanguage) :
    text.getLast? = some '"' ∨ text.getLast? = some '\'' := by
  rcases mem_stringLanguage.mp h with ⟨quote, tail, hquote, htail, rfl⟩
  rw [List.getLast?_cons, getLast_of_mem_quotation htail, Option.getD_some]
  rcases hquote with rfl | rfl
  · exact .inl rfl
  · exact .inr rfl

/-- No terminal is empty. -/
theorem ne_nil_of_mem_language (h : text ∈ t.language) : text ≠ [] := by
  rintro rfl
  cases t with
  | name =>
    rcases mem_oneOf_mul.mp h with ⟨c, rest, -, -, heq⟩
    cases heq
  | number => exact nil_notMem_number h
  | string =>
    rcases mem_stringLanguage.mp h with ⟨quote, tail, -, -, heq⟩
    cases heq
  | _ => cases h

/-- A character that is not of a name or a number stands only in string literals
and in the marks that are made of it. -/
theorem notMem_of_mem_language (h : text ∈ t.language) (hname : isNameChar c = false)
    (hnumber : isNumberChar c = false) (hstring : t ≠ .string)
    (harrow : t = .arrow → c ∉ ['=', '>'])
    (hsign : t.sign? ≠ some c) : c ∉ text := by
  intro hmem
  -- the words and the dots are written out, so their characters can be looked at
  have hword : ∀ word, word.all isNameChar = true → text = word → False := by
    intro word hall heq
    subst heq
    have hc := List.all_eq_true.mp hall c hmem
    simp [hname] at hc
  cases t with
  | name =>
    have hc := isNameChar_of_mem_name h c hmem
    simp [hname] at hc
  | number =>
    have hc := isNumberChar_of_mem h c hmem
    simp [hnumber] at hc
  | string => exact hstring rfl
  | function => exact hword "function".toList (by decide) h
  | typeOf => exact hword "typeof".toList (by decide) h
  | ellipsis => exact hword "...".toList (by decide) h
  | arrow =>
    obtain rfl : text = ['=', '>'] := h
    exact harrow rfl hmem
  -- all others are the mark of one character
  | _ =>
    refine hsign ?_
    rw [language_of_sign? rfl] at h
    obtain rfl : text = [_] := h
    rw [List.mem_singleton.mp hmem]
    rfl

/-- Only an equals sign ends in one: the sign in an arrow stands in front, and a
string literal ends in a quote. -/
theorem getLast_eq_equals_iff (h : text ∈ t.language) :
    text.getLast? = some '=' ↔ t = .equals := by
  constructor
  · intro hlast
    -- a mark of one character would have to be the equals sign itself
    by_contra hequals
    by_cases hstring : t = .string
    · subst hstring
      rcases getLast_of_mem_string h with hquote | hquote
      · simp [hquote] at hlast
      · simp [hquote] at hlast
    · by_cases harrow : t = .arrow
      · subst harrow
        obtain rfl : text = ['=', '>'] := h
        cases hlast
      · have hsign : t.sign? ≠ some '=' := by
          intro hsign
          cases t <;> first | exact hequals rfl | cases hsign
        exact notMem_of_mem_language h (by decide) (by decide) hstring (absurd · harrow) hsign
          (List.mem_of_getLast? hlast)
  · intro hequals
    subst hequals
    obtain rfl : text = ['='] := h
    rfl

end Terminal

end DocComment
