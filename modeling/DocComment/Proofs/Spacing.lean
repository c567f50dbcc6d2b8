import DocComment.Proofs.Parsing
import DocComment.Proofs.Writing.Tokens

/-!
# Spacing

It does not matter how much spacing stands between two tokens, or which
(`parse_of_sameButSpacing`). Two texts that have spacing at the same places outside their
string literals, and agree in everything else, have the same tokens
(`SameButSpacing.tokensOf_eq`), and a text is read from its tokens alone
(`parseChars_of_tokensOf_eq`).
-/

namespace DocComment

open Text Token

variable {c : Char} {cs ds word front back front' back' : List Char}

/-! ## Texts that differ in spacing -/

def BeginsLiteral (cs : List Char) : Prop :=
  ∃ literal ∈ stringLanguage, literal <+: cs

/-- One or more characters of spacing. -/
def IsGap (cs : List Char) : Prop :=
  cs ≠ [] ∧ ∀ c ∈ cs, isSpacing c = true

/-- Two texts that differ only in runs of spacing that stand in no string literal, neither of
the one text nor of the other. -/
inductive SameButSpacing : List Char → List Char → Prop
  | nil : SameButSpacing [] []
  | gap {gap gap' cs ds : List Char} (hgap : IsGap gap) (hgap' : IsGap gap')
      (h : SameButSpacing cs ds) :
      SameButSpacing (gap ++ cs) (gap' ++ ds)
  | literal {literal cs ds : List Char} (hliteral : literal ∈ stringLanguage)
      (h : SameButSpacing cs ds) :
      SameButSpacing (literal ++ cs) (literal ++ ds)
  | char {c : Char} {cs ds : List Char} (hc : isSpacing c = false)
      (hcs : ¬ BeginsLiteral (c :: cs)) (hds : ¬ BeginsLiteral (c :: ds))
      (h : SameButSpacing cs ds) :
      SameButSpacing (c :: cs) (c :: ds)

theorem not_beginsLiteral (h : c ≠ '"' ∧ c ≠ '\'') : ¬ BeginsLiteral (c :: cs) := by
  rintro ⟨literal, hliteral, hstarts⟩
  obtain ⟨_, hquote, -⟩ := exists_stringTail hliteral hstarts
  rcases hquote with rfl | rfl
  · exact h.1 rfl
  · exact h.2 rfl

/-- Where no literal begins, a quote is not closed. -/
theorem stringTail_of_not_beginsLiteral (hquote : c = '"' ∨ c = '\'')
    (h : ¬ BeginsLiteral (c :: cs)) : stringTail c cs = none := by
  cases htail : stringTail c cs with
  | none => rfl
  | some tail =>
    have hlongest := longest_string hquote htail
    exact absurd ⟨c :: tail, hlongest.mem, hlongest.starts⟩ h

/-- Whether a character is neither spacing nor a quote. -/
def Token.isSolid (c : Char) : Bool :=
  !isSpacing c && c != '"' && c != '\''

theorem Token.isSolid_iff : isSolid c = true ↔ isSpacing c = false ∧ c ≠ '"' ∧ c ≠ '\'' := by
  simp [isSolid, and_assoc]

theorem Token.isSolid_of_isWordlike (h : isWordlike c = true) : isSolid c = true := by
  refine isSolid_iff.mpr ⟨isSpacing_eq_false h (by decide), ?_, ?_⟩
  · rintro rfl
    revert h
    decide
  · rintro rfl
    revert h
    decide

namespace SameButSpacing

/-- Differing in spacing goes both ways. -/
theorem symm (h : SameButSpacing cs ds) : SameButSpacing ds cs := by
  induction h with
  | nil => exact .nil
  | gap hgap hgap' _ ih => exact .gap hgap' hgap ih
  | literal hliteral _ ih => exact .literal hliteral ih
  | char hc hcs hds _ ih => exact .char hc hds hcs ih

/-- Every text is put together in one of these ways. -/
theorem refl (cs : List Char) : SameButSpacing cs cs := by
  cases cs with
  | nil => exact .nil
  | cons c cs =>
    cases hc : isSpacing c with
    | true =>
      have hgap : IsGap [c] := ⟨List.cons_ne_nil c [], List.forall_mem_singleton.mpr hc⟩
      exact .gap hgap hgap (refl cs)
    | false =>
      -- a literal is taken whole, any other character alone
      by_cases hbegins : BeginsLiteral (c :: cs)
      · obtain ⟨literal, hliteral, rest, hrest⟩ := hbegins
        have hpos := List.length_pos_of_ne_nil
          (Terminal.ne_nil_of_mem_language (t := .string) hliteral)
        have hlt : rest.length < (c :: cs).length := by
          rw [← hrest, List.length_append]
          omega
        rw [← hrest]
        exact .literal hliteral (refl rest)
      · exact .char hc hbegins hbegins (refl cs)
termination_by cs.length
decreasing_by all_goals first | exact hlt | exact Nat.lt_succ_self _

/-! ## Tokens -/

/-- A word without spacing and quotes is there in both texts, and behind it the texts
differ in spacing. -/
theorem drop (h : SameButSpacing cs ds) (hword : ∀ c ∈ word, isSolid c = true)
    (hstarts : word <+: cs) :
    word <+: ds ∧ SameButSpacing (cs.drop word.length) (ds.drop word.length) := by
  induction word generalizing cs ds with
  | nil => exact ⟨List.nil_prefix, h⟩
  | cons c word ih =>
    obtain ⟨hc, hword⟩ := List.forall_mem_cons.mp hword
    obtain ⟨hspacing, hdouble, hsingle⟩ := isSolid_iff.mp hc
    -- neither a gap nor a literal begins with a character of the word
    cases h with
    | nil => simp at hstarts
    | @gap gap _ _ _ hgap =>
      obtain ⟨d, gap, rfl⟩ := List.exists_cons_of_ne_nil hgap.1
      obtain ⟨rfl, -⟩ := List.cons_prefix_cons.mp hstarts
      rw [hgap.2 c List.mem_cons_self] at hspacing
      cases hspacing
    | literal hliteral =>
      obtain ⟨quote, tail, hquote, -, rfl⟩ := mem_stringLanguage.mp hliteral
      obtain ⟨rfl, -⟩ := List.cons_prefix_cons.mp hstarts
      exact absurd hquote (not_or.mpr ⟨hdouble, hsingle⟩)
    | char _ _ _ h =>
      obtain ⟨rfl, hstarts'⟩ := List.cons_prefix_cons.mp hstarts
      obtain ⟨hother, hbehind⟩ := ih h hword hstarts'
      exact ⟨List.cons_prefix_cons.mpr ⟨rfl, hother⟩, hbehind⟩

theorem prefix_iff (h : SameButSpacing cs ds) (hword : ∀ c ∈ word, isSolid c = true) :
    word <+: cs ↔ word <+: ds :=
  ⟨fun hstarts => (h.drop hword hstarts).1, fun hstarts => (h.symm.drop hword hstarts).1⟩

/-- What is read behind a character that opens no literal has neither spacing nor quotes. -/
theorem exists_word_of_read (hquote : c = '"' ∨ c = '\'' → stringTail c cs = none) :
    ∃ word, word <+: cs ∧ (∀ d ∈ word, isSolid d = true) ∧ (read c cs).2 = word.length := by
  have hsolid {word : List Char} (hword : ∀ d ∈ c :: word, isWordlike d = true) :
      ∀ d ∈ word, isSolid d = true := fun d hd =>
    isSolid_of_isWordlike (hword d (List.mem_cons_of_mem c hd))
  -- names and numbers are read behind their first character; marks and strays are single
  rcases read_cases c cs with ⟨hc, hread⟩ | ⟨tail, hc, htail, -⟩ | ⟨mark, -, hread⟩ |
    ⟨tail, hnumeral, hread⟩ | hread
  · have hlongest := longest_name hc cs
    refine ⟨nameTail false cs, nameTail_starts false cs, ?_, by rw [hread]⟩
    exact hsolid (isWordlike_of_mem_name hlongest.mem)
  · rw [hquote hc] at htail
    cases htail
  · exact ⟨[], List.nil_prefix, List.forall_mem_nil _, by rw [hread]; rfl⟩
  · have hlongest := longest_number (hnumeral ▸ List.cons_ne_nil c tail)
    rw [hnumeral] at hlongest
    exact ⟨tail, (List.cons_prefix_cons.mp hlongest.starts).2,
      hsolid (isWordlike_of_mem_number hlongest.mem), by rw [hread]⟩
  · exact ⟨[], List.nil_prefix, List.forall_mem_nil _, by rw [hread]; rfl⟩

/-- Texts that differ only in spacing have the same tokens. -/
theorem tokensOf_eq {cs ds : List Char} (h : SameButSpacing cs ds) :
    tokensOf cs = tokensOf ds := by
  -- a token may take many characters, so the induction is on what is left of the text
  obtain ⟨length, hlength⟩ : ∃ length, cs.length = length := ⟨_, rfl⟩
  induction length using Nat.strongRecOn generalizing cs ds with
  | ind length ih =>
    cases h with
    | nil => rfl
    | @gap gap gap' cs ds hgap hgap' h =>
      have hpos := List.length_pos_of_ne_nil hgap.1
      rw [List.length_append] at hlength
      rw [tokensOf_spacing_append hgap.2, tokensOf_spacing_append hgap'.2]
      exact ih cs.length (by omega) h rfl
    | @literal literal cs ds hliteral h =>
      have hpos := List.length_pos_of_ne_nil
        (Terminal.ne_nil_of_mem_language (t := .string) hliteral)
      rw [List.length_append] at hlength
      have htokens (behind : List Char) : tokensOf (literal ++ behind) =
          .string (String.ofList literal) :: tokensOf behind := by
        have hmem : (String.ofList literal).toList ∈ stringLanguage := by
          rwa [String.toList_ofList]
        have hstring := tokensOf_append_string hmem behind
        rwa [String.toList_ofList] at hstring
      rw [htokens, htokens, ih cs.length (by omega) h rfl]
    | @char c cs ds hc hcs hds h =>
      have hread : read c cs = read c ds := by
        refine read_eq (fun word hword => ?_) (fun _ => ?_) fun hquote => ?_
        · exact h.prefix_iff fun d hd => isSolid_of_isWordlike (hword d hd)
        · exact h.prefix_iff (List.all_eq_true.mp rfl)
        · rw [stringTail_of_not_beginsLiteral hquote hcs,
            stringTail_of_not_beginsLiteral hquote hds]
      obtain ⟨word, hstarts, hword, hskip⟩ :=
        exists_word_of_read fun hquote => stringTail_of_not_beginsLiteral hquote hcs
      have hbehind := (h.drop hword hstarts).2
      have hlt : (cs.drop word.length).length < length := by
        rw [List.length_cons] at hlength
        rw [List.length_drop]
        omega
      rw [tokensOf_cons hc, tokensOf_cons hc, ← hread, hskip, ih _ hlt hbehind rfl]

end SameButSpacing

/-! ## Trimming -/

/-- No terminal reads a character that begins no token. -/
theorem TokenDerivation.stray_notMem {n : Nonterminal} {k : Nat} {p : List Token}
    (d : TokenDerivation n k p []) : stray ∉ p := by
  have hread {t : Terminal} {p q : List Token} {x : String} (h : t.read? p = some (x, q)) :
      stray ∈ p → stray ∈ q := by
    unfold Terminal.read? at h
    split at h <;> grind
  have hall : stray ∈ p → stray ∈ [] :=
    d.rel_of_reads (fun p q => stray ∈ p → stray ∈ q) (fun _ h => h) (fun h h' => h' ∘ h) hread
  exact fun hmem => List.not_mem_nil (hall hmem)

/-- A text that is accepted is read as the same type when it is trimmed. -/
theorem parseChars_trim {t : TypeExpr} (h : TypeExpr.parseChars cs = .ok t) :
    TypeExpr.parseChars (trim cs) = .ok t := by
  obtain ⟨k, d, -, -⟩ := exists_preferred_of_parseChars h
  rw [parseChars_eq_ok_iff] at h ⊢
  rwa [tokensOf_trim d.stray_notMem]

/-! ## Parsing -/

/-- Two texts with the same tokens are both read as the same type, or both rejected. -/
theorem parseChars_of_tokensOf_eq (h : tokensOf cs = tokensOf ds) :
    (∃ t, TypeExpr.parseChars cs = .ok t ∧ TypeExpr.parseChars ds = .ok t) ∨
      ∃ fault fault', TypeExpr.parseChars cs = .error fault ∧
        TypeExpr.parseChars ds = .error fault' := by
  have hok (t : TypeExpr) : TypeExpr.parseChars cs = .ok t ↔ TypeExpr.parseChars ds = .ok t := by
    rw [parseChars_eq_ok_iff, parseChars_eq_ok_iff, h]
  cases hcs : TypeExpr.parseChars cs with
  | ok t => exact .inl ⟨t, rfl, (hok t).mp hcs⟩
  | error fault =>
    cases hds : TypeExpr.parseChars ds with
    | ok t =>
      rw [(hok t).mpr hds] at hcs
      cases hcs
    | error fault' => exact .inr ⟨fault, fault', rfl, rfl⟩

/-- Two texts that differ in spacing outside their string literals, and in spacing at their
ends, are both read as the same type, or both rejected. -/
theorem parse_of_sameButSpacing (hfront : ∀ c ∈ front, isSpacing c = true)
    (hback : ∀ c ∈ back, isSpacing c = true) (hfront' : ∀ c ∈ front', isSpacing c = true)
    (hback' : ∀ c ∈ back', isSpacing c = true) (h : SameButSpacing cs ds) :
    (∃ t, TypeExpr.parse (String.ofList (front ++ (cs ++ back))) = .ok t ∧
      TypeExpr.parse (String.ofList (front' ++ (ds ++ back'))) = .ok t) ∨
    ∃ fault fault', TypeExpr.parse (String.ofList (front ++ (cs ++ back))) = .error fault ∧
      TypeExpr.parse (String.ofList (front' ++ (ds ++ back'))) = .error fault' := by
  simp only [TypeExpr.parse, String.toList_ofList]
  apply parseChars_of_tokensOf_eq
  calc tokensOf (front ++ (cs ++ back)) = tokensOf cs := by
        rw [tokensOf_spacing_append hfront, tokensOf_append_spacing hback]
    _ = tokensOf ds := h.tokensOf_eq
    _ = tokensOf (front' ++ (ds ++ back')) := by
        rw [tokensOf_spacing_append hfront', tokensOf_append_spacing hback']

/-- Spacing differs between the tokens and at the ends, but not inside the literal. -/
theorem parse_of_sameButSpacing_sample :
    (∃ t, TypeExpr.parse "\nA |'x y'" = .ok t ∧ TypeExpr.parse "A\t\r\n|'x y' " = .ok t) ∨
    ∃ fault fault', TypeExpr.parse "\nA |'x y'" = .error fault ∧
      TypeExpr.parse "A\t\r\n|'x y' " = .error fault' := by
  have hspacing {cs : List Char} (h : cs.all isSpacing = true) : ∀ c ∈ cs, isSpacing c = true :=
    List.all_eq_true.mp h
  have hgap : IsGap [' '] ∧ IsGap ['\t', '\r', '\n'] :=
    ⟨⟨List.cons_ne_nil _ _, hspacing rfl⟩, ⟨List.cons_ne_nil _ _, hspacing rfl⟩⟩
  have hbehind := SameButSpacing.refl ['|', '\'', 'x', ' ', 'y', '\'']
  have hunion := hbehind.gap hgap.1 hgap.2 |>.char (c := 'A') rfl
    (not_beginsLiteral (by decide)) (not_beginsLiteral (by decide))
  have hfront : ∀ c ∈ ['\n'], isSpacing c = true := hspacing rfl
  have hback : ∀ c ∈ [' '], isSpacing c = true := hspacing rfl
  have hparse :=
    parse_of_sameButSpacing hfront (List.forall_mem_nil _) (List.forall_mem_nil _) hback hunion
  have htext : ['\n', 'A', ' ', '|', '\'', 'x', ' ', 'y', '\''] = "\nA |'x y'".toList := by decide
  have htext' : ['A', '\t', '\r', '\n', '|', '\'', 'x', ' ', 'y', '\'', ' '] =
      "A\t\r\n|'x y' ".toList := by decide
  simp only [List.cons_append, List.nil_append, htext, htext', String.ofList_toList] at hparse
  exact hparse

end DocComment
