import DocComment.TypeExpr.Notation
import DocComment.Proofs.Grammar.Contexts
import DocComment.Proofs.Grammar.Yields
import DocComment.Proofs.Spacing

/-!
# Parts of a type expression

A text without an arrow that is read as a type is read as the same type where it stands as a
part of a longer text, in front of a comma, a bar or a bracket (`ReadsAs.yields`): its tokens
stay the same there, up to what a last equals sign knows about the bracket behind it. And so a
list of such texts yields the list of their types (`yields_items`).
-/

namespace DocComment

open Text Token TokenDerivation

variable {cs back ds : List Char} {t : TypeExpr}

/-! ## Arrows -/

namespace Token

/-- An equals sign that touches a `>` stands in an arrow of the text. -/
theorem arrow_of_equals_mem {cs : List Char} (h : .equals true ∈ tokensOf cs) :
    ['=', '>'] <:+: cs := by
  cases cs with
  | nil => cases h
  | cons c cs =>
    cases hspacing : isSpacing c with
    | true =>
      rw [tokensOf_cons_spacing hspacing] at h
      exact (arrow_of_equals_mem h).trans (List.suffix_cons c cs).isInfix
    | false =>
      rw [tokensOf_cons hspacing] at h
      rcases List.mem_cons.mp h with hread | hmem
      · -- no other sign has the mark
        have hequals : Terminal.equals.read? [.equals true] ≠ none := by simp [Terminal.read?]
        obtain ⟨rfl, hmark⟩ := Terminal.mark?_of_read_sign rfl hread.symm hequals
        have hgreater : ['>'].isPrefixOf cs = true := by simpa [mark?] using hmark
        have hstarts := List.isPrefixOf_iff_prefix.mp hgreater
        exact (List.cons_prefix_cons.mpr ⟨rfl, hstarts⟩).isInfix
      · exact (arrow_of_equals_mem hmem).trans
          ((List.drop_suffix _ _).trans (List.suffix_cons c cs)).isInfix
termination_by cs.length

end Token

/-! ## Parts -/

/-- A text without an arrow that is read as a type. -/
structure ReadsAs (cs : List Char) (t : TypeExpr) : Prop where
  parse_eq : TypeExpr.parseChars cs = .ok t
  no_arrow : ¬ ['=', '>'] <:+: cs

/-- What can stand behind a part: nothing that goes on a word, and no `>` with a type behind it,
since an equals sign at the end of the part must not become an arrow. -/
structure EndsPart (back : List Char) : Prop where
  head : ∀ c ∈ back.head?, isWordlike c = false
  greater : back.head? = some '>' → typeAhead (tokensOf back.tail) = false

theorem EndsPart.of_head {c : Char} (hc : isWordlike c = false) (hgreater : c ≠ '>') :
    EndsPart (c :: back) where
  head := by
    rintro _ ⟨⟩
    exact hc
  greater h := absurd (Option.some.inj h) hgreater

namespace ReadsAs

theorem stray_notMem (h : ReadsAs cs t) : stray ∉ tokensOf cs := by
  obtain ⟨_, d, -⟩ := exists_preferred_of_parseChars h.parse_eq
  exact d.stray_notMem

/-- The tokens of a part in front of what ends it. -/
theorem aligned (h : ReadsAs cs t) (hback : EndsPart back) :
    ∃ touches, Aligned [] (tokensOf back) false touches (tokensOf cs) (tokensOf (cs ++ back)) ∧
      level (.equals touches :: tokensOf back) = level (tokensOf back) := by
  have harrow : .equals true ∉ tokensOf cs := fun hmem => h.no_arrow (arrow_of_equals_mem hmem)
  -- a final equals sign and the greater sign behind it would be an arrow, were they read together
  by_cases htouch : back.head? = some '>' ∧ cs.getLast? = some '='
  · obtain ⟨hgreater, hequals⟩ := htouch
    obtain ⟨ds, rfl⟩ : ∃ ds, back = '>' :: ds := by
      cases back with
      | nil => cases hgreater
      | cons c ds => exact ⟨ds, by rw [Option.some.inj hgreater]⟩
    obtain ⟨front, rfl⟩ := List.getLast?_eq_some_iff.mp hequals
    have hstray := h.stray_notMem
    rw [tokensOf_concat, List.mem_append] at harrow hstray
    have hsign : ∀ c ∈ ('=' :: '>' :: ds).head?, isWordlike c = false := by
      rintro _ ⟨⟩
      decide
    have hbehind : tokensOf (front ++ '=' :: '>' :: ds) =
        tokensOf front ++ .equals true :: tokensOf ('>' :: ds) := by
      rw [tokensOf_append hsign nofun (.inl fun hmem => hstray (.inl hmem)), tokensOf_mark rfl]
      rfl
    -- no type follows, so the sign closes a bracket and the levels agree
    have hahead : typeAhead (tokensOf ds) = false := hback.greater rfl
    refine ⟨true, ?_, ?_⟩
    · rw [tokensOf_concat, List.append_assoc, List.singleton_append, hbehind]
      exact Aligned.last.append fun hmem => harrow (.inl hmem)
    · rw [tokensOf_mark rfl, level, level_cons (.inl (by simp)), hahead]
      rfl
  · have hlast : back.head? = some '>' → cs.getLast? ≠ some '=' :=
      fun hgreater hequals => htouch ⟨hgreater, hequals⟩
    refine ⟨false, ?_, ?_⟩
    · have hends : Aligned [] (tokensOf back) false false [] (tokensOf back) := .rest
      have haligned := hends.append harrow
      rwa [List.append_nil, ← tokensOf_append hback.head hlast (.inl h.stray_notMem)] at haligned
    · rw [level_cons (.inl (by simp))]
      exact Int.sub_zero _

theorem arrow_notMem (h : ReadsAs cs t) : .equals true ∉ tokensOf cs :=
  fun hmem => h.no_arrow (arrow_of_equals_mem hmem)

/-- A part by itself yields its type. -/
theorem yields (h : ReadsAs cs t) : Yields .type (tokensOf cs) [] t := by
  obtain ⟨k, d, hd, htree⟩ := exists_preferred_of_parseChars h.parse_eq
  exact ⟨(level_eq d h.arrow_notMem).symm, k, d, hd, htree⟩

/-- What a part yields by itself it yields in front of what ends it. -/
theorem yields_append {n : Nonterminal} {value : n.Value} (h : ReadsAs cs t)
    (hback : EndsPart back) (hvalue : Yields n (tokensOf cs) [] value) :
    Yields n (tokensOf (cs ++ back)) (tokensOf back) value := by
  obtain ⟨k, d, hd, rfl⟩ := hvalue.derivation
  obtain ⟨touches, haligned, hlast⟩ := h.aligned hback
  obtain ⟨e, htree, he⟩ := haligned.exists_preferred d hd
  have hlevel := haligned.level_sub rfl hlast
  have hstart := hvalue.level_eq
  exact ⟨by omega, k, e, he, htree⟩

end ReadsAs

/-! ## Lists of parts -/

/-- Parts with commas between them yield the list of their types. -/
theorem yields_items {es : List (List Char)} {ts : List TypeExpr} (h : List.Forall₂ ReadsAs es ts)
    (hne : es ≠ []) (hback : EndsPart back) :
    Yields .types (tokensOf (joinWith [',', ' '] es ++ back)) (tokensOf back) ts := by
  induction h with
  | nil => exact absurd rfl hne
  | @cons e t es ts he hes ih =>
    -- the last part stands in front of what ends the list, the others in front of a comma
    cases hes with
    | nil => exact (he.yields_append hback he.yields).oneType
    | @cons e' t' es ts he' hes =>
      have hmore := ih (List.cons_ne_nil _ _)
      have hcomma : EndsPart (',' :: ' ' :: (joinWith [',', ' '] (e' :: es) ++ back)) :=
        .of_head (by decide) (by decide)
      have hfirst := he.yields_append hcomma he.yields
      rw [tokensOf_mark rfl, tokensOf_cons_spacing rfl] at hfirst
      have hsplit : joinWith [',', ' '] (e :: e' :: es) ++ back =
          e ++ ',' :: ' ' :: (joinWith [',', ' '] (e' :: es) ++ back) := by
        simp [joinWith]
      rw [hsplit]
      exact hfirst.moreTypes hmore

/-! ## Whole texts -/

/-- A text whose tokens yield a type is read as the type. -/
theorem Yields.parseChars_eq (h : Yields .type (tokensOf cs) [] t) :
    TypeExpr.parseChars cs = .ok t := by
  rcases parseChars_cases cs with ⟨k, d, hd, hparse⟩ | ⟨hnone, -⟩
  · rw [hparse, h.unique ⟨h.level_eq, k, d, hd, rfl⟩]
  · obtain ⟨k, d, -⟩ := h.derivation
    exact absurd ⟨d⟩ (hnone k)

end DocComment
