import DocComment.TypeExpr.Parse
import DocComment.Proofs.Grammar.Rows
import DocComment.Proofs.Grammar.Texts
import DocComment.Proofs.Lexing.Blanks

/-!
# Parsing

The parser accepts a text if and only if the grammar derives it, and it answers
with the tree of a derivation that is preferred at every place:

* `parse_eq_ok_iff_derives`: acceptance, soundness and the fault of a text that
  the grammar does not derive.
* `parse_prefers`: at every place of the derivation the first alternative that
  reads the stretch is taken, and a result takes all that stands behind it.
-/

namespace DocComment

open Text Token DocComment.Derivation

/-! ## Parsing tokens -/

/-- A text is read as a tree if its tokens are, to their end. -/
theorem parseChars_eq_ok_iff {cs : List Char} {t : TypeExpr} :
    TypeExpr.parseChars cs = .ok t ↔ (t, []) ∈ (Grammar.readType (tokensOf cs)).ways := by
  have hordered := (Grammar.covers_lookUp_rows (tokensOf cs)).type.ordered
  have hreading : (lexemes cs).map (·.token) = tokensOf cs := rfl
  simp only [TypeExpr.parseChars, hreading]
  cases hfind : (Grammar.readType (tokensOf cs)).ways.find? (·.2.isEmpty) with
  | some way =>
    obtain ⟨value, rest⟩ := way
    have hway := List.mem_of_find?_eq_some hfind
    obtain rfl : rest = [] := by simpa using List.find?_some hfind
    constructor
    · intro h
      exact Except.ok.inj h ▸ hway
    · intro h
      -- ways of one length are one way, so no other tree reaches the end
      exact congrArg Except.ok (hordered.sorted.unique hway h)
  | none =>
    refine iff_of_false nofun fun h => ?_
    have hne := List.find?_eq_none.mp hfind _ h
    simp at hne

/-- A text that is not accepted is named in the fault. -/
theorem expression_of_parseChars {cs : List Char} {fault : SyntaxFault}
    (h : TypeExpr.parseChars cs = .error fault) : fault.expression = String.ofList cs := by
  simp only [TypeExpr.parseChars] at h
  split at h
  · cases h
  · rw [← Except.error.inj h]
    rfl

/-- Parsing finds a preferred derivation over the tokens if there is one. -/
theorem parseChars_cases (cs : List Char) :
    (∃ k, ∃ d : TokenDerivation .type k (tokensOf cs) [], d.Preferred ∧
      TypeExpr.parseChars cs = .ok d.tree) ∨
    ((∀ k, ¬ Nonempty (TokenDerivation .type k (tokensOf cs) [])) ∧
      ∃ fault, TypeExpr.parseChars cs = .error fault ∧ fault.expression = String.ofList cs) := by
  have hcovers : Covers .type (Grammar.readType (tokensOf cs)) (tokensOf cs) :=
    (Grammar.covers_lookUp_rows (tokensOf cs)).type
  cases hparse : TypeExpr.parseChars cs with
  | ok t =>
    rcases hcovers.sound (parseChars_eq_ok_iff.mp hparse) with ⟨k, d, rfl, hd⟩
    exact .inl ⟨k, d, hd, rfl⟩
  | error fault =>
    refine .inr ⟨fun k hderivation => ?_, fault, rfl, expression_of_parseChars hparse⟩
    rcases hcovers.complete ⟨k, hderivation⟩ with ⟨value, hmem⟩
    rw [parseChars_eq_ok_iff.mpr hmem] at hparse
    cases hparse

/-- The tree of a text that is accepted has a preferred derivation. -/
theorem exists_preferred_of_parseChars {cs : List Char} {t : TypeExpr}
    (h : TypeExpr.parseChars cs = .ok t) :
    ∃ k, ∃ d : TokenDerivation .type k (tokensOf cs) [], d.Preferred ∧ d.tree = t := by
  rcases parseChars_cases cs with ⟨k, d, hd, hok⟩ | ⟨-, _, herror, -⟩
  · rw [hok] at h
    exact ⟨k, d, hd, Except.ok.inj h⟩
  · simp [herror] at h

/-- Spacing is not left behind by what reads a trimmed text. -/
theorem eq_nil_of_spacing {cs rest : List Char} (htrim : trim cs = cs) (hrest : rest <:+ cs)
    (h : ∀ c ∈ rest, isSpacing c = true) : rest = [] := by
  by_contra hne
  obtain ⟨front, rfl⟩ := hrest
  have hlast : (front ++ rest).getLast? = some (rest.getLast hne) := by
    rw [List.getLast?_append_of_ne_nil _ hne, List.getLast?_eq_some_getLast hne]
  have hblank := getLast_of_trim htrim _ hlast
  rw [isBlank_of_isSpacing (h _ (List.getLast_mem hne))] at hblank
  cases hblank

/-- The tree of a trimmed text that is accepted has a derivation that takes the
whole text. -/
theorem exists_textDerivation_of_parseChars {cs : List Char} {t : TypeExpr}
    (h : TypeExpr.parseChars cs = .ok t) (htrim : trim cs = cs) :
    ∃ k, ∃ d : TextDerivation .type k cs [], d.tree = t := by
  rcases exists_preferred_of_parseChars h with ⟨k, d, -, rfl⟩
  rcases exists_textDerivation d with ⟨rest, hrest, e, htree, -⟩
  obtain rfl := eq_nil_of_spacing htrim e.suffix (tokensOf_eq_nil_iff.mp hrest)
  exact ⟨k, e, htree⟩

/-! ## Parsing text -/

/-- A derivation of a whole text as a type: nothing but spacing is left behind. -/
structure WholeDerivation (text : String) where
  alternative : Nat
  stop : List Char
  derivation : TextDerivation .type alternative text.toList stop
  spacing : ∀ c ∈ stop, isSpacing c = true

/-- A derivation over all tokens is one of the whole text. -/
theorem exists_wholeDerivation {text : String} {k : Nat}
    (d : TokenDerivation .type k (tokensOf text.toList) []) (hd : d.Preferred) :
    ∃ w : WholeDerivation text, w.derivation.tree = d.tree ∧ w.derivation.Preferred := by
  rcases exists_textDerivation d with ⟨q, hq, e, htree, hpreferred⟩
  exact ⟨⟨k, q, e, tokensOf_eq_nil_iff.mp hq⟩, htree, hpreferred hd⟩

theorem nonempty_tokenDerivation {text : String} (w : WholeDerivation text) :
    ∃ k, Nonempty (TokenDerivation .type k (tokensOf text.toList) []) := by
  rcases exists_tokenDerivation w.derivation with ⟨k, -, h⟩
  rw [tokensOf_eq_nil_iff.mpr w.spacing] at h
  exact ⟨k, h⟩

/-- A text is accepted if and only if the grammar derives it. The tree is that of
a derivation, and the fault of a text that is not accepted names the text. -/
theorem parse_eq_ok_iff_derives (text : String) :
    ((∃ t, TypeExpr.parse text = .ok t) ↔ Nonempty (WholeDerivation text)) ∧
    (∀ t, TypeExpr.parse text = .ok t → ∃ w : WholeDerivation text, w.derivation.tree = t) ∧
    (¬ Nonempty (WholeDerivation text) →
      ∃ fault, TypeExpr.parse text = .error fault ∧ fault.expression = text) := by
  -- the reader finds a derivation over the tokens, which is one over the text
  have hsound : ∀ t, TypeExpr.parse text = .ok t →
      ∃ w : WholeDerivation text, w.derivation.tree = t := by
    intro t h
    rcases exists_preferred_of_parseChars h with ⟨k, d, hd, rfl⟩
    rcases exists_wholeDerivation d hd with ⟨w, hw, -⟩
    exact ⟨w, hw⟩
  refine ⟨⟨?_, ?_⟩, hsound, ?_⟩
  · intro hread
    rcases hread with ⟨t, h⟩
    rcases hsound t h with ⟨w, -⟩
    exact ⟨w⟩
  · intro hread
    rcases hread with ⟨w⟩
    rcases nonempty_tokenDerivation w with ⟨k, hd⟩
    rcases parseChars_cases text.toList with ⟨_, d, -, hok⟩ | ⟨hnone, -⟩
    · exact ⟨d.tree, hok⟩
    · exact absurd hd (hnone k)
  · intro hnone
    rcases parseChars_cases text.toList with ⟨_, d, hd, hok⟩ | ⟨-, fault, herror, htext⟩
    · rcases exists_wholeDerivation d hd with ⟨w, -⟩
      exact absurd ⟨w⟩ hnone
    · exact ⟨fault, herror, by rw [htext, String.ofList_toList]⟩

/-- The tree of a text that is accepted comes from a derivation in which every
nonterminal takes the first alternative that reads its stretch. In front of a
bar or of an operator behind an operand there is then no operand that ends in the
result of a function type: the result takes the bar or the operator. -/
theorem parse_prefers (text : String) (t : TypeExpr) (h : TypeExpr.parse text = .ok t) :
    ∃ w : WholeDerivation text, w.derivation.tree = t ∧
      ∀ o ∈ w.derivation.occurrences,
        o.IsFirst Terminal.ReadsText ∧ o.SparesResults Terminal.ReadsText := by
  rcases exists_preferred_of_parseChars h with ⟨k, d, hd, rfl⟩
  rcases exists_wholeDerivation d hd with ⟨w, htree, hpreferred⟩
  refine ⟨w, htree, fun o ho => ?_⟩
  have hfirst := hpreferred o ho
  exact ⟨hfirst, hfirst.sparesResults⟩

/-- A question mark in front of brackets is a type that is not known, not a mark
of the empty tuple. -/
theorem parse_prefers_question_brackets :
    TypeExpr.parse "?[]" = .ok (.generic "Array" [.unknown]) ∧
      ∃ w : WholeDerivation "?[]", w.derivation.tree = .generic "Array" [.unknown] ∧
        ∀ o ∈ w.derivation.occurrences,
          o.IsFirst Terminal.ReadsText ∧ o.SparesResults Terminal.ReadsText :=
  ⟨rfl, parse_prefers "?[]" (.generic "Array" [.unknown]) rfl⟩

end DocComment
