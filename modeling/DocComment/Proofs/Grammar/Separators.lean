import DocComment.Proofs.Grammar.Operands

/-!
# Separators

Two derivations that start at one place and end in front of a comma, a bar or
behind a closing sign end at the same place, as long as all of it is on the level
on which they start: the longer one would have to pass the separator of the
shorter one.
-/

namespace DocComment

open Terminal Token

variable {n m : Nonterminal} {i j k : Nat} {p q q' r c c' : List Token} {base : Int}

/-- A token in front of a place stands in front of all that follows. -/
theorem cons_ne_of_suffix {token : Token} (h : r <:+ q) : token :: q ≠ r := by
  intro heq
  have hlength := h.length_le
  rw [← heq, List.length_cons] at hlength
  omega

/-- Of two places behind the same start one is reached first. -/
theorem eq_of_not_passed (hq : q <:+ p) (hq' : q' <:+ p) (h : q <:+ q' → q ≠ q' → False)
    (h' : q' <:+ q → q' ≠ q → False) : q = q' := by
  by_cases heq : q = q'
  · exact heq
  · rcases List.suffix_or_suffix_of_suffix hq hq' with hs | hs
    · exact (h hs heq).elim
    · exact (h' hs fun hne => heq hne.symm).elim

namespace TokenDerivation

/-- A separator is on the level of what it separates. -/
theorem level_separator {token : Token} (htoken : token = .comma ∨ token = .bar)
    (first : TokenDerivation n k p (token :: q)) (others : TokenDerivation m j q r)
    (hlevel : level p = level r) : level (token :: q) = level r := by
  have hfirst := level_le first
  have hothers := level_le others
  have hcons : level (token :: q) = level q - 0 := by
    rcases htoken with rfl | rfl <;> exact level_cons (.inl (by simp))
  omega

/-! ## Commas -/

/-- Only a list passes a comma on its level. -/
theorem not_passes_comma (d : TokenDerivation n i p r) (hn : ¬ n.Allows .comma)
    (first : TokenDerivation n k p (.comma :: q)) (others : TokenDerivation m j q r)
    (hlevel : level p = level r) : False := by
  have hcomma := level_separator (.inl rfl) first others hlevel
  have honlevel := along d hlevel rfl (.comma :: q)
    ((suffix others).trans (List.suffix_cons _ _)) (suffix first)
    (cons_ne_of_suffix (suffix others))
  exact hn (honlevel.head hcomma .comma rfl)

/-- However a list is read, its first item ends at the same comma. -/
theorem comma_eq {l : Nat} (first : TokenDerivation n k p (.comma :: q))
    (others : TokenDerivation m j q r) (first' : TokenDerivation n i p (.comma :: q'))
    (others' : TokenDerivation m l q' r) (hn : ¬ n.Allows .comma) (hlevel : level p = level r) :
    q = q' := by
  have hcomma := level_separator (.inl rfl) first others hlevel
  have hcomma' := level_separator (.inl rfl) first' others' hlevel
  have heq : Token.comma :: q = .comma :: q' := by
    refine eq_of_not_passed (suffix first) (suffix first') ?_ ?_
    · -- the longer item would have the comma of the shorter one on its level
      intro hs hne
      have honlevel := along first hlevel hcomma (.comma :: q') hs (suffix first') hne.symm
      exact hn (honlevel.head hcomma' .comma rfl)
    · intro hs hne
      have honlevel := along first' hlevel hcomma' (.comma :: q) hs (suffix first) hne.symm
      exact hn (honlevel.head hcomma .comma rfl)
  exact List.tail_eq_of_cons_eq heq

/-! ## Bars -/

/-- An operand does not pass a bar in front of which all is calm. -/
theorem not_passes_calm (d : TokenDerivation .prefixed k p r) (hcalm : Calm base p (.bar :: q))
    (hp : level p = base) (hr : level r = base) (hq : level (.bar :: q) = base)
    (hstart : .bar :: q <:+ p) (hstop : r <:+ .bar :: q) (hne : .bar :: q ≠ r) : False := by
  rcases calm_or_colon d rfl hp hr with h | ⟨c, -, hcp, hc, hfirst⟩
  · exact ((h (.bar :: q) hstop hstart hne).head hq .bar rfl).2 rfl
  · -- the first colon would have to be the bar
    have heq : Token.colon :: c = .bar :: q := by
      refine eq_of_not_passed hcp hstart ?_ ?_
      · intro hs hne
        exact ((hfirst (.bar :: q) hs hstart hne.symm).head hq .bar rfl).2 rfl
      · intro hs hne
        exact ((hcalm (.colon :: c) hs hcp hne.symm).head hc .colon rfl).1 rfl
    exact Token.noConfusion (List.head_eq_of_cons_eq heq)

/-- An operand does not pass a bar on its level if all in front of it is calm. -/
theorem not_passes_bar (d : TokenDerivation .prefixed i p r)
    (first : TokenDerivation .prefixed k p (.bar :: q)) (others : TokenDerivation m j q r)
    (hcalm : Calm (level r) p (.bar :: q)) (hlevel : level p = level r) : False :=
  not_passes_calm d hcalm hlevel rfl (level_separator (.inr rfl) first others hlevel) (suffix first)
    ((suffix others).trans (List.suffix_cons _ _)) (cons_ne_of_suffix (suffix others))

/-- However a union is read, its operand ends at the first bar. -/
theorem bar_eq {l : Nat} (first : TokenDerivation .prefixed k p (.bar :: q))
    (others : TokenDerivation m j q r) (first' : TokenDerivation .prefixed i p (.bar :: q'))
    (others' : TokenDerivation m l q' r) (hcalm : Calm (level r) p (.bar :: q'))
    (hlevel : level p = level r) : q = q' := by
  have hbar := level_separator (.inr rfl) first others hlevel
  have hbar' := level_separator (.inr rfl) first' others' hlevel
  have heq : Token.bar :: q = .bar :: q' := by
    refine eq_of_not_passed (suffix first) (suffix first') ?_ ?_
    · intro hs hne
      exact not_passes_calm first hcalm hlevel hbar hbar' (suffix first') hs hne.symm
    · intro hs hne
      exact ((hcalm (.bar :: q) hs (suffix first) hne.symm).head hbar .bar rfl).2 rfl
  exact List.tail_eq_of_cons_eq heq

/-! ## Closing signs -/

/-- What stands between parentheses is one level above them. -/
theorem level_closing (d : TokenDerivation n k p (.rightParen :: q)) (hp : level p = base + 1)
    (hq : level q ≤ base) : level q = base := by
  have hle := level_le d
  have hclosing : level (.rightParen :: q) = level q - -1 := level_cons (.inl (by simp))
  omega

/-- What stands between parentheses, and the parentheses themselves. -/
theorem along_parens (d : TokenDerivation n k p (.rightParen :: q)) (hp : level p = base + 1)
    (hq : level q ≤ base) :
    Along (fun m => m = .leftParen :: p ∨ base < level m) (.leftParen :: p) q := by
  have hlevel := level_closing d hp hq
  have hopening : leftParen.ReadsTokens (.leftParen :: p) "(" p := rfl
  have hclosing : rightParen.ReadsTokens (.rightParen :: q) ")" q := rfl
  have hstart : level (.leftParen :: p) = level p - 1 := level_cons (.inl (by simp))
  exact along_enclosed hopening rfl d hclosing rfl (by omega) hlevel

/-- The parenthesis of an opening one is the first that leads back to its level. -/
theorem parens_eq (d : TokenDerivation n k p (.rightParen :: q))
    (e : TokenDerivation m j p (.rightParen :: q')) (hp : level p = base + 1)
    (hq : level q ≤ base) (hq' : level q' ≤ base) : q = q' := by
  have hbehind {s : List Token} (hs : .rightParen :: s <:+ p) :
      s <:+ .leftParen :: p ∧ s ≠ .leftParen :: p := by
    have hsuffix : s <:+ p := (List.suffix_cons _ _).trans hs
    exact ⟨hsuffix.trans (List.suffix_cons _ _), (cons_ne_of_suffix hsuffix).symm⟩
  rcases hbehind (suffix d) with ⟨hd, hdne⟩
  rcases hbehind (suffix e) with ⟨he, hene⟩
  -- the longer list would have the end of the shorter one above the level
  refine eq_of_not_passed hd he ?_ ?_
  · intro hs hne
    rcases along_parens d hp hq q' hs he hne.symm with heq | hlt
    · exact hene heq
    · omega
  · intro hs hne
    rcases along_parens e hp hq' q hs hd hne.symm with heq | hlt
    · exact hdne heq
    · omega

/-- A primary inside a calm stretch does not end in a result. -/
theorem endsInResult_of_calm (d : TokenDerivation .primary k p q) (h : Calm base p r)
    (hr : r <:+ q) (hp : level p = base) (hq : level q = base) :
    d.tree.endsInResult = false := by
  refine Bool.eq_false_iff.mpr fun hresult => ?_
  -- the colon of the result would stand inside the calm stretch
  rcases compact_colon d hp hq hresult with ⟨c, hqc, hcp, hc, -⟩
  have hrc := hr.trans hqc
  have honlevel := h (.colon :: c) (hrc.trans (List.suffix_cons _ _)) hcp (cons_ne_of_suffix hrc)
  exact (honlevel.head hc .colon rfl).1 rfl

end TokenDerivation

end DocComment
