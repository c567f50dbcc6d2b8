import DocComment.Proofs.Grammar.Primaries
import DocComment.Proofs.Grammar.Separators
import DocComment.Proofs.Writing.Marks
import DocComment.Proofs.Writing.Readable

/-!
# Reading a written operand

What a preferred derivation makes of the marks of a written operand. The equals
signs behind a primary apply to it, since no longer primary can be read there
(`tree_of_optionals`). The signs in front are read as `readSigns` says
(`tree_of_signs`).
-/

namespace DocComment

open Token TypeExpr Mark Grammar TokenDerivation DocComment.Derivation

variable {marks behind : List Mark} {t u : TypeExpr} {n k : Nat} {p q r : List Token}

/-! ## Tokens of marks -/

/-- An operand with marks has its signs in front and its equals signs behind. -/
theorem tokens_wrap (marks : List Mark) (t : TypeExpr) (r : List Token) :
    (wrap marks t).tokens r =
      marks.filterMap sign? ++ t.tokens (equalsSigns (marks.count .optional) r) := by
  induction marks generalizing r with
  | nil => rfl
  | cons mark marks ih =>
    cases mark with
    | optional =>
      have hinner := ih (equalsBefore r)
      rw [equalsSigns_equalsBefore] at hinner
      rw [List.filterMap_cons_none rfl, List.count_cons_self]
      exact hinner
    | nullable => exact congrArg (List.cons Token.question) (ih r)
    | notNullable => exact congrArg (List.cons Token.bang) (ih r)

/-- Signs behind an operand apply from left to right. -/
theorem chain_signs (marks : List Mark) (p : List Token) :
    Chain (marks.filterMap sign? ++ p) (wrap (signs marks).reverse) p := by
  induction marks with
  | nil => exact Chain.nil
  | cons mark marks ih =>
    -- the sign that is written first applies first, so it is the innermost
    have hreverse (sign : Mark) : wrap (sign :: signs marks).reverse =
        wrap (signs marks).reverse ∘ sign.apply := by
      funext t
      rw [List.reverse_cons, wrap_concat]
      rfl
    cases mark with
    | optional => exact ih
    | nullable =>
      have hchain : Chain (.question :: (marks.filterMap sign? ++ p))
          (wrap (signs marks).reverse ∘ Mark.nullable.apply) p := Chain.cons rfl ih
      rw [← hreverse .nullable] at hchain
      exact hchain
    | notNullable =>
      have hchain : Chain (.bang :: (marks.filterMap sign? ++ p))
          (wrap (signs marks).reverse ∘ Mark.notNullable.apply) p := Chain.cons rfl ih
      rw [← hreverse .notNullable] at hchain
      exact hchain

/-- Equals signs behind an operand make it optional, each once more. -/
theorem chain_equalsSigns (n : Nat) (r : List Token) :
    Chain (equalsSigns n r) (wrap (List.replicate n .optional)) r := by
  induction n generalizing r with
  | zero => exact Chain.nil
  | succ n ih =>
    have hchain : Chain _ (TypeExpr.optional ∘ _) r := (ih (equalsBefore r)).snoc rfl
    rw [equalsSigns_equalsBefore] at hchain
    have hsucc : wrap (List.replicate (n + 1) .optional) =
        TypeExpr.optional ∘ wrap (List.replicate n .optional) := rfl
    rw [hsucc]
    exact hchain

/-! ## Equals signs behind a primary -/

/-- What leads into brackets is no operator. -/
theorem operator?_of_leadsIn (h : ∀ token, p.head? = some token → token.leadsIn = true) :
    operator? p = none := by
  unfold operator?
  split
  all_goals
    first
    | rfl
    | exact absurd (h _ rfl) Bool.false_ne_true

/-- The equals signs behind a compact primary apply to it. -/
theorem tree_of_optionals (hcompact : Compact (level r) p (equalsSigns n r))
    (hsuffix : equalsSigns n r <:+ p) (hne : equalsSigns n r ≠ p) (hp : level p = level r)
    (hr : delimit r = true) (d : TokenDerivation .suffixed k p r) :
    ∃ i, ∃ e : TokenDerivation .primary i p (equalsSigns n r),
      d.tree = wrap (List.replicate n .optional) e.tree ∧ (d.Preferred → e.Preferred) := by
  rcases exists_chain d with ⟨i, q, f, e, hchain, htree, hpreferred⟩
  have hlevel := level_equalsSigns n hr
  have hq : level q = level r := by
    have hchain := hchain.level_le
    have he := level_le e
    omega
  have hahead : Token.typeAhead p = true := by simpa using typeAhead e
  have hcalm : Calm (level r) p r :=
    (hcompact.calm hp hahead).trans (calm_equalsSigns hr rfl) hsuffix
  have heq : q = equalsSigns n r := by
    refine eq_of_not_passed (suffix e) hsuffix ?_ ?_
    · -- the primary that was read would have an equals sign on its level
      intro hs hdiff
      have hresult := endsInResult_of_calm e hcalm hchain.suffix hp hq
      rcases compact e hp hq hresult (equalsSigns n r) hs hsuffix hdiff.symm with heq | honlevel
      · exact hne heq
      · cases n with
        | zero =>
          have hlength := hchain.suffix.length_le
          exact hdiff (hs.eq_of_length_le hlength)
        | succ n => exact absurd (honlevel.head hlevel _ rfl) Bool.false_ne_true
    · -- no operator stands inside the primary that was written
      intro hs hdiff
      rcases hcompact q hs (suffix e) hdiff.symm with heq | honlevel
      · exact (start_ne e (by simp) (by simp) heq.symm).elim
      · have hnone := operator?_of_leadsIn (honlevel.head hq)
        obtain rfl := hchain.eq_of_none hnone
        exact hdiff (hs.eq_of_length_le (suffix_equalsSigns n q).length_le)
  subst heq
  obtain rfl := hchain.unique (chain_equalsSigns n r)
  exact ⟨i, e, htree, hpreferred⟩

/-! ## Signs in front of an operand -/

/-- How the signs in front of an operand are read, given how the operand is read
without them. An operand that is an operator is the last of the operators behind
a question mark. -/
theorem tree_of_signs (hlength : r.length < p.length)
    (hoperator : (u.asOperator? = none ∧ operator? p = none) ∨
      ∃ operator, u.asOperator? = some operator ∧ Chain p (wrap behind ∘ operator) r)
    (hbase : ∀ {k} (d : TokenDerivation .prefixed k p r), d.Preferred → d.tree = wrap behind u)
    (d : TokenDerivation .prefixed k (marks.filterMap sign? ++ p) r) (hd : d.Preferred) :
    d.tree = readSigns behind u marks := by
  induction marks generalizing k with
  | nil => exact hbase d hd
  | cons mark marks ih =>
    cases mark with
    | optional => exact ih d hd
    | notNullable =>
      rcases exists_notNullable (p := marks.filterMap sign? ++ p) d with ⟨j, e, htree, hpreferred⟩
      exact htree.trans (congrArg TypeExpr.notNullable (ih e (hpreferred hd)))
    | nullable =>
      rcases hoperator with ⟨hnone, hstep⟩ | ⟨operator, hsome, hchain⟩
      · -- what is no operator cannot stand behind a question mark that is the operand
        have hnot : ∀ j, ¬ Nonempty
            (TokenDerivation .suffixed j (.question :: (marks.filterMap sign? ++ p)) r) := by
          intro j hcase
          rcases hcase with ⟨c⟩
          rcases exists_chain c with ⟨_, q, f, e, hchain, -⟩
          rcases tree_question e with ⟨rfl, -⟩
          have hle := (chain_signs marks p).length_le_of_none hstep hchain
          omega
        rcases exists_nullable d hnot with ⟨j, e, htree, hpreferred⟩
        rw [readSigns, hnone]
        exact htree.trans (congrArg TypeExpr.nullable (ih e (hpreferred hd)))
      · -- behind the question mark all is operators, so it is the operand
        have hall := (chain_signs marks p).trans hchain
        have hquestion : TokenDerivation .suffixed 0 (.question :: (marks.filterMap sign? ++ p))
          (marks.filterMap sign? ++ p) := .plain (.unknown rfl)
        rcases exists_unmarked d hd (exists_of_chain hall hquestion) with ⟨j, c, htree, -⟩
        rcases exists_chain c with ⟨_, q, f, e, hread, htree', -⟩
        rcases tree_question e with ⟨rfl, he⟩
        obtain rfl := hread.unique hall
        have hvalue := congrArg ((wrap behind ∘ operator) ∘ wrap (signs marks).reverse) he
        rw [readSigns, hsome]
        exact (htree.trans htree').trans hvalue

end DocComment
