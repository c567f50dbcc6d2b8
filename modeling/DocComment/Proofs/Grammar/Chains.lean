import DocComment.Proofs.Grammar.Operands
import DocComment.Proofs.Grammar.Suffixes

/-!
# Chains of operators

The operators that lead from one place to another are determined by the two
places, and so is what they make of an operand (`Chain.unique`). An operand with
operators behind it is a primary and a chain (`exists_chain`).
-/

namespace DocComment

open Terminal Token DocComment.Derivation

namespace Grammar

/-- Operators that lead from one place to another, and what they make of their
operand. -/
inductive Chain : List Token → (TypeExpr → TypeExpr) → List Token → Prop
  | nil {p : List Token} : Chain p id p
  | cons {p q r : List Token} {build further : TypeExpr → TypeExpr}
      (step : operator? p = some (build, q)) (h : Chain q further r) :
      Chain p (further ∘ build) r

variable {n : Nonterminal} {k : Nat} {p q r : List Token} {f g build : TypeExpr → TypeExpr}
  {base : Int}

namespace Chain

/-- One more operator at the end of a chain applies last. -/
theorem snoc (h : Chain p f q) (step : operator? q = some (build, r)) :
    Chain p (build ∘ f) r := by
  induction h with
  | nil =>
    have hlast := cons step nil
    exact hlast
  | cons first _ ih =>
    have hchain := cons first (ih step)
    exact hchain

/-- Chains are put one behind the other. -/
theorem trans (h : Chain p f q) (h' : Chain q g r) : Chain p (g ∘ f) r := by
  induction h with
  | nil => exact h'
  | cons first _ ih =>
    have hchain := cons first (ih h')
    exact hchain

theorem suffix (h : Chain p f q) : q <:+ p := by
  induction h with
  | nil => exact List.suffix_refl _
  | cons step _ ih => exact ih.trans (suffix_of_operator? step)

/-- Two chains between the same places make the same of an operand. -/
theorem unique (h : Chain p f q) (h' : Chain p g q) : f = g := by
  induction h generalizing g with
  | nil =>
    cases h' with
    | nil => rfl
    | cons step further =>
      -- a chain with an operator does not lead back to its start
      have hlt := length_operator?_lt step
      have hle := further.suffix.length_le
      omega
  | cons step further ih =>
    cases h' with
    | nil =>
      have hlt := length_operator?_lt step
      have hle := further.suffix.length_le
      omega
    | cons step' further' =>
      -- the first operator is the same, since the place has only one
      rcases Prod.mk.inj (Option.some.inj (step.symm.trans step')) with ⟨rfl, rfl⟩
      rw [ih further']

/-- No chain leads on from a place without an operator. -/
theorem eq_of_none (h : Chain p f q) (hstep : operator? p = none) : p = q := by
  cases h with
  | nil => rfl
  | cons step => exact absurd (hstep.symm.trans step) (Option.some_ne_none _).symm

/-- A chain that can not go on is the longest one. -/
theorem length_le_of_none (h : Chain p f q) (hstep : operator? q = none) (h' : Chain p g r) :
    q.length ≤ r.length := by
  induction h generalizing g with
  | nil =>
    obtain rfl := h'.eq_of_none hstep
    exact Nat.le_refl _
  | cons step further ih =>
    cases h' with
    | nil => exact (further.suffix.trans (suffix_of_operator? step)).length_le
    | cons step' further' =>
      rcases Prod.mk.inj (Option.some.inj (step.symm.trans step')) with ⟨rfl, rfl⟩
      exact ih hstep further'

end Chain

/-- No operator leads to a lower level. -/
theorem level_le_of_operator? (h : operator? p = some (build, q)) : level p ≤ level q := by
  unfold operator? at h
  split at h
  · rcases Prod.mk.inj (Option.some.inj h) with ⟨-, rfl⟩
    exact level_le_of_equals rfl
  · rcases Prod.mk.inj (Option.some.inj h) with ⟨-, rfl⟩
    simp [level_cons, Token.rise]
  · rcases Prod.mk.inj (Option.some.inj h) with ⟨-, rfl⟩
    simp [level_cons, Token.rise]
  · rcases Prod.mk.inj (Option.some.inj h) with ⟨-, rfl⟩
    simp [level_cons, Token.rise]
  · exact absurd h (Option.some_ne_none _).symm

/-- A chain does not lower the level. -/
theorem Chain.level_le (h : Chain p f q) : level p ≤ level q := by
  induction h with
  | nil => exact Int.le_refl _
  | cons step _ ih => exact Int.le_trans (level_le_of_operator? step) ih

/-! ## Operands with operators -/

/-- An operand with operators is a primary and a chain behind it. -/
theorem exists_chain : {k : Nat} → {r : List Token} → (d : TokenDerivation .suffixed k p r) →
    ∃ i q f, ∃ e : TokenDerivation .primary i p q,
      Chain q f r ∧ d.tree = f e.tree ∧ (d.Preferred → e.Preferred)
  -- a primary has the empty chain; each further operator is the last one of its chain
  | _, _, .plain e => ⟨_, _, id, e, .nil, rfl, fun h => ((preferred_of_child rfl).mp h).2⟩
  | _, _, .optional d mark => by
    rcases exists_chain d with ⟨i, q, f, e, hchain, htree, hpreferred⟩
    rcases eq_of_read?_equals mark with ⟨b, rfl⟩
    exact ⟨i, q, _, e, hchain.snoc rfl, congrArg TypeExpr.optional htree,
      fun h => hpreferred ((preferred_of_child rfl).mp h).2⟩
  | _, _, .array d opening closing => by
    rcases exists_chain d with ⟨i, q, f, e, hchain, htree, hpreferred⟩
    obtain rfl := eq_of_read?_mark rfl opening
    obtain rfl := eq_of_read?_mark rfl closing
    exact ⟨i, q, _, e, hchain.snoc rfl, congrArg arrayOf htree,
      fun h => hpreferred ((preferred_of_child rfl).mp h).2⟩
  | _, _, .nullableBehind d mark => by
    rcases exists_chain d with ⟨i, q, f, e, hchain, htree, hpreferred⟩
    obtain rfl := eq_of_read?_mark rfl mark
    exact ⟨i, q, _, e, hchain.snoc rfl, congrArg TypeExpr.nullable htree,
      fun h => hpreferred ((preferred_of_child rfl).mp h).2⟩
  | _, _, .notNullableBehind d mark => by
    rcases exists_chain d with ⟨i, q, f, e, hchain, htree, hpreferred⟩
    obtain rfl := eq_of_read?_mark rfl mark
    exact ⟨i, q, _, e, hchain.snoc rfl, congrArg TypeExpr.notNullable htree,
      fun h => hpreferred ((preferred_of_child rfl).mp h).2⟩

/-- An operand can be read on over a chain. -/
theorem exists_of_chain (h : Chain q f r) (d : TokenDerivation .suffixed k p q) :
    ∃ j, Nonempty (TokenDerivation .suffixed j p r) := by
  induction h generalizing k with
  | nil => exact ⟨k, ⟨d⟩⟩
  | cons step _ ih =>
    -- the four operators, in the order of the grammar
    unfold operator? at step
    split at step
    · rcases Prod.mk.inj (Option.some.inj step) with ⟨-, rfl⟩
      exact ih (.optional d rfl)
    · rcases Prod.mk.inj (Option.some.inj step) with ⟨-, rfl⟩
      exact ih (.array d rfl rfl)
    · rcases Prod.mk.inj (Option.some.inj step) with ⟨-, rfl⟩
      exact ih (.nullableBehind d rfl)
    · rcases Prod.mk.inj (Option.some.inj step) with ⟨-, rfl⟩
      exact ih (.notNullableBehind d rfl)
    · exact absurd step (Option.some_ne_none _).symm

end Grammar

end DocComment
