import DocComment.Proofs.Grammar.Covering

/-!
# Operators behind a primary

The operators behind a primary are read one by one. At each place at most one
operator can be read (`operator?`), so the ways to go on behind a primary form a
single chain. The chain is cut where another primary ends, since a primary is
preferred to an operand with operators; what stands behind that place is then
read from that primary.
-/

namespace DocComment

open Reading Rule Terminal DocComment.Derivation

namespace Grammar

/-- The operator at a place: what it makes of its operand, and the tokens behind
it. -/
def operator? : List Token → Option ((TypeExpr → TypeExpr) × List Token)
  | .equals _ :: rest => some (.optional, rest)
  | .leftBracket :: .rightBracket :: rest => some (arrayOf, rest)
  | .question :: rest => some (.nullable, rest)
  | .bang :: rest => some (.notNullable, rest)
  | _ => none

variable {p q r start tokens : List Token} {build : TypeExpr → TypeExpr} {j k : Nat}
  {stops : List Nat}

/-- An operator leads to a later place. -/
theorem suffix_of_operator? (h : operator? p = some (build, q)) : q <:+ p := by
  unfold operator? at h
  split at h <;> grind [List.suffix_cons, List.suffix_cons_iff]

theorem length_operator?_lt (h : operator? p = some (build, q)) : q.length < p.length := by
  unfold operator? at h
  split at h <;> grind

theorem ways_suffixes_of_none (operand : TypeExpr) (h : operator? tokens = .none) :
    (suffixes stops operand tokens).ways = (Reading.none : Reading TypeExpr).ways := by
  rw [suffixes.eq_def]
  split <;> simp_all [operator?, orElse, tried, Reading.none]

/-- Operators behind an operand are one operator and the operators behind it. -/
theorem ways_suffixes_of_some (operand : TypeExpr) (h : operator? tokens = some (build, q)) :
    (suffixes stops operand tokens).ways =
      (grown stops (build operand) q (suffixes stops (build operand) q)).ways := by
  rw [suffixes.eq_def]
  split <;> simp_all [operator?, orElse, tried]

/-! ## Derivations with an operator last -/

/-- The alternative of which a token is the last one. -/
def lastAlternative : Token → Nat
  | .equals _ => 1
  | .rightBracket => 2
  | .question => 3
  | .bang => 4
  | _ => 0

/-- The last token tells which operator was read last. -/
theorem exists_last (d : TokenDerivation .suffixed k p r) (hk : 0 < k) :
    ∃ front token, p = front ++ token :: r ∧ lastAlternative token = k := by
  -- in front of the last token stands the operand, with the opening bracket if there are brackets
  cases d with
  | plain => simp at hk
  | optional d mark =>
    rcases TokenDerivation.suffix d with ⟨front, hfront⟩
    rcases eq_of_read?_equals mark with ⟨b, rfl⟩
    exact ⟨front, .equals b, hfront.symm, rfl⟩
  | array d opening closing =>
    rcases TokenDerivation.suffix d with ⟨front, hfront⟩
    obtain rfl := eq_of_read?_mark rfl opening
    obtain rfl := eq_of_read?_mark rfl closing
    exact ⟨front ++ [.leftBracket], .rightBracket, by simp [← hfront], rfl⟩
  | nullableBehind d mark =>
    rcases TokenDerivation.suffix d with ⟨front, hfront⟩
    obtain rfl := eq_of_read?_mark rfl mark
    exact ⟨front, .question, hfront.symm, rfl⟩
  | notNullableBehind d mark =>
    rcases TokenDerivation.suffix d with ⟨front, hfront⟩
    obtain rfl := eq_of_read?_mark rfl mark
    exact ⟨front, .bang, hfront.symm, rfl⟩

/-- Over one stretch there is only one alternative with an operator. -/
theorem suffixed_alternative_eq (d : TokenDerivation .suffixed j p r)
    (e : TokenDerivation .suffixed k p r) (hj : 0 < j) (hk : 0 < k) : j = k := by
  rcases exists_last d hj with ⟨front, token, rfl, rfl⟩
  rcases exists_last e hk with ⟨front', token', h, rfl⟩
  have hlast : front ++ [token] = front' ++ [token'] := by
    have happend : front ++ [token] ++ r = front' ++ [token'] ++ r := by simpa using h
    exact List.append_cancel_right happend
  rcases List.append_inj' hlast rfl with ⟨-, htoken⟩
  simp_all

/-- An operator behind a preferred operand is preferred if no primary covers
both. -/
theorem exists_of_operator? (d : TokenDerivation .suffixed k p q) (hd : d.Preferred)
    (h : operator? q = some (build, r))
    (hnone : ∀ i, ¬ Nonempty (TokenDerivation .primary i p r)) :
    ∃ i, ∃ e : TokenDerivation .suffixed i p r, e.tree = build d.tree ∧ e.Preferred := by
  have hfirst {i : Nat} (e : TokenDerivation .suffixed i p r) (hi : 0 < i) :
      e.root.IsFirst ReadsTokens := by
    intro _ l hl hread
    rcases hread with ⟨other⟩
    -- the first alternative is a primary, and the others end in another token
    cases l with
    | zero =>
      cases other with
      | plain other => exact hnone _ ⟨other⟩
    | succ l =>
      have := suffixed_alternative_eq other e (by omega) hi
      simp [root] at hl
      omega
  unfold operator? at h
  split at h
  · next b rest =>
    obtain ⟨rfl, rfl⟩ : TypeExpr.optional = build ∧ rest = r := by simpa using h
    have hmark : ReadsTokens .equals (.equals b :: rest) "=" rest := rfl
    exact ⟨_, .optional d hmark, rfl, (preferred_of_child rfl).mpr ⟨hfirst _ (by omega), hd⟩⟩
  · next rest =>
    obtain ⟨rfl, rfl⟩ : arrayOf = build ∧ rest = r := by simpa using h
    have hopening : ReadsTokens .leftBracket (.leftBracket :: .rightBracket :: rest) "[" _ := rfl
    have hclosing : ReadsTokens .rightBracket (.rightBracket :: rest) "]" rest := rfl
    exact ⟨_, .array d hopening hclosing, rfl,
      (preferred_of_child rfl).mpr ⟨hfirst _ (by omega), hd⟩⟩
  · next rest =>
    obtain ⟨rfl, rfl⟩ : TypeExpr.nullable = build ∧ rest = r := by simpa using h
    have hmark : ReadsTokens .question (.question :: rest) "?" rest := rfl
    exact ⟨_, .nullableBehind d hmark, rfl,
      (preferred_of_child rfl).mpr ⟨hfirst _ (by omega), hd⟩⟩
  · next rest =>
    obtain ⟨rfl, rfl⟩ : TypeExpr.notNullable = build ∧ rest = r := by simpa using h
    have hmark : ReadsTokens .bang (.bang :: rest) "!" rest := rfl
    exact ⟨_, .notNullableBehind d hmark, rfl,
      (preferred_of_child rfl).mpr ⟨hfirst _ (by omega), hd⟩⟩
  · simp at h

/-- A derivation is a primary, or an operator is read last. -/
theorem suffixed_cases (d : TokenDerivation .suffixed k p r) :
    (∃ j, Nonempty (TokenDerivation .primary j p r)) ∨
      ∃ j q build, Nonempty (TokenDerivation .suffixed j p q) ∧
        operator? q = some (build, r) := by
  cases d with
  | plain d => exact .inl ⟨_, ⟨d⟩⟩
  | optional d mark =>
    rcases eq_of_read?_equals mark with ⟨b, rfl⟩
    exact .inr ⟨_, _, _, ⟨d⟩, rfl⟩
  | array d opening closing =>
    obtain rfl := eq_of_read?_mark rfl opening
    obtain rfl := eq_of_read?_mark rfl closing
    exact .inr ⟨_, _, _, ⟨d⟩, rfl⟩
  | nullableBehind d mark | notNullableBehind d mark =>
    obtain rfl := eq_of_read?_mark rfl mark
    exact .inr ⟨_, _, _, ⟨d⟩, rfl⟩

/-! ## The chain of operators -/

/-- The places that operators lead to, one behind the other, if the chain is cut
at some places. -/
inductive Reached (stops : List Nat) : List Token → List Token → Prop
  | last {p q : List Token} {build : TypeExpr → TypeExpr} (step : operator? p = some (build, q))
      (hq : q.length ∉ stops) : Reached stops p q
  | next {p q r : List Token} {build : TypeExpr → TypeExpr} (step : operator? p = some (build, q))
      (hq : q.length ∉ stops) (further : Reached stops q r) : Reached stops p r

theorem Reached.snoc (h : Reached stops p q) (step : operator? q = some (build, r))
    (hr : r.length ∉ stops) : Reached stops p r := by
  induction h with
  | last first hq => exact .next first hq (.last step hr)
  | next first hq _ ih => exact .next first hq (ih step)

/-- The ways that put operators behind an operand, given how the operand was
derived and where the primaries at its start end. -/
theorem spec_suffixes {operand : TypeExpr}
    (hstops : ∀ rest, rest.length ∉ stops →
      ∀ i, ¬ Nonempty (TokenDerivation .primary i start rest))
    (hoperand : ∃ k, ∃ d : TokenDerivation .suffixed k start tokens,
      d.tree = operand ∧ d.Preferred) :
    (suffixes stops operand tokens).Spec tokens
      (fun value rest => ∃ k, ∃ d : TokenDerivation .suffixed k start rest,
        d.tree = value ∧ d.Preferred)
      (Reached stops tokens) := by
  obtain ⟨length, hlength⟩ : ∃ length, tokens.length = length := ⟨_, rfl⟩
  -- the tokens get fewer with each operator
  induction length using Nat.strongRecOn generalizing tokens operand with
  | ind length ih =>
    cases hstep : operator? tokens with
    | none =>
      refine Spec.of_ways ?_ (ways_suffixes_of_none operand hstep)
      refine ⟨ordered_none, by simp [Reading.none], ?_⟩
      rintro rest (⟨step, -⟩ | ⟨step, -, -⟩) <;> simp [hstep] at step
    | some step =>
      rcases step with ⟨build, rest⟩
      refine Spec.of_ways ?_ (ways_suffixes_of_some operand hstep)
      have hrest := suffix_of_operator? hstep
      have hlt := length_operator?_lt hstep
      by_cases hcut : rest.length ∈ stops
      · -- the chain ends here
        refine ⟨by simp [grown, hcut, ordered_none], by simp [grown, hcut, Reading.none], ?_⟩
        rintro _ (⟨step, hq⟩ | ⟨step, hq, -⟩) <;>
        · obtain ⟨-, rfl⟩ : build = _ ∧ rest = _ := by simpa [hstep] using step
          exact absurd hcut hq
      · rcases hoperand with ⟨k, d, rfl, hd⟩
        rcases exists_of_operator? d hd hstep (hstops rest hcut) with ⟨i, e, he, hpreferred⟩
        have hfurther := ih rest.length (hlength ▸ hlt) ⟨i, e, he, hpreferred⟩ rfl
        have hspec := (spec_orElse (spec_done (build d.tree) rest) hfurther).of_suffix hrest
        simp only [grown, List.contains_eq_mem, hcut, decide_false, Bool.false_eq_true, if_false]
        refine hspec.mono ?_ ?_
        · intro value later _ hread
          rcases hread with ⟨rfl, rfl⟩ | hvalue
          · exact ⟨i, e, he, hpreferred⟩
          · exact hvalue
        · intro later hread
          rcases hread with ⟨step, -⟩ | ⟨step, -, further⟩
          · obtain ⟨-, rfl⟩ : build = _ ∧ rest = _ := by simpa [hstep] using step
            exact .inl rfl
          · obtain ⟨-, rfl⟩ : build = _ ∧ rest = _ := by simpa [hstep] using step
            exact .inr further

/-- Every derivation ends where a primary ends, or on the chain behind one. -/
theorem primary_or_reached (d : TokenDerivation .suffixed k p r)
    (hstops : ∀ rest, rest.length ∈ stops → rest <:+ p →
      ∃ i, Nonempty (TokenDerivation .primary i p rest)) :
    (∃ i, Nonempty (TokenDerivation .primary i p r)) ∨
      ∃ i q, Nonempty (TokenDerivation .primary i p q) ∧ Reached stops q r := by
  -- the operator that is read last is taken off
  obtain ⟨length, hlength⟩ : ∃ length, p.length - r.length = length := ⟨_, rfl⟩
  induction length using Nat.strongRecOn generalizing k r with
  | ind length ih =>
    rcases suffixed_cases d with h | ⟨j, q, build, ⟨e⟩, step⟩
    · exact .inl h
    · by_cases hr : r.length ∈ stops
      · exact .inl (hstops r hr (TokenDerivation.suffix d))
      · have hq := (TokenDerivation.suffix e).length_le
        have hlt := length_operator?_lt step
        rcases ih _ (by omega) e rfl with ⟨i, hi⟩ | ⟨i, m, hi, hm⟩
        · exact .inr ⟨i, q, hi, .last step hr⟩
        · exact .inr ⟨i, m, hi, hm.snoc step hr⟩

/-- A primary with operators behind it. -/
theorem covers_suffixed {row : List Token → Row} (h : Covers .primary (primary row tokens) tokens) :
    Covers .suffixed (suffixed row tokens) tokens := by
  have hends {rest : List Token} (hrest : rest <:+ tokens) :
      rest.length ∈ (primary row tokens).ends ↔
        ∃ i, Nonempty (TokenDerivation .primary i tokens rest) := by
    rw [h.ordered.mem_ends_iff hrest]
    refine ⟨?_, fun hread => h.complete hread⟩
    rintro ⟨value, hway⟩
    rcases h.sound hway with ⟨i, d, -, -⟩
    exact ⟨i, ⟨d⟩⟩
  -- the chain is cut at the ends of the primaries, so nothing on it is a primary
  have hstops (rest : List Token) (hrest : rest.length ∉ (primary row tokens).ends) (i : Nat) :
      ¬ Nonempty (TokenDerivation .primary i tokens rest) := by
    intro hread
    rcases hread with ⟨d⟩
    exact hrest ((hends (TokenDerivation.suffix d)).mpr ⟨i, ⟨d⟩⟩)
  have hplain : (primary row tokens).Spec tokens
      (fun value rest => ∃ k, ∃ d : TokenDerivation .suffixed k tokens rest,
        d.tree = value ∧ d.Preferred)
      (fun rest => ∃ k, Nonempty (TokenDerivation .primary k tokens rest)) := by
    refine h.mono ?_ fun _ h => h
    intro value rest _ hread
    rcases hread with ⟨k, d, rfl, hd⟩
    exact ⟨0, .plain d, rfl, (preferred_of_child rfl).mpr ⟨isFirst_zero _, hd⟩⟩
  have hchain := spec_andThen hplain fun _ _ _ hvalue => spec_suffixes hstops hvalue
  have hspec : (suffixed row tokens).Spec tokens _ _ :=
    Spec.of_ways (spec_orElse hplain hchain) rfl
  refine hspec.mono ?_ ?_
  · rintro value rest - (hvalue | ⟨_, _, -, -, hvalue⟩) <;> exact hvalue
  · intro rest hread
    rcases hread with ⟨k, ⟨d⟩⟩
    rcases primary_or_reached d fun rest hmem hrest => (hends hrest).mp hmem with
      hd | ⟨i, mid, hd, hmid⟩
    · exact .inl hd
    · exact .inr ⟨mid, ⟨i, hd⟩, fun _ _ => hmid⟩

/-! ## Operators behind an operand -/

/-- What operators behind an operand make of it, and the place that they lead to, if the
chain is cut at some places. -/
inductive Leads (stops : List Nat) : TypeExpr → List Token → TypeExpr → List Token → Prop
  | step {operand tokens build rest} (h : operator? tokens = some (build, rest))
      (hrest : rest.length ∉ stops) : Leads stops operand tokens (build operand) rest
  | next {operand tokens build q value rest} (h : operator? tokens = some (build, q))
      (hq : q.length ∉ stops) (further : Leads stops (build operand) q value rest) :
      Leads stops operand tokens value rest

variable {operand value : TypeExpr} {rest : List Token}

namespace Leads

theorem suffix (h : Leads stops operand tokens value rest) : rest <:+ tokens := by
  induction h with
  | step h _ => exact suffix_of_operator? h
  | next h _ _ ih => exact ih.trans (suffix_of_operator? h)

theorem length_lt (h : Leads stops operand tokens value rest) : rest.length < tokens.length := by
  induction h with
  | step h _ => exact length_operator?_lt h
  | next h _ _ ih => exact Nat.lt_trans ih (length_operator?_lt h)

theorem not_stop (h : Leads stops operand tokens value rest) : rest.length ∉ stops := by
  induction h with
  | step _ hrest => exact hrest
  | next _ _ _ ih => exact ih

/-- One more operator at the end, unless the chain is cut there. -/
theorem snoc (h : Leads stops operand tokens value q) (hstep : operator? q = some (build, rest))
    (hrest : rest.length ∉ stops) : Leads stops operand tokens (build value) rest := by
  induction h with
  | step h hq => exact .next h hq (.step hstep hrest)
  | next h hq _ ih => exact .next h hq (ih hstep)

/-- The operator that is read last. -/
theorem exists_last (h : Leads stops operand tokens value rest) :
    ∃ q build inner, operator? q = some (build, rest) ∧ value = build inner ∧
      (q = tokens ∧ inner = operand ∨ Leads stops operand tokens inner q) := by
  induction h with
  | step h _ => exact ⟨_, _, _, h, rfl, .inl ⟨rfl, rfl⟩⟩
  | next h hq _ ih =>
    obtain ⟨q', build', inner, hlast, rfl, ⟨rfl, rfl⟩ | hleads⟩ := ih
    · exact ⟨_, _, _, hlast, rfl, .inr (.step h hq)⟩
    · exact ⟨_, _, _, hlast, rfl, .inr (.next h hq hleads)⟩

end Leads

/-- Every way of a chain is made of operators up to its end. -/
theorem leads_of_mem_suffixes {operand : TypeExpr} {tokens : List Token}
    (h : (value, rest) ∈ (suffixes stops operand tokens).ways) :
    Leads stops operand tokens value rest := by
  cases hstep : operator? tokens with
  | none =>
    rw [ways_suffixes_of_none operand hstep] at h
    cases h
  | some step =>
    obtain ⟨build, q⟩ := step
    rw [ways_suffixes_of_some operand hstep] at h
    simp only [grown, List.contains_eq_mem] at h
    by_cases hq : q.length ∈ stops
    · simp [hq, Reading.none] at h
    · simp only [hq, decide_false, Bool.false_eq_true, if_false] at h
      -- the way ends behind the first operator, or goes on from there
      rcases mem_of_mem_merge h with hway | hway
      · obtain ⟨rfl, rfl⟩ := Prod.mk.inj (List.mem_singleton.mp hway)
        exact .step hstep hq
      · have hlt := length_operator?_lt hstep
        exact .next hstep hq (leads_of_mem_suffixes hway)
termination_by tokens.length

/-- The ways to put operators behind an operand are what they lead to. -/
theorem mem_suffixes_iff :
    (value, rest) ∈ (suffixes stops operand tokens).ways ↔
      Leads stops operand tokens value rest := by
  refine ⟨leads_of_mem_suffixes, fun h => ?_⟩
  -- what further operators lead to is longer than what the first one leads to
  have hways {operand : TypeExpr} {tokens q : List Token} {build : TypeExpr → TypeExpr}
      (hstep : operator? tokens = some (build, q)) (hq : q.length ∉ stops) :
      (suffixes stops operand tokens).ways =
        (suffixes stops (build operand) q).ways ++ [(build operand, q)] := by
    rw [ways_suffixes_of_some operand hstep]
    simp only [grown, List.contains_eq_mem, hq, decide_false, Bool.false_eq_true, if_false]
    exact merge_singleton fun way hway => (leads_of_mem_suffixes hway).length_lt
  induction h with
  | step h hrest => simp [hways h hrest]
  | next h hq _ ih => simp [hways h hq, ih]

/-- The ways of a chain are in order: each operator leads to a later place. -/
theorem ordered_suffixes (stops : List Nat) (operand : TypeExpr) (tokens : List Token) :
    (suffixes stops operand tokens).Ordered tokens := by
  refine ⟨?_, fun h => (leads_of_mem_suffixes h).suffix⟩
  cases hstep : operator? tokens with
  | none =>
    rw [ways_suffixes_of_none operand hstep]
    exact .nil
  | some step =>
    obtain ⟨build, q⟩ := step
    have hlt := length_operator?_lt hstep
    rw [ways_suffixes_of_some operand hstep]
    unfold grown
    split
    · exact .nil
    · have hfurther := ordered_suffixes stops (build operand) q
      exact sorted_merge (List.pairwise_singleton _ _) hfurther.sorted
termination_by tokens.length

end Grammar

end DocComment
