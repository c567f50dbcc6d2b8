import DocComment.Proofs.Grammar.Appended

/-!
# The last operator

If a text that ends in an equals sign is read as an optional type, the sign is the last
operator behind an operand, and the text in front of the sign is read as that operand
(`mem_readType_of_optional`). A primary is preferred to an operand with operators, so it
matters which primaries there are; but one that ends in front of the sign would be the
operand itself, and none ends behind the sign.
-/

namespace DocComment

open Reading Rule Terminal Token DocComment.Derivation

variable {tokens p q rest : List Token}

namespace Grammar

variable {stops : List Nat} {operand value t : TypeExpr} {build : TypeExpr → TypeExpr}

/-! ## The mark -/

/-- No sign of several tokens goes on with an equals sign. -/
theorem apart_mark : Apart [.equals false] :=
  ⟨nofun, nofun, nofun⟩

/-- Only the mark is an operator in front of which the mark stands. -/
theorem operator?_mark (h : operator? (p ++ [.equals false]) = some (build, [])) :
    p = [] ∧ build = .optional := by
  by_cases hp : p = []
  · subst hp
    exact ⟨rfl, (Prod.mk.inj (Option.some.inj h)).1.symm⟩
  · rw [operator?_append apart_mark hp] at h
    obtain ⟨step, -, heq⟩ := Option.map_eq_some_iff.mp h
    have hrest := (Prod.mk.inj heq).2
    simp at hrest

/-- The way to the end of the tokens, if no primary leads there, is one to the place in
front of the mark and the mark. -/
theorem exists_of_leads_nil (h : Leads stops operand (p ++ [.equals false]) value []) :
    ∃ inner, value = .optional inner ∧ (p = [] ∧ inner = operand ∨
      Leads stops operand (p ++ [.equals false]) inner [.equals false]) := by
  obtain ⟨q, build, inner, hlast, rfl, hinner⟩ := h.exists_last
  have hq : q <:+ p ++ [.equals false] := by
    rcases hinner with ⟨rfl, -⟩ | hleads
    · exact List.suffix_refl _
    · exact hleads.suffix
  rcases List.suffix_concat_iff.mp hq with rfl | ⟨front, rfl, -⟩
  · cases hlast
  · obtain ⟨rfl, rfl⟩ := operator?_mark hlast
    refine ⟨inner, rfl, hinner.imp_left ?_⟩
    rintro ⟨heq, rfl⟩
    exact ⟨(List.append_cancel_right ((List.nil_append _).trans heq)).symm, rfl⟩

/-- No primary is an optional type. -/
theorem tree_ne_optional {k : Nat} (d : TokenDerivation .primary k tokens rest) (t : TypeExpr) :
    d.tree ≠ .optional t := by
  cases d
  all_goals exact nofun

/-- If the mark is read behind an operand, the operand is what is read in front of it. -/
theorem mem_suffixed_of_optional {row : List Token → Row}
    (h : Covers .primary (primary row (p ++ [.equals false])) (p ++ [.equals false]))
    (hmem : (.optional t, []) ∈ (suffixed row (p ++ [.equals false])).ways) :
    (t, [.equals false]) ∈ (suffixed row (p ++ [.equals false])).ways := by
  have hchains : ∀ operand mid,
      (operand, mid) ∈ (primary row (p ++ [.equals false])).ways →
        (suffixes (primary row (p ++ [.equals false])).ends operand mid).Ordered
          (p ++ [.equals false]) := fun operand mid hway =>
    have hordered := ordered_suffixes _ operand mid
    ⟨hordered.sorted, fun hrest => (hordered.suffix hrest).trans (h.ordered.suffix hway)⟩
  have hfollow := ordered_follow hchains
  have hends {rest : List Token} (hrest : rest <:+ p ++ [.equals false]) :=
    h.ordered.mem_ends_iff hrest
  unfold suffixed at hmem ⊢
  rw [mem_orElse h.ordered hfollow] at hmem ⊢
  generalize primary row (p ++ [.equals false]) = primaries at *
  rcases hmem with hway | ⟨hway, hnone⟩
  · obtain ⟨k, d, htree, -⟩ := h.sound hway
    exact absurd htree (tree_ne_optional d t)
  · obtain ⟨front, operand, mid, back, hways, hchain, hfront⟩ := (mem_follow_iff hchains).mp hway
    have hoperand : (operand, mid) ∈ primaries.ways := by
      rw [hways]
      exact List.mem_append_right front List.mem_cons_self
    have hleads := mem_suffixes_iff.mp hchain
    rcases List.suffix_concat_iff.mp (h.ordered.suffix hoperand) with rfl | ⟨mid, rfl, -⟩
    · exact absurd hleads.length_lt (Nat.lt_irrefl _)
    obtain ⟨inner, heq, ⟨rfl, rfl⟩ | hinner⟩ := exists_of_leads_nil hleads
    · -- the operand is a primary
      obtain rfl := TypeExpr.optional.inj heq
      exact .inl hoperand
    · obtain rfl := TypeExpr.optional.inj heq
      have hstop : [Token.equals false].length ∉ primaries.ends := hinner.not_stop
      rw [hends (List.suffix_append _ _)] at hstop
      refine .inr ⟨(mem_follow_iff hchains).mpr ⟨front, operand, _, back, hways,
        mem_suffixes_iff.mpr hinner, ?_⟩, hstop⟩
      -- whatever leads in front of the mark leads behind it
      rintro way hfirst ⟨value, hvalue⟩
      have hzero : ([] : List Token).length ∉ primaries.ends := by
        rwa [hends List.nil_suffix]
      exact hfront way hfirst ⟨.optional value,
        mem_suffixes_iff.mpr ((mem_suffixes_iff.mp hvalue).snoc rfl hzero)⟩

/-! ## Types -/

theorem mem_prefixed_of_suffixed {row : List Token → Row}
    (h : (t, rest) ∈ (suffixed row tokens).ways) : (t, rest) ∈ (prefixed row tokens).ways :=
  mem_merge_of_mem h _

/-- An operand alone is a type. -/
theorem mem_type_of_prefixed {row : List Token → Row}
    (h : (t, rest) ∈ (prefixed row tokens).ways) :
    (t, rest) ∈ (type row (prefixed row) tokens).ways :=
  mem_merge_of_mem h _

/-- An optional type is an operand with the mark behind it. -/
theorem exists_suffixed_of_optional {k : Nat} (d : TokenDerivation .type k tokens rest)
    (h : d.tree = .optional t) : ∃ j, Nonempty (TokenDerivation .suffixed j tokens rest) := by
  cases d with
  | operand d =>
    cases d with
    | unmarked d => exact ⟨_, ⟨d⟩⟩
    | nullable | notNullable | variadic => cases h
  | union | arrow => cases h

/-- If tokens with the mark behind them are read as an optional type, the tokens without
the mark are read as its operand. -/
theorem mem_readType_of_optional
    (h : (.optional t, []) ∈ (readType (tokens ++ [.equals false])).ways) :
    (t, []) ∈ (readType tokens).ways := by
  apply (mem_readType_append apart_mark).mp
  obtain ⟨token, later, hcons⟩ : ∃ token later, tokens ++ [.equals false] = token :: later :=
    List.exists_cons_of_ne_nil (by simp)
  have hbehind : CoversBehind (lookUp (rows later)) (token :: later) :=
    coversBehind_lookUp_rows token fun rest _ => covers_lookUp_rows rest
  have hrow : readType (tokens ++ [.equals false]) =
      type (lookUp (rows later)) (prefixed (lookUp (rows later))) (tokens ++ [.equals false]) := by
    rw [hcons, readType_cons]
  rw [← hcons] at hbehind
  have htype := covers_type hbehind (covers_prefixed hbehind)
  have hsuffixed := covers_suffixed (covers_primary hbehind)
  rw [hrow] at h ⊢
  -- the reading of operands ends where the tokens end, and there it has the same way
  obtain ⟨k, d, htree, -⟩ := htype.sound h
  obtain ⟨value, hvalue⟩ := hsuffixed.complete (exists_suffixed_of_optional d htree)
  have hway := mem_type_of_prefixed (mem_prefixed_of_suffixed hvalue)
  obtain rfl := htype.ordered.sorted.unique hway h
  exact mem_type_of_prefixed (mem_prefixed_of_suffixed
    (mem_suffixed_of_optional (covers_primary hbehind) hvalue))

end Grammar

end DocComment
