import DocComment.Proofs.Writing.Operands

/-!
# A written tree is read in one way

Whatever preferred derivation is found over the tokens of a tree, it builds what
`reread` says (`Formed.determined`). For a list or a union the separators have to
be found again, which the levels of the brackets tell; an earlier alternative
over the same tokens would make the derivation not preferred.
-/

namespace DocComment

open Token TypeExpr Mark Grammar TokenDerivation DocComment.Derivation

namespace TypeExpr

/-- Every preferred derivation over the tokens of a tree builds what is read from
the text of the tree. -/
def Determined : Nonterminal → TypeExpr → Prop
  | .type, t => ∀ r, delimit r = true → ∀ k (d : TokenDerivation .type k (t.tokens r) r),
    d.Preferred → d.tree = t.reread
  | n, t => ∀ marks, n.Takes marks → ∀ r, delimit r = true →
    ∀ k (d : TokenDerivation .prefixed k ((wrap marks t).tokens r) r),
      d.Preferred → d.tree = rereadUnder marks t

variable {ts : List TypeExpr} {fs : List Field} {f : Field} {t : TypeExpr} {k : Nat}
  {p r : List Token}

/-! ## Lists of types -/

/-- Types with commas between them are read one by one. -/
theorem tree_types (hread : ∀ t ∈ ts, Readable .type t) (h : ∀ t ∈ ts, Determined .type t)
    (hne : ts ≠ []) (hr : delimit r = true) (d : TokenDerivation .types k (tokensOfAll ts r) r)
    (hd : d.Preferred) : d.tree = rereadAll ts := by
  have hcomma : ¬ Nonterminal.type.Allows .comma := fun h => h rfl
  induction ts generalizing k with
  | nil => exact absurd rfl hne
  | cons t ts ih =>
    have ht := h t List.mem_cons_self
    have hlevel := level_tokensOfAll (t :: ts) r hr
    rcases ts with _ | ⟨u, us⟩
    · rcases hread t List.mem_cons_self r hr with ⟨i, ⟨e⟩⟩
      cases d with
      | oneType c =>
        have hc := ht r hr _ c ((preferred_of_child rfl).mp hd).2
        exact congrArg (fun t => [t]) hc
      | moreTypes first comma others =>
        obtain rfl := Terminal.eq_of_read?_mark rfl comma
        exact (not_passes_comma e hcomma first others hlevel).elim
    · have hmore : ∀ v ∈ u :: us, Readable .type v :=
        fun v hv => hread v (List.mem_cons_of_mem t hv)
      rcases hread t List.mem_cons_self (.comma :: tokensOfAll (u :: us) r) rfl with ⟨i, ⟨e⟩⟩
      rcases spans_types (List.cons_ne_nil u us) hmore hr with ⟨j, ⟨e'⟩⟩
      -- the comma that was written is the first on the level, however the list is read
      cases d with
      | oneType c => exact (not_passes_comma c hcomma e e' hlevel).elim
      | moreTypes first comma others =>
        obtain rfl := Terminal.eq_of_read?_mark rfl comma
        obtain rfl := comma_eq first others e e' hcomma hlevel
        rcases (preferred_of_children rfl).mp hd with ⟨-, hfirst, hothers⟩
        have hc := ht _ rfl _ first hfirst
        have hc' := ih hmore (fun v hv => h v (List.mem_cons_of_mem t hv)) (List.cons_ne_nil u us)
          others hothers
        exact congrArg₂ List.cons hc hc'

/-- A list of types that may be left out is read as the types. -/
theorem tree_maybeTypes (hread : ∀ t ∈ ts, Readable .type t)
    (h : ∀ t ∈ ts, Determined .type t) (hr : delimit r = true) (hp : tokensOfAll ts r = p)
    (d : TokenDerivation .maybeTypes k p r) (hd : d.Preferred) : d.tree = rereadAll ts := by
  by_cases hne : ts = []
  · subst hne
    cases d with
    | noTypes => rfl
    | someTypes e =>
      exact absurd hp.symm (start_ne e (by simp) (by simp))
  · cases d with
    | noTypes =>
      rcases spans_types hne hread hr with ⟨i, ⟨e⟩⟩
      exact absurd hp (start_ne e (by simp) (by simp))
    | someTypes e =>
      subst hp
      exact tree_types hread h hne hr e ((preferred_of_child rfl).mp hd).2

/-! ## Lists of fields -/

/-- A field is read as it is written. -/
theorem tree_field (h : ∀ t, f.type? = some t → Determined .type t) (hr : delimit r = true)
    (d : TokenDerivation .field k (tokensOfField f r) r) (hd : d.Preferred) :
    d.tree = rereadField f := by
  cases f with
  | bare label =>
    cases d with
    | bareField word =>
      have heq : Token.name label :: r = .name _ :: r := Terminal.eq_of_read?_name word
      exact congrArg Field.bare (Token.name.inj (List.cons.inj heq).1).symm
    | typedField word colon e =>
      rcases List.cons.inj (Terminal.eq_of_read?_name word) with ⟨-, rfl⟩
      obtain rfl := Terminal.eq_of_read?_mark rfl colon
      -- a colon behind the name would be what follows the field
      exact absurd hr Bool.false_ne_true
  | typed label type =>
    cases d with
    | bareField word =>
      have heq : .colon :: type.tokens r = r := (List.cons.inj (Terminal.eq_of_read?_name word)).2
      exact absurd heq.symm (ne_of_delimit hr rfl)
    | typedField word colon e =>
      rcases List.cons.inj (Terminal.eq_of_read?_name word) with ⟨hlabel, rfl⟩
      rcases List.cons.inj (Terminal.eq_of_read?_mark rfl colon) with ⟨-, rfl⟩
      have he := h type rfl r hr _ e ((preferred_of_child rfl).mp hd).2
      exact congrArg₂ Field.typed (Token.name.inj hlabel).symm he

/-- Fields with commas between them are read one by one. -/
theorem tree_fields (hread : ∀ f ∈ fs, ∀ t, f.type? = some t → Readable .type t)
    (h : ∀ f ∈ fs, ∀ t, f.type? = some t → Determined .type t) (hne : fs ≠ [])
    (hr : delimit r = true) (d : TokenDerivation .fields k (tokensOfFields fs r) r)
    (hd : d.Preferred) : d.tree = rereadFields fs := by
  have hcomma : ¬ Nonterminal.field.Allows .comma := fun h => h rfl
  induction fs generalizing k with
  | nil => exact absurd rfl hne
  | cons f fs ih =>
    have hf := h f List.mem_cons_self
    have hlevel := level_tokensOfFields (f :: fs) r hr
    rcases fs with _ | ⟨g, gs⟩
    · rcases spans_field (hread f List.mem_cons_self) hr with ⟨i, ⟨e⟩⟩
      cases d with
      | oneField c =>
        have hc := tree_field hf hr c ((preferred_of_child rfl).mp hd).2
        exact congrArg (fun f => [f]) hc
      | moreFields first comma others =>
        obtain rfl := Terminal.eq_of_read?_mark rfl comma
        -- a further comma would stand on the level of the only field
        exact (not_passes_comma e hcomma first others hlevel).elim
    · have hmore : ∀ v ∈ g :: gs, ∀ t, v.type? = some t → Readable .type t :=
        fun v hv => hread v (List.mem_cons_of_mem f hv)
      obtain ⟨i, ⟨e⟩⟩ := spans_field (r := .comma :: tokensOfFields (g :: gs) r)
        (hread f List.mem_cons_self) rfl
      rcases spans_fields (List.cons_ne_nil g gs) hmore hr with ⟨j, ⟨e'⟩⟩
      cases d with
      | oneField c => exact (not_passes_comma c hcomma e e' hlevel).elim
      | moreFields first comma others =>
        obtain rfl := Terminal.eq_of_read?_mark rfl comma
        -- both readings cut the list at its first comma
        obtain rfl := comma_eq first others e e' hcomma hlevel
        rcases (preferred_of_children rfl).mp hd with ⟨-, hfirst, hothers⟩
        have hc := tree_field hf rfl first hfirst
        have hc' := ih hmore (fun v hv => h v (List.mem_cons_of_mem f hv)) (List.cons_ne_nil g gs)
          others hothers
        exact congrArg₂ List.cons hc hc'

/-- A list of fields that may be left out is read as the fields. -/
theorem tree_maybeFields (hread : ∀ f ∈ fs, ∀ t, f.type? = some t → Readable .type t)
    (h : ∀ f ∈ fs, ∀ t, f.type? = some t → Determined .type t) (hr : delimit r = true)
    (hp : tokensOfFields fs r = p) (d : TokenDerivation .maybeFields k p r) (hd : d.Preferred) :
    d.tree = rereadFields fs := by
  by_cases hne : fs = []
  · subst hne
    cases d with
    | noFields => rfl
    | someFields e =>
      exact absurd hp.symm (start_ne e (by simp) (by simp))
  · cases d with
    | noFields =>
      rcases spans_fields hne hread hr with ⟨i, ⟨e⟩⟩
      exact absurd hp (start_ne e (by simp) (by simp))
    | someFields e =>
      subst hp
      exact tree_fields hread h hne hr e ((preferred_of_child rfl).mp hd).2

/-! ## Primaries -/

theorem typeAhead_tokensOfAll (t : TypeExpr) (ts : List TypeExpr) (r : List Token) :
    typeAhead (tokensOfAll (t :: ts) r) = true := by
  cases ts with
  | nil => exact typeAhead_tokens t r
  | cons u us => exact typeAhead_tokens t _

/-- Brackets with a type in them are no operator. -/
theorem operator?_leftBracket (h : typeAhead p = true) : operator? (.leftBracket :: p) = none := by
  unfold operator?
  split
  · simp at *
  · rcases List.cons.inj ‹_› with ⟨-, rfl⟩
    exact absurd h Bool.false_ne_true
  · simp at *
  · simp at *
  · rfl

/-- The tokens of a primary are an operator just if what is read from them is
one. -/
theorem operator?_tokens (h : Formed True .primary t) :
    (t.reread.asOperator? = none ∧ ∀ r, operator? (t.tokens r) = none) ∨
      ∃ operator, t.reread.asOperator? = some operator ∧
        ∀ r, operator? (t.tokens r) = some (operator, r) := by
  cases h with
  | name | string | number | any | typeOf | parens | record | generic | function =>
    exact .inl ⟨rfl, fun _ => rfl⟩
  | unknown => exact .inr ⟨_, rfl, fun _ => rfl⟩
  | @tuple entries =>
    rcases entries with _ | ⟨u, us⟩
    · exact .inr ⟨_, rfl, fun _ => rfl⟩
    · exact .inl ⟨rfl, fun r => operator?_leftBracket (typeAhead_tokensOfAll u us _)⟩

/-- Marks around a primary are regrouped after the primary has been read again. -/
theorem rereadUnder_primary (h : Formed True .primary t) (marks : List Mark) :
    rereadUnder marks t = regroup marks t.reread := by
  cases h <;> rfl

section

variable (h : Formed True .primary t)
  (htree : ∀ r, delimit r = true → ∀ k (e : TokenDerivation .primary k (t.tokens r) r),
    e.Preferred → e.tree = t.reread)

include h htree

/-- A primary with equals signs behind it. -/
theorem tree_of_primary (n : Nat) (hr : delimit r = true)
    (d : TokenDerivation .prefixed k (t.tokens (equalsSigns n r)) r) (hd : d.Preferred) :
    d.tree = wrap (List.replicate n .optional) t.reread := by
  have hbehind := delimit_equalsSigns n hr
  have hlevel := level_equalsSigns n hr
  rcases h.readable _ hbehind with ⟨⟨j, ⟨e⟩⟩, hcompact⟩
  rw [hlevel] at hcompact
  have hne : equalsSigns n r ≠ t.tokens (equalsSigns n r) :=
    (start_ne e (by simp) (by simp)).symm
  -- it can be read without a sign in front, so it is read in that way
  have hspans := exists_of_chain (chain_equalsSigns n r) (.plain e)
  rcases exists_unmarked d hd hspans with ⟨_, c, hc, hpreferred⟩
  obtain ⟨_, e', he', hpreferred'⟩ := tree_of_optionals hcompact (suffix e) hne
    ((level_tokens t _ hbehind).trans hlevel) hr c
  have hprimary := htree _ hbehind _ e' (hpreferred' hpreferred)
  exact hc.trans (he'.trans (congrArg _ hprimary))

/-- A primary is determined with all its marks if it is determined alone. -/
theorem determined_primary : Determined .primary t := by
  intro marks _ r hr
  rw [tokens_wrap, rereadUnder_primary h, regroup]
  intro k d hd
  rcases h.readable _ (delimit_equalsSigns (marks.count .optional) hr) with ⟨⟨j, ⟨e⟩⟩, -⟩
  have hshort := length_lt e (by simp) (by simp)
  have hlength := (suffix_equalsSigns (marks.count .optional) r).length_le
  refine tree_of_signs (Nat.lt_of_le_of_lt hlength hshort) ?_ ?_ d hd
  · rcases operator?_tokens h with ⟨hnone, hstep⟩ | ⟨operator, hsome, hstep⟩
    · exact .inl ⟨hnone, hstep _⟩
    · have hchain := Chain.cons (hstep _) (chain_equalsSigns (marks.count .optional) r)
      exact .inr ⟨operator, hsome, hchain⟩
  · exact fun c hc => tree_of_primary h htree _ hr c hc

end

/-! ## Operands with signs in front only -/

/-- An operand that takes no equals signs behind it is determined with the signs
in front of it if it is determined alone. -/
theorem determined_operand (hreread : ∀ marks, rereadUnder marks t = regroup marks t.reread)
    (hnone : t.reread.asOperator? = none) (hstep : ∀ r, operator? (t.tokens r) = none)
    (hread : Readable .prefixed t)
    (htree : ∀ r, delimit r = true → ∀ k (d : TokenDerivation .prefixed k (t.tokens r) r),
      d.Preferred → d.tree = t.reread) : Determined .prefixed t := by
  intro marks htakes r hr
  have hcount : marks.count .optional = 0 := List.count_eq_zero.mpr htakes
  rw [tokens_wrap, hreread, regroup, optionals, hcount]
  intro k d hd
  rcases hread r hr with ⟨⟨j, ⟨e⟩⟩, -⟩
  have hlength := length_lt e (by simp) (by simp)
  have hbase {i : Nat} (c : TokenDerivation .prefixed i (t.tokens r) r) (hc : c.Preferred) :
      c.tree = wrap [] t.reread := htree r hr i c hc
  exact tree_of_signs hlength (.inl ⟨hnone, hstep r⟩) hbase d hd

/-- An operand is determined under one more mark if its layer has the mark. -/
theorem determined_mark {n : Nonterminal} (mark : Mark)
    (hn : n = .suffixed ∨ n = .prefixed ∧ mark ≠ .optional) (h : Determined n t) :
    Determined n (mark.apply t) := by
  have hreread (marks : List Mark) : rereadUnder marks (mark.apply t) =
      rereadUnder (marks ++ [mark]) t := by
    cases mark <;> rfl
  rcases hn with rfl | ⟨rfl, hmark⟩
  · intro marks _ r hr
    have hmarks := h (marks ++ [mark]) trivial r hr
    rw [wrap_concat, ← hreread] at hmarks
    exact hmarks
  · intro marks htakes r hr
    have hnot : Mark.optional ∉ marks ++ [mark] := by
      rw [List.mem_append, List.mem_singleton]
      exact not_or.mpr ⟨htakes, fun heq => hmark heq.symm⟩
    have hmarks := h (marks ++ [mark]) hnot r hr
    rw [wrap_concat, ← hreread] at hmarks
    exact hmarks

theorem determined_variadic (h : Determined .prefixed t) (hread : Readable .prefixed t.variadic) :
    Determined .prefixed t.variadic := by
  refine determined_operand (fun _ => rfl) rfl (fun _ => rfl) hread fun r hr k d hd => ?_
  rcases exists_variadic d with ⟨j, e, htree, hpreferred⟩
  have he := h [] List.not_mem_nil r hr _ e (hpreferred hd)
  exact htree.trans (congrArg TypeExpr.variadic he)

/-- A function type with a result is determined if its parameters and its result are. -/
theorem determined_functionReturning (hread : ∀ t ∈ ts, Readable .type t)
    (h : ∀ t ∈ ts, Determined .type t) (hread' : Readable .type t) (h' : Determined .type t)
    (hfunction : Readable .prefixed (functionReturning ts t)) :
    Determined .prefixed (functionReturning ts t) := by
  refine determined_operand (fun _ => rfl) rfl (fun _ => rfl) hfunction fun r hr k d hd => ?_
  rcases spans_maybeTypes (r := .rightParen :: .colon :: t.tokens r) hread rfl with ⟨i, ⟨e⟩⟩
  rcases hread' r hr with ⟨j, ⟨e'⟩⟩
  have hlevel := level_tokens t r hr
  have hcolon : level (.colon :: t.tokens r) = level r := by
    rw [level_cons (.inl (by simp)), hlevel]
    exact Int.sub_zero _
  have hparams : level (tokensOfAll ts (.rightParen :: .colon :: t.tokens r)) = level r + 1 := by
    rw [level_tokensOfAll ts _ rfl, level_cons (.inl (by simp)), hcolon]
    exact Int.sub_neg _ 1
  have hprimary : TokenDerivation .primary 4 ((functionReturning ts t).tokens r) r :=
    .functionReturning rfl rfl e rfl rfl e'
  rcases exists_unmarked d hd ⟨_, ⟨.plain hprimary⟩⟩ with ⟨_, c, hc, hsuffixed⟩
  rcases exists_plain c hsuffixed ⟨_, ⟨hprimary⟩⟩ with ⟨_, c', hc', hpreferred⟩
  have hne : r ≠ .leftParen :: tokensOfAll ts (.rightParen :: .colon :: t.tokens r) :=
    ne_of_delimit hr rfl
  rcases exists_function c' hne with ⟨_, params, -⟩ | ⟨_, _, m, params, returns, htree, hparts⟩
  · -- the colon would be left over
    have heq := parens_eq params e hparams (Int.le_refl _) (Int.le_of_eq hcolon)
    exact absurd heq (ne_of_delimit hr rfl)
  · have hm : level (.colon :: m) ≤ level r := by
      have hle := level_le returns
      have hcolon' : level (.colon :: m) = level m - 0 := level_cons (.inl (by simp))
      omega
    have heq := parens_eq params e hparams hm (Int.le_of_eq hcolon)
    obtain rfl := List.tail_eq_of_cons_eq heq
    rcases hparts hpreferred with ⟨hparams', hreturns⟩
    have hts := tree_maybeTypes hread h rfl rfl params hparams'
    have ht := h' r hr _ returns hreturns
    exact hc.trans (hc'.trans (htree.trans (congrArg₂ TypeExpr.functionReturning hts ht)))

/-! ## Types -/

/-- An operand alone is determined as a type. -/
theorem determined_operand_type (hread : Readable .prefixed t) (h : Determined .prefixed t) :
    Determined .type t := by
  intro r hr k d hd
  rcases hread r hr with ⟨⟨j, ⟨e⟩⟩, -⟩
  have hfirst {i : Nat} {c : TokenDerivation .type i (t.tokens r) r}
      (hc : c.root.IsFirst Terminal.ReadsTokens) (hi : 0 < i) : False :=
    hc (.inl rfl) 0 hi ⟨.operand e⟩
  cases d with
  | operand c => exact h [] List.not_mem_nil r hr _ c ((preferred_of_child rfl).mp hd).2
  | union | arrow => exact (hfirst ((preferred_of_children rfl).mp hd).1 (Nat.succ_pos _)).elim

/-- A union is determined if its first operand ends in no result. -/
theorem determined_union {left right : TypeExpr} (hresult : left.endsInResult = false)
    (hread : Readable .prefixed left) (h : Determined .prefixed left)
    (hread' : Readable .type right) (h' : Determined .type right) :
    Determined .type (union left right) := by
  intro r hr k d hd
  rcases hread (.bar :: right.tokens r) rfl with ⟨⟨i, ⟨e⟩⟩, hcalm⟩
  rcases hread' r hr with ⟨j, ⟨e'⟩⟩
  have hlevel := level_tokens (union left right) r hr
  -- the left side ends in no result, so nothing in it can take the bar
  have hcalm := hcalm hresult
  rw [level_separator (.inr rfl) e e' hlevel] at hcalm
  cases d with
  | operand c => exact (not_passes_bar c e e' hcalm hlevel).elim
  | union first bar others =>
    obtain rfl := Terminal.eq_of_read?_mark rfl bar
    obtain rfl := bar_eq first others e e' hcalm hlevel
    rcases (preferred_of_children rfl).mp hd with ⟨-, hfirst, hothers⟩
    have hleft := h [] List.not_mem_nil _ rfl _ first hfirst
    have hright := h' r hr _ others hothers
    exact congrArg₂ TypeExpr.union hleft hright
  | arrow opening params closing sign returns =>
    rcases (preferred_of_children rfl).mp hd with ⟨hroot, -⟩
    exact (hroot (.inl rfl) 1 (Nat.lt_succ_self 1) ⟨.union e rfl e'⟩).elim

/-! ## Arrows -/

/-- No operand begins with the parameters of an arrow. -/
theorem not_operand_of_arrow {n : Nonterminal} {i j : Nat} {q s : List Token}
    (params : TokenDerivation n i p (.rightParen :: .equals true :: .greater :: q))
    (returns : TokenDerivation .type j q s) (d : TokenDerivation .prefixed k (.leftParen :: p) r)
    (hp : level (.leftParen :: p) = level q) (hr : level r = level q)
    (hne : r ≠ .equals true :: .greater :: q) : False := by
  have harrow : level (.equals true :: .greater :: q) = level q :=
    (level_of_arrow rfl (typeAhead_type returns)).symm
  have hinside : level p = level q + 1 := by
    have hopening : level (.leftParen :: p) = level p - 1 := level_cons (.inl (by simp))
    omega
  have hbrackets := along_parens params hinside (Int.le_of_eq harrow)
  have hbehind : .equals true :: .greater :: q <:+ .leftParen :: p :=
    ((List.suffix_cons _ _).trans (suffix params)).trans (List.suffix_cons _ _)
  cases d with
  | unmarked c =>
    rcases exists_chain c with ⟨_, m, f, e, hchain, -⟩
    rcases exists_parens e with ⟨_, inner, htree, -⟩
    have hresult : e.tree.endsInResult = false := by
      rw [htree]
      rfl
    have hm : level m = level q := by
      have hle := level_le e
      have hle' := hchain.level_le
      omega
    have hcompact := compact e hp hm hresult
    have heq : m = .equals true :: .greater :: q := by
      refine eq_of_not_passed (suffix e) hbehind ?_ ?_
      · -- a primary has no equals sign on its level
        intro hs hdiff
        rcases hcompact _ hs hbehind hdiff.symm with heq | honlevel
        · exact Token.noConfusion (List.head_eq_of_cons_eq heq)
        · exact absurd (honlevel.head harrow _ rfl) Bool.false_ne_true
      · -- between the parentheses no place is on their level
        intro hs hdiff
        rcases hbrackets m hs (suffix e) hdiff.symm with heq | hlt
        · exact start_ne e (by simp) (by simp) heq.symm
        · omega
    subst heq
    -- the equals sign alone would tear the arrow apart
    cases hchain with
    | nil => exact hne rfl
    | cons step further =>
      rcases Prod.mk.inj (Option.some.inj step) with ⟨-, rfl⟩
      have hgreater : level (.greater :: q) = level q - -1 := level_cons (.inl (by simp))
      have hle := further.level_le
      omega
  | nullable mark | notNullable mark =>
    exact absurd (Terminal.eq_of_read?_mark rfl mark) (by simp)
  | variadic mark =>
    rcases Terminal.eq_of_read?_ellipsis mark with ⟨_, _, h⟩
    simp at h

/-- An arrow is determined if its parameters and its result are. -/
theorem determined_arrow (hread : ∀ f ∈ fs, ∀ t, f.type? = some t → Readable .type t)
    (h : ∀ f ∈ fs, ∀ t, f.type? = some t → Determined .type t) (hread' : Readable .type t)
    (h' : Determined .type t) : Determined .type (arrow fs t) := by
  intro r hr k d hd
  obtain ⟨i, ⟨e⟩⟩ :=
    spans_maybeFields (r := .rightParen :: .equals true :: .greater :: t.tokens r) hread rfl
  rcases hread' r hr with ⟨j, ⟨e'⟩⟩
  have hlevel := level_tokens t r hr
  have hparen : level ((arrow fs t).tokens r) = level (t.tokens r) :=
    (level_tokens (arrow fs t) r hr).trans hlevel.symm
  -- neither an operand nor a union can cover an arrow: they would have to pass its sign
  cases d with
  | operand c =>
    have hend : .equals true :: .greater :: t.tokens r ≠ r :=
      cons_ne_of_suffix ((suffix e').trans (List.suffix_cons _ _))
    exact (not_operand_of_arrow e e' c hparen hlevel.symm hend.symm).elim
  | union first bar others =>
    obtain rfl := Terminal.eq_of_read?_mark rfl bar
    have hbar := level_separator (.inr rfl) first others (hparen.trans hlevel)
    exact (not_operand_of_arrow e e' first hparen (hbar.trans hlevel.symm) (by simp)).elim
  | arrow opening params closing sign returns =>
    rcases List.cons.inj (Terminal.eq_of_read?_mark rfl opening) with ⟨-, rfl⟩
    obtain rfl := Terminal.eq_of_read?_mark rfl closing
    obtain rfl := Terminal.eq_of_read?_arrow sign
    have harrow := level_of_arrow (p := .equals true :: .greater :: t.tokens r) rfl
      (typeAhead_type e')
    have harrow' := level_of_arrow sign (typeAhead_type returns)
    have hparams : level (tokensOfFields fs
        (.rightParen :: .equals true :: .greater :: t.tokens r)) = level r + 1 := by
      rw [level_tokensOfFields fs _ rfl, level_cons (.inl (by simp)), ← harrow, hlevel]
      exact Int.sub_neg _ 1
    have hle := level_le returns
    rw [harrow'] at hle
    have heq := parens_eq params e hparams hle (Int.le_of_eq (harrow.symm.trans hlevel))
    obtain rfl := List.tail_eq_of_cons_eq (List.tail_eq_of_cons_eq heq)
    rcases (preferred_of_children rfl).mp hd with ⟨-, hparams', hreturns⟩
    have hfs := tree_maybeFields hread h rfl rfl params hparams'
    have ht := h' r hr _ returns hreturns
    exact congrArg₂ TypeExpr.arrow hfs ht

/-! ## Trees -/

/-- Every preferred derivation over the tokens of a tree builds what is read from
the text of the tree. -/
theorem Formed.determined {n : Nonterminal} (h : Formed True n t) : Determined n t := by
  induction h with
  | name htext =>
    refine determined_primary (.name htext) fun r _ k e _ => ?_
    exact (Option.some.inj (atom?_eq e)).symm
  | string htext =>
    refine determined_primary (.string htext) fun r _ k e _ => ?_
    exact (Option.some.inj (atom?_eq e)).symm
  | number htext =>
    refine determined_primary (.number htext) fun r _ k e _ => ?_
    exact (Option.some.inj (atom?_eq e)).symm
  | any =>
    refine determined_primary .any fun r _ k e _ => ?_
    exact (Option.some.inj (atom?_eq e)).symm
  | unknown =>
    refine determined_primary .unknown fun r _ k e _ => ?_
    exact (Option.some.inj (atom?_eq e)).symm
  | typeOf hvalue => exact determined_primary (.typeOf hvalue) fun r _ k e _ => tree_typeOf e
  | parens hinner ih =>
    refine determined_primary (.parens hinner) fun r _ k e he => ?_
    rcases exists_parens e with ⟨j, c, htree, hpreferred⟩
    exact htree.trans (congrArg TypeExpr.parens (ih _ rfl _ c (hpreferred he)))
  | tuple hentries ih =>
    refine determined_primary (.tuple hentries) fun r _ k e he => ?_
    rcases exists_tuple e with ⟨j, c, htree, hpreferred⟩
    have hc := tree_maybeTypes (fun t ht => (hentries t ht).readable) ih rfl rfl c (hpreferred he)
    exact htree.trans (congrArg TypeExpr.tuple hc)
  | record hlabels htypes ih =>
    refine determined_primary (.record hlabels htypes) fun r _ k e he => ?_
    rcases exists_record e with ⟨j, c, htree, hpreferred⟩
    have hc := tree_maybeFields (fun f hf t ht => (htypes f hf t ht).readable) ih rfl rfl c
      (hpreferred he)
    exact htree.trans (congrArg TypeExpr.record hc)
  | @generic _ arguments hsubject hne harguments ih =>
    refine determined_primary (.generic hsubject hne harguments) fun r hr k e he => ?_
    have hless : r ≠ .less :: tokensOfAll arguments (.greater :: r) := ne_of_delimit hr rfl
    rcases exists_generic e hless with ⟨j, c, htree, hpreferred⟩
    have hbehind : delimit (.greater :: r) = true := hr
    have hc := tree_types (fun t ht => (harguments t ht).readable) ih hne hbehind c (hpreferred he)
    exact htree.trans (congrArg _ hc)
  | @function params hparams ih =>
    refine determined_primary (.function hparams) fun r hr k e he => ?_
    have hparen : r ≠ .leftParen :: tokensOfAll params (.rightParen :: r) := ne_of_delimit hr rfl
    -- what was written has no colon on its level, so no result is read
    rcases (Formed.function hparams).readable r hr with ⟨-, hcompact⟩
    have hlevel := level_tokens (TypeExpr.function params) r hr
    have hresult := endsInResult_of_calm e (hcompact.calm hlevel (typeAhead_tokens _ r))
      (List.suffix_refl r) hlevel rfl
    rcases exists_function e hparen with ⟨_, c, htree, hpreferred⟩ | ⟨_, _, _, _, _, htree, -⟩
    · have hc := tree_maybeTypes (fun t ht => (hparams t ht).readable) ih rfl rfl c (hpreferred he)
      exact htree.trans (congrArg TypeExpr.function hc)
    · have hfalse := (congrArg endsInResult htree).symm.trans hresult
      exact Bool.noConfusion (show true = false from hfalse)
  | plain _ ih => exact ih
  | optional _ ih => exact determined_mark .optional (.inl rfl) ih
  | nullableBehind _ _ ih => exact determined_mark .nullable (.inl rfl) ih
  | notNullableBehind _ _ ih => exact determined_mark .notNullable (.inl rfl) ih
  | unmarked _ ih => exact fun marks _ => ih marks trivial
  | functionReturning hparams hreturns ih ih' =>
    exact determined_functionReturning (fun t ht => (hparams t ht).readable) ih hreturns.readable
      ih' (Formed.functionReturning hparams hreturns).readable
  | nullable _ _ ih => exact determined_mark .nullable (.inr ⟨rfl, by simp⟩) ih
  | notNullable _ ih => exact determined_mark .notNullable (.inr ⟨rfl, by simp⟩) ih
  | variadic h ih => exact determined_variadic ih (Formed.variadic h).readable
  | operand h ih => exact determined_operand_type h.readable ih
  | union hleft hresult hright ih ih' =>
    exact determined_union hresult hleft.readable ih hright.readable ih'
  | arrow _ htypes hreturns ih ih' =>
    exact determined_arrow (fun f hf t ht => (htypes f hf t ht).readable) ih hreturns.readable ih'

end TypeExpr

end DocComment
