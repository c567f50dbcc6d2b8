import DocComment.Proofs.Grammar.Primaries
import DocComment.Proofs.Grammar.Unique

/-!
# What a stretch yields

A stretch between places of one level yields what its preferred derivation builds (`Yields`),
and nothing else (`Yields.unique`). A stretch that is put together from parts yields what the
parts yield, put together: there is one lemma for each form that takes parts.
-/

namespace DocComment

open Terminal Token TokenDerivation DocComment.Derivation

/-! ## First alternatives -/

namespace Derivation

variable {P : Type} {reads : Terminal → P → String → P → Prop} {n : Nonterminal} {k : Nat} {p q : P}

theorem isFirst_of_forall (d : Derivation reads n k p q)
    (h : ∀ j < k, ¬ Nonempty (Derivation reads n j p q)) : d.root.IsFirst reads :=
  fun _ => h

/-- The alternatives of lists and of their items are not in an order. -/
theorem isFirst_of_not_layered (d : Derivation reads n k p q) (h : ¬ n.Layered) :
    d.root.IsFirst reads :=
  fun hlayered => absurd hlayered h

end Derivation

/-! ## Stretches -/

/-- A stretch between places of one level has a preferred derivation that builds the value. -/
structure Yields (n : Nonterminal) (p q : List Token) (value : n.Value) : Prop where
  level_eq : level p = level q
  derivation : ∃ k, ∃ d : TokenDerivation n k p q, d.Preferred ∧ d.tree = value

namespace Yields

variable {n : Nonterminal} {p q r : List Token} {t u : TypeExpr} {ts : List TypeExpr}
  {subject : String} {k : Nat}

/-- A stretch between places of one level yields one value. -/
theorem unique {value value' : n.Value} (h : Yields n p q value) (h' : Yields n p q value') :
    value = value' := by
  obtain ⟨_, d, hd, rfl⟩ := h.derivation
  obtain ⟨_, e, he, rfl⟩ := h'.derivation
  exact tree_eq d e hd he h.level_eq

/-! ## Layers -/

theorem plain (h : Yields .primary p q t) : Yields .suffixed p q t := by
  obtain ⟨_, d, hd, rfl⟩ := h.derivation
  exact ⟨h.level_eq, _, .plain d, (preferred_of_child rfl).mpr ⟨isFirst_zero _, hd⟩, rfl⟩

theorem unmarked (h : Yields .suffixed p q t) : Yields .prefixed p q t := by
  obtain ⟨_, d, hd, rfl⟩ := h.derivation
  exact ⟨h.level_eq, _, .unmarked d, (preferred_of_child rfl).mpr ⟨isFirst_zero _, hd⟩, rfl⟩

theorem operand (h : Yields .prefixed p q t) : Yields .type p q t := by
  obtain ⟨_, d, hd, rfl⟩ := h.derivation
  exact ⟨h.level_eq, _, .operand d, (preferred_of_child rfl).mpr ⟨isFirst_zero _, hd⟩, rfl⟩

theorem type_of_primary (h : Yields .primary p q t) : Yields .type p q t :=
  h.plain.unmarked.operand

/-- Over tokens without an arrow a type that is no union is an operand. -/
theorem exists_operand (h : Yields .type p q t) (harrow : .equals true ∉ p)
    (hunion : ∀ left right, t ≠ .union left right) : Yields .prefixed p q t := by
  obtain ⟨_, d, hd, rfl⟩ := h.derivation
  cases d with
  | operand d => exact ⟨h.level_eq, _, d, ((preferred_of_child rfl).mp hd).2, rfl⟩
  | union left bar right => exact absurd rfl (hunion _ _)
  | arrow opening params closing sign returns =>
    have hsign := ((suffix_of_read? closing).trans (suffix params)).trans (suffix_of_read? opening)
    rw [eq_of_read?_arrow sign] at hsign
    exact absurd (hsign.subset List.mem_cons_self) harrow

/-! ## Lists -/

theorem oneType (h : Yields .type p q t) : Yields .types p q [t] := by
  obtain ⟨_, d, hd, rfl⟩ := h.derivation
  let e : TokenDerivation .types 0 p q := .oneType d
  have hfirst := e.isFirst_of_not_layered (by simp [Nonterminal.Layered])
  exact ⟨h.level_eq, _, e, (preferred_of_child rfl).mpr ⟨hfirst, hd⟩, rfl⟩

/-- An item, a comma and further items yield a longer list. -/
theorem moreTypes (h : Yields .type p (.comma :: q) t) (h' : Yields .types q r ts) :
    Yields .types p r (t :: ts) := by
  obtain ⟨_, d, hd, rfl⟩ := h.derivation
  obtain ⟨_, d', hd', rfl⟩ := h'.derivation
  let e : TokenDerivation .types 1 p r := .moreTypes d rfl d'
  have hfirst := e.isFirst_of_not_layered (by simp [Nonterminal.Layered])
  have hcomma : level (.comma :: q) = level q - 0 := level_cons (.inl (by simp))
  have hp := h.level_eq
  have hq := h'.level_eq
  exact ⟨by omega, _, e, (preferred_of_children rfl).mpr ⟨hfirst, hd, hd'⟩, rfl⟩

theorem someTypes (h : Yields .types p q ts) : Yields .maybeTypes p q ts := by
  obtain ⟨_, d, hd, rfl⟩ := h.derivation
  let e : TokenDerivation .maybeTypes 1 p q := .someTypes d
  have hfirst := e.isFirst_of_not_layered (by simp [Nonterminal.Layered])
  exact ⟨h.level_eq, _, e, (preferred_of_child rfl).mpr ⟨hfirst, hd⟩, rfl⟩

/-! ## Brackets -/

/-- What begins with a sign is read by the alternative of the sign. -/
theorem isFirst_of_alternatives {token : Token} (d : TokenDerivation .primary k (token :: p) q)
    (h : token.alternatives = [k]) : d.root.IsFirst ReadsTokens := by
  refine isFirst_of_forall d fun j hj ⟨e⟩ => ?_
  have hmem := alternative_mem e
  rw [h, List.mem_singleton] at hmem
  exact Nat.lt_irrefl _ (hmem ▸ hj)

/-- Between brackets the level is one higher. -/
theorem level_brackets {opening closing : Token} (hopening : opening.rise = 1)
    (hclosing : closing.rise = -1) (h : level p = level (closing :: q)) :
    level (opening :: p) = level q := by
  have hne {token : Token} (h : token.rise ≠ 0) : token ≠ .equals true := by
    rintro rfl
    exact h rfl
  have hstart : level (opening :: p) = level p - opening.rise := level_cons (.inl (hne (by omega)))
  have hstop : level (closing :: q) = level q - closing.rise := level_cons (.inl (hne (by omega)))
  omega

/-- Entries between brackets yield a tuple. -/
theorem tuple (h : Yields .maybeTypes p (.rightBracket :: q) ts) :
    Yields .primary (.leftBracket :: p) q (.tuple ts) := by
  obtain ⟨_, d, hd, rfl⟩ := h.derivation
  let e : TokenDerivation .primary 2 (.leftBracket :: p) q := .tuple rfl d rfl
  have hfirst : e.root.IsFirst ReadsTokens := isFirst_of_alternatives e rfl
  exact ⟨level_brackets rfl rfl h.level_eq, _, e, (preferred_of_child rfl).mpr ⟨hfirst, hd⟩, rfl⟩

/-- A type between parentheses yields itself in parentheses. -/
theorem parens (h : Yields .type p (.rightParen :: q) t) :
    Yields .primary (.leftParen :: p) q (.parens t) := by
  obtain ⟨_, d, hd, rfl⟩ := h.derivation
  let e : TokenDerivation .primary 6 (.leftParen :: p) q := .parens rfl d rfl
  have hfirst : e.root.IsFirst ReadsTokens := isFirst_of_alternatives e rfl
  exact ⟨level_brackets rfl rfl h.level_eq, _, e, (preferred_of_child rfl).mpr ⟨hfirst, hd⟩, rfl⟩

/-! ## Words in front of brackets -/

/-- A name with something behind it is no primary of one token. -/
theorem not_name (hne : p ≠ q) :
    ¬ Nonempty (TokenDerivation .primary 0 (.name subject :: p) q) := by
  rintro ⟨d⟩
  cases d with
  | name word => exact hne (List.cons.inj (eq_of_read?_name word)).2

/-- A name with a parenthesis behind it begins no container. -/
theorem not_generic :
    ¬ Nonempty (TokenDerivation .primary 1 (.name subject :: .leftParen :: p) q) := by
  rintro ⟨d⟩
  cases d with
  | generic word opening =>
    obtain ⟨-, rfl⟩ := List.cons.inj (eq_of_read?_name word)
    exact absurd (eq_of_read?_mark rfl opening) (by simp)
  | dottedGeneric word dot =>
    obtain ⟨-, rfl⟩ := List.cons.inj (eq_of_read?_name word)
    obtain ⟨_, hdot⟩ := eq_of_read?_dot dot
    simp at hdot

theorem level_name (subject : String) (p : List Token) : level (.name subject :: p) = level p := by
  rw [level_cons (.inl (by simp))]
  exact Int.sub_zero _

/-- Arguments behind a name yield a container. -/
theorem generic (h : Yields .types p (.greater :: q) ts) :
    Yields .primary (.name subject :: .less :: p) q (.generic subject ts) := by
  obtain ⟨_, d, hd, rfl⟩ := h.derivation
  let e : TokenDerivation .primary 1 (.name subject :: .less :: p) q := .generic rfl rfl d rfl
  have hne : .less :: p ≠ q := cons_ne_of_suffix ((List.suffix_cons _ _).trans (suffix d))
  have hfirst : e.root.IsFirst ReadsTokens := by
    refine isFirst_of_forall e fun j hj => ?_
    obtain rfl : j = 0 := Nat.lt_one_iff.mp hj
    exact not_name hne
  have hbrackets : level (.less :: p) = level q := level_brackets rfl rfl h.level_eq
  exact ⟨(level_name _ _).trans hbrackets, _, e, (preferred_of_child rfl).mpr ⟨hfirst, hd⟩, rfl⟩

theorem dottedGeneric {b : Bool} (h : Yields .types p (.greater :: q) ts) :
    Yields .primary (.name subject :: .dot b :: .less :: p) q (.generic subject ts) := by
  obtain ⟨_, d, hd, rfl⟩ := h.derivation
  let e : TokenDerivation .primary 1 (.name subject :: .dot b :: .less :: p) q :=
    .dottedGeneric rfl rfl rfl d rfl
  have hne : .dot b :: .less :: p ≠ q :=
    cons_ne_of_suffix (((List.suffix_cons _ _).trans (suffix d)).trans (List.suffix_cons _ _))
  have hfirst : e.root.IsFirst ReadsTokens := by
    refine isFirst_of_forall e fun j hj => ?_
    obtain rfl : j = 0 := Nat.lt_one_iff.mp hj
    exact not_name hne
  have hdot : level (.dot b :: .less :: p) = level (.less :: p) - 0 := level_cons (.inl (by simp))
  have hbrackets : level (.less :: p) = level q := level_brackets rfl rfl h.level_eq
  have hname := level_name subject (.dot b :: .less :: p)
  exact ⟨by omega, _, e, (preferred_of_child rfl).mpr ⟨hfirst, hd⟩, rfl⟩

theorem functionReturning (h : Yields .maybeTypes p (.rightParen :: .colon :: q) ts)
    (h' : Yields .type q r t) :
    Yields .primary (.name "function" :: .leftParen :: p) r (.functionReturning ts t) := by
  obtain ⟨_, d, hd, rfl⟩ := h.derivation
  obtain ⟨_, d', hd', rfl⟩ := h'.derivation
  let e : TokenDerivation .primary 4 (.name "function" :: .leftParen :: p) r :=
    .functionReturning rfl rfl d rfl rfl d'
  have hbehind : r <:+ p :=
    (suffix d').trans (((List.suffix_cons _ _).trans (List.suffix_cons _ _)).trans (suffix d))
  have hfirst : e.root.IsFirst ReadsTokens := by
    refine isFirst_of_forall e fun j hj ⟨other⟩ => ?_
    have hmem := alternative_mem other
    simp only [Token.alternatives, List.mem_cons, List.not_mem_nil, or_false] at hmem
    obtain rfl | rfl : j = 0 ∨ j = 1 := by omega
    · exact not_name (cons_ne_of_suffix hbehind) ⟨other⟩
    · exact not_generic ⟨other⟩
  have hcolon : level (.colon :: q) = level q - 0 := level_cons (.inl (by simp))
  have hbrackets : level (.leftParen :: p) = level (.colon :: q) :=
    level_brackets rfl rfl h.level_eq
  have hname := level_name "function" (.leftParen :: p)
  have hq := h'.level_eq
  exact ⟨by omega, _, e, (preferred_of_children rfl).mpr ⟨hfirst, hd, hd'⟩, rfl⟩

/-! ## Unions -/

/-- An operand that ends in no result leaves the bar behind it to the union. -/
theorem union (h : Yields .prefixed p (.bar :: q) t) (hresult : t.endsInResult = false)
    (h' : Yields .type q r u) : Yields .type p r (.union t u) := by
  obtain ⟨_, d, hd, rfl⟩ := h.derivation
  obtain ⟨_, d', hd', rfl⟩ := h'.derivation
  let e : TokenDerivation .type 1 p r := .union d rfl d'
  have hbar : level (.bar :: q) = level q - 0 := level_cons (.inl (by simp))
  have hp := h.level_eq
  have hq := h'.level_eq
  have hcalm : Calm (level r) p (.bar :: q) :=
    calm_prefixed d rfl hd (by omega) (by omega) hresult
  have hfirst : e.root.IsFirst ReadsTokens := by
    refine isFirst_of_forall e fun j hj ⟨other⟩ => ?_
    obtain rfl : j = 0 := Nat.lt_one_iff.mp hj
    cases other with
    | operand other => exact not_passes_bar other d d' hcalm (by omega)
  exact ⟨by omega, _, e, (preferred_of_children rfl).mpr ⟨hfirst, hd, hd'⟩, rfl⟩

/-! ## Arrays -/

/-- No primary reads the brackets behind an operand that ends in no result. -/
theorem not_primary_of_brackets (h : Yields .suffixed p (.leftBracket :: .rightBracket :: q) t)
    (hresult : t.endsInResult = false) : ¬ Nonempty (TokenDerivation .primary k p q) := by
  rintro ⟨other⟩
  obtain ⟨_, d, hd, rfl⟩ := h.derivation
  have hlevel := h.level_eq
  have hopening : level (.leftBracket :: .rightBracket :: q) = level (.rightBracket :: q) - 1 :=
    level_cons (.inl (by simp))
  have hclosing : level (.rightBracket :: q) = level q - -1 := level_cons (.inl (by simp))
  have hbrackets : Calm (level q) (.leftBracket :: .rightBracket :: q) q := by
    have hfirst : leftBracket.ReadsTokens (.leftBracket :: .rightBracket :: q) "[" _ := rfl
    have hsecond : rightBracket.ReadsTokens (.rightBracket :: q) "]" q := rfl
    exact (calm_terminal hfirst (by omega) (by simp)).trans
      (calm_terminal hsecond (by omega) (by simp)) (List.suffix_cons _ _)
  have hcalm : Calm (level q) p q :=
    (calm_suffixed d rfl hd (by omega) (by omega) hresult).trans hbrackets (suffix d)
  have hother := endsInResult_of_calm other hcalm (List.suffix_refl q) (by omega) rfl
  -- on the level of a primary no bracket stands behind its first token
  rcases compact other (by omega) rfl hother (.leftBracket :: .rightBracket :: q)
      ((List.suffix_cons _ _).trans (List.suffix_cons _ _)) (suffix d)
      (cons_ne_of_suffix (List.suffix_cons _ _)) with heq | honlevel
  · exact start_ne d (by simp) (by simp) heq.symm
  · exact Bool.noConfusion (honlevel.head (by omega) .leftBracket rfl)

theorem array (h : Yields .suffixed p (.leftBracket :: .rightBracket :: q) t)
    (hresult : t.endsInResult = false) : Yields .suffixed p q (.generic "Array" [t]) := by
  have hnone {k : Nat} := h.not_primary_of_brackets (k := k) hresult
  have hlevel := h.level_eq.trans (level_brackets rfl rfl rfl)
  obtain ⟨_, d, hd, rfl⟩ := h.derivation
  let e : TokenDerivation .suffixed 2 p q := .array d rfl rfl
  have hfirst : e.root.IsFirst ReadsTokens := by
    refine isFirst_of_forall e fun j hj ⟨other⟩ => ?_
    cases other with
    | plain other => exact hnone ⟨other⟩
    | optional other mark =>
      -- the last token is the closing bracket
      obtain ⟨_, rfl⟩ := eq_of_read?_equals mark
      have hclosing : .rightBracket :: q <:+ p := (List.suffix_cons _ _).trans (suffix d)
      have heq := (List.suffix_of_suffix_length_le (suffix other) hclosing (by simp)).eq_of_length
        (by simp)
      exact Token.noConfusion (List.head_eq_of_cons_eq heq)
    | _ => simp at hj
  exact ⟨hlevel, _, e, (preferred_of_child rfl).mpr ⟨hfirst, hd⟩, rfl⟩

end Yields

end DocComment
