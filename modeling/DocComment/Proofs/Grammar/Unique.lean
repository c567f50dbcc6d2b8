import DocComment.Proofs.Grammar.Separators
import Mathlib.Logic.Basic

/-!
# A stretch is read in one way

A preferred derivation that starts and ends on one level is as good as the only one: every
other one over the same stretch builds the same tree (`TokenDerivation.tree_eq`). The order of
the alternatives tells how each layer is read, and the levels of the brackets tell where its
parts end.

`TokenDerivation.Determined` says this of one derivation. It passes from the parts of a
derivation to the whole: signs and brackets do so alike for all operators
(`determined_marked`, `determined_markedBehind`, `determined_between`), lists for types and
fields (`value_one`, `value_more`), and the other constructors each have a step of their own.
-/

namespace DocComment

open Terminal Token DocComment.Derivation

/-! ## Alternatives -/

namespace Derivation

variable {P : Type} {reads : Terminal → P → String → P → Prop} {n : Nonterminal} {j k : Nat}
  {p q : P}

theorem root_mem_occurrences (d : Derivation reads n k p q) : d.root ∈ d.occurrences := by
  cases d <;> exact List.mem_cons_self

/-- Preferred derivations over one stretch take the same alternative. -/
theorem alternative_eq (d : Derivation reads n k p q) (e : Derivation reads n j p q)
    (hd : d.Preferred) (he : e.Preferred) (hn : n.Layered) : k = j := by
  rcases Nat.lt_trichotomy k j with hlt | heq | hlt
  · exact (he _ e.root_mem_occurrences hn k hlt ⟨d⟩).elim
  · exact heq
  · exact (hd _ d.root_mem_occurrences hn j hlt ⟨e⟩).elim

end Derivation

variable {n : Nonterminal} {j k : Nat} {p q q' r : List Token} {x y : String} {base : Int}

namespace TokenDerivation

/-! ## Calm operands

An operator behind an operand is preferred to a result that could take it, so only a result at
the very end of a preferred operand brings a colon with it. -/

theorem calm_suffixed (d : TokenDerivation n k p q) (hn : n = .suffixed) (hd : d.Preferred)
    (hp : level p = base) (hq : level q = base) (hresult : n.endsInResult d.tree = false) :
    Calm base p q := by
  induction d with
  | plain d => exact (compact d hp hq hresult).calm hp (by simpa using typeAhead d)
  | optional d mark ih =>
    obtain ⟨hroot, hd⟩ := (preferred_of_child rfl).mp hd
    -- the operand is spared from ending in a result, so it is calm, and the operator is too
    have hspared := hroot.sparesResults.operator rfl (Nat.succ_pos _) d (extends_optional mark)
    have hmark := level_le_of_equals mark
    have hle := level_le d
    have hcalm := calm_terminal mark (show base ≤ _ by omega) (by simp)
    exact (ih rfl hd hp (by omega) hspared).trans hcalm (suffix d)
  | array d opening closing ih =>
    obtain ⟨hroot, hd⟩ := (preferred_of_child rfl).mp hd
    have hspared :=
      hroot.sparesResults.operator rfl (Nat.succ_pos _) d (extends_array opening closing)
    have hopening := level_of_read? opening rfl
    have hclosing := level_of_read? closing rfl
    have hcalm := calm_terminal opening (show base ≤ _ by omega) (by simp)
    have hcalm' := calm_terminal closing (show base ≤ _ by omega) (by simp)
    exact (ih rfl hd hp (by omega) hspared).trans
      (hcalm.trans hcalm' (suffix_of_read? opening)) (suffix d)
  | nullableBehind d mark ih =>
    obtain ⟨hroot, hd⟩ := (preferred_of_child rfl).mp hd
    have hspared := hroot.sparesResults.operator rfl (Nat.succ_pos _) d (extends_nullable mark)
    have hmark := level_of_read? mark rfl
    have hcalm := calm_terminal mark (show base ≤ _ by omega) (by simp)
    exact (ih rfl hd hp (by omega) hspared).trans hcalm (suffix d)
  | notNullableBehind d mark ih =>
    obtain ⟨hroot, hd⟩ := (preferred_of_child rfl).mp hd
    have hspared := hroot.sparesResults.operator rfl (Nat.succ_pos _) d (extends_notNullable mark)
    have hmark := level_of_read? mark rfl
    have hcalm := calm_terminal mark (show base ≤ _ by omega) (by simp)
    exact (ih rfl hd hp (by omega) hspared).trans hcalm (suffix d)
  | _ => simp at hn

/-- A preferred operand that ends in no result has neither a colon nor a bar on its level. -/
theorem calm_prefixed (d : TokenDerivation n k p q) (hn : n = .prefixed) (hd : d.Preferred)
    (hp : level p = base) (hq : level q = base) (hresult : n.endsInResult d.tree = false) :
    Calm base p q := by
  induction d with
  | unmarked d => exact calm_suffixed d rfl ((preferred_of_child rfl).mp hd).2 hp hq hresult
  | nullable mark d ih | notNullable mark d ih =>
    have hmark := level_of_read? mark rfl
    have hcalm := calm_terminal mark (Int.le_of_eq hp.symm) (by simp)
    exact hcalm.trans (ih rfl ((preferred_of_child rfl).mp hd).2 (by omega) hq hresult)
      (suffix_of_read? mark)
  | variadic mark d ih =>
    have hmark := level_of_read? mark rfl
    have hcalm := calm_ellipsis mark (Int.le_of_eq hp.symm)
    exact hcalm.trans (ih rfl ((preferred_of_child rfl).mp hd).2 (by omega) hq hresult)
      (suffix_of_read? mark)
  | _ => simp at hn

/-! ## Equal trees -/

/-- A terminal of one token in front of a place stands at one place only. -/
theorem eq_of_read?_stop {t : Terminal} (h : t.read? q = some (x, r))
    (h' : t.read? q' = some (y, r)) (ht : t ≠ .ellipsis ∧ t ≠ .arrow) (hq : q <:+ p)
    (hq' : q' <:+ p) : q = q' := by
  obtain ⟨_, rfl⟩ := exists_token h ht.1 ht.2
  obtain ⟨_, rfl⟩ := exists_token h' ht.1 ht.2
  exact (List.suffix_of_suffix_length_le hq hq' (by simp)).eq_of_length (by simp)

/-- A terminal is read at a place in one way. -/
theorem eq_of_read? {t : Terminal} (h : t.read? p = some (x, q)) (h' : t.read? p = some (y, q')) :
    x = y ∧ q = q' := by
  simpa using h.symm.trans h'

/-- Brackets with the same start and the same end hold the same stretch. -/
theorem brackets_eq {o c : Terminal} {closing : Token} {s : List Token} {z w : String}
    (hc : c.mark? = some closing) (h : o.read? p = some (x, q)) (h' : o.read? p = some (y, q'))
    (hr : c.read? r = some (z, s)) {r' : List Token} (hr' : c.read? r' = some (w, s)) :
    q = q' ∧ r = r' :=
  ⟨(eq_of_read? h h').2, (eq_of_read?_mark hc hr).trans (eq_of_read?_mark hc hr').symm⟩

/-- The stretch between brackets starts and ends on one level if the brackets do. -/
theorem level_inside {o c : Terminal} {s : List Token} {z : String} (ho : o.rise? = some 1)
    (hc : c.rise? = some (-1)) (h : o.read? p = some (x, q)) (hr : c.read? r = some (z, s))
    (hlevel : level p = level s) : level q = level r := by
  have hopening := level_of_read? h ho
  have hclosing := level_of_read? hr hc
  omega

/-- Behind the parentheses of a function type there is a result or there is none. -/
theorem not_returning {m : Nonterminal} {i : Nat}
    (params : TokenDerivation n k p (.rightParen :: r))
    (params' : TokenDerivation m j p (.rightParen :: .colon :: q))
    (returns : TokenDerivation .type i q r) (hp : level p = level r + 1) : False := by
  have hcolon : level (.colon :: q) = level q - 0 := level_cons (.inl (by simp))
  have hle := level_le returns
  have heq := parens_eq params params' hp (Int.le_refl _) (by omega)
  exact cons_ne_of_suffix (suffix returns) heq.symm

/-! ## Steps -/

/-- Every preferred derivation over the same stretch builds the same tree, if the stretch starts
and ends on one level. -/
def Determined (d : TokenDerivation n k p q) : Prop :=
  d.Preferred → level p = level q →
    ∀ {j : Nat} (e : TokenDerivation n j p q), e.Preferred → d.tree = e.tree

variable {m : Nonterminal} {i : Nat} {s : List Token}

/-- The only parts of two preferred derivations, over one stretch. -/
theorem Determined.part {d : TokenDerivation n k p s} {e : TokenDerivation n j p s}
    {c : TokenDerivation m i q r} {l : Nat} {c' : TokenDerivation m l q r} (h : Determined c)
    (hd : d.Preferred) (he : e.Preferred) (hlevel : level q = level r)
    (hc : d.occurrences = d.root :: c.occurrences)
    (hc' : e.occurrences = e.root :: c'.occurrences) : c.tree = c'.tree :=
  h ((preferred_of_child hc).mp hd).2 hlevel c' ((preferred_of_child hc').mp he).2

/-- A sign in front of an operand, given how it is derived. -/
theorem determined_marked {t : Terminal} {build : TypeExpr → TypeExpr}
    {mark : ReadsTokens t p x q} {d : TokenDerivation .prefixed i q r} (h : Determined d)
    (make : ∀ {x q i}, ReadsTokens t p x q → TokenDerivation .prefixed i q r →
      TokenDerivation .prefixed k p r)
    (hmake : ∀ {x q i} (mark : ReadsTokens t p x q) (d : TokenDerivation .prefixed i q r),
      (make mark d).tree = build d.tree ∧
        (make mark d).occurrences = (make mark d).root :: d.occurrences)
    (hread : ∀ e : TokenDerivation .prefixed k p r, ∃ x q i, ∃ mark : ReadsTokens t p x q,
      ∃ d : TokenDerivation .prefixed i q r, e = make mark d)
    (ht : t.rise? = some 0) : Determined (make mark d) := by
  intro hd hlevel j e he
  obtain rfl := alternative_eq _ e hd he (.inr (.inl rfl))
  obtain ⟨_, _, _, mark', c, rfl⟩ := hread e
  obtain ⟨-, rfl⟩ := eq_of_read? mark mark'
  have hmark := level_of_read? mark ht
  have hpart := h.part hd he (by omega) (hmake mark d).2 (hmake mark' c).2
  rw [(hmake mark d).1, (hmake mark' c).1, hpart]

/-- A sign behind an operand, given how it is derived. -/
theorem determined_markedBehind {t : Terminal} {build : TypeExpr → TypeExpr}
    {d : TokenDerivation .suffixed i p q} {mark : ReadsTokens t q x r} (h : Determined d)
    (make : ∀ {q x i}, TokenDerivation .suffixed i p q → ReadsTokens t q x r →
      TokenDerivation .suffixed k p r)
    (hmake : ∀ {q x i} (d : TokenDerivation .suffixed i p q) (mark : ReadsTokens t q x r),
      (make d mark).tree = build d.tree ∧
        (make d mark).occurrences = (make d mark).root :: d.occurrences)
    (hread : ∀ e : TokenDerivation .suffixed k p r, ∃ q x i,
      ∃ d : TokenDerivation .suffixed i p q, ∃ mark : ReadsTokens t q x r, e = make d mark)
    (ht : t ≠ .ellipsis ∧ t ≠ .arrow) (hmark : level q ≤ level r) : Determined (make d mark) := by
  intro hd hlevel j e he
  obtain rfl := alternative_eq _ e hd he (.inr (.inr (.inl rfl)))
  obtain ⟨_, _, _, c, mark', rfl⟩ := hread e
  obtain rfl := eq_of_read?_stop mark mark' ht (suffix d) (suffix c)
  have hle := level_le d
  have hpart := h.part hd he (by omega) (hmake d mark).2 (hmake c mark').2
  rw [(hmake d mark).1, (hmake c mark').1, hpart]

/-- A part between two brackets, given how it is derived. -/
theorem determined_between {opening closing : Terminal} {last : Token}
    {build : m.Value → TypeExpr} {y : String} {front : ReadsTokens opening p x q}
    {d : TokenDerivation m i q r} {back : ReadsTokens closing r y s} (h : Determined d)
    (make : ∀ {x q i r y}, ReadsTokens opening p x q → TokenDerivation m i q r →
      ReadsTokens closing r y s → TokenDerivation .primary k p s)
    (hmake : ∀ {x q i r y} (front : ReadsTokens opening p x q) (d : TokenDerivation m i q r)
      (back : ReadsTokens closing r y s), (make front d back).tree = build d.tree ∧
        (make front d back).occurrences = (make front d back).root :: d.occurrences)
    (hread : ∀ e : TokenDerivation .primary k p s, ∃ x q i r y,
      ∃ front : ReadsTokens opening p x q, ∃ d : TokenDerivation m i q r,
        ∃ back : ReadsTokens closing r y s, e = make front d back)
    (ho : opening.rise? = some 1) (hc : closing.rise? = some (-1))
    (hlast : closing.mark? = some last) : Determined (make front d back) := by
  intro hd hlevel j e he
  obtain rfl := alternative_eq _ e hd he (.inr (.inr (.inr rfl)))
  obtain ⟨_, _, _, _, _, front', c, back', rfl⟩ := hread e
  obtain ⟨rfl, rfl⟩ := brackets_eq hlast front front' back back'
  have hinside := level_inside ho hc front back hlevel
  have hpart := h.part hd he hinside (hmake front d back).2 (hmake front' c back').2
  rw [(hmake front d back).1, (hmake front' c back').1, hpart]

/-! ### Lists

Types and fields are listed in the same way, but they make lists of different things: what a
list builds is taken as a function. -/

section

variable (value : ∀ {j : Nat} {p q : List Token}, TokenDerivation n j p q → List m.Value)

/-- A list is an item alone, or an item, a comma and further items. -/
inductive IsList (d : TokenDerivation n k p q) : Prop where
  | one {i : Nat} (c : TokenDerivation m i p q) (htree : value d = [c.tree])
    (hparts : d.occurrences = d.root :: c.occurrences)
  | more {i j : Nat} {r : List Token} (c : TokenDerivation m i p (.comma :: r))
    (others : TokenDerivation n j r q) (htree : value d = c.tree :: value others)
    (hparts : d.occurrences = d.root :: c.occurrences ++ others.occurrences)

variable {value} {c : TokenDerivation m i p q} {e : TokenDerivation n j p q}
  (hlist : ∀ {j : Nat} {p q : List Token} (e : TokenDerivation n j p q), IsList value e)
  (hm : ¬ m.Allows .comma)

include hlist hm

/-- A list of one item has no comma on its level. -/
theorem value_one {d : TokenDerivation n k p q} (h : Determined c) (hd : d.Preferred)
    (he : e.Preferred) (hlevel : level p = level q) (htree : value d = [c.tree])
    (hparts : d.occurrences = d.root :: c.occurrences) : value d = value e := by
  cases hlist e with
  | one c' htree' hparts' => rw [htree, htree', h.part hd he hlevel hparts hparts']
  | more c' others' => exact (not_passes_comma c hm c' others' hlevel).elim

/-- A longer list is cut at its first comma. -/
theorem value_more {d : TokenDerivation n k p q} {c : TokenDerivation m i p (.comma :: r)} {l : Nat}
    {others : TokenDerivation n l r q} (h : Determined c) (hd : d.Preferred) (he : e.Preferred)
    (hothers : others.Preferred → level r = level q → ∀ {j : Nat} (e : TokenDerivation n j r q),
      e.Preferred → value others = value e)
    (hlevel : level p = level q) (htree : value d = c.tree :: value others)
    (hparts : d.occurrences = d.root :: c.occurrences ++ others.occurrences) :
    value d = value e := by
  have hcomma : level (.comma :: r) = level q := level_separator (.inl rfl) c others hlevel
  cases hlist e with
  | one c' => exact (not_passes_comma c' hm c others hlevel).elim
  | more c' others' htree' hparts' =>
    obtain rfl := comma_eq c others c' others' hm hlevel
    obtain ⟨-, hc, hd⟩ := (preferred_of_children hparts).mp hd
    obtain ⟨-, hc', he⟩ := (preferred_of_children hparts').mp he
    have hcons : level (.comma :: r) = level r - 0 := level_cons (.inl (by simp))
    rw [htree, htree', h hc (by omega) c' hc', hothers hd (by omega) others' he]

end

/-- A union is cut at its first bar. -/
theorem Determined.union {left : TokenDerivation .prefixed i p q} {bar : ReadsTokens .bar q x r}
    {right : TokenDerivation .type j r s} (hleft : Determined left) (hright : Determined right) :
    Determined (.union left bar right) := by
  intro hd hlevel j e he
  obtain rfl := alternative_eq _ e hd he (.inl rfl)
  obtain ⟨-, hl, hr⟩ := (preferred_of_children rfl).mp hd
  have hrise := level_of_read? bar rfl
  cases e with
  | union left' bar' right' =>
    obtain ⟨hroot, hl', hr'⟩ := (preferred_of_children rfl).mp he
    obtain rfl := eq_of_read?_mark rfl bar
    obtain rfl := eq_of_read?_mark rfl bar'
    -- the first operand of a union ends in no result, so it has no bar on its level
    have hspared := hroot.sparesResults.bar rfl rfl left' rfl right'
    have hbar := level_separator (.inr rfl) left' right' hlevel
    have hcalm := calm_prefixed left' rfl hl' hlevel hbar hspared
    obtain rfl := bar_eq left right left' right' hcalm hlevel
    exact congrArg₂ TypeExpr.union (hleft hl (by omega) left' hl') (hright hr (by omega) right' hr')

/-- The parameters of an arrow end at the parenthesis that closes them. -/
theorem Determined.arrow {y z : String} {u v : List Token} {opening : ReadsTokens .leftParen p x q}
    {params : TokenDerivation .maybeFields i q r} {closing : ReadsTokens .rightParen r y s}
    {sign : ReadsTokens .arrow s z u} {returns : TokenDerivation .type j u v}
    (hparams : Determined params) (hreturns : Determined returns) :
    Determined (.arrow opening params closing sign returns) := by
  intro hd hlevel j e he
  obtain rfl := alternative_eq _ e hd he (.inl rfl)
  obtain ⟨-, hp, hr⟩ := (preferred_of_children rfl).mp hd
  have hopening := level_of_read? opening rfl
  have hclosing := level_of_read? closing rfl
  have hsign := level_of_arrow sign (typeAhead_type returns)
  have hle := level_le params
  have hle' := level_le returns
  cases e with
  | arrow opening' params' closing' sign' returns' =>
    obtain ⟨-, hp', hr'⟩ := (preferred_of_children rfl).mp he
    have hsign' := level_of_arrow sign' (typeAhead_type returns')
    have hle'' := level_le returns'
    obtain ⟨-, rfl⟩ := eq_of_read? opening opening'
    obtain rfl := eq_of_read?_mark rfl closing
    obtain rfl := eq_of_read?_mark rfl closing'
    -- the parenthesis is the first one that leads back to the level
    obtain rfl := parens_eq params params' hopening (by omega) (by omega)
    obtain ⟨-, rfl⟩ := eq_of_read? sign sign'
    exact congrArg₂ TypeExpr.arrow (hparams hp (by omega) params' hp')
      (hreturns hr (by omega) returns' hr')

/-- An array is its operand with the brackets in which it ends. -/
theorem Determined.array {y : String} {d : TokenDerivation .suffixed i p q}
    {opening : ReadsTokens .leftBracket q x r} {closing : ReadsTokens .rightBracket r y s}
    (h : Determined d) : Determined (.array d opening closing) := by
  intro hd hlevel j e he
  obtain rfl := alternative_eq _ e hd he (.inr (.inr (.inl rfl)))
  have hopening := level_of_read? opening rfl
  have hclosing := level_of_read? closing rfl
  cases e with
  | array c opening' closing' =>
    obtain rfl := eq_of_read?_mark rfl closing
    obtain rfl := eq_of_read?_mark rfl closing'
    obtain rfl := eq_of_read?_stop opening opening' (by simp) (suffix d) (suffix c)
    exact congrArg (TypeExpr.generic "Array" [·]) (h.part hd he (by omega) rfl rfl)

/-- The sign behind the name of a container tells how its arguments are written. -/
theorem Determined.generic {y z : String} {u : List Token} {subject : ReadsTokens .name p x q}
    {opening : ReadsTokens .less q y r} {arguments : TokenDerivation .types i r s}
    {closing : ReadsTokens .greater s z u} (h : Determined arguments) :
    Determined (.generic subject opening arguments closing) := by
  intro hd hlevel j e he
  obtain rfl := alternative_eq _ e hd he (.inr (.inr (.inr rfl)))
  have hsubject := level_of_read? subject rfl
  have hinside := level_inside rfl rfl opening closing (by omega)
  cases e with
  | generic subject' opening' arguments' closing' =>
    obtain ⟨rfl, rfl⟩ := eq_of_read? subject subject'
    obtain ⟨rfl, rfl⟩ := brackets_eq rfl opening opening' closing closing'
    exact congrArg (TypeExpr.generic _) (h.part hd he hinside rfl rfl)
  | dottedGeneric subject' dot' =>
    obtain ⟨-, rfl⟩ := eq_of_read? subject subject'
    obtain ⟨_, rfl⟩ := eq_of_read?_dot dot'
    exact absurd (eq_of_read?_mark rfl opening) (by simp)

/-- Arguments behind a dot are written in no other way. -/
theorem Determined.dottedGeneric {y z w : String} {u v : List Token}
    {subject : ReadsTokens .name p x q} {dot : ReadsTokens .dot q y r}
    {opening : ReadsTokens .less r z s} {arguments : TokenDerivation .types i s u}
    {closing : ReadsTokens .greater u w v} (h : Determined arguments) :
    Determined (.dottedGeneric subject dot opening arguments closing) := by
  intro hd hlevel j e he
  obtain rfl := alternative_eq _ e hd he (.inr (.inr (.inr rfl)))
  have hsubject := level_of_read? subject rfl
  have hdot := level_of_read? dot rfl
  have hinside := level_inside rfl rfl opening closing (by omega)
  cases e with
  | generic subject' opening' =>
    obtain ⟨-, rfl⟩ := eq_of_read? subject subject'
    obtain ⟨_, rfl⟩ := eq_of_read?_dot dot
    exact absurd (eq_of_read?_mark rfl opening') (by simp)
  | dottedGeneric subject' dot' opening' arguments' closing' =>
    obtain ⟨rfl, rfl⟩ := eq_of_read? subject subject'
    obtain ⟨-, rfl⟩ := eq_of_read? dot dot'
    obtain ⟨rfl, rfl⟩ := brackets_eq rfl opening opening' closing closing'
    exact congrArg (TypeExpr.generic _) (h.part hd he hinside rfl rfl)

/-- A function type that ends with its parentheses has no result. -/
theorem Determined.function {y z : String} {u : List Token} {word : ReadsTokens .function p x q}
    {opening : ReadsTokens .leftParen q y r} {params : TokenDerivation .maybeTypes i r s}
    {closing : ReadsTokens .rightParen s z u} (h : Determined params) :
    Determined (.function word opening params closing) := by
  intro hd hlevel j e he
  obtain rfl := alternative_eq _ e hd he (.inr (.inr (.inr rfl)))
  have hword := level_of_read? word rfl
  have hopening := level_of_read? opening rfl
  have hinside := level_inside rfl rfl opening closing (by omega)
  cases e with
  | function word' opening' params' closing' =>
    obtain ⟨-, rfl⟩ := eq_of_read? word word'
    obtain ⟨rfl, rfl⟩ := brackets_eq rfl opening opening' closing closing'
    exact congrArg TypeExpr.function (h.part hd he hinside rfl rfl)
  -- a result would stand behind parentheses that end the stretch
  | functionReturning word' opening' params' closing' colon' returns' =>
    obtain ⟨-, rfl⟩ := eq_of_read? word word'
    obtain ⟨-, rfl⟩ := eq_of_read? opening opening'
    obtain rfl := eq_of_read?_mark rfl closing
    obtain rfl := eq_of_read?_mark rfl closing'
    obtain rfl := eq_of_read?_mark rfl colon'
    exact (not_returning params params' returns' (by omega)).elim

/-- The result of a function type starts behind the parentheses of its parameters. -/
theorem Determined.functionReturning {y z w : String} {u v o : List Token}
    {word : ReadsTokens .function p x q} {opening : ReadsTokens .leftParen q y r}
    {params : TokenDerivation .maybeTypes i r s} {closing : ReadsTokens .rightParen s z u}
    {colon : ReadsTokens .colon u w v} {returns : TokenDerivation .type j v o}
    (hparams : Determined params) (hreturns : Determined returns) :
    Determined (.functionReturning word opening params closing colon returns) := by
  intro hd hlevel l e he
  obtain rfl := alternative_eq _ e hd he (.inr (.inr (.inr rfl)))
  obtain ⟨-, hp, hr⟩ := (preferred_of_children rfl).mp hd
  have hword := level_of_read? word rfl
  have hopening := level_of_read? opening rfl
  have hclosing := level_of_read? closing rfl
  have hcolon := level_of_read? colon rfl
  have hle := level_le params
  have hle' := level_le returns
  cases e with
  -- and without a result the stretch would end at the parentheses
  | function word' opening' params' closing' =>
    obtain ⟨-, rfl⟩ := eq_of_read? word word'
    obtain ⟨-, rfl⟩ := eq_of_read? opening opening'
    obtain rfl := eq_of_read?_mark rfl closing
    obtain rfl := eq_of_read?_mark rfl closing'
    obtain rfl := eq_of_read?_mark rfl colon
    exact (not_returning params' params returns (by omega)).elim
  | functionReturning word' opening' params' closing' colon' returns' =>
    obtain ⟨-, hp', hr'⟩ := (preferred_of_children rfl).mp he
    have hcolon' := level_of_read? colon' rfl
    have hle'' := level_le returns'
    obtain ⟨-, rfl⟩ := eq_of_read? word word'
    obtain ⟨-, rfl⟩ := eq_of_read? opening opening'
    obtain rfl := eq_of_read?_mark rfl closing
    obtain rfl := eq_of_read?_mark rfl closing'
    obtain rfl := parens_eq params params' (show _ = level _ + 1 by omega) (by omega) (by omega)
    obtain ⟨-, rfl⟩ := eq_of_read? colon colon'
    exact congrArg₂ TypeExpr.functionReturning (hparams hp (by omega) params' hp')
      (hreturns hr (by omega) returns' hr')

/-- A name alone is no field with a type: nothing stands behind it. -/
theorem determined_bareField {label : ReadsTokens .name p x q} : Determined (.bareField label) := by
  intro _ _ j e _
  cases e with
  | bareField label' => exact congrArg Field.bare (eq_of_read? label label').1
  | typedField label' colon' type' =>
    obtain ⟨-, rfl⟩ := eq_of_read? label label'
    obtain rfl := eq_of_read?_mark rfl colon'
    exact absurd rfl (cons_ne_of_suffix (suffix type'))

/-- A field with a type is determined if the type is. -/
theorem Determined.typedField {y : String} {label : ReadsTokens .name p x q}
    {colon : ReadsTokens .colon q y r} {type : TokenDerivation .type i r s} (h : Determined type) :
    Determined (.typedField label colon type) := by
  intro hd hlevel j e he
  have hlabel := level_of_read? label rfl
  have hcolon := level_of_read? colon rfl
  cases e with
  | bareField label' =>
    obtain ⟨-, rfl⟩ := eq_of_read? label label'
    obtain rfl := eq_of_read?_mark rfl colon
    exact absurd rfl (cons_ne_of_suffix (suffix type))
  | typedField label' colon' type' =>
    obtain ⟨rfl, rfl⟩ := eq_of_read? label label'
    obtain ⟨-, rfl⟩ := eq_of_read? colon colon'
    exact congrArg (Field.typed _) (h.part hd he (by omega) rfl rfl)

theorem isList_types (d : TokenDerivation .types k p q) :
    IsList (m := .type) (fun d : TokenDerivation .types _ _ _ => d.tree) d := by
  cases d with
  | oneType only => exact .one only rfl rfl
  | moreTypes first comma others =>
    obtain rfl := eq_of_read?_mark rfl comma
    exact .more first others rfl rfl

theorem isList_fields (d : TokenDerivation .fields k p q) :
    IsList (m := .field) (fun d : TokenDerivation .fields _ _ _ => d.tree) d := by
  cases d with
  | oneField only => exact .one only rfl rfl
  | moreFields first comma others =>
    obtain rfl := eq_of_read?_mark rfl comma
    exact .more first others rfl rfl

/-- What the order of the alternatives and the levels of the brackets tell of each layer, they
tell of a whole derivation. -/
theorem determined (d : TokenDerivation n k p q) : Determined d := by
  induction d with
  -- types
  | operand d ih =>
    intro hd hlevel j e he
    obtain rfl := alternative_eq _ e hd he (.inl rfl)
    cases e with
    | operand e => exact ih.part hd he hlevel rfl rfl
  | union left bar right ih ih' => exact ih.union ih'
  | arrow opening params closing sign returns ih ih' => exact ih.arrow ih'
  -- operators in front
  | unmarked d ih =>
    intro hd hlevel j e he
    obtain rfl := alternative_eq _ e hd he (.inr (.inl rfl))
    cases e with
    | unmarked e => exact ih.part hd he hlevel rfl rfl
  | nullable mark d ih =>
    refine determined_marked ih .nullable (fun _ _ => ⟨rfl, rfl⟩) (fun e => ?_) rfl
    cases e with
    | nullable mark e => exact ⟨_, _, _, mark, e, rfl⟩
  | notNullable mark d ih =>
    refine determined_marked ih .notNullable (fun _ _ => ⟨rfl, rfl⟩) (fun e => ?_) rfl
    cases e with
    | notNullable mark e => exact ⟨_, _, _, mark, e, rfl⟩
  | variadic mark d ih =>
    refine determined_marked ih .variadic (fun _ _ => ⟨rfl, rfl⟩) (fun e => ?_) rfl
    cases e with
    | variadic mark e => exact ⟨_, _, _, mark, e, rfl⟩
  -- operators behind
  | plain d ih =>
    intro hd hlevel j e he
    obtain rfl := alternative_eq _ e hd he (.inr (.inr (.inl rfl)))
    cases e with
    | plain e => exact ih.part hd he hlevel rfl rfl
  | optional d mark ih =>
    refine determined_markedBehind ih .optional (fun _ _ => ⟨rfl, rfl⟩) (fun e => ?_) (by simp)
      (level_le_of_equals mark)
    cases e with
    | optional e mark => exact ⟨_, _, _, e, mark, rfl⟩
  | array d opening closing ih => exact ih.array
  | nullableBehind d mark ih =>
    have hmark := level_of_read? mark rfl
    refine determined_markedBehind ih .nullableBehind (fun _ _ => ⟨rfl, rfl⟩) (fun e => ?_)
      (by simp) (by omega)
    cases e with
    | nullableBehind e mark => exact ⟨_, _, _, e, mark, rfl⟩
  | notNullableBehind d mark ih =>
    have hmark := level_of_read? mark rfl
    refine determined_markedBehind ih .notNullableBehind (fun _ _ => ⟨rfl, rfl⟩) (fun e => ?_)
      (by simp) (by omega)
    cases e with
    | notNullableBehind e mark => exact ⟨_, _, _, e, mark, rfl⟩
  -- primaries
  | name word =>
    intro hd _ j e he
    obtain rfl := alternative_eq _ e hd he (.inr (.inr (.inr rfl)))
    cases e with
    | name word' => exact congrArg TypeExpr.name (eq_of_read? word word').1
  | generic subject opening arguments closing ih => exact ih.generic
  | dottedGeneric subject dot opening arguments closing ih => exact ih.dottedGeneric
  | tuple opening entries closing ih =>
    refine determined_between ih .tuple (fun _ _ _ => ⟨rfl, rfl⟩) (fun e => ?_) rfl rfl rfl
    cases e with
    | tuple opening e closing => exact ⟨_, _, _, _, _, opening, e, closing, rfl⟩
  | record opening fields closing ih =>
    refine determined_between ih .record (fun _ _ _ => ⟨rfl, rfl⟩) (fun e => ?_) rfl rfl rfl
    cases e with
    | record opening e closing => exact ⟨_, _, _, _, _, opening, e, closing, rfl⟩
  | function word opening params closing ih => exact ih.function
  | functionReturning word opening params closing colon returns ih ih' =>
    exact ih.functionReturning ih'
  | typeOf word value =>
    intro hd _ j e he
    obtain rfl := alternative_eq _ e hd he (.inr (.inr (.inr rfl)))
    cases e with
    | typeOf word' value' =>
      obtain ⟨-, rfl⟩ := eq_of_read? word word'
      exact congrArg TypeExpr.typeOf (eq_of_read? value value').1
  | parens opening inner closing ih =>
    refine determined_between ih .parens (fun _ _ _ => ⟨rfl, rfl⟩) (fun e => ?_) rfl rfl rfl
    cases e with
    | parens opening e closing => exact ⟨_, _, _, _, _, opening, e, closing, rfl⟩
  | any | unknown =>
    intro hd _ j e he
    obtain rfl := alternative_eq _ e hd he (.inr (.inr (.inr rfl)))
    cases e
    rfl
  | string literal =>
    intro hd _ j e he
    obtain rfl := alternative_eq _ e hd he (.inr (.inr (.inr rfl)))
    cases e with
    | string literal' => exact congrArg TypeExpr.string (eq_of_read? literal literal').1
  | number literal =>
    intro hd _ j e he
    obtain rfl := alternative_eq _ e hd he (.inr (.inr (.inr rfl)))
    cases e with
    | number literal' => exact congrArg TypeExpr.number (eq_of_read? literal literal').1
  -- lists, whose alternatives are told apart by a comma on the level
  | oneType only ih =>
    exact fun hd hlevel _ _ he => value_one isList_types (fun h => h rfl) ih hd he hlevel rfl rfl
  | moreTypes first comma others ih ih' =>
    obtain rfl := eq_of_read?_mark rfl comma
    exact fun hd hlevel _ _ he =>
      value_more isList_types (fun h => h rfl) ih hd he ih' hlevel rfl rfl
  | bareField => exact determined_bareField
  | typedField label colon type ih => exact ih.typedField
  | oneField only ih =>
    exact fun hd hlevel _ _ he => value_one isList_fields (fun h => h rfl) ih hd he hlevel rfl rfl
  | moreFields first comma others ih ih' =>
    obtain rfl := eq_of_read?_mark rfl comma
    exact fun hd hlevel _ _ he =>
      value_more isList_fields (fun h => h rfl) ih hd he ih' hlevel rfl rfl
  -- a list that is left out leaves no place for one
  | noTypes =>
    intro _ _ j e _
    cases e with
    | noTypes => rfl
    | someTypes e => exact absurd rfl (start_ne e (by simp) (by simp))
  | noFields =>
    intro _ _ j e _
    cases e with
    | noFields => rfl
    | someFields e => exact absurd rfl (start_ne e (by simp) (by simp))
  | someTypes d ih =>
    intro hd hlevel j e he
    cases e with
    | noTypes => exact absurd rfl (start_ne d (by simp) (by simp))
    | someTypes e => exact ih.part hd he hlevel rfl rfl
  | someFields d ih =>
    intro hd hlevel j e he
    cases e with
    | noFields => exact absurd rfl (start_ne d (by simp) (by simp))
    | someFields e => exact ih.part hd he hlevel rfl rfl

/-- Preferred derivations over one stretch, between places of one level, build the same tree. -/
theorem tree_eq (d : TokenDerivation n k p q) (e : TokenDerivation n j p q) (hd : d.Preferred)
    (he : e.Preferred) (hlevel : level p = level q) : d.tree = e.tree :=
  determined d hd hlevel e he

end TokenDerivation

end DocComment
