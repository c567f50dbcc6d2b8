import DocComment.Proofs.Grammar.Operands
import DocComment.Proofs.Writing.Tokens

/-!
# Written trees can be read

The tokens of a tree lie on the level of what follows them (`level_tokens`), and
the grammar derives them on the layer of the tree (`Formed.readable`). What is
read in this way need not be the tree that was written; but where an operand
ends that was written, an operand can be read.
-/

namespace DocComment

open Token TypeExpr

/-! ## Pending equals signs -/

/-- Equals signs in front of tokens. -/
def Token.equalsSigns : Nat → List Token → List Token
  | 0, rest => rest
  | n + 1, rest => equalsBefore (equalsSigns n rest)

variable {n : Nat} {k : Nat} {r : List Token}

namespace Token

theorem equalsSigns_equalsBefore (n : Nat) (rest : List Token) :
    equalsSigns n (equalsBefore rest) = equalsSigns (n + 1) rest := by
  induction n with
  | zero => rfl
  | succ n ih => exact congrArg equalsBefore ih

/-- Equals signs can follow a tree if what is behind them can. -/
theorem delimit_equalsSigns (n : Nat) (h : delimit r = true) :
    delimit (equalsSigns n r) = true := by
  induction n with
  | zero => exact h
  | succ n ih => exact ih

theorem suffix_equalsSigns (n : Nat) (rest : List Token) : rest <:+ equalsSigns n rest := by
  induction n with
  | zero => exact List.suffix_refl rest
  | succ n ih => exact ih.trans (List.suffix_cons _ _)

/-- No type begins with what can follow a tree. -/
theorem typeAhead_of_delimit (h : delimit r = true) : typeAhead r = false := by
  unfold delimit at h
  split at h
  all_goals
    first
    | rfl
    | exact absurd h Bool.false_ne_true

/-- What can follow a tree is no place that cannot. -/
theorem ne_of_delimit {p : List Token} (h : delimit r = true) (hp : delimit p = false) :
    r ≠ p := by
  intro heq
  rw [heq, hp] at h
  exact absurd h Bool.false_ne_true

/-- An equals sign in front of what can follow a tree is no arrow. -/
theorem level_equalsBefore (h : delimit r = true) : level (equalsBefore r) = level r := by
  by_cases hhead : r.head? = some .greater
  · -- the two look like an arrow, but no type begins behind them
    obtain ⟨rest, rfl⟩ : ∃ rest, r = .greater :: rest := by
      rcases r with _ | ⟨token, rest⟩
      · simp at hhead
      · exact ⟨rest, by simpa using hhead⟩
    have hrest : typeAhead rest = false := typeAhead_of_delimit h
    have hgreater : level (.greater :: rest) = level rest + 1 := by simp [level_cons, Token.rise]
    have hequals : level (equalsBefore (.greater :: rest)) =
        level rest + if typeAhead rest then 0 else 1 := rfl
    rw [hgreater, hequals, hrest]
    rfl
  · rw [equalsBefore, level_cons (.inr hhead)]
    exact Int.sub_zero _

/-- Equals signs do not change the level. -/
theorem level_equalsSigns (n : Nat) (h : delimit r = true) : level (equalsSigns n r) = level r := by
  induction n with
  | zero => rfl
  | succ n ih => exact (level_equalsBefore (delimit_equalsSigns n h)).trans ih

end Token

/-! ## Levels -/

namespace TypeExpr

theorem level_ellipsisBefore (rest : List Token) : level (ellipsisBefore rest) = level rest := by
  simp [ellipsisBefore, level_cons, Token.rise]

theorem level_arrow_tokens (t : TypeExpr) (r : List Token) :
    level (.equals true :: .greater :: t.tokens r) = level (t.tokens r) := by
  simp [level, typeAhead_tokens]

mutual

/-- The tokens of a tree lie on the level of what follows them. -/
theorem level_tokens : (t : TypeExpr) → (r : List Token) → delimit r = true →
    level (t.tokens r) = level r
  | name _, r, _ | string _, r, _ | number _, r, _ | any, r, _ | unknown, r, _
  | typeOf _, r, _ => by
    simp [tokens, level_cons, Token.rise]
  | union left right, r, h => by
    have hleft := level_tokens left (.bar :: right.tokens r) rfl
    have hright := level_tokens right r h
    simp [tokens, level_cons, Token.rise, hleft, hright]
  | optional inner, r, h => (level_tokens inner (equalsBefore r) h).trans (level_equalsBefore h)
  | nullable inner, r, h | notNullable inner, r, h => by
    have hinner := level_tokens inner r h
    simp [tokens, level_cons, Token.rise, hinner]
  | variadic inner, r, h => (level_ellipsisBefore _).trans (level_tokens inner r h)
  | parens inner, r, _ => by
    have hinner := level_tokens inner (.rightParen :: r) rfl
    simp [tokens, level_cons, Token.rise, hinner]
  | generic _ arguments, r, h => by
    have harguments := level_tokensOfAll arguments (.greater :: r) h
    simp [tokens, level_cons, Token.rise, harguments]
  | tuple entries, r, _ => by
    have hentries := level_tokensOfAll entries (.rightBracket :: r) rfl
    simp [tokens, level_cons, Token.rise, hentries]
  | record fields, r, _ => by
    have hfields := level_tokensOfFields fields (.rightBrace :: r) rfl
    simp [tokens, level_cons, Token.rise, hfields]
  | function params, r, _ => by
    have hparams := level_tokensOfAll params (.rightParen :: r) rfl
    simp [tokens, level_cons, Token.rise, hparams]
  | functionReturning params returns, r, h => by
    have hparams := level_tokensOfAll params (.rightParen :: .colon :: returns.tokens r) rfl
    have hreturns := level_tokens returns r h
    simp [tokens, level_cons, Token.rise, hparams, hreturns]
  -- the `>` of an arrow closes nothing: a type can begin behind it
  | arrow params returns, r, h => by
    have hparams := level_tokensOfFields params
      (.rightParen :: .equals true :: .greater :: returns.tokens r) rfl
    have hreturns := level_tokens returns r h
    have harrow := level_arrow_tokens returns r
    simp [tokens, level_cons, Token.rise, hparams, harrow, hreturns]

/-- A list of types lies on the level of what follows. -/
theorem level_tokensOfAll : (ts : List TypeExpr) → (r : List Token) → delimit r = true →
    level (tokensOfAll ts r) = level r
  | [], _, _ => rfl
  | [t], r, h => level_tokens t r h
  | t :: u :: ts, r, h => by
    have hfirst := level_tokens t (.comma :: tokensOfAll (u :: ts) r) rfl
    have hothers := level_tokensOfAll (u :: ts) r h
    rw [tokensOfAll, hfirst, level_cons (.inl (by simp)), hothers]
    exact Int.sub_zero _

theorem level_tokensOfField : (f : Field) → (r : List Token) → delimit r = true →
    level (tokensOfField f r) = level r
  | .bare _, r, _ => by simp [tokensOfField, level_cons, Token.rise]
  | .typed _ type, r, h => by
    have htype := level_tokens type r h
    simp [tokensOfField, level_cons, Token.rise, htype]

/-- A list of fields lies on the level of what follows. -/
theorem level_tokensOfFields : (fs : List Field) → (r : List Token) → delimit r = true →
    level (tokensOfFields fs r) = level r
  | [], _, _ => rfl
  | [f], r, h => level_tokensOfField f r h
  | f :: g :: fs, r, h => by
    have hfirst := level_tokensOfField f (.comma :: tokensOfFields (g :: fs) r) rfl
    have hothers := level_tokensOfFields (g :: fs) r h
    rw [tokensOfFields, hfirst, level_cons (.inl (by simp)), hothers]
    exact Int.sub_zero _

end

end TypeExpr

/-! ## Derivations -/

/-- Tokens lead to others on the level of the others, and can be read there. -/
def Nonterminal.Spans (n : Nonterminal) (p q : List Token) : Prop :=
  ∃ k, Nonempty (TokenDerivation n k p q)

open Nonterminal

/-- Equals signs behind an operand are read along with it. -/
theorem spans_optionals {p : List Token} (h : Spans .suffixed p (equalsSigns n r)) :
    Spans .suffixed p r := by
  induction n with
  | zero => exact h
  | succ n ih =>
    rcases h with ⟨k, ⟨d⟩⟩
    exact ih ⟨_, ⟨.optional d rfl⟩⟩

theorem calm_equalsSigns {base : Int} (hr : delimit r = true) (hbase : level r = base) :
    Calm base (equalsSigns n r) r := by
  induction n with
  | zero => exact Along.refl r
  | succ n ih =>
    have hlevel := level_equalsSigns (n + 1) hr
    have hfirst : Calm base (equalsSigns (n + 1) r) (equalsSigns n r) :=
      calm_terminal (t := .equals) rfl (by omega) (by simp)
    exact hfirst.trans ih (List.suffix_cons _ _)

namespace TypeExpr

/-- The tokens of a tree can be read on its layer. Those of a primary are
compact, and those of an operand that ends in no result are calm. -/
def Readable : Nonterminal → TypeExpr → Prop
  | .primary, t => ∀ r, delimit r = true →
    Spans .primary (t.tokens r) r ∧ Compact (level r) (t.tokens r) r
  | .suffixed, t => ∀ n r, delimit r = true →
    Spans .prefixed (t.tokens (equalsSigns n r)) r ∧
      Calm (level r) (t.tokens (equalsSigns n r)) r
  | .prefixed, t => ∀ r, delimit r = true →
    Spans .prefixed (t.tokens r) r ∧
      (t.endsInResult = false → Calm (level r) (t.tokens r) r)
  | .type, t => ∀ r, delimit r = true → Spans .type (t.tokens r) r
  | _, _ => True

variable {ts : List TypeExpr} {fs : List Field} {t : TypeExpr}

/-! ### Lists -/

/-- Readable types can be read as a list. -/
theorem spans_types (hne : ts ≠ []) (h : ∀ t ∈ ts, Readable .type t) (hr : delimit r = true) :
    Spans .types (tokensOfAll ts r) r := by
  induction ts with
  | nil => exact absurd rfl hne
  | cons t ts ih =>
    rcases ts with _ | ⟨u, us⟩
    · rcases h t List.mem_cons_self r hr with ⟨k, ⟨d⟩⟩
      exact ⟨_, ⟨.oneType d⟩⟩
    · rcases h t List.mem_cons_self (.comma :: tokensOfAll (u :: us) r) rfl with ⟨k, ⟨d⟩⟩
      rcases ih (List.cons_ne_nil u us) fun v hv => h v (List.mem_cons_of_mem t hv) with ⟨j, ⟨e⟩⟩
      exact ⟨_, ⟨.moreTypes d rfl e⟩⟩

theorem spans_maybeTypes (h : ∀ t ∈ ts, Readable .type t) (hr : delimit r = true) :
    Spans .maybeTypes (tokensOfAll ts r) r := by
  by_cases hne : ts = []
  · subst hne
    exact ⟨_, ⟨.noTypes⟩⟩
  · rcases spans_types hne h hr with ⟨k, ⟨d⟩⟩
    exact ⟨_, ⟨.someTypes d⟩⟩

theorem spans_field {f : Field} (h : ∀ t, f.type? = some t → Readable .type t)
    (hr : delimit r = true) : Spans .field (tokensOfField f r) r := by
  cases f with
  | bare label => exact ⟨_, ⟨.bareField rfl⟩⟩
  | typed label type =>
    rcases h type rfl r hr with ⟨k, ⟨d⟩⟩
    exact ⟨_, ⟨.typedField rfl rfl d⟩⟩

/-- Fields with readable types can be read as a list. -/
theorem spans_fields (hne : fs ≠ []) (h : ∀ f ∈ fs, ∀ t, f.type? = some t → Readable .type t)
    (hr : delimit r = true) : Spans .fields (tokensOfFields fs r) r := by
  induction fs with
  | nil => exact absurd rfl hne
  | cons f fs ih =>
    rcases fs with _ | ⟨g, gs⟩
    · rcases spans_field (h f List.mem_cons_self) hr with ⟨k, ⟨d⟩⟩
      exact ⟨_, ⟨.oneField d⟩⟩
    · obtain ⟨k, ⟨d⟩⟩ := spans_field (r := .comma :: tokensOfFields (g :: gs) r)
        (h f List.mem_cons_self) rfl
      rcases ih (List.cons_ne_nil g gs) fun v hv => h v (List.mem_cons_of_mem f hv) with ⟨j, ⟨e⟩⟩
      exact ⟨_, ⟨.moreFields d rfl e⟩⟩

theorem spans_maybeFields (h : ∀ f ∈ fs, ∀ t, f.type? = some t → Readable .type t)
    (hr : delimit r = true) : Spans .maybeFields (tokensOfFields fs r) r := by
  by_cases hne : fs = []
  · subst hne
    exact ⟨_, ⟨.noFields⟩⟩
  · rcases spans_fields hne h hr with ⟨k, ⟨d⟩⟩
    exact ⟨_, ⟨.someFields d⟩⟩

/-! ### Trees -/

/-- A primary can be read if it can be derived and ends in no result. -/
theorem readable_primary (t : TypeExpr)
    (h : ∀ r, delimit r = true → ∃ k, ∃ d : TokenDerivation .primary k (t.tokens r) r,
      d.tree.endsInResult = false) : Readable .primary t := by
  intro r hr
  rcases h r hr with ⟨k, d, hresult⟩
  exact ⟨⟨k, ⟨d⟩⟩, TokenDerivation.compact d (level_tokens t r hr) rfl hresult⟩

/-- A sign in front of an operand. -/
theorem calm_sign {p q : List Token} {base : Int} {sign : Terminal} {x : String}
    (h : Calm base q r) (hread : sign.read? p = some (x, q))
    (hsign : sign = .question ∨ sign = .bang) (hq : level q = base) : Calm base p r := by
  have hp : level p = base := by
    rcases hsign with rfl | rfl
    · have hlevel := level_of_read? hread rfl
      omega
    · have hlevel := level_of_read? hread rfl
      omega
  have hfirst : Calm base p q := calm_terminal hread (Int.le_of_eq hp.symm) (by tauto)
  exact hfirst.trans h (Terminal.suffix_of_read? hread)

/-- Every tree of a layer can be read from its tokens on that layer. -/
theorem Formed.readable {n : Nonterminal} (h : Formed True n t) : Readable n t := by
  induction h with
  | name => exact readable_primary _ fun r _ => ⟨_, .name rfl, rfl⟩
  | string => exact readable_primary _ fun r _ => ⟨_, .string rfl, rfl⟩
  | number => exact readable_primary _ fun r _ => ⟨_, .number rfl, rfl⟩
  | any => exact readable_primary _ fun r _ => ⟨_, .any rfl, rfl⟩
  | unknown => exact readable_primary _ fun r _ => ⟨_, .unknown rfl, rfl⟩
  | typeOf => exact readable_primary _ fun r _ => ⟨_, .typeOf rfl rfl, rfl⟩
  | parens _ ih =>
    refine readable_primary _ fun r _ => ?_
    rcases ih (.rightParen :: r) rfl with ⟨k, ⟨d⟩⟩
    exact ⟨_, .parens rfl d rfl, rfl⟩
  | tuple _ ih =>
    refine readable_primary _ fun r _ => ?_
    rcases spans_maybeTypes (r := .rightBracket :: r) ih rfl with ⟨k, ⟨d⟩⟩
    exact ⟨_, .tuple rfl d rfl, rfl⟩
  | record _ _ ih =>
    refine readable_primary _ fun r _ => ?_
    rcases spans_maybeFields (r := .rightBrace :: r) ih rfl with ⟨k, ⟨d⟩⟩
    exact ⟨_, .record rfl d rfl, rfl⟩
  | generic _ hne _ ih =>
    refine readable_primary _ fun r hr => ?_
    rcases spans_types (r := .greater :: r) hne ih hr with ⟨k, ⟨d⟩⟩
    exact ⟨_, .generic rfl rfl d rfl, rfl⟩
  | function _ ih =>
    refine readable_primary _ fun r _ => ?_
    rcases spans_maybeTypes (r := .rightParen :: r) ih rfl with ⟨k, ⟨d⟩⟩
    exact ⟨_, .function rfl rfl d rfl, rfl⟩
  | @plain t _ ih =>
    intro n r hr
    rcases ih (equalsSigns n r) (delimit_equalsSigns n hr) with ⟨⟨k, ⟨d⟩⟩, hcompact⟩
    have hlevel := level_equalsSigns n hr
    have hcalm := hcompact.calm (level_tokens t _ (delimit_equalsSigns n hr)) (typeAhead_tokens t _)
    rw [hlevel] at hcalm
    -- the pending equals signs are read behind the primary
    rcases spans_optionals ⟨_, ⟨.plain d⟩⟩ with ⟨j, ⟨e⟩⟩
    exact ⟨⟨_, ⟨.unmarked e⟩⟩,
      hcalm.trans (calm_equalsSigns hr rfl) (TokenDerivation.suffix d)⟩
  | optional _ ih => exact fun n r hr => ih (n + 1) r hr
  | @nullableBehind t _ _ ih =>
    -- a mark that stood behind the operand is written in front of it
    intro n r hr
    rcases ih n r hr with ⟨⟨k, ⟨d⟩⟩, hcalm⟩
    have hlevel := (level_tokens t _ (delimit_equalsSigns n hr)).trans (level_equalsSigns n hr)
    exact ⟨⟨_, ⟨.nullable rfl d⟩⟩, calm_sign hcalm rfl (.inl rfl) hlevel⟩
  | @notNullableBehind t _ _ ih =>
    intro n r hr
    rcases ih n r hr with ⟨⟨k, ⟨d⟩⟩, hcalm⟩
    have hlevel := (level_tokens t _ (delimit_equalsSigns n hr)).trans (level_equalsSigns n hr)
    exact ⟨⟨_, ⟨.notNullable rfl d⟩⟩, calm_sign hcalm rfl (.inr rfl) hlevel⟩
  | unmarked _ ih =>
    intro r hr
    rcases ih 0 r hr with ⟨hspans, hcalm⟩
    exact ⟨hspans, fun _ => hcalm⟩
  | functionReturning _ _ ih ih' =>
    intro r hr
    rcases spans_maybeTypes (r := .rightParen :: .colon :: _) ih rfl with ⟨j, ⟨d⟩⟩
    rcases ih' r hr with ⟨k, ⟨e⟩⟩
    refine ⟨⟨_, ⟨.unmarked (.plain (.functionReturning rfl rfl d rfl rfl e))⟩⟩, fun hresult => ?_⟩
    exact Bool.noConfusion (show true = false from hresult)
  | @nullable t _ _ ih =>
    intro r hr
    rcases ih r hr with ⟨⟨k, ⟨d⟩⟩, hcalm⟩
    exact ⟨⟨_, ⟨.nullable rfl d⟩⟩,
      fun hresult => calm_sign (hcalm hresult) rfl (.inl rfl) (level_tokens t r hr)⟩
  | @notNullable t _ ih =>
    intro r hr
    rcases ih r hr with ⟨⟨k, ⟨d⟩⟩, hcalm⟩
    exact ⟨⟨_, ⟨.notNullable rfl d⟩⟩,
      fun hresult => calm_sign (hcalm hresult) rfl (.inr rfl) (level_tokens t r hr)⟩
  | @variadic t _ ih =>
    intro r hr
    rcases ih r hr with ⟨⟨k, ⟨d⟩⟩, hcalm⟩
    have hlevel : level (ellipsisBefore (t.tokens r)) = level r :=
      (level_ellipsisBefore _).trans (level_tokens t r hr)
    have hread : Terminal.ReadsTokens .ellipsis (ellipsisBefore (t.tokens r)) "..." (t.tokens r) :=
      rfl
    have hfirst := calm_ellipsis hread (Int.le_of_eq hlevel.symm)
    exact ⟨⟨_, ⟨.variadic hread d⟩⟩,
      fun hresult => hfirst.trans (hcalm hresult) (Terminal.suffix_of_read? hread)⟩
  | operand _ ih =>
    intro r hr
    rcases ih r hr with ⟨⟨k, ⟨d⟩⟩, -⟩
    exact ⟨_, ⟨.operand d⟩⟩
  | union _ _ _ ih ih' =>
    intro r hr
    rcases ih' r hr with ⟨k, ⟨e⟩⟩
    rcases ih (.bar :: _) rfl with ⟨⟨j, ⟨d⟩⟩, -⟩
    exact ⟨_, ⟨.union d rfl e⟩⟩
  | arrow _ _ _ ih ih' =>
    intro r hr
    rcases ih' r hr with ⟨k, ⟨e⟩⟩
    obtain ⟨j, ⟨d⟩⟩ := spans_maybeFields (r := .rightParen :: .equals true :: .greater :: _) ih rfl
    exact ⟨_, ⟨.arrow rfl d rfl rfl e⟩⟩

end TypeExpr

end DocComment
