import DocComment.Proofs.Grammar.Levels

/-!
# What stands on the level of an operand

Behind its first token a primary has on its own level only the tokens that lead
into its brackets, unless it is a function type with a result (`Compact`). So a
colon or a bar on the level of an operand stands behind the colon of a result
(`calm_or_colon`), and an operand that ends in no result has neither.
-/

namespace DocComment

open Terminal Token

variable {n : Nonterminal} {k : Nat} {p q r m : List Token} {x : String} {base : Int}

/-! ## Primaries -/

/-- Whether a token can stand on the level of a primary behind its first token. -/
def Token.leadsIn : Token → Bool
  | less | leftParen | name _ | dot _ => true
  | _ => false

/-- Behind the first place only tokens that lead into brackets stand on the
level. -/
def Compact (base : Int) (p q : List Token) : Prop :=
  Along (fun m => m = p ∨ OnLevel base (·.leadsIn = true) m) p q

theorem Compact.single (token : Token) (p : List Token) : Compact base (token :: p) p :=
  Along.single (.inl rfl)

/-- One more token that leads into brackets. -/
theorem Compact.cons {token next : Token} (h : Compact base (next :: p) q)
    (hnext : next.leadsIn = true) (hlevel : level (next :: p) = base) :
    Compact base (token :: next :: p) q := by
  refine Along.cons (.inl rfl) (h.mono fun m hm => .inr ?_)
  rcases hm with rfl | hm
  · refine ⟨Int.le_of_eq hlevel.symm, fun _ first hfirst => ?_⟩
    obtain rfl : first = next := by simpa using hfirst.symm
    exact hnext
  · exact hm

theorem compact_of_brackets (h : Along (fun m => m = p ∨ base < level m) p q) :
    Compact base p q :=
  h.mono fun _ hm => hm.imp_right .of_lt

namespace TokenDerivation

/-- A primary that is no function type with a result is compact. -/
theorem compact (d : TokenDerivation .primary k p q) (hp : level p = base) (hq : level q = base)
    (hresult : d.tree.endsInResult = false) : Compact base p q := by
  cases d with
  | name word =>
    obtain rfl := eq_of_read?_name word
    exact Compact.single _ q
  | string literal =>
    obtain rfl := eq_of_read?_string literal
    exact Compact.single _ q
  | number literal =>
    obtain rfl := eq_of_read?_number literal
    exact Compact.single _ q
  | any mark | unknown mark =>
    obtain rfl := eq_of_read?_mark rfl mark
    exact Compact.single _ q
  | tuple opening d closing | record opening d closing | parens opening d closing =>
    exact compact_of_brackets (along_enclosed opening rfl d closing rfl hp hq)
  | generic subject opening d closing =>
    -- the name stays on the level, and all between the brackets is above it
    have hsubject := level_of_read? subject rfl
    have hbrackets := along_enclosed opening rfl d closing rfl (show _ = base by omega) hq
    obtain rfl := eq_of_read?_name subject
    obtain rfl := eq_of_read?_mark rfl opening
    exact (compact_of_brackets hbrackets).cons rfl (by omega)
  | dottedGeneric subject dot opening d closing =>
    have hsubject := level_of_read? subject rfl
    have hdot := level_of_read? dot rfl
    have hbrackets := along_enclosed opening rfl d closing rfl (show _ = base by omega) hq
    obtain rfl := eq_of_read?_name subject
    rcases eq_of_read?_dot dot with ⟨b, rfl⟩
    obtain rfl := eq_of_read?_mark rfl opening
    exact ((compact_of_brackets hbrackets).cons rfl (by omega)).cons rfl (by omega)
  | function word opening d closing =>
    have hword := level_of_read? word rfl
    have hbrackets := along_enclosed opening rfl d closing rfl (show _ = base by omega) hq
    obtain rfl := eq_of_read?_function word
    obtain rfl := eq_of_read?_mark rfl opening
    exact (compact_of_brackets hbrackets).cons rfl (by omega)
  | functionReturning => exact Bool.noConfusion (show true = false from hresult)
  | typeOf word value =>
    have hword := level_of_read? word rfl
    obtain rfl := eq_of_read?_typeOf word
    obtain rfl := eq_of_read?_name value
    exact (Compact.single _ q).cons rfl (by omega)

/-- A function type with a result is compact up to its colon. -/
theorem compact_colon (d : TokenDerivation .primary k p q) (hp : level p = base)
    (hq : level q = base) (hresult : d.tree.endsInResult = true) :
    ∃ c, q <:+ c ∧ .colon :: c <:+ p ∧ level (.colon :: c) = base ∧
      Compact base p (.colon :: c) := by
  cases d with
  | functionReturning word opening d closing colon e =>
    have hword := level_of_read? word rfl
    have hopening := level_of_read? opening rfl
    have hclosing := level_of_read? closing rfl
    have hcolon := level_of_read? colon rfl
    have hd := level_le d
    have he := level_le e
    have hplace := ((suffix_of_read? closing).trans (suffix d)).trans
      ((suffix_of_read? opening).trans (suffix_of_read? word))
    -- the parentheses of the parameters are all that stands in front of the colon
    have hbrackets := along_enclosed opening rfl d closing rfl (show _ = base by omega)
      (show _ = base by omega)
    obtain rfl := eq_of_read?_function word
    obtain rfl := eq_of_read?_mark rfl opening
    obtain rfl := eq_of_read?_mark rfl colon
    refine ⟨_, suffix e, hplace, by omega, ?_⟩
    exact (compact_of_brackets hbrackets).cons rfl (by omega)
  | _ => exact absurd hresult Bool.false_ne_true

end TokenDerivation

/-! ## Operands -/

/-- Neither a colon nor a bar stands on the level. -/
def Calm (base : Int) (p q : List Token) : Prop :=
  Along (OnLevel base fun token => token ≠ .colon ∧ token ≠ .bar) p q

/-- What leads into brackets is neither a colon nor a bar. -/
theorem Compact.calm (h : Compact base p q) (hp : level p = base) (hahead : typeAhead p = true) :
    Calm base p q := by
  refine h.mono fun m hm => ?_
  rcases hm with rfl | hm
  · refine ⟨Int.le_of_eq hp.symm, fun _ token htoken => ?_⟩
    simp only [typeAhead, htoken, Option.any_some] at hahead
    constructor <;> rintro rfl <;> simp [opensType] at hahead
  · refine hm.mono fun token htoken => ?_
    constructor <;> rintro rfl <;> simp [leadsIn] at htoken

theorem Calm.trans (h : Calm base p q) (h' : Calm base q r) (hq : q <:+ p) : Calm base p r :=
  Along.trans h h' hq

/-- Signs in front of an operand and operators behind it are no colons and no
bars. -/
theorem calm_terminal {t : Terminal} (h : t.read? p = some (x, q)) (hle : base ≤ level p)
    (ht : t = .question ∨ t = .bang ∨ t = .equals ∨ t = .leftBracket ∨ t = .rightBracket) :
    Calm base p q := by
  rcases exists_token h (by rintro rfl; simp at ht) (by rintro rfl; simp at ht) with ⟨token, rfl⟩
  refine Along.single ⟨hle, fun _ first hfirst => ?_⟩
  obtain rfl : first = token := by simpa using hfirst.symm
  constructor <;> rintro rfl <;> rcases ht with rfl | rfl | rfl | rfl | rfl <;> simp [read?] at h

/-- The dots of an ellipsis are calm. -/
theorem calm_ellipsis (h : ellipsis.read? p = some (x, q)) (hle : base ≤ level p) :
    Calm base p q := by
  rcases eq_of_read?_ellipsis h with ⟨b, c, rfl⟩
  have hlevel : level (.dot b :: .dot c :: q) = level (.dot true :: .dot b :: .dot c :: q) ∧
      level (.dot c :: q) = level (.dot true :: .dot b :: .dot c :: q) := by
    simp [level_cons, Token.rise]
  refine Along.cons ⟨hle, fun _ token htoken => ?_⟩ (Along.cons ⟨by omega, fun _ token htoken => ?_⟩
    (Along.single ⟨by omega, fun _ token htoken => ?_⟩))
  all_goals
    obtain rfl := Option.some.inj htoken
    simp

/-- The place of a colon on the level, with no bar and no other colon in front of
it on the level. -/
def FirstColon (base : Int) (p q c : List Token) : Prop :=
  q <:+ c ∧ .colon :: c <:+ p ∧ level (.colon :: c) = base ∧ Calm base p (.colon :: c)

theorem FirstColon.cons_calm {c : List Token} (h : FirstColon base q r c) (hcalm : Calm base p q)
    (hq : q <:+ p) : FirstColon base p r c :=
  ⟨h.1, h.2.1.trans hq, h.2.2.1, hcalm.trans h.2.2.2 hq⟩

/-- On the level there is neither a colon nor a bar, or there is a colon in front
of all bars. -/
def CalmOrColon (base : Int) (p q : List Token) : Prop :=
  Calm base p q ∨ ∃ c, FirstColon base p q c

/-- A calm stretch behind changes nothing about the first colon. -/
theorem CalmOrColon.append_calm (h : CalmOrColon base p q) (hq : q <:+ p) (hcalm : Calm base q r)
    (hr : r <:+ q) : CalmOrColon base p r := by
  rcases h with h | ⟨c, hqc, h⟩
  · exact .inl (h.trans hcalm hq)
  · exact .inr ⟨c, hr.trans hqc, h⟩

/-- A calm stretch in front changes nothing about the first colon. -/
theorem CalmOrColon.cons_calm (h : CalmOrColon base q r) (hcalm : Calm base p q) (hq : q <:+ p) :
    CalmOrColon base p r := by
  rcases h with h | ⟨c, h⟩
  · exact .inl (hcalm.trans h hq)
  · exact .inr ⟨c, h.cons_calm hcalm hq⟩

namespace TokenDerivation

/-- A primary on one level is calm, or the colon of its result stands in front of all bars. -/
theorem calm_or_colon_primary (d : TokenDerivation .primary k p q) (hp : level p = base)
    (hq : level q = base) : CalmOrColon base p q := by
  have hahead : Token.typeAhead p = true := by simpa using typeAhead d
  -- only a function type with a result has a colon on its level
  cases hresult : d.tree.endsInResult with
  | false => exact .inl ((compact d hp hq hresult).calm hp hahead)
  | true =>
    rcases compact_colon d hp hq hresult with ⟨c, hqc, hcp, hlevel, hcompact⟩
    exact .inr ⟨c, hqc, hcp, hlevel, hcompact.calm hp hahead⟩

/-- Operators behind a primary are calm. -/
theorem calm_or_colon_suffixed (d : TokenDerivation n k p q) (hn : n = .suffixed)
    (hp : level p = base) (hq : level q = base) : CalmOrColon base p q := by
  induction d with
  | plain d => exact calm_or_colon_primary d hp hq
  | optional d mark ih =>
    have hmark := level_le_of_equals mark
    have hd := level_le d
    have hcalm := calm_terminal mark (show base ≤ _ by omega) (by simp)
    exact (ih rfl hp (by omega)).append_calm (suffix d) hcalm (suffix_of_read? mark)
  | array d opening closing ih =>
    have hopening := level_of_read? opening rfl
    have hclosing := level_of_read? closing rfl
    have hd := level_le d
    have hcalm := calm_terminal opening (show base ≤ _ by omega) (by simp)
    have hcalm' := calm_terminal closing (show base ≤ _ by omega) (by simp)
    exact (ih rfl hp (by omega)).append_calm (suffix d)
      (hcalm.trans hcalm' (suffix_of_read? opening))
      ((suffix_of_read? closing).trans (suffix_of_read? opening))
  | nullableBehind d mark ih | notNullableBehind d mark ih =>
    have hmark := level_of_read? mark rfl
    have hcalm := calm_terminal mark (show base ≤ _ by omega) (by simp)
    exact (ih rfl hp (by omega)).append_calm (suffix d) hcalm (suffix_of_read? mark)
  | _ => simp at hn

/-- On the level of an operand there is neither a colon nor a bar, or there is a
colon in front of all bars. -/
theorem calm_or_colon (d : TokenDerivation n k p q) (hn : n = .prefixed) (hp : level p = base)
    (hq : level q = base) : CalmOrColon base p q := by
  induction d with
  | unmarked d => exact calm_or_colon_suffixed d rfl hp hq
  | nullable mark d ih | notNullable mark d ih =>
    have hmark := level_of_read? mark rfl
    have hcalm := calm_terminal mark (Int.le_of_eq hp.symm) (by simp)
    exact (ih rfl (by omega) hq).cons_calm hcalm (suffix_of_read? mark)
  | variadic mark d ih =>
    have hmark := level_of_read? mark rfl
    have hcalm := calm_ellipsis mark (Int.le_of_eq hp.symm)
    exact (ih rfl (by omega) hq).cons_calm hcalm (suffix_of_read? mark)
  | _ => simp at hn

end TokenDerivation

end DocComment
