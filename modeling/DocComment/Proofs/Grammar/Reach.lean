import DocComment.Proofs.Grammar.Bodies
import DocComment.Proofs.Grammar.Rows

/-!
# How far readings reach

A reading blames a text at the furthest place that it tried. The rules of the grammar try a
terminal only where the bodies read so far ask for one, so that place expects a terminal
(`reachesOnly_readType`). One lemma for each way to combine readings says so of a sequence and
of alternatives, and the rules are put together from them; the table of rows is then right by
induction on the number of tokens.
-/

namespace DocComment

open Reading Rule

/-! ## The further of two places -/

/-- The further one of two is one of the two. -/
theorem Reach.left_of_further (a b : Reach) :
    (a.further b).left = a.left ∨ (a.further b).left = b.left := by
  unfold Reach.further
  split
  · exact .inl rfl
  · split
    · exact .inr rfl
    · exact .inl rfl

/-- What is joined reaches as far as one of the two. -/
theorem Reach.eq_some_of_join {a b : Option Reach} {reach : Reach}
    (h : Reach.join a b = some reach) :
    (∃ first, a = some first ∧ first.left = reach.left) ∨
      ∃ second, b = some second ∧ second.left = reach.left := by
  cases a with
  | none => exact .inr ⟨reach, h, rfl⟩
  | some first =>
    cases b with
    | none => exact .inl ⟨reach, h, rfl⟩
    | some second =>
      obtain rfl : first.further second = reach := Option.some.inj h
      rcases first.left_of_further second with hleft | hleft
      · exact .inl ⟨first, rfl, hleft.symm⟩
      · exact .inr ⟨second, rfl, hleft.symm⟩

/-! ## Combining readings -/

namespace Reading

variable {α β : Type} {tokens : List Token} {places : List Token → Prop}

/-- Where a reading tried terminals last is one of the given places. -/
def ReachesOnly (reading : Reading α) (places : List Token → Prop) : Prop :=
  ∀ reach, reading.reach = some reach → ∃ place, place.length = reach.left ∧ places place

theorem reachesOnly_none : (none : Reading α).ReachesOnly places := by
  intro reach h
  cases h

theorem reachesOnly_done (value : α) (tokens : List Token) :
    (done value tokens).ReachesOnly places := by
  intro reach h
  cases h

theorem reachesOnly_tried {terminals : List Terminal} (h : places tokens) :
    (tried terminals tokens : Reading α).ReachesOnly places := by
  intro reach hreach
  cases hreach
  exact ⟨tokens, rfl, h⟩

/-- Two readings that reach the places do so together. -/
theorem reachesOnly_join {first : Reading α} {second : Reading β} {ways : List (β × List Token)}
    (hfirst : first.ReachesOnly places) (hsecond : second.ReachesOnly places) :
    (⟨ways, Reach.join first.reach second.reach⟩ : Reading β).ReachesOnly places := by
  intro reach hreach
  rcases Reach.eq_some_of_join hreach with ⟨tried, htried, hleft⟩ | ⟨tried, htried, hleft⟩
  · rw [← hleft]
    exact hfirst tried htried
  · rw [← hleft]
    exact hsecond tried htried

theorem reachesOnly_orElse {first second : Reading α} (hfirst : first.ReachesOnly places)
    (hsecond : second.ReachesOnly places) : (first.orElse second).ReachesOnly places :=
  reachesOnly_join hfirst hsecond

/-- What goes on behind some ways reaches the places if it does behind each. -/
theorem reachesOnly_follow {next : α → List Token → Reading β} {ways : List (α × List Token)}
    (h : ∀ value rest, (value, rest) ∈ ways → (next value rest).ReachesOnly places) :
    (follow next ways).ReachesOnly places := by
  induction ways with
  | nil => exact reachesOnly_none
  | cons way ways ih =>
    refine reachesOnly_orElse (h _ _ List.mem_cons_self) (ih ?_)
    intro value rest hway
    exact h value rest (List.mem_cons_of_mem way hway)

theorem reachesOnly_andThen {first : Reading α} {next : α → List Token → Reading β}
    (hfirst : first.ReachesOnly places)
    (h : ∀ value rest, (value, rest) ∈ first.ways → (next value rest).ReachesOnly places) :
    (first.andThen next).ReachesOnly places :=
  reachesOnly_join hfirst (reachesOnly_follow h)

end Reading

namespace Rule

variable {α : Type} {tokens : List Token} {places : List Token → Prop}

theorem reachesOnly_pure (value : α) (tokens : List Token) :
    ((pure value : Rule α) tokens).ReachesOnly places :=
  reachesOnly_done value tokens

/-- Alternatives that reach the places do so together. -/
theorem reachesOnly_firstOf {rules : List (Rule α)}
    (h : ∀ rule ∈ rules, (rule tokens).ReachesOnly places) :
    (firstOf rules tokens).ReachesOnly places := by
  induction rules with
  | nil => exact reachesOnly_none
  | cons rule rules ih =>
    obtain ⟨hrule, hrules⟩ := List.forall_mem_cons.mp h
    exact reachesOnly_orElse hrule (ih hrules)

theorem reachesOnly_firstOf_two {first second : Rule α}
    (hfirst : (first tokens).ReachesOnly places) (hsecond : (second tokens).ReachesOnly places) :
    (firstOf [first, second] tokens).ReachesOnly places :=
  reachesOnly_orElse hfirst (reachesOnly_orElse hsecond reachesOnly_none)

end Rule

/-! ## Reading a body -/

section

variable {α : Type} {n m : Nonterminal} {p q start tokens : List Token} {t : Terminal} {x : String}
  {symbols : List Symbol}

/-- A nonterminal that is read from the first place expects a terminal at the second one. -/
abbrev ExpectsToken (n : Nonterminal) (start q : List Token) : Prop :=
  Expects Terminal.ReadsTokens n start q

abbrev BegunTokens (n : Nonterminal) (start : List Token) (rest : List Symbol) (q : List Token) :
    Prop :=
  Begun Terminal.ReadsTokens n start rest q

/-- Where a way of a covering reading ends, the nonterminal can be read to. -/
theorem Covers.derives {reading : Reading n.Value} (h : Covers n reading tokens) {value : n.Value}
    (hway : (value, q) ∈ reading.ways) : Derives Terminal.ReadsTokens n tokens q := by
  obtain ⟨k, d, -, -⟩ := h.sound hway
  exact d.derives

/-- A terminal of a body and what stands behind it. -/
theorem reachesOnly_terminal_andThen {next : String → List Token → Reading α}
    (begun : BegunTokens n start (.terminal t :: symbols) p)
    (h : ∀ x q, t.ReadsTokens p x q → BegunTokens n start symbols q →
      (next x q).ReachesOnly (ExpectsToken n start)) :
    ((terminal t p).andThen next).ReachesOnly (ExpectsToken n start) := by
  refine reachesOnly_andThen ?_ ?_
  · intro reach hreach
    cases hreach
    exact ⟨p, rfl, .here begun⟩
  · intro x q hway
    have hread : t.ReadsTokens p x q := by simpa [terminal] using hway
    exact h x q hread (begun.terminal hread)

/-- Where a nonterminal comes next, what it expects is expected by the nonterminal around it. -/
theorem reachesOnly_within {reading : Reading α}
    (begun : BegunTokens n start (.nonterminal m :: symbols) p)
    (h : reading.ReachesOnly (ExpectsToken m p)) : reading.ReachesOnly (ExpectsToken n start) := by
  intro reach hreach
  obtain ⟨place, hlength, hplace⟩ := h reach hreach
  exact ⟨place, hlength, .within begun hplace⟩

/-- A reading covers a nonterminal and reaches only places where the nonterminal expects a
terminal. -/
structure Traces (n : Nonterminal) (reading : Reading n.Value) (tokens : List Token) : Prop where
  covers : Covers n reading tokens
  reaches : reading.ReachesOnly (ExpectsToken n tokens)

/-- Where a part of a body is tried, the whole nonterminal expects the terminal too. -/
theorem Traces.reachesOnly {reading : Reading m.Value} (h : Traces m reading p)
    (begun : BegunTokens n start (.nonterminal m :: symbols) p) :
    reading.ReachesOnly (ExpectsToken n start) :=
  reachesOnly_within begun h.reaches

/-- A nonterminal of a body and what stands behind it. -/
theorem Traces.reachesOnly_andThen {reading : Reading m.Value}
    {next : m.Value → List Token → Reading α} (h : Traces m reading p)
    (begun : BegunTokens n start (.nonterminal m :: symbols) p)
    (hnext : ∀ value q, q <:+ p → BegunTokens n start symbols q →
      (next value q).ReachesOnly (ExpectsToken n start)) :
    (reading.andThen next).ReachesOnly (ExpectsToken n start) := by
  refine Reading.reachesOnly_andThen (h.reachesOnly begun) ?_
  intro value q hway
  exact hnext value q (h.covers.ordered.suffix hway)
    (begun.nonterminal (h.covers.derives hway))

end

variable {n : Nonterminal} {p q tokens : List Token} {t : Terminal} {x : String}

/-- The row of a place covers its nonterminals and reaches only where they expect a terminal. -/
structure Row.Traces (row : Row) (tokens : List Token) : Prop where
  prefixed : DocComment.Traces .prefixed row.prefixed tokens
  type : DocComment.Traces .type row.type tokens
  types : DocComment.Traces .types row.types tokens
  moreTypes : DocComment.Traces .types row.moreTypes tokens
  fields : DocComment.Traces .fields row.fields tokens
  moreFields : DocComment.Traces .fields row.moreFields tokens

theorem Row.Traces.covers {row : Row} (h : row.Traces tokens) : row.Covers tokens where
  prefixed := h.prefixed.covers
  type := h.type.covers
  types := h.types.covers
  moreTypes := h.moreTypes.covers
  fields := h.fields.covers
  moreFields := h.moreFields.covers

/-- The rows behind a place are traced. -/
def TracesBehind (row : List Token → Row) (tokens : List Token) : Prop :=
  ∀ rest, rest <:+ tokens → rest.length < tokens.length → (row rest).Traces rest

section

variable {row : List Token → Row}

theorem TracesBehind.covers (h : TracesBehind row tokens) : CoversBehind row tokens := by
  intro rest hrest hlength
  exact (h rest hrest hlength).covers

/-- The row behind a terminal. -/
theorem TracesBehind.behind (h : TracesBehind row tokens) (hp : p <:+ tokens)
    (hread : t.ReadsTokens p x q) : (row q).Traces q :=
  h q ((Terminal.suffix_of_read? hread).trans hp)
    (Nat.lt_of_lt_of_le (Terminal.length_read?_lt hread) hp.length_le)

end

namespace Grammar

variable {row : List Token → Row}

/-! ## Primaries -/

theorem reachesOnly_optionalList {n m : Nonterminal} {α : Type} {items : Rule (List α)}
    (h : (items tokens).ReachesOnly (ExpectsToken m tokens)) (hbody : [.nonterminal m] ∈ n.bodies) :
    (optionalList items tokens).ReachesOnly (ExpectsToken n tokens) :=
  reachesOnly_firstOf_two (reachesOnly_within (.start hbody tokens) h) (reachesOnly_pure [] tokens)

theorem traces_laterTypes (h : (row tokens).Traces tokens) :
    Traces .maybeTypes (laterTypes row tokens) tokens where
  covers := covers_laterTypes h.covers
  reaches := reachesOnly_optionalList h.types.reaches (by simp [Nonterminal.bodies])

theorem traces_laterFields (h : (row tokens).Traces tokens) :
    Traces .maybeFields (laterFields row tokens) tokens where
  covers := covers_laterFields h.covers
  reaches := reachesOnly_optionalList h.fields.reaches (by simp [Nonterminal.bodies])

/-- Arguments are tried where a container expects them. -/
theorem reachesOnly_arguments (h : TracesBehind row tokens) (hp : p <:+ tokens) (subject : String)
    (begun : BegunTokens .primary tokens
      [.terminal .less, .nonterminal .types, .terminal .greater] p) :
    (arguments row subject p).ReachesOnly (ExpectsToken .primary tokens) := by
  refine reachesOnly_terminal_andThen begun ?_
  intro _ q hq begun
  refine (h.behind hp hq).types.reachesOnly_andThen begun ?_
  intro _ r _ begun
  exact reachesOnly_terminal_andThen begun fun _ s _ _ => reachesOnly_pure _ s

theorem reachesOnly_generic (h : TracesBehind row tokens) :
    (generic row tokens).ReachesOnly (ExpectsToken .primary tokens) := by
  have begun : BegunTokens .primary tokens [.terminal .name, .terminal .less, .nonterminal .types,
      .terminal .greater] tokens := .start (by simp [Nonterminal.bodies]) tokens
  have dotted : BegunTokens .primary tokens [.terminal .name, .terminal .dot, .terminal .less,
      .nonterminal .types, .terminal .greater] tokens :=
    .start (by simp [Nonterminal.bodies]) tokens
  refine reachesOnly_terminal_andThen begun ?_
  intro subject q hq begun
  have hsuffix := Terminal.suffix_of_read? hq
  refine reachesOnly_firstOf_two (reachesOnly_arguments h hsuffix subject begun) ?_
  refine reachesOnly_terminal_andThen (dotted.terminal hq) ?_
  intro _ r hr dotted
  exact reachesOnly_arguments h ((Terminal.suffix_of_read? hr).trans hsuffix) subject dotted

/-- A nonterminal between an opening and a closing sign. -/
theorem reachesOnly_between {m : Nonterminal} {opening closing : Terminal} {inner : Rule m.Value}
    {build : m.Value → TypeExpr}
    (hinner : ∀ {x q}, opening.ReadsTokens tokens x q → Traces m (inner q) q)
    (hbody : [.terminal opening, .nonterminal m, .terminal closing] ∈ Nonterminal.primary.bodies) :
    ((do
      let _ ← terminal opening
      let value ← inner
      let _ ← terminal closing
      return build value : Rule TypeExpr) tokens).ReachesOnly (ExpectsToken .primary tokens) := by
  refine reachesOnly_terminal_andThen (.start hbody tokens) ?_
  intro _ q hq begun
  refine (hinner hq).reachesOnly_andThen begun ?_
  intro _ r _ begun
  exact reachesOnly_terminal_andThen begun fun _ s _ _ => reachesOnly_pure _ s

theorem reachesOnly_tuple (h : TracesBehind row tokens) :
    (tuple row tokens).ReachesOnly (ExpectsToken .primary tokens) :=
  reachesOnly_between (fun hq => traces_laterTypes (h.behind (List.suffix_refl _) hq))
    (by simp [Nonterminal.bodies])

theorem reachesOnly_record (h : TracesBehind row tokens) :
    (record row tokens).ReachesOnly (ExpectsToken .primary tokens) :=
  reachesOnly_between (fun hq => traces_laterFields (h.behind (List.suffix_refl _) hq))
    (by simp [Nonterminal.bodies])

theorem reachesOnly_parens (h : TracesBehind row tokens) :
    (parens row tokens).ReachesOnly (ExpectsToken .primary tokens) :=
  reachesOnly_between (fun hq => (h.behind (List.suffix_refl _) hq).type)
    (by simp [Nonterminal.bodies])

/-- A function type is tried up to its parentheses, and then a colon and a result. -/
theorem reachesOnly_function (h : TracesBehind row tokens) :
    (function row tokens).ReachesOnly (ExpectsToken .primary tokens) := by
  -- the longer of the two bodies has all that the shorter one asks for
  have begun : BegunTokens .primary tokens [.terminal .function, .terminal .leftParen,
      .nonterminal .maybeTypes, .terminal .rightParen, .terminal .colon, .nonterminal .type]
      tokens := .start (by simp [Nonterminal.bodies]) tokens
  refine reachesOnly_terminal_andThen begun ?_
  intro _ q hq begun
  have hq := Terminal.suffix_of_read? hq
  refine reachesOnly_terminal_andThen begun ?_
  intro _ r hr begun
  refine (traces_laterTypes (h.behind hq hr)).reachesOnly_andThen begun ?_
  intro params s hs begun
  have hs := hs.trans ((Terminal.suffix_of_read? hr).trans hq)
  refine reachesOnly_terminal_andThen begun ?_
  intro _ u hu begun
  refine reachesOnly_firstOf_two (reachesOnly_pure _ u) ?_
  refine reachesOnly_terminal_andThen begun ?_
  intro _ v hv begun
  have hu := (Terminal.suffix_of_read? hu).trans hs
  exact (h.behind hu hv).type.reachesOnly_andThen begun fun _ w _ _ => reachesOnly_pure _ w

theorem reachesOnly_typeOf :
    (typeOf tokens).ReachesOnly (ExpectsToken .primary tokens) := by
  have begun : BegunTokens .primary tokens [.terminal .typeOf, .terminal .name] tokens :=
    .start (by simp [Nonterminal.bodies]) tokens
  refine reachesOnly_terminal_andThen begun ?_
  intro _ q _ begun
  exact reachesOnly_terminal_andThen begun fun _ r _ _ => reachesOnly_pure _ r

theorem reachesOnly_atom {build : String → TypeExpr}
    (hbody : [.terminal t] ∈ Nonterminal.primary.bodies) :
    (atom t build tokens).ReachesOnly (ExpectsToken .primary tokens) :=
  reachesOnly_terminal_andThen (.start hbody tokens) fun _ q _ _ => reachesOnly_pure _ q

/-- The reading of a primary tries terminals only where one is expected. -/
theorem traces_primary (h : TracesBehind row tokens) :
    Traces .primary (primary row tokens) tokens where
  covers := covers_primary h.covers
  reaches := by
    refine reachesOnly_firstOf ?_
    simp only [List.forall_mem_cons, List.not_mem_nil, false_implies, implies_true, and_true]
    refine ⟨?_, ?_, ?_, ?_, ?_, ?_, ?_, ?_, ?_, ?_, ?_⟩
    · exact reachesOnly_atom (by simp [Nonterminal.bodies])
    · exact reachesOnly_generic h
    · exact reachesOnly_tuple h
    · exact reachesOnly_record h
    · exact reachesOnly_function h
    · exact reachesOnly_typeOf
    · exact reachesOnly_parens h
    all_goals exact reachesOnly_atom (by simp [Nonterminal.bodies])

/-! ## Operands and types -/

/-- Each operator behind an operand is tried where the operand ends. -/
theorem reachesOnly_suffixes {stops : List Nat} {start tokens : List Token} (operand : TypeExpr)
    (hoperand : Derives Terminal.ReadsTokens .suffixed start tokens) :
    (suffixes stops operand tokens).ReachesOnly (ExpectsToken .suffixed start) := by
  have begun {symbols : List Symbol}
      (hbody : .nonterminal .suffixed :: symbols ∈ Nonterminal.suffixed.bodies) :
      BegunTokens .suffixed start symbols tokens :=
    (Begun.start hbody start).nonterminal hoperand
  have equals : BegunTokens .suffixed start [.terminal .equals] tokens :=
    begun (by simp [Nonterminal.bodies])
  have brackets : BegunTokens .suffixed start [.terminal .leftBracket, .terminal .rightBracket]
      tokens := begun (by simp [Nonterminal.bodies])
  have question : BegunTokens .suffixed start [.terminal .question] tokens :=
    begun (by simp [Nonterminal.bodies])
  have bang : BegunTokens .suffixed start [.terminal .bang] tokens :=
    begun (by simp [Nonterminal.bodies])
  -- an operand with one more operator is an operand, and fewer tokens are left
  have hgrown {operand : TypeExpr} {rest : List Token}
      (hoperand : Derives Terminal.ReadsTokens .suffixed start rest)
      (hlength : rest.length < tokens.length) :
      (grown stops operand rest (suffixes stops operand rest)).ReachesOnly
        (ExpectsToken .suffixed start) := by
    unfold grown
    split
    · exact reachesOnly_none
    · exact reachesOnly_orElse (reachesOnly_done operand rest)
        (reachesOnly_suffixes operand hoperand)
  rw [suffixes.eq_def]
  refine reachesOnly_orElse (reachesOnly_tried (.here equals)) ?_
  split
  · next flag rest =>
    have hmark : Terminal.equals.ReadsTokens (.equals flag :: rest) "=" rest := rfl
    exact hgrown ((equals.terminal hmark).derives .nil) (Nat.lt_succ_self _)
  · next rest =>
    have hopening : Terminal.leftBracket.ReadsTokens (.leftBracket :: .rightBracket :: rest) "["
        (.rightBracket :: rest) := rfl
    have hclosing : Terminal.rightBracket.ReadsTokens (.rightBracket :: rest) "]" rest := rfl
    exact hgrown (((brackets.terminal hopening).terminal hclosing).derives .nil)
      (Nat.lt_succ_of_lt (Nat.lt_succ_self _))
  · next rest _ =>
    have hopening : Terminal.leftBracket.ReadsTokens (.leftBracket :: rest) "[" rest := rfl
    exact reachesOnly_tried (.here (brackets.terminal hopening))
  · next rest =>
    have hmark : Terminal.question.ReadsTokens (.question :: rest) "?" rest := rfl
    exact hgrown ((question.terminal hmark).derives .nil) (Nat.lt_succ_self _)
  · next rest =>
    have hmark : Terminal.bang.ReadsTokens (.bang :: rest) "!" rest := rfl
    exact hgrown ((bang.terminal hmark).derives .nil) (Nat.lt_succ_self _)
  · exact reachesOnly_none
termination_by tokens.length

/-- The reading of an operand with operators tries terminals only where one is expected. -/
theorem traces_suffixed (h : Traces .primary (primary row tokens) tokens) :
    Traces .suffixed (suffixed row tokens) tokens where
  covers := covers_suffixed h.covers
  reaches := by
    have begun : BegunTokens .suffixed tokens [.nonterminal .primary] tokens :=
      .start (by simp [Nonterminal.bodies]) tokens
    refine reachesOnly_orElse (h.reachesOnly begun) (reachesOnly_follow ?_)
    intro value rest hway
    exact reachesOnly_suffixes value ((begun.nonterminal (h.covers.derives hway)).derives .nil)

theorem reachesOnly_prefixOperator {build : TypeExpr → TypeExpr} (h : TracesBehind row tokens)
    (hbody : [.terminal t, .nonterminal .prefixed] ∈ Nonterminal.prefixed.bodies) :
    (prefixOperator row t build tokens).ReachesOnly (ExpectsToken .prefixed tokens) := by
  refine reachesOnly_terminal_andThen (.start hbody tokens) ?_
  intro _ q hq begun
  exact (h.behind (List.suffix_refl _) hq).prefixed.reachesOnly_andThen begun
    fun _ r _ _ => reachesOnly_pure _ r

/-- The reading of an operand tries terminals only where one is expected. -/
theorem traces_prefixed (h : TracesBehind row tokens) :
    Traces .prefixed (prefixed row tokens) tokens where
  covers := covers_prefixed h.covers
  reaches := by
    have begun : BegunTokens .prefixed tokens [.nonterminal .suffixed] tokens :=
      .start (by simp [Nonterminal.bodies]) tokens
    refine reachesOnly_firstOf ?_
    simp only [List.forall_mem_cons, List.not_mem_nil, false_implies, implies_true, and_true]
    refine ⟨(traces_suffixed (traces_primary h)).reachesOnly begun, ?_, ?_, ?_⟩
    all_goals exact reachesOnly_prefixOperator h (by simp [Nonterminal.bodies])

theorem reachesOnly_union {operand : Rule TypeExpr} (h : TracesBehind row tokens)
    (hoperand : Traces .prefixed (operand tokens) tokens) :
    (union row operand tokens).ReachesOnly (ExpectsToken .type tokens) := by
  have begun : BegunTokens .type tokens
      [.nonterminal .prefixed, .terminal .bar, .nonterminal .type] tokens :=
    .start (by simp [Nonterminal.bodies]) tokens
  refine hoperand.reachesOnly_andThen begun ?_
  intro _ q hq begun
  refine reachesOnly_terminal_andThen begun ?_
  intro _ r hr begun
  exact (h.behind hq hr).type.reachesOnly_andThen begun fun _ s _ _ => reachesOnly_pure _ s

/-- An arrow is tried one symbol behind the other. -/
theorem reachesOnly_arrow (h : TracesBehind row tokens) :
    (arrow row tokens).ReachesOnly (ExpectsToken .type tokens) := by
  -- the body is begun, and each step has read one more of its symbols
  have begun : BegunTokens .type tokens [.terminal .leftParen, .nonterminal .maybeFields,
      .terminal .rightParen, .terminal .arrow, .nonterminal .type] tokens :=
    .start (by simp [Nonterminal.bodies]) tokens
  refine reachesOnly_terminal_andThen begun ?_
  intro _ q hq begun
  refine (traces_laterFields (h.behind (List.suffix_refl _) hq)).reachesOnly_andThen begun ?_
  intro _ r hr begun
  have hr := hr.trans (Terminal.suffix_of_read? hq)
  refine reachesOnly_terminal_andThen begun ?_
  intro _ s hs begun
  have hs := (Terminal.suffix_of_read? hs).trans hr
  refine reachesOnly_terminal_andThen begun ?_
  intro _ u hu begun
  exact (h.behind hs hu).type.reachesOnly_andThen begun fun _ v _ _ => reachesOnly_pure _ v

/-- The reading of a type tries terminals only where one is expected. -/
theorem traces_type {operand : Rule TypeExpr} (h : TracesBehind row tokens)
    (hoperand : Traces .prefixed (operand tokens) tokens) :
    Traces .type (type row operand tokens) tokens where
  covers := covers_type h.covers hoperand.covers
  reaches := by
    have begun : BegunTokens .type tokens [.nonterminal .prefixed] tokens :=
      .start (by simp [Nonterminal.bodies]) tokens
    refine reachesOnly_firstOf ?_
    simp only [List.forall_mem_cons, List.not_mem_nil, false_implies, implies_true, and_true]
    exact ⟨hoperand.reachesOnly begun, reachesOnly_union h hoperand, reachesOnly_arrow h⟩

theorem traces_field (h : TracesBehind row tokens) :
    Traces .field (field row tokens) tokens where
  covers := covers_field h.covers
  reaches := by
    have begun : BegunTokens .field tokens [.terminal .name, .terminal .colon, .nonterminal .type]
        tokens := .start (by simp [Nonterminal.bodies]) tokens
    refine reachesOnly_terminal_andThen begun ?_
    intro _ q hq begun
    refine reachesOnly_firstOf_two (reachesOnly_pure _ q) ?_
    refine reachesOnly_terminal_andThen begun ?_
    intro _ r hr begun
    exact (h.behind (Terminal.suffix_of_read? hq) hr).type.reachesOnly_andThen begun
      fun _ s _ _ => reachesOnly_pure _ s

/-! ## Lists -/

theorem reachesOnly_oneItem {n m : Nonterminal} {item : Rule m.Value}
    (hitem : Traces m (item tokens) tokens) (hbody : [.nonterminal m] ∈ n.bodies) :
    (oneItem item tokens).ReachesOnly (ExpectsToken n tokens) :=
  hitem.reachesOnly_andThen (.start hbody tokens) fun _ q _ _ => reachesOnly_pure _ q

theorem reachesOnly_itemAndMore {n m : Nonterminal} {item : Rule m.Value}
    {more : Rule (List m.Value)} (hitem : Traces m (item tokens) tokens)
    (hmore : ∀ {q x r}, q <:+ tokens → Terminal.comma.ReadsTokens q x r →
      (more r).ReachesOnly (ExpectsToken n r))
    (hbody : [.nonterminal m, .terminal .comma, .nonterminal n] ∈ n.bodies) :
    (itemAndMore item more tokens).ReachesOnly (ExpectsToken n tokens) := by
  refine hitem.reachesOnly_andThen (.start hbody tokens) ?_
  intro _ q hq begun
  refine reachesOnly_terminal_andThen begun ?_
  intro _ r hr begun
  refine reachesOnly_andThen (reachesOnly_within begun (hmore hq hr)) ?_
  intro _ s _
  exact reachesOnly_pure _ s

/-! ## The table -/

/-- A row made from traced rows is traced. -/
theorem traces_rowAt (h : TracesBehind row tokens) : (rowAt row tokens).Traces tokens := by
  have hcovers := covers_rowAt h.covers
  have htype : Traces .type (type row (fun _ => prefixed row tokens) tokens) tokens :=
    traces_type h (traces_prefixed h)
  have hfield := traces_field h
  have oneType : (oneItem (fun _ => type row (fun _ => prefixed row tokens) tokens)
      tokens).ReachesOnly (ExpectsToken .types tokens) :=
    reachesOnly_oneItem htype (by simp [Nonterminal.bodies])
  have moreTypes : (itemAndMore (fun _ => type row (fun _ => prefixed row tokens) tokens)
      (fun rest => (row rest).moreTypes) tokens).ReachesOnly (ExpectsToken .types tokens) :=
    reachesOnly_itemAndMore htype (fun hq hr => (h.behind hq hr).moreTypes.reaches)
      (by simp [Nonterminal.bodies])
  have oneField : (oneItem (field row) tokens).ReachesOnly (ExpectsToken .fields tokens) :=
    reachesOnly_oneItem hfield (by simp [Nonterminal.bodies])
  have moreFields : (itemAndMore (field row) (fun rest => (row rest).moreFields)
      tokens).ReachesOnly (ExpectsToken .fields tokens) :=
    reachesOnly_itemAndMore hfield (fun hq hr => (h.behind hq hr).moreFields.reaches)
      (by simp [Nonterminal.bodies])
  -- a list expects what its item and the list behind it expect, whichever alternative is preferred
  constructor
  · exact traces_prefixed h
  · exact htype
  · exact ⟨hcovers.types, reachesOnly_firstOf_two moreTypes oneType⟩
  · exact ⟨hcovers.moreTypes, reachesOnly_firstOf_two oneType moreTypes⟩
  · exact ⟨hcovers.fields, reachesOnly_firstOf_two moreFields oneField⟩
  · exact ⟨hcovers.moreFields, reachesOnly_firstOf_two oneField moreFields⟩

/-- Reading a type reaches only places where a type expects a terminal. -/
theorem reachesOnly_readType (tokens : List Token) :
    (readType tokens).ReachesOnly (ExpectsToken .type tokens) := by
  have hrow : (lookUp (rows tokens) tokens).Traces tokens :=
    lookUp_rows_of_rowAt (fun _ _ => traces_rowAt) tokens
  exact hrow.type.reaches

end Grammar

end DocComment
