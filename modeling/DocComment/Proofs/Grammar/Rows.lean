import DocComment.Proofs.Grammar.Suffixes

/-!
# The table of readings

The row of a place lists derivations: each of its ways is the tree of a preferred
derivation, and wherever some derivation ends, a way ends (`covers_lookUp_rows`). The
rules are taken one by one, given that the rows behind the place are right; the
table is then right by induction on the number of tokens.
-/

namespace DocComment

open Reading Rule Terminal DocComment.Derivation

variable {n : Nonterminal} {tokens : List Token}

/-- The row of a place is right. -/
structure Row.Covers (row : Row) (tokens : List Token) : Prop where
  prefixed : DocComment.Covers .prefixed row.prefixed tokens
  type : DocComment.Covers .type row.type tokens
  types : DocComment.Covers .types row.types tokens
  moreTypes : DocComment.Covers .types row.moreTypes tokens
  fields : DocComment.Covers .fields row.fields tokens
  moreFields : DocComment.Covers .fields row.moreFields tokens

/-- The rows behind a place are right. -/
def CoversBehind (row : List Token → Row) (tokens : List Token) : Prop :=
  ∀ rest, rest <:+ tokens → rest.length < tokens.length → (row rest).Covers rest

/-- Rows that are right behind a place are right behind later places. -/
theorem CoversBehind.of_suffix {row : List Token → Row} {rest : List Token}
    (h : CoversBehind row tokens) (hrest : rest <:+ tokens) : CoversBehind row rest :=
  fun later hlater hlength =>
    h later (hlater.trans hrest) (Nat.lt_of_lt_of_le hlength hrest.length_le)

/-- The row behind a terminal is right. -/
theorem CoversBehind.behind {row : List Token → Row} {t : Terminal} {p q : List Token} {x : String}
    (h : CoversBehind row tokens) (hp : p <:+ tokens) (hq : ReadsTokens t p x q) :
    (row q).Covers q :=
  h q ((suffix_of_read? hq).trans hp) (Nat.lt_of_lt_of_le (length_read?_lt hq) hp.length_le)

/-! ## Derivations as values

Types and fields are listed in the same way, but they make lists of different things. What is
said of both takes what a derivation builds as a function. -/

section

variable {α : Type} {k : Nat}

/-- What `Covers` says, with the tree of a derivation as a value of some type. -/
def CoversAs (value : ∀ k rest, TokenDerivation n k tokens rest → α) (reading : Reading α) :
    Prop :=
  reading.Spec tokens
    (fun result rest => ∃ k, ∃ d : TokenDerivation n k tokens rest,
      value k rest d = result ∧ d.Preferred)
    (fun rest => ∃ k, Nonempty (TokenDerivation n k tokens rest))

/-- What `CoversAlternative` says, with the tree of a derivation as a value of some type. -/
def CoversAlternativeAs (value : ∀ rest, TokenDerivation n k tokens rest → α)
    (reading : Reading α) : Prop :=
  reading.Spec tokens
    (fun result rest => ∃ d : TokenDerivation n k tokens rest,
      value rest d = result ∧ (d.root.IsFirst ReadsTokens → d.Preferred))
    (fun rest => Nonempty (TokenDerivation n k tokens rest))

end

namespace Grammar

variable {row : List Token → Row} {α : Type}

/-! ## Primaries -/

/-- A list that may be left out, given how both derivations of it are made. -/
theorem covers_optionalList {m : Nonterminal} {items : Rule (List α)}
    (inner : ∀ k rest, TokenDerivation m k tokens rest → List α)
    (value : ∀ k rest, TokenDerivation n k tokens rest → List α) (hn : ¬ n.Layered)
    (h : CoversAs inner (items tokens)) (left : TokenDerivation n 0 tokens tokens)
    (hleft : value 0 tokens left = [] ∧ left.occurrences = [left.root])
    (make : ∀ {k rest}, TokenDerivation m k tokens rest → TokenDerivation n 1 tokens rest)
    (hmake : ∀ {k rest} (d : TokenDerivation m k tokens rest),
      value 1 rest (make d) = inner k rest d ∧
        (make d).occurrences = (make d).root :: d.occurrences)
    (hread : ∀ {k rest}, TokenDerivation n k tokens rest →
      (∃ j, Nonempty (TokenDerivation m j tokens rest)) ∨ rest = tokens) :
    CoversAs value (optionalList items tokens) := by
  refine (spec_firstOf_two h (spec_pure [] tokens)).mono ?_ ?_
  · intro list rest _ hlist
    rcases hlist with ⟨k, d, rfl, hd⟩ | ⟨rfl, rfl⟩
    · exact ⟨1, make d, (hmake d).1,
        (preferred_of_child (hmake d).2).mpr ⟨fun h => absurd h hn, hd⟩⟩
    · exact ⟨0, left, hleft.1, (preferred_of_leaf hleft.2).mpr fun h => absurd h hn⟩
  · intro rest hlist
    rcases hlist with ⟨k, ⟨d⟩⟩
    exact hread d

theorem covers_laterTypes (h : (row tokens).Covers tokens) :
    Covers .maybeTypes (laterTypes row tokens) tokens := by
  refine covers_optionalList (m := .types) (n := .maybeTypes) (fun _ _ d => d.tree)
    (fun _ _ d => d.tree) (by simp [Nonterminal.Layered]) h.types .noTypes ⟨rfl, rfl⟩
    .someTypes (fun _ => ⟨rfl, rfl⟩) fun d => ?_
  cases d with
  | noTypes => exact .inr rfl
  | someTypes d => exact .inl ⟨_, ⟨d⟩⟩

theorem covers_laterFields (h : (row tokens).Covers tokens) :
    Covers .maybeFields (laterFields row tokens) tokens := by
  refine covers_optionalList (m := .fields) (n := .maybeFields) (fun _ _ d => d.tree)
    (fun _ _ d => d.tree) (by simp [Nonterminal.Layered]) h.fields .noFields
    ⟨rfl, rfl⟩ .someFields (fun _ => ⟨rfl, rfl⟩) fun d => ?_
  cases d with
  | noFields => exact .inr rfl
  | someFields d => exact .inl ⟨_, ⟨d⟩⟩

/-- Arguments are read between their signs. -/
theorem spec_arguments (h : CoversBehind row tokens) (subject : String) :
    (arguments row subject tokens).Spec tokens
      (fun value rest => ∃ x q k r y, ReadsTokens .less tokens x q ∧
        (∃ d : TokenDerivation .types k q r, value = .generic subject d.tree ∧ d.Preferred) ∧
        ReadsTokens .greater r y rest)
      (fun rest => ∃ x q k r y, ReadsTokens .less tokens x q ∧
        Nonempty (TokenDerivation .types k q r) ∧ ReadsTokens .greater r y rest) := by
  refine (spec_terminal_andThen fun _ q hq => spec_andThen
    (h.behind (List.suffix_refl _) hq).types fun _ r _ _ =>
      spec_terminal_andThen fun _ s _ => spec_pure _ s).mono ?_ ?_
  · intro value rest _ hread
    rcases hread with ⟨x, q, opening, _, r, -, ⟨k, d, rfl, hd⟩, y, _, closing, rfl, rfl⟩
    exact ⟨x, q, k, r, y, opening, ⟨d, rfl, hd⟩, closing⟩
  · intro rest hread
    rcases hread with ⟨x, q, k, r, y, opening, hd, closing⟩
    exact ⟨x, q, opening, r, ⟨k, hd⟩, fun _ _ => ⟨y, rest, closing, rfl⟩⟩

/-- Both spellings of a container are one alternative. -/
theorem covers_generic (h : CoversBehind row tokens) :
    CoversAlternative .primary 1 (generic row tokens) tokens := by
  refine (spec_terminal_andThen fun subject q hq => spec_firstOf_two
    (spec_arguments (h.of_suffix (suffix_of_read? hq)) subject)
    (spec_terminal_andThen fun _ r hr => spec_arguments
      (h.of_suffix ((suffix_of_read? hr).trans (suffix_of_read? hq))) subject)).mono ?_ ?_
  · -- each way is a derivation, with a dot in front of the arguments or without
    intro value rest _ hread
    rcases hread with ⟨subject, q, hsubject, hvalue⟩
    rcases hvalue with ⟨_, r, _, s, _, opening, ⟨d, rfl, hd⟩, closing⟩ |
      ⟨_, _, hdot, _, r, _, s, _, opening, ⟨d, rfl, hd⟩, closing⟩
    · exact ⟨.generic hsubject opening d closing, rfl,
        fun hroot => (preferred_of_child rfl).mpr ⟨hroot, hd⟩⟩
    · exact ⟨.dottedGeneric hsubject hdot opening d closing, rfl,
        fun hroot => (preferred_of_child rfl).mpr ⟨hroot, hd⟩⟩
  · -- and each derivation is found by the way that matches its spelling
    intro rest hread
    rcases hread with ⟨d⟩
    cases d with
    | generic hsubject opening d closing =>
      exact ⟨_, _, hsubject, .inl ⟨_, _, _, _, _, opening, ⟨d⟩, closing⟩⟩
    | dottedGeneric hsubject hdot opening d closing =>
      exact ⟨_, _, hsubject, .inr ⟨_, _, hdot, _, _, _, _, _, opening, ⟨d⟩, closing⟩⟩

/-- A part between two signs, given how it is derived. -/
theorem covers_between {m : Nonterminal} {k : Nat} {opening closing : Terminal}
    {inner : Rule m.Value} {build : m.Value → TypeExpr}
    (hinner : ∀ {x q}, ReadsTokens opening tokens x q → Covers m (inner q) q)
    (make : ∀ {x q j r y rest}, ReadsTokens opening tokens x q → TokenDerivation m j q r →
      ReadsTokens closing r y rest → TokenDerivation .primary k tokens rest)
    (hmake : ∀ {x q j r y rest} (front : ReadsTokens opening tokens x q)
      (d : TokenDerivation m j q r) (back : ReadsTokens closing r y rest),
      (make front d back).tree = build d.tree ∧
        (make front d back).occurrences = (make front d back).root :: d.occurrences)
    (hread : ∀ {rest}, TokenDerivation .primary k tokens rest → ∃ x q j r y,
      ReadsTokens opening tokens x q ∧ Nonempty (TokenDerivation m j q r) ∧
        ReadsTokens closing r y rest) :
    CoversAlternative .primary k
      ((do
        let _ ← terminal opening
        let value ← inner
        let _ ← terminal closing
        return build value : Rule TypeExpr) tokens) tokens := by
  refine (spec_terminal_andThen fun _ q hq => spec_andThen (hinner hq) fun _ r _ _ =>
    spec_terminal_andThen fun _ s _ => spec_pure _ s).mono ?_ ?_
  · intro value rest _ hvalue
    rcases hvalue with ⟨_, _, front, _, _, -, ⟨_, d, rfl, hd⟩, _, _, back, rfl, rfl⟩
    exact ⟨make front d back, (hmake front d back).1,
      fun hroot => (preferred_of_child (hmake front d back).2).mpr ⟨hroot, hd⟩⟩
  · intro rest hvalue
    rcases hvalue with ⟨d⟩
    rcases hread d with ⟨_, _, j, _, _, front, hd, back⟩
    exact ⟨_, _, front, _, ⟨j, hd⟩, fun _ _ => ⟨_, _, back, rfl⟩⟩

theorem covers_tuple (h : CoversBehind row tokens) :
    CoversAlternative .primary 2 (tuple row tokens) tokens := by
  refine covers_between (fun hq => covers_laterTypes (h.behind (List.suffix_refl _) hq)) .tuple
    (fun _ _ _ => ⟨rfl, rfl⟩) fun d => ?_
  cases d with
  | tuple opening d closing => exact ⟨_, _, _, _, _, opening, ⟨d⟩, closing⟩

theorem covers_record (h : CoversBehind row tokens) :
    CoversAlternative .primary 3 (record row tokens) tokens := by
  refine covers_between (fun hq => covers_laterFields (h.behind (List.suffix_refl _) hq)) .record
    (fun _ _ _ => ⟨rfl, rfl⟩) fun d => ?_
  cases d with
  | record opening d closing => exact ⟨_, _, _, _, _, opening, ⟨d⟩, closing⟩

theorem covers_parens (h : CoversBehind row tokens) :
    CoversAlternative .primary 6 (parens row tokens) tokens := by
  refine covers_between (fun hq => (h.behind (List.suffix_refl _) hq).type) .parens
    (fun _ _ _ => ⟨rfl, rfl⟩) fun d => ?_
  cases d with
  | parens opening d closing => exact ⟨_, _, _, _, _, opening, ⟨d⟩, closing⟩

/-- Both forms of a function type are one alternative. -/
theorem covers_function (h : CoversBehind row tokens) :
    CoversAlternative .primary 4 (function row tokens) tokens := by
  refine (spec_terminal_andThen fun _ q hq => spec_terminal_andThen fun _ r hr => spec_andThen
    (covers_laterTypes (h.behind (suffix_of_read? hq) hr)) fun _ s hs _ =>
      spec_terminal_andThen fun _ u hu => spec_firstOf_two (spec_pure _ u)
        (spec_terminal_andThen fun _ v hv => spec_andThen
          (h.behind ((((suffix_of_read? hu).trans hs).trans (suffix_of_read? hr)).trans
            (suffix_of_read? hq)) hv).type fun _ w _ _ => spec_pure _ w)).mono ?_ ?_
  · -- the parameters are followed by nothing, or by a colon and a result
    rintro value rest - ⟨_, _, word, _, _, opening, _, _, -, ⟨_, c, rfl, hc⟩, _, _, closing,
      ⟨rfl, rfl⟩ | ⟨_, _, colon, _, _, -, ⟨_, d, rfl, hd⟩, rfl, rfl⟩⟩
    · exact ⟨.function word opening c closing, rfl,
        fun hroot => (preferred_of_child rfl).mpr ⟨hroot, hc⟩⟩
    · exact ⟨.functionReturning word opening c closing colon d, rfl,
        fun hroot => (preferred_of_children rfl).mpr ⟨hroot, hc, hd⟩⟩
  · intro rest hread
    rcases hread with ⟨d⟩
    cases d with
    | function word opening params closing =>
      exact ⟨_, _, word, _, _, opening, _, ⟨_, ⟨params⟩⟩, fun _ _ => ⟨_, _, closing, .inl rfl⟩⟩
    | functionReturning word opening params closing colon returns =>
      exact ⟨_, _, word, _, _, opening, _, ⟨_, ⟨params⟩⟩, fun _ _ => ⟨_, _, closing,
        .inr ⟨_, _, colon, _, ⟨_, ⟨returns⟩⟩, fun _ _ => rfl⟩⟩⟩

theorem covers_typeOf : CoversAlternative .primary 5 (typeOf tokens) tokens := by
  refine (spec_terminal_andThen fun _ q _ => spec_terminal_andThen fun _ r _ =>
    spec_pure _ r).mono ?_ ?_
  · intro value rest _ hread
    rcases hread with ⟨_, _, word, _, _, name, rfl, rfl⟩
    exact ⟨.typeOf word name, rfl, fun hroot => (preferred_of_leaf rfl).mpr hroot⟩
  · intro rest hread
    rcases hread with ⟨d⟩
    cases d with
    | typeOf word name => exact ⟨_, _, word, _, _, name, rfl⟩

/-- A terminal that is a primary by itself, given how it is derived. -/
theorem covers_atom {k : Nat} {t : Terminal} {build : String → TypeExpr}
    (make : ∀ {x rest}, ReadsTokens t tokens x rest → TokenDerivation .primary k tokens rest)
    (htree : ∀ {x rest} (h : ReadsTokens t tokens x rest),
      (make h).tree = build x ∧ (make h).occurrences = [(make h).root])
    (hread : ∀ {rest}, TokenDerivation .primary k tokens rest →
      ∃ x, ReadsTokens t tokens x rest) :
    CoversAlternative .primary k (atom t build tokens) tokens := by
  refine (spec_terminal_andThen fun _ q _ => spec_pure _ q).mono ?_ ?_
  · intro value rest _ hvalue
    rcases hvalue with ⟨x, _, hx, rfl, rfl⟩
    exact ⟨make hx, (htree hx).1, fun hroot => (preferred_of_leaf (htree hx).2).mpr hroot⟩
  · intro rest hvalue
    rcases hvalue with ⟨d⟩
    rcases hread d with ⟨x, hx⟩
    exact ⟨x, _, hx, rfl⟩

/-- The reading of a primary covers it, alternative by alternative. -/
theorem covers_primary (h : CoversBehind row tokens) :
    Covers .primary (primary row tokens) tokens := by
  refine covers_firstOf (fun k hk => ?_) fun k rest d => by cases d <;> simp
  match k, hk with
  | 0, _ =>
    refine covers_atom .name (fun _ => ⟨rfl, rfl⟩) fun d => ?_
    cases d with
    | name h => exact ⟨_, h⟩
  | 1, _ => exact covers_generic h
  | 2, _ => exact covers_tuple h
  | 3, _ => exact covers_record h
  | 4, _ => exact covers_function h
  | 5, _ => exact covers_typeOf
  | 6, _ => exact covers_parens h
  | 7, _ =>
    refine covers_atom .any (fun _ => ⟨rfl, rfl⟩) fun d => ?_
    cases d with
    | any h => exact ⟨_, h⟩
  | 8, _ =>
    refine covers_atom .unknown (fun _ => ⟨rfl, rfl⟩) fun d => ?_
    cases d with
    | unknown h => exact ⟨_, h⟩
  | 9, _ =>
    refine covers_atom .string (fun _ => ⟨rfl, rfl⟩) fun d => ?_
    cases d with
    | string h => exact ⟨_, h⟩
  | 10, _ =>
    refine covers_atom .number (fun _ => ⟨rfl, rfl⟩) fun d => ?_
    cases d with
    | number h => exact ⟨_, h⟩
  | _ + 11, hk => exact absurd hk (by simp)

/-! ## Operands and types -/

theorem covers_prefixOperator {k : Nat} {t : Terminal} {build : TypeExpr → TypeExpr}
    (h : CoversBehind row tokens)
    (make : ∀ {x q j rest}, ReadsTokens t tokens x q → TokenDerivation .prefixed j q rest →
      TokenDerivation .prefixed k tokens rest)
    (htree : ∀ {x q j rest} (mark : ReadsTokens t tokens x q)
      (d : TokenDerivation .prefixed j q rest), (make mark d).tree = build d.tree ∧
        (make mark d).occurrences = (make mark d).root :: d.occurrences)
    (hread : ∀ {rest}, TokenDerivation .prefixed k tokens rest →
      ∃ x q j, ReadsTokens t tokens x q ∧ Nonempty (TokenDerivation .prefixed j q rest)) :
    CoversAlternative .prefixed k (prefixOperator row t build tokens) tokens := by
  refine (spec_terminal_andThen fun _ q hq => spec_andThen
    (h.behind (List.suffix_refl _) hq).prefixed fun _ r _ _ =>
      spec_pure _ r).mono ?_ ?_
  · intro value rest _ hvalue
    rcases hvalue with ⟨_, _, mark, _, _, -, ⟨_, d, rfl, hd⟩, rfl, rfl⟩
    exact ⟨make mark d, (htree mark d).1,
      fun hroot => (preferred_of_child (htree mark d).2).mpr ⟨hroot, hd⟩⟩
  · intro rest hvalue
    rcases hvalue with ⟨d⟩
    rcases hread d with ⟨_, _, j, mark, hd⟩
    exact ⟨_, _, mark, _, ⟨j, hd⟩, fun _ _ => rfl⟩

/-- The reading of an operand covers it, alternative by alternative. -/
theorem covers_prefixed (h : CoversBehind row tokens) :
    Covers .prefixed (prefixed row tokens) tokens := by
  -- the operand without a sign is the first alternative; the three signs are read alike
  refine covers_firstOf (fun k hk => ?_) fun k rest d => by cases d <;> simp
  match k, hk with
  | 0, _ =>
    refine (covers_suffixed (covers_primary h)).mono ?_ ?_
    · intro value rest _ hread
      rcases hread with ⟨_, d, rfl, hd⟩
      exact ⟨.unmarked d, rfl, fun hroot => (preferred_of_child rfl).mpr ⟨hroot, hd⟩⟩
    · intro rest hread
      rcases hread with ⟨d⟩
      cases d with
      | unmarked d => exact ⟨_, ⟨d⟩⟩
  | 1, _ =>
    refine covers_prefixOperator h .nullable (fun _ _ => ⟨rfl, rfl⟩) fun d => ?_
    cases d with
    | nullable mark d => exact ⟨_, _, _, mark, ⟨d⟩⟩
  | 2, _ =>
    refine covers_prefixOperator h .notNullable (fun _ _ => ⟨rfl, rfl⟩) fun d => ?_
    cases d with
    | notNullable mark d => exact ⟨_, _, _, mark, ⟨d⟩⟩
  | 3, _ =>
    refine covers_prefixOperator h .variadic (fun _ _ => ⟨rfl, rfl⟩) fun d => ?_
    cases d with
    | variadic mark d => exact ⟨_, _, _, mark, ⟨d⟩⟩
  | _ + 4, hk => exact absurd hk (by simp)

/-- The reading of a union covers its alternative. -/
theorem covers_union {operand : Rule TypeExpr} (h : CoversBehind row tokens)
    (hoperand : Covers .prefixed (operand tokens) tokens) :
    CoversAlternative .type 1 (union row operand tokens) tokens := by
  refine (spec_andThen hoperand fun _ q hq _ => spec_terminal_andThen fun _ r hr => spec_andThen
    (h.behind hq hr).type fun _ s _ _ => spec_pure _ s).mono ?_ ?_
  · intro value rest _ hread
    rcases hread with ⟨_, _, -, ⟨_, c, rfl, hc⟩, _, _, bar, _, _, -, ⟨_, d, rfl, hd⟩, rfl, rfl⟩
    exact ⟨.union c bar d, rfl, fun hroot => (preferred_of_children rfl).mpr ⟨hroot, hc, hd⟩⟩
  · intro rest hread
    rcases hread with ⟨d⟩
    cases d with
    | union c bar d => exact ⟨_, ⟨_, ⟨c⟩⟩, fun _ _ => ⟨_, _, bar, _, ⟨_, ⟨d⟩⟩, fun _ _ => rfl⟩⟩

/-- The reading of an arrow covers its alternative. -/
theorem covers_arrow (h : CoversBehind row tokens) :
    CoversAlternative .type 2 (arrow row tokens) tokens := by
  refine (spec_terminal_andThen fun _ q hq => spec_andThen
    (covers_laterFields (h.behind (List.suffix_refl _) hq)) fun _ r hr _ =>
      spec_terminal_andThen fun _ s hs => spec_terminal_andThen fun _ u hu => spec_andThen
        (h.behind (((suffix_of_read? hs).trans hr).trans (suffix_of_read? hq)) hu).type
        fun _ v _ _ => spec_pure _ v).mono ?_ ?_
  · -- the parts that were read, put together
    rintro value rest - ⟨_, _, opening, _, _, -, ⟨_, c, rfl, hc⟩, _, _, closing, _, _, sign,
      _, _, -, ⟨_, d, rfl, hd⟩, rfl, rfl⟩
    exact ⟨.arrow opening c closing sign d, rfl,
      fun hroot => (preferred_of_children rfl).mpr ⟨hroot, hc, hd⟩⟩
  · intro rest hread
    rcases hread with ⟨d⟩
    cases d with
    | arrow opening c closing sign d =>
      exact ⟨_, _, opening, _, ⟨_, ⟨c⟩⟩, fun _ _ => ⟨_, _, closing, _, _, sign, _, ⟨_, ⟨d⟩⟩,
        fun _ _ => rfl⟩⟩

/-- The reading of a type covers it, if that of its operand does. -/
theorem covers_type {operand : Rule TypeExpr} (h : CoversBehind row tokens)
    (hoperand : Covers .prefixed (operand tokens) tokens) :
    Covers .type (type row operand tokens) tokens := by
  refine covers_firstOf (fun k hk => ?_) fun k rest d => by cases d <;> simp
  match k, hk with
  | 0, _ =>
    refine hoperand.mono ?_ ?_
    · intro value rest _ hread
      rcases hread with ⟨_, d, rfl, hd⟩
      exact ⟨.operand d, rfl, fun hroot => (preferred_of_child rfl).mpr ⟨hroot, hd⟩⟩
    · intro rest hread
      rcases hread with ⟨d⟩
      cases d with
      | operand d => exact ⟨_, ⟨d⟩⟩
  | 1, _ => exact covers_union h hoperand
  | 2, _ => exact covers_arrow h
  | _ + 3, hk => exact absurd hk (by simp)

/-- The reading of a field covers it. Its alternatives have no order: they never read the same
stretch. -/
theorem covers_field (h : CoversBehind row tokens) :
    Covers .field (field row tokens) tokens := by
  refine (spec_terminal_andThen fun _ q hq => spec_firstOf_two (spec_pure _ q)
    (spec_terminal_andThen fun _ r hr => spec_andThen
      (h.behind (suffix_of_read? hq) hr).type fun _ s _ _ => spec_pure _ s)).mono ?_ ?_
  · rintro value rest - ⟨_, _, label, ⟨rfl, rfl⟩ |
      ⟨_, _, colon, _, _, -, ⟨_, d, rfl, hd⟩, rfl, rfl⟩⟩
    · exact ⟨_, .bareField label, rfl, (preferred_of_leaf rfl).mpr (isFirst_zero _)⟩
    · exact ⟨_, .typedField label colon d, rfl,
        (preferred_of_child rfl).mpr ⟨fun h => absurd h (by simp [root, Nonterminal.Layered]), hd⟩⟩
  · intro rest hread
    rcases hread with ⟨_, ⟨d⟩⟩
    cases d with
    | bareField label => exact ⟨_, _, label, .inl rfl⟩
    | typedField label colon d =>
      exact ⟨_, _, label, .inr ⟨_, _, colon, _, ⟨_, ⟨d⟩⟩, fun _ _ => rfl⟩⟩

/-! ## Lists -/

section

variable {m : Nonterminal} {item : Rule m.Value} {k : Nat}

/-- An item alone. -/
theorem covers_oneItem (value : ∀ rest, TokenDerivation n k tokens rest → List m.Value)
    (hitem : Covers m (item tokens) tokens)
    (make : ∀ {j rest}, TokenDerivation m j tokens rest → TokenDerivation n k tokens rest)
    (hmake : ∀ {j rest} (d : TokenDerivation m j tokens rest),
      value rest (make d) = [d.tree] ∧ (make d).occurrences = (make d).root :: d.occurrences)
    (hread : ∀ {rest}, TokenDerivation n k tokens rest →
      ∃ j, Nonempty (TokenDerivation m j tokens rest)) :
    CoversAlternativeAs value (oneItem item tokens) := by
  refine (spec_andThen hitem fun _ q _ _ => spec_pure _ q).mono ?_ ?_
  · intro list rest _ hlist
    rcases hlist with ⟨_, _, -, ⟨_, d, rfl, hd⟩, rfl, rfl⟩
    exact ⟨make d, (hmake d).1, fun hroot => (preferred_of_child (hmake d).2).mpr ⟨hroot, hd⟩⟩
  · intro rest hlist
    rcases hlist with ⟨d⟩
    exact ⟨_, hread d, fun _ _ => rfl⟩

/-- An item, a comma and further items, which make a list of their own. -/
theorem covers_itemAndMore {more : Rule (List m.Value)}
    (value : ∀ j r rest, TokenDerivation n j r rest → List m.Value)
    (hitem : Covers m (item tokens) tokens)
    (hmore : ∀ {q x r}, q <:+ tokens → ReadsTokens .comma q x r →
      CoversAs (fun j rest => value j r rest) (more r))
    (make : ∀ {i q x r j rest}, TokenDerivation m i tokens q → ReadsTokens .comma q x r →
      TokenDerivation n j r rest → TokenDerivation n k tokens rest)
    (hmake : ∀ {i q x r j rest} (c : TokenDerivation m i tokens q)
      (comma : ReadsTokens .comma q x r) (d : TokenDerivation n j r rest),
      value k tokens rest (make c comma d) = c.tree :: value j r rest d ∧
        (make c comma d).occurrences = (make c comma d).root :: c.occurrences ++ d.occurrences)
    (hread : ∀ {rest}, TokenDerivation n k tokens rest → ∃ i q x r j,
      Nonempty (TokenDerivation m i tokens q) ∧ ReadsTokens .comma q x r ∧
        Nonempty (TokenDerivation n j r rest)) :
    CoversAlternativeAs (value k tokens) (itemAndMore item more tokens) := by
  refine (spec_andThen hitem fun _ q hq _ => spec_terminal_andThen fun _ r hr =>
    spec_andThen (hmore hq hr) fun _ s _ _ => spec_pure _ s).mono ?_ ?_
  · intro list rest _ hlist
    rcases hlist with ⟨_, _, -, ⟨_, c, rfl, hc⟩, _, _, comma, _, _, -, ⟨_, d, rfl, hd⟩, rfl, rfl⟩
    exact ⟨make c comma d, (hmake c comma d).1,
      fun hroot => (preferred_of_children (hmake c comma d).2).mpr ⟨hroot, hc, hd⟩⟩
  · intro rest hlist
    rcases hlist with ⟨d⟩
    rcases hread d with ⟨i, _, _, _, j, hc, comma, hd⟩
    exact ⟨_, ⟨i, hc⟩, fun _ _ => ⟨_, _, comma, _, ⟨j, hd⟩, fun _ _ => rfl⟩⟩

end

section

variable (h : CoversBehind row tokens)

theorem covers_oneType {item : Rule TypeExpr} (hitem : Covers .type (item tokens) tokens) :
    CoversAlternative .types 0 (oneItem item tokens) tokens := by
  refine covers_oneItem (m := .type) (n := .types) (fun _ d => d.tree) hitem .oneType
    (fun _ => ⟨rfl, rfl⟩) fun d => ?_
  cases d with
  | oneType d => exact ⟨_, ⟨d⟩⟩

theorem covers_oneField {item : Rule Field} (hitem : Covers .field (item tokens) tokens) :
    CoversAlternative .fields 0 (oneItem item tokens) tokens := by
  refine covers_oneItem (m := .field) (n := .fields) (fun _ d => d.tree) hitem .oneField
    (fun _ => ⟨rfl, rfl⟩) fun d => ?_
  cases d with
  | oneField d => exact ⟨_, ⟨d⟩⟩

include h

theorem covers_moreTypes {item : Rule TypeExpr} (hitem : Covers .type (item tokens) tokens) :
    CoversAlternative .types 1 (itemAndMore item (fun rest => (row rest).moreTypes) tokens)
      tokens := by
  refine covers_itemAndMore (m := .type) (n := .types) (fun _ _ _ d => d.tree) hitem
    (fun hq hr => (h.behind hq hr).moreTypes) .moreTypes (fun _ _ _ => ⟨rfl, rfl⟩) fun d => ?_
  cases d with
  | moreTypes c comma d => exact ⟨_, _, _, _, _, ⟨c⟩, comma, ⟨d⟩⟩

theorem covers_moreFields {item : Rule Field} (hitem : Covers .field (item tokens) tokens) :
    CoversAlternative .fields 1 (itemAndMore item (fun rest => (row rest).moreFields) tokens)
      tokens := by
  refine covers_itemAndMore (m := .field) (n := .fields) (fun _ _ _ d => d.tree) hitem
    (fun hq hr => (h.behind hq hr).moreFields) .moreFields (fun _ _ _ => ⟨rfl, rfl⟩) fun d => ?_
  cases d with
  | moreFields c comma d => exact ⟨_, _, _, _, _, ⟨c⟩, comma, ⟨d⟩⟩

end

/-! ## The table -/

/-- A row made from right rows is right. -/
theorem covers_rowAt (h : CoversBehind row tokens) : (rowAt row tokens).Covers tokens := by
  have hprefixed := covers_prefixed h
  have htype : Covers .type (type row (fun _ => prefixed row tokens) tokens) tokens :=
    covers_type h hprefixed
  have hfield := covers_field h
  refine ⟨hprefixed, htype, ?_, ?_, ?_, ?_⟩
  · exact covers_firstOf_two (by simp [Nonterminal.Layered]) (covers_moreTypes h htype)
      (covers_oneType htype) fun _ _ d => by cases d <;> simp
  · exact covers_firstOf_two (by simp [Nonterminal.Layered]) (covers_oneType htype)
      (covers_moreTypes h htype) fun _ _ d => by cases d <;> simp
  · exact covers_firstOf_two (by simp [Nonterminal.Layered]) (covers_moreFields h hfield)
      (covers_oneField hfield) fun _ _ d => by cases d <;> simp
  · exact covers_firstOf_two (by simp [Nonterminal.Layered]) (covers_oneField hfield)
      (covers_moreFields h hfield) fun _ _ d => by cases d <;> simp

/-- What the row of every place of the tail has, the rows behind the first place have. -/
theorem forall_lookUp_rows {holds : Row → List Token → Prop} (token : Token)
    (h : ∀ rest, rest <:+ tokens → holds (lookUp (rows rest) rest) rest) :
    ∀ rest, rest <:+ token :: tokens → rest.length < (token :: tokens).length →
      holds (lookUp (rows tokens) rest) rest := by
  intro rest hrest hlength
  -- a shorter suffix is a suffix of the tail, and its row is in the table of the tail
  have htail : rest <:+ tokens := by
    rcases List.suffix_cons_iff.mp hrest with rfl | h
    · exact absurd hlength (Nat.lt_irrefl _)
    · exact h
  have hrow := h rest htail
  obtain ⟨front, rfl⟩ := htail
  rwa [lookUp_rows]

/-- What a row has if the rows behind its place have it, the row of every place has. -/
theorem lookUp_rows_of_rowAt {holds : Row → List Token → Prop}
    (h : ∀ (row : List Token → Row) (tokens : List Token),
      (∀ rest, rest <:+ tokens → rest.length < tokens.length → holds (row rest) rest) →
        holds (rowAt row tokens) tokens)
    (tokens : List Token) : holds (lookUp (rows tokens) tokens) tokens := by
  cases tokens with
  | nil =>
    refine h (fun _ => default) [] ?_
    intro rest _ hlength
    exact absurd hlength (Nat.not_lt_zero _)
  | cons token tokens =>
    rw [lookUp_rows_cons]
    refine h _ _ (forall_lookUp_rows token ?_)
    intro rest hrest
    have hlength := hrest.length_le
    exact lookUp_rows_of_rowAt h rest
termination_by tokens.length

/-- The rows behind the first place are right if the table of the tail is. -/
theorem coversBehind_lookUp_rows (token : Token)
    (h : ∀ rest, rest <:+ tokens → (lookUp (rows rest) rest).Covers rest) :
    CoversBehind (lookUp (rows tokens)) (token :: tokens) :=
  forall_lookUp_rows token h

/-- The row of every place is right. -/
theorem covers_lookUp_rows (tokens : List Token) :
    (lookUp (rows tokens) tokens).Covers tokens :=
  lookUp_rows_of_rowAt (fun _ _ => covers_rowAt) tokens

end Grammar

end DocComment
