import DocComment.Proofs.Grammar.Transfer

/-!
# Bodies of rules

The grammar as data: each nonterminal has its bodies (`Nonterminal.bodies`), and what reads all
symbols of a body reads the nonterminal (`exists_derivation_of_body`).

A nonterminal is begun up to a place where the front of one of its bodies was read
(`Begun`). If a terminal comes next in the body, or if a nonterminal that comes next is begun
in turn, the place expects a terminal (`Expects`). These are the places that the bodies alone
give; whether the text goes on with the terminal does not matter.
-/

namespace DocComment

/-- What a body is made of. -/
inductive Symbol where
  | terminal (t : Terminal)
  | nonterminal (n : Nonterminal)

namespace Nonterminal

/-- The bodies of a nonterminal, in the order of the grammar. -/
def bodies : Nonterminal → List (List Symbol)
  | type =>
    [[.nonterminal prefixed],
      [.nonterminal prefixed, .terminal .bar, .nonterminal type],
      [.terminal .leftParen, .nonterminal maybeFields, .terminal .rightParen, .terminal .arrow,
        .nonterminal type]]
  | prefixed =>
    [[.nonterminal suffixed],
      [.terminal .question, .nonterminal prefixed],
      [.terminal .bang, .nonterminal prefixed],
      [.terminal .ellipsis, .nonterminal prefixed]]
  | suffixed =>
    [[.nonterminal primary],
      [.nonterminal suffixed, .terminal .equals],
      [.nonterminal suffixed, .terminal .leftBracket, .terminal .rightBracket],
      [.nonterminal suffixed, .terminal .question],
      [.nonterminal suffixed, .terminal .bang]]
  | primary =>
    [[.terminal .name],
      [.terminal .name, .terminal .less, .nonterminal types, .terminal .greater],
      [.terminal .name, .terminal .dot, .terminal .less, .nonterminal types, .terminal .greater],
      [.terminal .leftBracket, .nonterminal maybeTypes, .terminal .rightBracket],
      [.terminal .leftBrace, .nonterminal maybeFields, .terminal .rightBrace],
      [.terminal .function, .terminal .leftParen, .nonterminal maybeTypes, .terminal .rightParen],
      [.terminal .function, .terminal .leftParen, .nonterminal maybeTypes, .terminal .rightParen,
        .terminal .colon, .nonterminal type],
      [.terminal .typeOf, .terminal .name],
      [.terminal .leftParen, .nonterminal type, .terminal .rightParen],
      [.terminal .star], [.terminal .question], [.terminal .string], [.terminal .number]]
  | types =>
    [[.nonterminal type], [.nonterminal type, .terminal .comma, .nonterminal types]]
  | maybeTypes => [[], [.nonterminal types]]
  | field => [[.terminal .name], [.terminal .name, .terminal .colon, .nonterminal type]]
  | fields =>
    [[.nonterminal field], [.nonterminal field, .terminal .comma, .nonterminal fields]]
  | maybeFields => [[], [.nonterminal fields]]

end Nonterminal

section

variable {P : Type} (reads : Terminal → P → String → P → Prop)

/-- A nonterminal can be read from one place to another. -/
def Derives (n : Nonterminal) (p q : P) : Prop :=
  ∃ k, Nonempty (Derivation reads n k p q)

/-- A symbol can be read from one place to another. -/
def Symbol.Reads : Symbol → P → P → Prop
  | terminal t, p, q => ∃ x, reads t p x q
  | nonterminal n, p, q => Derives reads n p q

/-- Symbols can be read one behind the other. -/
inductive ReadsAll : List Symbol → P → P → Prop
  | nil {p : P} : ReadsAll [] p p
  | cons {symbol : Symbol} {symbols : List Symbol} {p q r : P} (first : symbol.Reads reads p q)
      (others : ReadsAll symbols q r) : ReadsAll (symbol :: symbols) p r

/-- A nonterminal is begun: the front of a body was read, and the symbols of the rest come
next. -/
def Begun (n : Nonterminal) (p : P) (rest : List Symbol) (q : P) : Prop :=
  ∃ front, front ++ rest ∈ n.bodies ∧ ReadsAll reads front p q

/-- The second place expects a terminal, where a nonterminal is read from the first one. -/
inductive Expects : Nonterminal → P → P → Prop
  | here {n : Nonterminal} {p q : P} {t : Terminal} {rest : List Symbol}
      (begun : Begun reads n p (.terminal t :: rest) q) : Expects n p q
  | within {n m : Nonterminal} {p q r : P} {rest : List Symbol}
      (begun : Begun reads n p (.nonterminal m :: rest) q) (inner : Expects m q r) : Expects n p r

end

variable {P Q : Type} {reads : Terminal → P → String → P → Prop}
  {reads' : Terminal → Q → String → Q → Prop} {n m : Nonterminal} {k : Nat} {p q r : P}
  {t : Terminal} {x : String} {symbols rest : List Symbol}

/-! ## Reading a body -/

theorem Derivation.derives (d : Derivation reads n k p q) : Derives reads n p q :=
  ⟨k, ⟨d⟩⟩

@[simp] theorem readsAll_nil_iff : ReadsAll reads [] p q ↔ p = q := by
  constructor
  · intro h
    cases h
    rfl
  · rintro rfl
    exact .nil

@[simp] theorem readsAll_cons_iff {symbol : Symbol} :
    ReadsAll reads (symbol :: symbols) p r ↔
      ∃ q, symbol.Reads reads p q ∧ ReadsAll reads symbols q r := by
  constructor
  · intro h
    cases h with
    | cons first others => exact ⟨_, first, others⟩
  · rintro ⟨q, first, others⟩
    exact .cons first others

/-- Symbols can be read one behind the other. -/
theorem ReadsAll.append {others : List Symbol} (h : ReadsAll reads symbols p q)
    (hothers : ReadsAll reads others q r) : ReadsAll reads (symbols ++ others) p r := by
  induction h with
  | nil => exact hothers
  | cons first _ ih => exact .cons first (ih hothers)

/-- What reads all symbols of a body reads the nonterminal. -/
theorem derives_of_body (hbody : symbols ∈ n.bodies) (h : ReadsAll reads symbols p q) :
    Derives reads n p q := by
  -- one alternative for each body, in the order of the grammar
  cases n <;> simp only [Nonterminal.bodies, List.mem_cons, List.not_mem_nil, or_false] at hbody
  case type =>
    rcases hbody with rfl | rfl | rfl <;>
      simp only [readsAll_cons_iff, readsAll_nil_iff, Symbol.Reads] at h
    · obtain ⟨_, ⟨_, ⟨d⟩⟩, rfl⟩ := h
      exact (Derivation.operand d).derives
    · obtain ⟨_, ⟨_, ⟨left⟩⟩, _, ⟨_, bar⟩, _, ⟨_, ⟨right⟩⟩, rfl⟩ := h
      exact (Derivation.union left bar right).derives
    · obtain ⟨_, ⟨_, opening⟩, _, ⟨_, ⟨params⟩⟩, _, ⟨_, closing⟩, _, ⟨_, sign⟩, _, ⟨_, ⟨returns⟩⟩,
        rfl⟩ := h
      exact (Derivation.arrow opening params closing sign returns).derives
  case prefixed =>
    rcases hbody with rfl | rfl | rfl | rfl <;>
      simp only [readsAll_cons_iff, readsAll_nil_iff, Symbol.Reads] at h
    · obtain ⟨_, ⟨_, ⟨d⟩⟩, rfl⟩ := h
      exact (Derivation.unmarked d).derives
    · obtain ⟨_, ⟨_, mark⟩, _, ⟨_, ⟨d⟩⟩, rfl⟩ := h
      exact (Derivation.nullable mark d).derives
    · obtain ⟨_, ⟨_, mark⟩, _, ⟨_, ⟨d⟩⟩, rfl⟩ := h
      exact (Derivation.notNullable mark d).derives
    · obtain ⟨_, ⟨_, mark⟩, _, ⟨_, ⟨d⟩⟩, rfl⟩ := h
      exact (Derivation.variadic mark d).derives
  case suffixed =>
    rcases hbody with rfl | rfl | rfl | rfl | rfl <;>
      simp only [readsAll_cons_iff, readsAll_nil_iff, Symbol.Reads] at h
    · obtain ⟨_, ⟨_, ⟨d⟩⟩, rfl⟩ := h
      exact (Derivation.plain d).derives
    · obtain ⟨_, ⟨_, ⟨d⟩⟩, _, ⟨_, mark⟩, rfl⟩ := h
      exact (Derivation.optional d mark).derives
    · obtain ⟨_, ⟨_, ⟨d⟩⟩, _, ⟨_, opening⟩, _, ⟨_, closing⟩, rfl⟩ := h
      exact (Derivation.array d opening closing).derives
    · obtain ⟨_, ⟨_, ⟨d⟩⟩, _, ⟨_, mark⟩, rfl⟩ := h
      exact (Derivation.nullableBehind d mark).derives
    · obtain ⟨_, ⟨_, ⟨d⟩⟩, _, ⟨_, mark⟩, rfl⟩ := h
      exact (Derivation.notNullableBehind d mark).derives
  case primary =>
    rcases hbody with rfl | rfl | rfl | rfl | rfl | rfl | rfl | rfl | rfl | rfl | rfl | rfl |
      rfl <;>
      simp only [readsAll_cons_iff, readsAll_nil_iff, Symbol.Reads] at h
    · obtain ⟨_, ⟨_, word⟩, rfl⟩ := h
      exact (Derivation.name word).derives
    · obtain ⟨_, ⟨_, subject⟩, _, ⟨_, opening⟩, _, ⟨_, ⟨arguments⟩⟩, _, ⟨_, closing⟩, rfl⟩ := h
      exact (Derivation.generic subject opening arguments closing).derives
    · obtain ⟨_, ⟨_, subject⟩, _, ⟨_, dot⟩, _, ⟨_, opening⟩, _, ⟨_, ⟨arguments⟩⟩, _, ⟨_, closing⟩,
        rfl⟩ := h
      exact (Derivation.dottedGeneric subject dot opening arguments closing).derives
    · obtain ⟨_, ⟨_, opening⟩, _, ⟨_, ⟨entries⟩⟩, _, ⟨_, closing⟩, rfl⟩ := h
      exact (Derivation.tuple opening entries closing).derives
    · obtain ⟨_, ⟨_, opening⟩, _, ⟨_, ⟨fields⟩⟩, _, ⟨_, closing⟩, rfl⟩ := h
      exact (Derivation.record opening fields closing).derives
    · obtain ⟨_, ⟨_, word⟩, _, ⟨_, opening⟩, _, ⟨_, ⟨params⟩⟩, _, ⟨_, closing⟩, rfl⟩ := h
      exact (Derivation.function word opening params closing).derives
    · obtain ⟨_, ⟨_, word⟩, _, ⟨_, opening⟩, _, ⟨_, ⟨params⟩⟩, _, ⟨_, closing⟩, _, ⟨_, colon⟩, _,
        ⟨_, ⟨returns⟩⟩, rfl⟩ := h
      exact (Derivation.functionReturning word opening params closing colon returns).derives
    · obtain ⟨_, ⟨_, word⟩, _, ⟨_, value⟩, rfl⟩ := h
      exact (Derivation.typeOf word value).derives
    · obtain ⟨_, ⟨_, opening⟩, _, ⟨_, ⟨inner⟩⟩, _, ⟨_, closing⟩, rfl⟩ := h
      exact (Derivation.parens opening inner closing).derives
    · obtain ⟨_, ⟨_, mark⟩, rfl⟩ := h
      exact (Derivation.any mark).derives
    · obtain ⟨_, ⟨_, mark⟩, rfl⟩ := h
      exact (Derivation.unknown mark).derives
    · obtain ⟨_, ⟨_, literal⟩, rfl⟩ := h
      exact (Derivation.string literal).derives
    · obtain ⟨_, ⟨_, literal⟩, rfl⟩ := h
      exact (Derivation.number literal).derives
  case types =>
    rcases hbody with rfl | rfl <;>
      simp only [readsAll_cons_iff, readsAll_nil_iff, Symbol.Reads] at h
    · obtain ⟨_, ⟨_, ⟨only⟩⟩, rfl⟩ := h
      exact (Derivation.oneType only).derives
    · obtain ⟨_, ⟨_, ⟨first⟩⟩, _, ⟨_, comma⟩, _, ⟨_, ⟨others⟩⟩, rfl⟩ := h
      exact (Derivation.moreTypes first comma others).derives
  case maybeTypes =>
    rcases hbody with rfl | rfl <;>
      simp only [readsAll_cons_iff, readsAll_nil_iff, Symbol.Reads] at h
    · obtain rfl := h
      exact Derivation.noTypes.derives
    · obtain ⟨_, ⟨_, ⟨types⟩⟩, rfl⟩ := h
      exact (Derivation.someTypes types).derives
  case field =>
    rcases hbody with rfl | rfl <;>
      simp only [readsAll_cons_iff, readsAll_nil_iff, Symbol.Reads] at h
    · obtain ⟨_, ⟨_, label⟩, rfl⟩ := h
      exact (Derivation.bareField label).derives
    · obtain ⟨_, ⟨_, label⟩, _, ⟨_, colon⟩, _, ⟨_, ⟨type⟩⟩, rfl⟩ := h
      exact (Derivation.typedField label colon type).derives
  case fields =>
    rcases hbody with rfl | rfl <;>
      simp only [readsAll_cons_iff, readsAll_nil_iff, Symbol.Reads] at h
    · obtain ⟨_, ⟨_, ⟨only⟩⟩, rfl⟩ := h
      exact (Derivation.oneField only).derives
    · obtain ⟨_, ⟨_, ⟨first⟩⟩, _, ⟨_, comma⟩, _, ⟨_, ⟨others⟩⟩, rfl⟩ := h
      exact (Derivation.moreFields first comma others).derives
  case maybeFields =>
    rcases hbody with rfl | rfl <;>
      simp only [readsAll_cons_iff, readsAll_nil_iff, Symbol.Reads] at h
    · obtain rfl := h
      exact Derivation.noFields.derives
    · obtain ⟨_, ⟨_, ⟨fields⟩⟩, rfl⟩ := h
      exact (Derivation.someFields fields).derives

/-! ## Beginning a body -/

namespace Begun

/-- Before a body nothing was read. -/
theorem start (hbody : rest ∈ n.bodies) (p : P) : Begun reads n p rest p :=
  ⟨[], hbody, .nil⟩

/-- One more symbol of the body has been read. -/
theorem snoc {symbol : Symbol} (h : Begun reads n p (symbol :: rest) q)
    (hread : symbol.Reads reads q r) : Begun reads n p rest r := by
  obtain ⟨front, hbody, hfront⟩ := h
  refine ⟨front ++ [symbol], ?_, hfront.append (.cons hread .nil)⟩
  rwa [List.append_assoc]

theorem terminal (h : Begun reads n p (.terminal t :: rest) q) (hread : reads t q x r) :
    Begun reads n p rest r :=
  h.snoc ⟨x, hread⟩

theorem nonterminal (h : Begun reads n p (.nonterminal m :: rest) q) (hread : Derives reads m q r) :
    Begun reads n p rest r :=
  h.snoc hread

/-- What goes on with the rest of the body reads the nonterminal. -/
theorem derives (h : Begun reads n p rest q) (hread : ReadsAll reads rest q r) :
    Derives reads n p r := by
  obtain ⟨front, hbody, hfront⟩ := h
  exact derives_of_body hbody (hfront.append hread)

end Begun

/-! ## Along a body -/

/-- What each terminal keeps and what can be put together is kept by the symbols of a body. -/
theorem ReadsAll.rel_of_reads (rel : P → P → Prop) (hrefl : ∀ p, rel p p)
    (htrans : ∀ {p q r}, rel p q → rel q r → rel p r)
    (h : ∀ {t p x q}, reads t p x q → rel p q) (hread : ReadsAll reads symbols p q) :
    rel p q := by
  induction hread with
  | nil => exact hrefl _
  | @cons symbol _ _ _ _ first _ ih =>
    refine htrans ?_ ih
    cases symbol with
    | terminal t =>
      obtain ⟨x, hx⟩ := first
      exact h hx
    | nonterminal n =>
      obtain ⟨k, ⟨d⟩⟩ := first
      exact d.rel_of_reads rel hrefl htrans h

theorem Expects.rel_of_reads (rel : P → P → Prop) (hrefl : ∀ p, rel p p)
    (htrans : ∀ {p q r}, rel p q → rel q r → rel p r)
    (h : ∀ {t p x q}, reads t p x q → rel p q) (hexpects : Expects reads n p q) : rel p q := by
  induction hexpects with
  | here begun =>
    obtain ⟨front, -, hfront⟩ := begun
    exact hfront.rel_of_reads rel hrefl htrans h
  | within begun _ ih =>
    obtain ⟨front, -, hfront⟩ := begun
    exact htrans (hfront.rel_of_reads rel hrefl htrans h) ih

/-! ## Bodies at other places -/

namespace Mirrors

variable {inside : P → Prop} {rel : P → Q → Prop}

theorem inside_of_readsAll (h : Mirrors reads reads' inside rel)
    (hread : ReadsAll reads symbols p q) : inside q → inside p :=
  hread.rel_of_reads (fun p q => inside q → inside p) (fun _ hp => hp)
    (fun h h' hr => h (h' hr)) h.inside_of_reads

/-- A place that expects a terminal is inside only if the start is. -/
theorem inside_of_expects (h : Mirrors reads reads' inside rel) (hexpects : Expects reads n p q) :
    inside q → inside p :=
  hexpects.rel_of_reads (fun p q => inside q → inside p) (fun _ hp => hp)
    (fun h h' hr => h (h' hr)) h.inside_of_reads

/-- Symbols that are read inside the region are read at related places too. -/
theorem exists_readsAll (h : Mirrors reads reads' inside rel)
    (hread : ReadsAll reads symbols p q) (hq : inside q) {p' : Q} (hp : rel p p') :
    ∃ q', rel q q' ∧ ReadsAll reads' symbols p' q' := by
  induction hread generalizing p' with
  | nil => exact ⟨p', hp, .nil⟩
  | @cons symbol _ _ _ _ first others ih =>
    -- the place behind the first symbol is inside, since all that follows leads to one that is
    have hmid := h.inside_of_readsAll others hq
    cases symbol with
    | terminal t =>
      obtain ⟨x, hx⟩ := first
      obtain ⟨_, hx', hrel⟩ := h.step hx hmid hp
      obtain ⟨q', hq', hothers⟩ := ih hq hrel
      exact ⟨q', hq', .cons ⟨x, hx'⟩ hothers⟩
    | nonterminal n =>
      obtain ⟨k, ⟨d⟩⟩ := first
      obtain ⟨_, hrel, e, -⟩ := h.exists_derivation d hmid _ hp
      obtain ⟨q', hq', hothers⟩ := ih hq hrel
      exact ⟨q', hq', .cons ⟨k, ⟨e⟩⟩ hothers⟩

/-- What is begun is begun at related places too. -/
theorem exists_begun (h : Mirrors reads reads' inside rel) (begun : Begun reads n p rest q)
    (hq : inside q) {p' : Q} (hp : rel p p') : ∃ q', rel q q' ∧ Begun reads' n p' rest q' := by
  obtain ⟨front, hbody, hfront⟩ := begun
  obtain ⟨q', hq', hfront'⟩ := h.exists_readsAll hfront hq hp
  exact ⟨q', hq', front, hbody, hfront'⟩

end Mirrors

end DocComment
