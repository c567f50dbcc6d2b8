import DocComment.TypeExpr.Grammar

/-!
# Derivations

A derivation shows how the grammar reads a stretch of a text: which alternative
each nonterminal takes and where each terminal stands. It has one constructor
for each alternative of the grammar, in the order of the grammar.

What a text is made of is left open. A place is a value of any type, and a
relation says which terminal can be read at a place, as which text, and where
the reading ends. Characters and tokens are both read in this way.

* `Derivation.tree` is the tree that a derivation builds.
* `Derivation.Preferred` says that no nonterminal with ordered alternatives
  could have taken an earlier one over the same stretch.
* `Derivation.extendType` and its companions: what stands behind a type can
  always be read as a part of that type.
-/

namespace DocComment

/-- The nonterminals of the grammar. Lists, optional lists and named members are
nonterminals of their own. -/
inductive Nonterminal where
  | type
  | prefixed
  | suffixed
  | primary
  | types
  | maybeTypes
  | field
  | fields
  | maybeFields
deriving DecidableEq

namespace Nonterminal

abbrev Value : Nonterminal → Type
  | type | prefixed | suffixed | primary => TypeExpr
  | types | maybeTypes => List TypeExpr
  | field => Field
  | fields | maybeFields => List Field

/-- The nonterminals whose alternatives compete for the same stretch. -/
def Layered (n : Nonterminal) : Prop :=
  n = type ∨ n = prefixed ∨ n = suffixed ∨ n = primary

end Nonterminal

variable {P : Type}

/-- A derivation of a nonterminal by the alternative of the given number, from
one place to another. -/
inductive Derivation (reads : Terminal → P → String → P → Prop) :
    Nonterminal → Nat → P → P → Type
  -- types: an operand, a union, an arrow
  | operand {k p q} (d : Derivation reads .prefixed k p q) : Derivation reads .type 0 p q
  | union {j k p q r s x} (left : Derivation reads .prefixed j p q) (bar : reads .bar q x r)
      (right : Derivation reads .type k r s) : Derivation reads .type 1 p s
  | arrow {j k p q r s u v x y z} (opening : reads .leftParen p x q)
      (params : Derivation reads .maybeFields j q r) (closing : reads .rightParen r y s)
      (sign : reads .arrow s z u) (returns : Derivation reads .type k u v) :
      Derivation reads .type 2 p v
  -- operators in front
  | unmarked {k p q} (d : Derivation reads .suffixed k p q) : Derivation reads .prefixed 0 p q
  | nullable {k p q r x} (mark : reads .question p x q) (d : Derivation reads .prefixed k q r) :
      Derivation reads .prefixed 1 p r
  | notNullable {k p q r x} (mark : reads .bang p x q) (d : Derivation reads .prefixed k q r) :
      Derivation reads .prefixed 2 p r
  | variadic {k p q r x} (mark : reads .ellipsis p x q) (d : Derivation reads .prefixed k q r) :
      Derivation reads .prefixed 3 p r
  -- operators behind
  | plain {k p q} (d : Derivation reads .primary k p q) : Derivation reads .suffixed 0 p q
  | optional {k p q r x} (d : Derivation reads .suffixed k p q) (mark : reads .equals q x r) :
      Derivation reads .suffixed 1 p r
  | array {k p q r s x y} (d : Derivation reads .suffixed k p q)
      (opening : reads .leftBracket q x r) (closing : reads .rightBracket r y s) :
      Derivation reads .suffixed 2 p s
  | nullableBehind {k p q r x} (d : Derivation reads .suffixed k p q)
      (mark : reads .question q x r) : Derivation reads .suffixed 3 p r
  | notNullableBehind {k p q r x} (d : Derivation reads .suffixed k p q)
      (mark : reads .bang q x r) : Derivation reads .suffixed 4 p r
  -- primaries; a dot may stand before the arguments of a container
  | name {p q x} (word : reads .name p x q) : Derivation reads .primary 0 p q
  | generic {k p q r s u x y z} (subject : reads .name p x q) (opening : reads .less q y r)
      (arguments : Derivation reads .types k r s) (closing : reads .greater s z u) :
      Derivation reads .primary 1 p u
  | dottedGeneric {k p q r s u v x y z w} (subject : reads .name p x q) (dot : reads .dot q y r)
      (opening : reads .less r z s) (arguments : Derivation reads .types k s u)
      (closing : reads .greater u w v) : Derivation reads .primary 1 p v
  | tuple {k p q r s x y} (opening : reads .leftBracket p x q)
      (entries : Derivation reads .maybeTypes k q r) (closing : reads .rightBracket r y s) :
      Derivation reads .primary 2 p s
  | record {k p q r s x y} (opening : reads .leftBrace p x q)
      (fields : Derivation reads .maybeFields k q r) (closing : reads .rightBrace r y s) :
      Derivation reads .primary 3 p s
  | function {k p q r s u x y z} (word : reads .function p x q) (opening : reads .leftParen q y r)
      (params : Derivation reads .maybeTypes k r s) (closing : reads .rightParen s z u) :
      Derivation reads .primary 4 p u
  | functionReturning {j k p q r s u v w x y z t} (word : reads .function p x q)
      (opening : reads .leftParen q y r) (params : Derivation reads .maybeTypes j r s)
      (closing : reads .rightParen s z u) (colon : reads .colon u t v)
      (returns : Derivation reads .type k v w) : Derivation reads .primary 4 p w
  | typeOf {p q r x y} (word : reads .typeOf p x q) (value : reads .name q y r) :
      Derivation reads .primary 5 p r
  | parens {k p q r s x y} (opening : reads .leftParen p x q)
      (inner : Derivation reads .type k q r) (closing : reads .rightParen r y s) :
      Derivation reads .primary 6 p s
  | any {p q x} (mark : reads .star p x q) : Derivation reads .primary 7 p q
  | unknown {p q x} (mark : reads .question p x q) : Derivation reads .primary 8 p q
  | string {p q x} (literal : reads .string p x q) : Derivation reads .primary 9 p q
  | number {p q x} (literal : reads .number p x q) : Derivation reads .primary 10 p q
  -- lists of types
  | oneType {k p q} (only : Derivation reads .type k p q) : Derivation reads .types 0 p q
  | moreTypes {j k p q r s x} (first : Derivation reads .type j p q) (comma : reads .comma q x r)
      (others : Derivation reads .types k r s) : Derivation reads .types 1 p s
  | noTypes {p} : Derivation reads .maybeTypes 0 p p
  | someTypes {k p q} (types : Derivation reads .types k p q) : Derivation reads .maybeTypes 1 p q
  -- named members and lists of them
  | bareField {p q x} (label : reads .name p x q) : Derivation reads .field 0 p q
  | typedField {k p q r s x y} (label : reads .name p x q) (colon : reads .colon q y r)
      (type : Derivation reads .type k r s) : Derivation reads .field 1 p s
  | oneField {k p q} (only : Derivation reads .field k p q) : Derivation reads .fields 0 p q
  | moreFields {j k p q r s x} (first : Derivation reads .field j p q) (comma : reads .comma q x r)
      (others : Derivation reads .fields k r s) : Derivation reads .fields 1 p s
  | noFields {p} : Derivation reads .maybeFields 0 p p
  | someFields {k p q} (fields : Derivation reads .fields k p q) :
      Derivation reads .maybeFields 1 p q

/-- A nonterminal of a derivation, the alternative that it takes, and the places
where it starts and stops. -/
structure Occurrence (P : Type) where
  nonterminal : Nonterminal
  alternative : Nat
  start : P
  stop : P

namespace Derivation

variable {reads : Terminal → P → String → P → Prop} {n : Nonterminal} {k : Nat} {p q : P}

/-! ## What a derivation builds -/

def tree {n : Nonterminal} {k : Nat} {p q : P} : Derivation reads n k p q → n.Value
  | operand d => d.tree
  | union left _ right => .union left.tree right.tree
  | arrow _ params _ _ returns => .arrow params.tree returns.tree
  | unmarked d => d.tree
  | nullable _ d => .nullable d.tree
  | notNullable _ d => .notNullable d.tree
  | variadic _ d => .variadic d.tree
  | plain d => d.tree
  | optional d _ => .optional d.tree
  | array d _ _ => .generic "Array" [d.tree]
  | nullableBehind d _ => .nullable d.tree
  | notNullableBehind d _ => .notNullable d.tree
  | name (x := text) _ => .name text
  | generic (x := subject) _ _ arguments _ => .generic subject arguments.tree
  | dottedGeneric (x := subject) _ _ _ arguments _ => .generic subject arguments.tree
  | tuple _ entries _ => .tuple entries.tree
  | record _ fields _ => .record fields.tree
  | function _ _ params _ => .function params.tree
  | functionReturning _ _ params _ _ returns => .functionReturning params.tree returns.tree
  | typeOf (y := value) _ _ => .typeOf value
  | parens _ inner _ => .parens inner.tree
  | any _ => .any
  | unknown _ => .unknown
  | string (x := text) _ => .string text
  | number (x := text) _ => .number text
  | oneType only => [only.tree]
  | moreTypes first _ others => first.tree :: others.tree
  | noTypes => []
  | someTypes types => types.tree
  | bareField (x := label) _ => .bare label
  | typedField (x := label) _ _ type => .typed label type.tree
  | oneField only => [only.tree]
  | moreFields first _ others => first.tree :: others.tree
  | noFields => []
  | someFields fields => fields.tree

def root (_ : Derivation reads n k p q) : Occurrence P := ⟨n, k, p, q⟩

/-- The nonterminals of a derivation, each before the ones inside it. -/
def occurrences {n : Nonterminal} {k : Nat} {p q : P} :
    Derivation reads n k p q → List (Occurrence P)
  | e@(operand d) | e@(unmarked d) | e@(nullable _ d) | e@(notNullable _ d) | e@(variadic _ d)
  | e@(plain d) | e@(optional d _) | e@(array d _ _) | e@(nullableBehind d _)
  | e@(notNullableBehind d _) | e@(generic _ _ d _) | e@(dottedGeneric _ _ _ d _)
  | e@(tuple _ d _) | e@(record _ d _) | e@(function _ _ d _) | e@(parens _ d _)
  | e@(oneType d) | e@(someTypes d) | e@(typedField _ _ d) | e@(oneField d)
  | e@(someFields d) => e.root :: d.occurrences
  | e@(union c _ d) | e@(arrow _ c _ _ d) | e@(functionReturning _ _ c _ _ d)
  | e@(moreTypes c _ d) | e@(moreFields c _ d) => e.root :: c.occurrences ++ d.occurrences
  | e@(name _) | e@(typeOf _ _) | e@(any _) | e@(unknown _) | e@(string _) | e@(number _)
  | e@noTypes | e@(bareField _) | e@noFields => [e.root]

end Derivation

/-! ## Along a derivation -/

namespace Derivation

variable {P : Type} {reads : Terminal → P → String → P → Prop} {n : Nonterminal} {k : Nat}

/-- What each terminal keeps and what can be put together is kept by a derivation. -/
theorem rel_of_reads {p q : P} (rel : P → P → Prop) (hrefl : ∀ p, rel p p)
    (htrans : ∀ {p q r}, rel p q → rel q r → rel p r)
    (h : ∀ {t p x q}, reads t p x q → rel p q) (d : Derivation reads n k p q) : rel p q := by
  -- the terminals and the parts stand one behind the other; constructors with the same order share
  -- a case
  induction d with
  | operand _ ih | unmarked _ ih | plain _ ih | oneType _ ih | someTypes _ ih | oneField _ ih
  | someFields _ ih => exact ih
  | union _ sign _ ihl ihr | moreTypes _ sign _ ihl ihr | moreFields _ sign _ ihl ihr =>
    exact htrans ihl (htrans (h sign) ihr)
  | arrow opening _ closing sign _ ihp ihr =>
    exact htrans (h opening) (htrans ihp (htrans (h closing) (htrans (h sign) ihr)))
  | nullable mark _ ih | notNullable mark _ ih | variadic mark _ ih => exact htrans (h mark) ih
  | optional _ mark ih | nullableBehind _ mark ih | notNullableBehind _ mark ih =>
    exact htrans ih (h mark)
  | array _ opening closing ih => exact htrans ih (htrans (h opening) (h closing))
  | name word | any word | unknown word | string word | number word | bareField word =>
    exact h word
  | typeOf word value => exact htrans (h word) (h value)
  | tuple opening _ closing ih | record opening _ closing ih | parens opening _ closing ih =>
    exact htrans (h opening) (htrans ih (h closing))
  | generic subject opening _ closing ih | function subject opening _ closing ih =>
    exact htrans (h subject) (htrans (h opening) (htrans ih (h closing)))
  | dottedGeneric subject dot opening _ closing ih =>
    exact htrans (h subject) (htrans (h dot) (htrans (h opening) (htrans ih (h closing))))
  | functionReturning word opening _ closing colon _ ihp ihr =>
    exact htrans (h word) (htrans (h opening)
      (htrans ihp (htrans (h closing) (htrans (h colon) ihr))))
  | typedField label colon _ ih => exact htrans (h label) (htrans (h colon) ih)
  | noTypes | noFields => exact hrefl _

/-- If each terminal leads to a suffix, then so does a derivation. -/
theorem suffix_of_reads {α : Type} {reads : Terminal → List α → String → List α → Prop}
    {p q : List α} (h : ∀ {t p x q}, reads t p x q → q <:+ p) (d : Derivation reads n k p q) :
    q <:+ p :=
  d.rel_of_reads (fun p q => q <:+ p) List.suffix_refl (fun hq hr => hr.trans hq) h

end Derivation

/-! ## Preferred derivations -/

/-- No earlier alternative of the nonterminal reads the same stretch. Only the
layered nonterminals have an order among their alternatives. -/
def Occurrence.IsFirst (reads : Terminal → P → String → P → Prop) (o : Occurrence P) : Prop :=
  o.nonterminal.Layered →
    ∀ j < o.alternative, ¬ Nonempty (Derivation reads o.nonterminal j o.start o.stop)

namespace Derivation

variable {reads : Terminal → P → String → P → Prop} {m n : Nonterminal} {j k l : Nat}
  {p q r s : P} {x : String}

/-- Every nonterminal of the derivation takes the first alternative that reads
its stretch. -/
def Preferred (d : Derivation reads n k p q) : Prop :=
  ∀ o ∈ d.occurrences, o.IsFirst reads

/-- A derivation without parts is preferred if its own alternative is the first. -/
theorem preferred_of_leaf {e : Derivation reads n k p q} (h : e.occurrences = [e.root]) :
    e.Preferred ↔ e.root.IsFirst reads := by
  simp [Preferred, h]

/-- A derivation is preferred if its own alternative is the first and its part is preferred. -/
theorem preferred_of_child {e : Derivation reads n k p q} {d : Derivation reads m j r s}
    (h : e.occurrences = e.root :: d.occurrences) :
    e.Preferred ↔ e.root.IsFirst reads ∧ d.Preferred := by
  simp [Preferred, h]

theorem preferred_of_children {e : Derivation reads n k p q}
    {c : Derivation reads m j r s} {u v : P} {i : Nonterminal} {d : Derivation reads i l u v}
    (h : e.occurrences = e.root :: c.occurrences ++ d.occurrences) :
    e.Preferred ↔ e.root.IsFirst reads ∧ c.Preferred ∧ d.Preferred := by
  simp [Preferred, h, or_imp, forall_and]

/-- The first alternative of all is preferred. -/
theorem isFirst_zero (d : Derivation reads n 0 p q) : d.root.IsFirst reads := by
  intro _ j hj
  exact absurd hj (Nat.not_lt_zero j)

/-! ## What can stand behind a type

An operator or a bar behind a type can be read as a part of the type, however
the type was read. So a function type that names a result takes everything that
stands behind the result. -/

/-- Whatever ends at the first place as an operand with operators behind it can
be read on to the second place. -/
def Extends (reads : Terminal → P → String → P → Prop) (q r : P) : Prop :=
  ∀ k p, Nonempty (Derivation reads .suffixed k p q) →
    ∃ j, Nonempty (Derivation reads .suffixed j p r)

theorem extends_optional (mark : reads .equals q x r) : Extends reads q r :=
  fun _ _ ⟨d⟩ => ⟨_, ⟨.optional d mark⟩⟩

theorem extends_nullable (mark : reads .question q x r) : Extends reads q r :=
  fun _ _ ⟨d⟩ => ⟨_, ⟨.nullableBehind d mark⟩⟩

theorem extends_notNullable (mark : reads .bang q x r) : Extends reads q r :=
  fun _ _ ⟨d⟩ => ⟨_, ⟨.notNullableBehind d mark⟩⟩

/-- A pair of brackets extends an operand. -/
theorem extends_array {y : String} (opening : reads .leftBracket q x r)
    (closing : reads .rightBracket r y s) : Extends reads q s :=
  fun _ _ ⟨d⟩ => ⟨_, ⟨.array d opening closing⟩⟩

/-- What can be read behind an operand can be read behind a type. -/
theorem extend_type (d : Derivation reads n k p q) (h : Extends reads q r)
    (hn : n = .type ∨ n = .prefixed ∨ n = .suffixed) :
    ∃ j, Nonempty (Derivation reads n j p r) := by
  -- what is read goes on at the last part, down to an operand with operators
  induction d with
  | operand d ih =>
    rcases ih h (by simp) with ⟨_, ⟨e⟩⟩
    exact ⟨_, ⟨.operand e⟩⟩
  | union left bar right _ ih =>
    rcases ih h (by simp) with ⟨_, ⟨e⟩⟩
    exact ⟨_, ⟨.union left bar e⟩⟩
  | arrow opening params closing sign returns _ ih =>
    rcases ih h (by simp) with ⟨_, ⟨e⟩⟩
    exact ⟨_, ⟨.arrow opening params closing sign e⟩⟩
  | unmarked d ih =>
    rcases ih h (by simp) with ⟨_, ⟨e⟩⟩
    exact ⟨_, ⟨.unmarked e⟩⟩
  | nullable mark d ih =>
    rcases ih h (by simp) with ⟨_, ⟨e⟩⟩
    exact ⟨_, ⟨.nullable mark e⟩⟩
  | notNullable mark d ih =>
    rcases ih h (by simp) with ⟨_, ⟨e⟩⟩
    exact ⟨_, ⟨.notNullable mark e⟩⟩
  | variadic mark d ih =>
    rcases ih h (by simp) with ⟨_, ⟨e⟩⟩
    exact ⟨_, ⟨.variadic mark e⟩⟩
  | plain d => exact h _ _ ⟨.plain d⟩
  | optional d mark => exact h _ _ ⟨.optional d mark⟩
  | array d opening closing => exact h _ _ ⟨.array d opening closing⟩
  | nullableBehind d mark => exact h _ _ ⟨.nullableBehind d mark⟩
  | notNullableBehind d mark => exact h _ _ ⟨.notNullableBehind d mark⟩
  | _ => simp at hn

/-- A type, a bar and a type are a type. -/
theorem union_type (d : Derivation reads n k p q) (hn : n = .type) (bar : reads .bar q x r)
    (right : Derivation reads .type l r s) : ∃ j, Nonempty (Derivation reads .type j p s) := by
  induction d with
  | operand d => exact ⟨_, ⟨.union d bar right⟩⟩
  | union left bar' _ _ ih =>
    rcases ih rfl bar with ⟨_, ⟨e⟩⟩
    exact ⟨_, ⟨.union left bar' e⟩⟩
  | arrow opening params closing sign _ _ ih =>
    rcases ih rfl bar with ⟨_, ⟨e⟩⟩
    exact ⟨_, ⟨.arrow opening params closing sign e⟩⟩
  | _ => simp at hn

end Derivation

/-- Whether an operand ends in the result of a function type. -/
def TypeExpr.endsInResult : TypeExpr → Bool
  | functionReturning _ _ => true
  | nullable inner | notNullable inner | variadic inner => endsInResult inner
  | _ => false

/-- Whether what was read ends in the result of a function type. -/
def Nonterminal.endsInResult : (n : Nonterminal) → n.Value → Bool
  | type, t | prefixed, t | suffixed, t | primary, t => t.endsInResult
  | _, _ => false

namespace Derivation

variable {reads : Terminal → P → String → P → Prop} {n : Nonterminal} {k : Nat} {p q r : P}

/-- A primary with operators that ends in a result is a primary together with
all that can be read behind types. -/
theorem absorb_suffixed (d : Derivation reads n k p q) (hn : n = .suffixed ∨ n = .primary)
    (hd : n.endsInResult d.tree = true)
    (h : ∀ i l, Nonempty (Derivation reads .type i l q) →
      ∃ j, Nonempty (Derivation reads .type j l r)) :
    Nonempty (Derivation reads .primary 4 p r) := by
  induction d with
  | plain d ih => exact ih (by simp) hd h
  | nullableBehind d mark ih =>
    refine ih (by simp) hd fun i l ⟨e⟩ => ?_
    rcases extend_type e (extends_nullable mark) (by simp) with ⟨_, he⟩
    exact h _ _ he
  | notNullableBehind d mark ih =>
    refine ih (by simp) hd fun i l ⟨e⟩ => ?_
    rcases extend_type e (extends_notNullable mark) (by simp) with ⟨_, he⟩
    exact h _ _ he
  -- here the result is, and it takes all that can be read behind it
  | functionReturning word opening params closing colon returns =>
    rcases h _ _ ⟨returns⟩ with ⟨_, ⟨e⟩⟩
    exact ⟨.functionReturning word opening params closing colon e⟩
  | _ => first | exact absurd hd Bool.false_ne_true | simp at hn

/-- An operand that ends in a result is an operand together with all that can be
read behind types. -/
theorem absorb_prefixed (d : Derivation reads n k p q) (hn : n = .prefixed)
    (hd : n.endsInResult d.tree = true)
    (h : ∀ i l, Nonempty (Derivation reads .type i l q) →
      ∃ j, Nonempty (Derivation reads .type j l r)) :
    ∃ j, Nonempty (Derivation reads .prefixed j p r) := by
  induction d with
  -- signs in front stay; the operand below them ends in the result
  | unmarked d =>
    rcases absorb_suffixed d (by simp) hd h with ⟨e⟩
    exact ⟨_, ⟨.unmarked (.plain e)⟩⟩
  | nullable mark d ih =>
    rcases ih rfl hd h with ⟨_, ⟨e⟩⟩
    exact ⟨_, ⟨.nullable mark e⟩⟩
  | notNullable mark d ih =>
    rcases ih rfl hd h with ⟨_, ⟨e⟩⟩
    exact ⟨_, ⟨.notNullable mark e⟩⟩
  | variadic mark d ih =>
    rcases ih rfl hd h with ⟨_, ⟨e⟩⟩
    exact ⟨_, ⟨.variadic mark e⟩⟩
  | _ => simp at hn

end Derivation

section

variable (reads : Terminal → P → String → P → Prop)

/-- However the stretch of a union is read as an operand, a bar and a type, and
however the stretch of an operator behind an operand is read as an operand and
an operator, the operand does not end in the result of a function type. -/
structure Occurrence.SparesResults (o : Occurrence P) : Prop where
  bar : o.nonterminal = .type → o.alternative = 1 →
    ∀ {j k q r x} (left : Derivation reads .prefixed j o.start q), reads .bar q x r →
      Derivation reads .type k r o.stop → left.tree.endsInResult = false
  operator : o.nonterminal = .suffixed → 0 < o.alternative →
    ∀ {k q} (d : Derivation reads .suffixed k o.start q), Derivation.Extends reads q o.stop →
      d.tree.endsInResult = false

end

/-- An operand that ends in a result would have taken the bar or the operator into the result,
and that alternative is preferred. -/
theorem Occurrence.IsFirst.sparesResults {reads : Terminal → P → String → P → Prop}
    {o : Occurrence P} (h : o.IsFirst reads) : o.SparesResults reads := by
  rcases o with ⟨n, k, p, s⟩
  refine ⟨?_, ?_⟩
  · intro heq heq' j l q r x left bar right
    subst heq
    subst heq'
    refine Bool.eq_false_iff.mpr fun hresult => ?_
    -- an operand alone would cover the union
    obtain ⟨_, ⟨e⟩⟩ := Derivation.absorb_prefixed left rfl hresult
      fun _ _ ⟨d⟩ => Derivation.union_type d rfl bar right
    exact h (.inl rfl) 0 Nat.zero_lt_one ⟨.operand e⟩
  · intro heq hk l q d hextends
    subst heq
    refine Bool.eq_false_iff.mpr fun hresult => ?_
    -- a primary alone would cover the operand with its operator
    obtain ⟨e⟩ := Derivation.absorb_suffixed d (.inl rfl) hresult
      fun _ _ ⟨d⟩ => Derivation.extend_type d hextends (.inl rfl)
    exact h (.inr (.inr (.inl rfl))) 0 hk ⟨.plain e⟩

end DocComment
