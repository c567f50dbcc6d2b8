import DocComment.Proofs.Grammar.Chains

/-!
# What a primary is read from

The first tokens of a primary tell its alternative, up to its end: an opening
sign leads to its closing sign, and the word `function` or the name of a
container to a list between brackets. A preferred primary has preferred parts.
-/

namespace DocComment

open Terminal Token DocComment.Derivation

/-- The alternatives of a primary that can begin with a token. -/
def Token.alternatives : Token → List Nat
  | name _ => [0, 1, 4, 5]
  | leftBracket => [2]
  | leftBrace => [3]
  | leftParen => [6]
  | star => [7]
  | question => [8]
  | string _ => [9]
  | number _ => [10]
  | _ => []

/-- The primary that one token is. -/
def Token.atom? : Token → Option TypeExpr
  | name text => some (.name text)
  | string text => some (.string text)
  | number text => some (.number text)
  | star => some .any
  | question => some .unknown
  | _ => none

namespace TokenDerivation

variable {k : Nat} {p q : List Token} {token : Token} {x : String}

/-- The first token of a primary tells its alternatives. -/
theorem alternative_mem (d : TokenDerivation .primary k (token :: p) q) :
    k ∈ token.alternatives := by
  -- the first terminal of the alternative is matched by the token
  cases d with
  | name word | generic word | dottedGeneric word =>
    rcases List.cons.inj (eq_of_read?_name word) with ⟨rfl, -⟩
    simp [Token.alternatives]
  | function word | functionReturning word =>
    rcases List.cons.inj (eq_of_read?_function word) with ⟨rfl, -⟩
    simp [Token.alternatives]
  | typeOf word =>
    rcases List.cons.inj (eq_of_read?_typeOf word) with ⟨rfl, -⟩
    simp [Token.alternatives]
  | string literal =>
    rcases List.cons.inj (eq_of_read?_string literal) with ⟨rfl, -⟩
    simp [Token.alternatives]
  | number literal =>
    rcases List.cons.inj (eq_of_read?_number literal) with ⟨rfl, -⟩
    simp [Token.alternatives]
  | any sign | unknown sign | tuple sign | record sign | parens sign =>
    rcases List.cons.inj (eq_of_read?_mark rfl sign) with ⟨rfl, -⟩
    simp [Token.alternatives]

/-- No operand begins with a token that begins no primary. -/
theorem not_suffixed (h : token.alternatives = []) :
    ¬ Nonempty (TokenDerivation .suffixed k (token :: p) q) := by
  intro hread
  rcases hread with ⟨d⟩
  rcases Grammar.exists_chain d with ⟨_, _, _, e, -⟩
  have hmem := alternative_mem e
  rw [h] at hmem
  exact List.not_mem_nil hmem

/-- A primary of one token. -/
theorem atom?_eq (d : TokenDerivation .primary k (token :: q) q) :
    token.atom? = some d.tree := by
  cases d with
  | name word =>
    rcases List.cons.inj (eq_of_read?_name word) with ⟨rfl, -⟩
    rfl
  | string literal =>
    rcases List.cons.inj (eq_of_read?_string literal) with ⟨rfl, -⟩
    rfl
  | number literal =>
    rcases List.cons.inj (eq_of_read?_number literal) with ⟨rfl, -⟩
    rfl
  | any mark | unknown mark =>
    rcases List.cons.inj (eq_of_read?_mark rfl mark) with ⟨rfl, -⟩
    rfl
  -- all others take at least two tokens
  | typeOf word value =>
    have h := length_read?_lt word
    have h' := length_read?_lt value
    rw [List.length_cons] at h
    omega
  | tuple opening e closing | record opening e closing | parens opening e closing =>
    have h := length_read?_lt opening
    have h' := length_read?_lt closing
    have he := (suffix e).length_le
    rw [List.length_cons] at h
    omega
  | generic subject opening e closing | function subject opening e closing =>
    have h := length_read?_lt subject
    have h' := length_read?_lt opening
    have h'' := length_read?_lt closing
    have he := (suffix e).length_le
    rw [List.length_cons] at h
    omega
  | dottedGeneric subject dot opening e closing =>
    have h := length_read?_lt subject
    have h' := length_read?_lt dot
    have h'' := length_read?_lt opening
    have h''' := length_read?_lt closing
    have he := (suffix e).length_le
    rw [List.length_cons] at h
    omega
  | functionReturning word opening e closing colon e' =>
    have h := length_read?_lt word
    have h' := length_read?_lt opening
    have h'' := length_read?_lt closing
    have h''' := length_read?_lt colon
    have he := (suffix e).length_le
    have he' := (suffix e').length_le
    rw [List.length_cons] at h
    omega

/-- A question mark is a primary of one token. -/
theorem tree_question (d : TokenDerivation .primary k (.question :: p) q) :
    p = q ∧ d.tree = .unknown := by
  obtain rfl := List.mem_singleton.mp (alternative_mem d)
  cases d with
  | unknown mark =>
    rcases List.cons.inj (eq_of_read?_mark rfl mark) with ⟨-, rfl⟩
    exact ⟨rfl, rfl⟩

/-! ## Brackets -/

/-- What stands between an opening and a closing sign is a part of its own, whatever is in front
of the signs. -/
theorem exists_inside {m : Nonterminal} {j : Nat} {opening closing : Terminal}
    {first last : Token} {s p' r : List Token} {y : String} (d : TokenDerivation .primary k s q)
    (e : TokenDerivation m j p' r) {build : m.Value → TypeExpr}
    (hd : d.tree = build e.tree ∧ d.occurrences = d.root :: e.occurrences)
    (hfirst : opening.mark? = some first) (front : ReadsTokens opening (first :: p) x p')
    (hlast : closing.mark? = some last) (back : ReadsTokens closing r y q) :
    ∃ j, ∃ e : TokenDerivation m j p (last :: q),
      d.tree = build e.tree ∧ (d.Preferred → e.Preferred) := by
  rcases List.cons.inj (eq_of_read?_mark hfirst front) with ⟨-, rfl⟩
  obtain rfl := eq_of_read?_mark hlast back
  exact ⟨j, e, hd.1, fun h => ((preferred_of_child hd.2).mp h).2⟩

/-- A primary that begins with a parenthesis is a type between parentheses. -/
theorem exists_parens (d : TokenDerivation .primary k (.leftParen :: p) q) :
    ∃ j, ∃ e : TokenDerivation .type j p (.rightParen :: q),
      d.tree = .parens e.tree ∧ (d.Preferred → e.Preferred) := by
  obtain rfl := List.mem_singleton.mp (alternative_mem d)
  cases d with
  | parens front e back =>
    exact exists_inside (.parens front e back) e ⟨rfl, rfl⟩ rfl front rfl back

/-- A primary that begins with a bracket is a tuple. -/
theorem exists_tuple (d : TokenDerivation .primary k (.leftBracket :: p) q) :
    ∃ j, ∃ e : TokenDerivation .maybeTypes j p (.rightBracket :: q),
      d.tree = .tuple e.tree ∧ (d.Preferred → e.Preferred) := by
  obtain rfl := List.mem_singleton.mp (alternative_mem d)
  cases d with
  | tuple front e back =>
    exact exists_inside (.tuple front e back) e ⟨rfl, rfl⟩ rfl front rfl back

/-- A primary that begins with a brace is a record. -/
theorem exists_record (d : TokenDerivation .primary k (.leftBrace :: p) q) :
    ∃ j, ∃ e : TokenDerivation .maybeFields j p (.rightBrace :: q),
      d.tree = .record e.tree ∧ (d.Preferred → e.Preferred) := by
  obtain rfl := List.mem_singleton.mp (alternative_mem d)
  cases d with
  | record front e back =>
    exact exists_inside (.record front e back) e ⟨rfl, rfl⟩ rfl front rfl back

/-! ## Primaries that begin with a word -/

/-- A name in front of `<` is a container if it is not all. -/
theorem exists_generic (d : TokenDerivation .primary k (.name x :: .less :: p) q)
    (hq : q ≠ .less :: p) :
    ∃ j, ∃ e : TokenDerivation .types j p (.greater :: q),
      d.tree = .generic x e.tree ∧ (d.Preferred → e.Preferred) := by
  -- the first two tokens exclude all alternatives but the name and the container
  cases d with
  | name word =>
    rcases List.cons.inj (eq_of_read?_name word) with ⟨-, rfl⟩
    exact absurd rfl hq
  | generic subject opening e closing =>
    rcases List.cons.inj (eq_of_read?_name subject) with ⟨hx, rfl⟩
    obtain rfl := Token.name.inj hx
    exact exists_inside (.generic subject opening e closing) e ⟨rfl, rfl⟩ rfl opening rfl closing
  | dottedGeneric subject dot =>
    rcases List.cons.inj (eq_of_read?_name subject) with ⟨-, rfl⟩
    rcases eq_of_read?_dot dot with ⟨b, hdot⟩
    simp at hdot
  | function word opening | functionReturning word opening =>
    rcases List.cons.inj (eq_of_read?_function word) with ⟨-, rfl⟩
    exact absurd (eq_of_read?_mark rfl opening) (by simp)
  | typeOf word value =>
    rcases List.cons.inj (eq_of_read?_typeOf word) with ⟨-, rfl⟩
    exact absurd (eq_of_read?_name value) (by simp)
  | string literal => exact absurd (eq_of_read?_string literal) (by simp)
  | number literal => exact absurd (eq_of_read?_number literal) (by simp)
  | any sign | unknown sign | tuple sign | record sign | parens sign =>
    exact absurd (eq_of_read?_mark rfl sign) (by simp)

/-- The word `function` in front of a parenthesis is a function type if it is not
all. -/
theorem exists_function (d : TokenDerivation .primary k (.name "function" :: .leftParen :: p) q)
    (hq : q ≠ .leftParen :: p) :
    (∃ j, ∃ e : TokenDerivation .maybeTypes j p (.rightParen :: q),
      d.tree = .function e.tree ∧ (d.Preferred → e.Preferred)) ∨
    ∃ i j m, ∃ e : TokenDerivation .maybeTypes i p (.rightParen :: .colon :: m),
      ∃ e' : TokenDerivation .type j m q,
        d.tree = .functionReturning e.tree e'.tree ∧
          (d.Preferred → e.Preferred ∧ e'.Preferred) := by
  -- the word may be a name or begin a function type; the parenthesis excludes the other
  -- alternatives
  cases d with
  | name word =>
    rcases List.cons.inj (eq_of_read?_name word) with ⟨-, rfl⟩
    exact absurd rfl hq
  | generic subject opening =>
    rcases List.cons.inj (eq_of_read?_name subject) with ⟨-, rfl⟩
    exact absurd (eq_of_read?_mark rfl opening) (by simp)
  | dottedGeneric subject dot =>
    rcases List.cons.inj (eq_of_read?_name subject) with ⟨-, rfl⟩
    rcases eq_of_read?_dot dot with ⟨b, hdot⟩
    simp at hdot
  | function word opening e closing =>
    rcases List.cons.inj (eq_of_read?_function word) with ⟨-, rfl⟩
    exact .inl (exists_inside (.function word opening e closing) e ⟨rfl, rfl⟩ rfl opening rfl
      closing)
  | functionReturning word opening e closing colon e' =>
    rcases List.cons.inj (eq_of_read?_function word) with ⟨-, rfl⟩
    rcases List.cons.inj (eq_of_read?_mark rfl opening) with ⟨-, rfl⟩
    obtain rfl := eq_of_read?_mark rfl closing
    obtain rfl := eq_of_read?_mark rfl colon
    exact .inr ⟨_, _, _, e, e', rfl, fun h => ((preferred_of_children rfl).mp h).2⟩
  | typeOf word value =>
    rcases List.cons.inj (eq_of_read?_typeOf word) with ⟨-, rfl⟩
    exact absurd (eq_of_read?_name value) (by simp)
  | string literal => exact absurd (eq_of_read?_string literal) (by simp)
  | number literal => exact absurd (eq_of_read?_number literal) (by simp)
  | any sign | unknown sign | tuple sign | record sign | parens sign =>
    exact absurd (eq_of_read?_mark rfl sign) (by simp)

/-- The word `typeof` and a name are one primary. -/
theorem tree_typeOf (d : TokenDerivation .primary k (.name "typeof" :: .name x :: q) q) :
    d.tree = .typeOf x := by
  -- the word may be a name as well, but then another name would be left
  cases d with
  | name word =>
    rcases List.cons.inj (eq_of_read?_name word) with ⟨-, hq⟩
    exact absurd (congrArg List.length hq) (by simp)
  | generic subject opening =>
    rcases List.cons.inj (eq_of_read?_name subject) with ⟨-, rfl⟩
    exact absurd (eq_of_read?_mark rfl opening) (by simp)
  | dottedGeneric subject dot =>
    rcases List.cons.inj (eq_of_read?_name subject) with ⟨-, rfl⟩
    rcases eq_of_read?_dot dot with ⟨b, hdot⟩
    simp at hdot
  | function word | functionReturning word =>
    exact absurd (eq_of_read?_function word) (by simp)
  | typeOf word value =>
    rcases List.cons.inj (eq_of_read?_typeOf word) with ⟨-, rfl⟩
    rcases List.cons.inj (eq_of_read?_name value) with ⟨hx, -⟩
    exact congrArg TypeExpr.typeOf (Token.name.inj hx).symm
  | string literal => exact absurd (eq_of_read?_string literal) (by simp)
  | number literal => exact absurd (eq_of_read?_number literal) (by simp)
  | any sign | unknown sign | tuple sign | record sign | parens sign =>
    exact absurd (eq_of_read?_mark rfl sign) (by simp)

/-! ## Operands -/

/-- A primary is preferred to an operand with operators behind it. -/
theorem exists_plain (d : TokenDerivation .suffixed k p q) (hd : d.Preferred)
    (h : ∃ j, Nonempty (TokenDerivation .primary j p q)) :
    ∃ j, ∃ e : TokenDerivation .primary j p q, d.tree = e.tree ∧ e.Preferred := by
  rcases h with ⟨j, ⟨e⟩⟩
  have hfirst {i : Nat} {c : TokenDerivation .suffixed i p q} (hc : c.root.IsFirst ReadsTokens)
      (hi : 0 < i) : False := hc (.inr (.inr (.inl rfl))) 0 hi ⟨.plain e⟩
  cases d with
  | plain c => exact ⟨_, c, rfl, ((preferred_of_child rfl).mp hd).2⟩
  | optional | array | nullableBehind | notNullableBehind =>
    exact (hfirst ((preferred_of_child rfl).mp hd).1 (Nat.succ_pos _)).elim

/-- An operand without a sign in front is preferred wherever it can be read. -/
theorem exists_unmarked (d : TokenDerivation .prefixed k p q) (hd : d.Preferred)
    (h : ∃ j, Nonempty (TokenDerivation .suffixed j p q)) :
    ∃ j, ∃ e : TokenDerivation .suffixed j p q, d.tree = e.tree ∧ e.Preferred := by
  rcases h with ⟨j, ⟨e⟩⟩
  have hfirst {i : Nat} {c : TokenDerivation .prefixed i p q} (hc : c.root.IsFirst ReadsTokens)
      (hi : 0 < i) : False := hc (.inr (.inl rfl)) 0 hi ⟨.unmarked e⟩
  cases d with
  | unmarked c => exact ⟨_, c, rfl, ((preferred_of_child rfl).mp hd).2⟩
  | nullable | notNullable | variadic =>
    exact (hfirst ((preferred_of_child rfl).mp hd).1 (Nat.succ_pos _)).elim

/-- An operand that begins with an exclamation mark has that sign. -/
theorem exists_notNullable (d : TokenDerivation .prefixed k (.bang :: p) q) :
    ∃ j, ∃ e : TokenDerivation .prefixed j p q,
      d.tree = .notNullable e.tree ∧ (d.Preferred → e.Preferred) := by
  cases d with
  | unmarked c => exact absurd ⟨c⟩ (not_suffixed rfl)
  | nullable mark => exact absurd (eq_of_read?_mark rfl mark) (by simp)
  | notNullable mark e =>
    rcases List.cons.inj (eq_of_read?_mark rfl mark) with ⟨-, rfl⟩
    exact ⟨_, e, rfl, fun h => ((preferred_of_child rfl).mp h).2⟩
  | variadic mark =>
    rcases eq_of_read?_ellipsis mark with ⟨_, _, h⟩
    simp at h

/-- A question mark is a sign of what stands behind it if no operand with it can
be read. -/
theorem exists_nullable (d : TokenDerivation .prefixed k (.question :: p) q)
    (h : ∀ j, ¬ Nonempty (TokenDerivation .suffixed j (.question :: p) q)) :
    ∃ j, ∃ e : TokenDerivation .prefixed j p q,
      d.tree = .nullable e.tree ∧ (d.Preferred → e.Preferred) := by
  cases d with
  | unmarked c => exact absurd ⟨c⟩ (h _)
  | nullable mark e =>
    rcases List.cons.inj (eq_of_read?_mark rfl mark) with ⟨-, rfl⟩
    exact ⟨_, e, rfl, fun h => ((preferred_of_child rfl).mp h).2⟩
  | notNullable mark => exact absurd (eq_of_read?_mark rfl mark) (by simp)
  | variadic mark =>
    rcases eq_of_read?_ellipsis mark with ⟨_, _, h⟩
    simp at h

/-- An operand that begins with three dots has that sign. -/
theorem exists_variadic {b c : Bool}
    (d : TokenDerivation .prefixed k (.dot true :: .dot b :: .dot c :: p) q) :
    ∃ j, ∃ e : TokenDerivation .prefixed j p q,
      d.tree = .variadic e.tree ∧ (d.Preferred → e.Preferred) := by
  cases d with
  | unmarked c => exact absurd ⟨c⟩ (not_suffixed rfl)
  | nullable mark | notNullable mark => exact absurd (eq_of_read?_mark rfl mark) (by simp)
  | variadic mark e =>
    rcases eq_of_read?_ellipsis mark with ⟨_, _, h⟩
    simp only [List.cons.injEq] at h
    rcases h with ⟨-, -, -, rfl⟩
    exact ⟨_, e, rfl, fun h => ((preferred_of_child rfl).mp h).2⟩

end TokenDerivation

end DocComment
