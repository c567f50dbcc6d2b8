import DocComment.Proofs.Grammar.Derivation

/-!
# Derivations over tokens

The grammar read over a list of tokens. A place is the list of tokens that are
left, so a derivation leads from a list to one of its suffixes, and places
behind the same start are told apart by their length.
-/

namespace DocComment

/-- A terminal covers the tokens from one place to another. -/
abbrev Terminal.ReadsTokens (t : Terminal) (p : List Token) (x : String) (q : List Token) : Prop :=
  t.read? p = some (x, q)

abbrev TokenDerivation : Nonterminal → Nat → List Token → List Token → Type :=
  Derivation Terminal.ReadsTokens

namespace Terminal

variable {t : Terminal} {p q : List Token} {x : String}

/-! ## Terminals over tokens -/

/-- A terminal leaves a suffix of the tokens. -/
theorem suffix_of_read? (h : t.read? p = some (x, q)) : q <:+ p := by
  unfold read? at h
  split at h <;> grind [List.suffix_cons, List.suffix_cons_iff]

/-- The token of a terminal that is a single mark and nothing else. -/
def mark? : Terminal → Option Token
  | bang => some .bang
  | colon => some .colon
  | comma => some .comma
  | leftBrace => some .leftBrace
  | less => some .less
  | leftParen => some .leftParen
  | leftBracket => some .leftBracket
  | greater => some .greater
  | question => some .question
  | rightBrace => some .rightBrace
  | rightParen => some .rightParen
  | rightBracket => some .rightBracket
  | star => some .star
  | bar => some .bar
  | _ => none

/-- A terminal of one mark stands at the start of the tokens. -/
theorem eq_of_read?_mark {m : Token} (ht : t.mark? = some m) (h : t.read? p = some (x, q)) :
    p = m :: q := by
  cases t <;> simp only [mark?, reduceCtorEq, Option.some.injEq] at ht <;> subst ht <;>
    rcases p with _ | ⟨_ | _, _⟩ <;> simp_all [read?]

theorem eq_of_read?_equals (h : equals.read? p = some (x, q)) : ∃ b, p = .equals b :: q := by
  rcases p with _ | ⟨_ | _, _⟩ <;> simp_all [read?]

theorem eq_of_read?_dot (h : dot.read? p = some (x, q)) : ∃ b, p = .dot b :: q := by
  rcases p with _ | ⟨_ | _, _⟩ <;> simp_all [read?]

theorem eq_of_read?_name (h : name.read? p = some (x, q)) : p = .name x :: q := by
  rcases p with _ | ⟨_ | _, _⟩ <;> simp_all [read?]

theorem eq_of_read?_string (h : string.read? p = some (x, q)) : p = .string x :: q := by
  rcases p with _ | ⟨_ | _, _⟩ <;> simp_all [read?]

theorem eq_of_read?_number (h : number.read? p = some (x, q)) : p = .number x :: q := by
  rcases p with _ | ⟨_ | _, _⟩ <;> simp_all [read?]

theorem eq_of_read?_function (h : function.read? p = some (x, q)) :
    p = .name "function" :: q := by
  rcases p with _ | ⟨_ | _, _⟩ <;> grind [read?]

theorem eq_of_read?_typeOf (h : typeOf.read? p = some (x, q)) : p = .name "typeof" :: q := by
  rcases p with _ | ⟨_ | _, _⟩ <;> grind [read?]

/-- Three dots, the first of which begins an ellipsis. -/
theorem eq_of_read?_ellipsis (h : ellipsis.read? p = some (x, q)) :
    ∃ b c, p = .dot true :: .dot b :: .dot c :: q := by
  unfold read? at h
  split at h <;> simp_all

/-- An equals sign that touches a `>`. -/
theorem eq_of_read?_arrow (h : arrow.read? p = some (x, q)) :
    p = .equals true :: .greater :: q := by
  unfold read? at h
  split at h <;> simp_all

end Terminal

namespace TokenDerivation

variable {n : Nonterminal} {k : Nat} {p q : List Token}

open Terminal

/-! ## Places -/

/-- A derivation leads to a suffix. -/
theorem suffix (d : TokenDerivation n k p q) : q <:+ p :=
  d.suffix_of_reads suffix_of_read?

/-- Only an optional list can be empty. -/
theorem length_lt_or (d : TokenDerivation n k p q) :
    q.length < p.length ∨ ((n = .maybeTypes ∨ n = .maybeFields) ∧ q.length ≤ p.length) := by
  induction d <;> grind [→ length_read?_lt]

theorem length_lt (d : TokenDerivation n k p q) (hn : n ≠ .maybeTypes) (hn' : n ≠ .maybeFields) :
    q.length < p.length := by
  rcases length_lt_or d with h | ⟨h | h, -⟩
  · exact h
  · exact absurd h hn
  · exact absurd h hn'

/-- Only a list that may be left out can be read from no tokens at all. -/
theorem start_ne (d : TokenDerivation n k p q) (hn : n ≠ .maybeTypes) (hn' : n ≠ .maybeFields) :
    p ≠ q := by
  intro heq
  have hlength := length_lt d hn hn'
  rw [heq] at hlength
  exact Nat.lt_irrefl _ hlength

end TokenDerivation

end DocComment
