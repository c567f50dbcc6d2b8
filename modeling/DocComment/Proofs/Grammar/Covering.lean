import DocComment.Proofs.Grammar.Tokens
import DocComment.Proofs.Grammar.Reading

/-!
# Readings of a nonterminal

A reading covers a nonterminal if its ways are the trees of preferred
derivations and there is a way to every place where a derivation ends. Rules
that cover the alternatives of a nonterminal, tried in the order of the grammar,
cover the nonterminal: the first alternative that ends at a place is the one that
is preferred there.
-/

namespace DocComment

open Reading Rule Terminal DocComment.Derivation

variable {n : Nonterminal} {tokens : List Token}

/-- A reading has the trees of preferred derivations of a nonterminal, to every
place where a derivation ends. -/
def Covers (n : Nonterminal) (reading : Reading n.Value) (tokens : List Token) : Prop :=
  reading.Spec tokens
    (fun value rest => ∃ k, ∃ d : TokenDerivation n k tokens rest, d.tree = value ∧ d.Preferred)
    (fun rest => ∃ k, Nonempty (TokenDerivation n k tokens rest))

/-- A reading has the trees of derivations by one alternative, which are
preferred if the alternative is the first one over the stretch. -/
def CoversAlternative (n : Nonterminal) (k : Nat) (reading : Reading n.Value)
    (tokens : List Token) : Prop :=
  reading.Spec tokens
    (fun value rest => ∃ d : TokenDerivation n k tokens rest,
      d.tree = value ∧ (d.root.IsFirst ReadsTokens → d.Preferred))
    (fun rest => Nonempty (TokenDerivation n k tokens rest))

/-- Alternatives in the order of the grammar cover their nonterminal. -/
theorem covers_firstOf {rules : List (Rule n.Value)}
    (h : ∀ (k : Nat) (hk : k < rules.length), CoversAlternative n k (rules[k] tokens) tokens)
    (hbound : ∀ k rest, TokenDerivation n k tokens rest → k < rules.length) :
    Covers n (firstOf rules tokens) tokens := by
  have hordered : ∀ rule ∈ rules, (rule tokens).Ordered tokens := by
    intro rule hrule
    rcases List.mem_iff_getElem.mp hrule with ⟨k, hk, rfl⟩
    exact (h k hk).ordered
  refine ⟨ordered_firstOf hordered, fun hmem => ?_, ?_⟩
  · -- a derivation by an earlier alternative would give that alternative a way
    rcases mem_firstOf hordered hmem with ⟨k, hk, hmem, hfirst⟩
    rcases (h k hk).sound hmem with ⟨d, hd, hpreferred⟩
    refine ⟨k, d, hd, hpreferred fun _ j hj hderivation => ?_⟩
    exact hfirst j hj ((h j (Nat.lt_trans hj hk)).complete hderivation)
  · intro rest hread
    rcases hread with ⟨k, ⟨d⟩⟩
    have hk := hbound k rest d
    exact ends_firstOf hordered hk ((h k hk).complete ⟨d⟩)

/-- A terminal and what stands behind it. -/
theorem spec_terminal_andThen {α : Type} {t : Terminal} {next : String → List Token → Reading α}
    {S : String → List Token → α → List Token → Prop} {C : String → List Token → List Token → Prop}
    (h : ∀ text rest, t.read? tokens = some (text, rest) →
      (next text rest).Spec rest (S text rest) (C text rest)) :
    ((terminal t tokens).andThen next).Spec tokens
      (fun value rest => ∃ text mid, t.read? tokens = some (text, mid) ∧ S text mid value rest)
      (fun rest => ∃ text mid, t.read? tokens = some (text, mid) ∧ C text mid rest) := by
  have hterminal := spec_terminal t tokens fun _ _ h => suffix_of_read? h
  refine (spec_andThen hterminal fun text mid _ hread => h text mid hread).mono ?_ ?_
  · intro value rest _ hcase
    rcases hcase with ⟨text, mid, -, hread, hvalue⟩
    exact ⟨text, mid, hread, hvalue⟩
  · intro rest hcase
    rcases hcase with ⟨text, mid, hread, hrest⟩
    refine ⟨mid, ⟨text, hread⟩, fun text' hread' => ?_⟩
    obtain rfl : text = text' := by simpa using hread.symm.trans hread'
    exact hrest

/-- Two alternatives. -/
theorem spec_firstOf_two {α : Type} {first second : Rule α} {S S' : α → List Token → Prop}
    {C C' : List Token → Prop} (hfirst : (first tokens).Spec tokens S C)
    (hsecond : (second tokens).Spec tokens S' C') :
    (firstOf [first, second] tokens).Spec tokens (fun value rest => S value rest ∨ S' value rest)
      (fun rest => C rest ∨ C' rest) := by
  have hnone : (Reading.none : Reading α).Spec tokens (fun _ _ => False) (fun _ => False) :=
    ⟨ordered_none, by simp [Reading.none], False.elim⟩
  refine (spec_orElse hfirst (spec_orElse hsecond hnone)).mono ?_ ?_
  · intro value rest _ hread
    rcases hread with h | h | h
    · exact .inl h
    · exact .inr h
    · exact h.elim
  · intro rest hread
    rcases hread with h | h
    · exact .inl h
    · exact .inr (.inl h)

/-- The order of two alternatives does not matter where there is no preference
between them. -/
theorem covers_firstOf_two {i j : Nat} {first second : Rule n.Value} (hn : ¬ n.Layered)
    (hfirst : CoversAlternative n i (first tokens) tokens)
    (hsecond : CoversAlternative n j (second tokens) tokens)
    (hbound : ∀ k rest, TokenDerivation n k tokens rest → k = i ∨ k = j) :
    Covers n (firstOf [first, second] tokens) tokens := by
  refine (spec_firstOf_two hfirst hsecond).mono ?_ ?_
  · intro value rest _ hread
    rcases hread with ⟨d, hd, hp⟩ | ⟨d, hd, hp⟩
    · exact ⟨i, d, hd, hp fun h => absurd h hn⟩
    · exact ⟨j, d, hd, hp fun h => absurd h hn⟩
  · intro rest hread
    rcases hread with ⟨k, ⟨d⟩⟩
    rcases hbound k rest d with rfl | rfl
    · exact .inl ⟨d⟩
    · exact .inr ⟨d⟩

end DocComment
