import DocComment.Proofs.Grammar.Transfer
import DocComment.Proofs.Lexing.Lexemes

/-!
# Derivations over a text

The grammar read over the characters of a text, each terminal as the longest of
its texts, behind spacing. A place is the rest of the text.

Derivations over the tokens of a text and over the text itself go together. From
the tokens to the text the tree and the alternatives stay the same
(`exists_textDerivation`). From the text to the tokens the alternative can only
become an earlier one (`exists_tokenDerivation`): the word `typeof` that touches
the name behind it is read as one name. So a derivation over the text is
preferred if it comes from a preferred one over the tokens.
-/

namespace DocComment

open Token Terminal DocComment.Derivation

abbrev TextDerivation : Nonterminal → Nat → List Char → List Char → Type :=
  Derivation Terminal.ReadsText

/-! ## Text and tokens -/

variable {n : Nonterminal} {k : Nat} {p q : List Char} {rest : List Token}

theorem Terminal.suffix_of_readsText {t : Terminal} {x : String} (h : t.ReadsText p x q) :
    q <:+ p := by
  obtain ⟨spacing, text, -, rfl, -, -⟩ := h
  exact ⟨spacing ++ text, List.append_assoc ..⟩

/-- A derivation over a text leads to a suffix. -/
theorem TextDerivation.suffix (d : TextDerivation n k p q) : q <:+ p :=
  d.suffix_of_reads suffix_of_readsText

/-- A derivation over a text gives one over its tokens, by the same alternative
or an earlier one. -/
theorem exists_tokenDerivation (d : TextDerivation n k p q) :
    ∃ j ≤ k, Nonempty (TokenDerivation n j (tokensOf p) (tokensOf q)) := by
  induction d with
  | operand _ ih =>
    rcases ih with ⟨_, -, ⟨e⟩⟩
    exact ⟨_, Nat.le_refl _, ⟨.operand e⟩⟩
  | union _ bar _ ih ih' =>
    rcases ih with ⟨_, -, ⟨e⟩⟩
    rcases ih' with ⟨_, -, ⟨c⟩⟩
    exact ⟨_, Nat.le_refl _, ⟨.union e (read?_tokensOf rfl bar) c⟩⟩
  | arrow opening _ closing sign _ ih ih' =>
    rcases ih with ⟨_, -, ⟨e⟩⟩
    rcases ih' with ⟨_, -, ⟨c⟩⟩
    exact ⟨_, Nat.le_refl _, ⟨.arrow (read?_tokensOf rfl opening) e (read?_tokensOf rfl closing)
      (read?_tokensOf rfl sign) c⟩⟩
  | unmarked _ ih =>
    rcases ih with ⟨_, -, ⟨e⟩⟩
    exact ⟨_, Nat.le_refl _, ⟨.unmarked e⟩⟩
  | nullable mark _ ih =>
    rcases ih with ⟨_, -, ⟨e⟩⟩
    exact ⟨_, Nat.le_refl _, ⟨.nullable (read?_tokensOf rfl mark) e⟩⟩
  | notNullable mark _ ih =>
    rcases ih with ⟨_, -, ⟨e⟩⟩
    exact ⟨_, Nat.le_refl _, ⟨.notNullable (read?_tokensOf rfl mark) e⟩⟩
  | variadic mark _ ih =>
    rcases ih with ⟨_, -, ⟨e⟩⟩
    exact ⟨_, Nat.le_refl _, ⟨.variadic (read?_tokensOf rfl mark) e⟩⟩
  | plain _ ih =>
    rcases ih with ⟨_, -, ⟨e⟩⟩
    exact ⟨_, Nat.le_refl _, ⟨.plain e⟩⟩
  | optional _ mark ih =>
    rcases ih with ⟨_, -, ⟨e⟩⟩
    exact ⟨_, Nat.le_refl _, ⟨.optional e (read?_tokensOf rfl mark)⟩⟩
  | array _ opening closing ih =>
    rcases ih with ⟨_, -, ⟨e⟩⟩
    exact ⟨_, Nat.le_refl _, ⟨.array e (read?_tokensOf rfl opening) (read?_tokensOf rfl closing)⟩⟩
  | nullableBehind _ mark ih =>
    rcases ih with ⟨_, -, ⟨e⟩⟩
    exact ⟨_, Nat.le_refl _, ⟨.nullableBehind e (read?_tokensOf rfl mark)⟩⟩
  | notNullableBehind _ mark ih =>
    rcases ih with ⟨_, -, ⟨e⟩⟩
    exact ⟨_, Nat.le_refl _, ⟨.notNullableBehind e (read?_tokensOf rfl mark)⟩⟩
  | name word =>
    exact ⟨_, Nat.le_refl _, ⟨.name (read?_tokensOf rfl word)⟩⟩
  | generic subject opening _ closing ih =>
    rcases ih with ⟨_, -, ⟨e⟩⟩
    exact ⟨_, Nat.le_refl _, ⟨.generic (read?_tokensOf rfl subject) (read?_tokensOf rfl opening)
      e (read?_tokensOf rfl closing)⟩⟩
  | dottedGeneric subject dot opening _ closing ih =>
    rcases ih with ⟨_, -, ⟨e⟩⟩
    exact ⟨_, Nat.le_refl _, ⟨.dottedGeneric (read?_tokensOf rfl subject)
      (read?_tokensOf rfl dot) (read?_tokensOf rfl opening) e (read?_tokensOf rfl closing)⟩⟩
  | tuple opening _ closing ih =>
    rcases ih with ⟨_, -, ⟨e⟩⟩
    exact ⟨_, Nat.le_refl _, ⟨.tuple (read?_tokensOf rfl opening) e (read?_tokensOf rfl closing)⟩⟩
  | record opening _ closing ih =>
    rcases ih with ⟨_, -, ⟨e⟩⟩
    exact ⟨_, Nat.le_refl _, ⟨.record (read?_tokensOf rfl opening) e (read?_tokensOf rfl closing)⟩⟩
  | function word opening _ closing ih =>
    rcases ih with ⟨_, -, ⟨e⟩⟩
    exact ⟨_, Nat.le_refl _, ⟨.function (read?_tokensOf_function word opening)
      (read?_tokensOf rfl opening) e (read?_tokensOf rfl closing)⟩⟩
  | functionReturning word opening _ closing colon _ ih ih' =>
    rcases ih with ⟨_, -, ⟨e⟩⟩
    rcases ih' with ⟨_, -, ⟨c⟩⟩
    exact ⟨_, Nat.le_refl _, ⟨.functionReturning (read?_tokensOf_function word opening)
      (read?_tokensOf rfl opening) e (read?_tokensOf rfl closing) (read?_tokensOf rfl colon) c⟩⟩
  | typeOf word value =>
    -- a word that touches its name is a name, by the first alternative
    rcases read?_tokensOf_typeOf word value with hword | ⟨_, hword⟩
    · exact ⟨_, Nat.le_refl _, ⟨.typeOf hword (read?_tokensOf rfl value)⟩⟩
    · exact ⟨0, Nat.zero_le _, ⟨.name hword⟩⟩
  | parens opening _ closing ih =>
    rcases ih with ⟨_, -, ⟨e⟩⟩
    exact ⟨_, Nat.le_refl _, ⟨.parens (read?_tokensOf rfl opening) e (read?_tokensOf rfl closing)⟩⟩
  | any mark =>
    exact ⟨_, Nat.le_refl _, ⟨.any (read?_tokensOf rfl mark)⟩⟩
  | unknown mark =>
    exact ⟨_, Nat.le_refl _, ⟨.unknown (read?_tokensOf rfl mark)⟩⟩
  | string literal =>
    exact ⟨_, Nat.le_refl _, ⟨.string (read?_tokensOf rfl literal)⟩⟩
  | number literal =>
    exact ⟨_, Nat.le_refl _, ⟨.number (read?_tokensOf rfl literal)⟩⟩
  | oneType _ ih =>
    rcases ih with ⟨_, -, ⟨e⟩⟩
    exact ⟨_, Nat.le_refl _, ⟨.oneType e⟩⟩
  | moreTypes _ comma _ ih ih' =>
    rcases ih with ⟨_, -, ⟨e⟩⟩
    rcases ih' with ⟨_, -, ⟨c⟩⟩
    exact ⟨_, Nat.le_refl _, ⟨.moreTypes e (read?_tokensOf rfl comma) c⟩⟩
  | noTypes =>
    exact ⟨_, Nat.le_refl _, ⟨.noTypes⟩⟩
  | someTypes _ ih =>
    rcases ih with ⟨_, -, ⟨e⟩⟩
    exact ⟨_, Nat.le_refl _, ⟨.someTypes e⟩⟩
  | bareField label =>
    exact ⟨_, Nat.le_refl _, ⟨.bareField (read?_tokensOf rfl label)⟩⟩
  | typedField label colon _ ih =>
    rcases ih with ⟨_, -, ⟨e⟩⟩
    exact ⟨_, Nat.le_refl _, ⟨.typedField (read?_tokensOf rfl label) (read?_tokensOf rfl colon) e⟩⟩
  | oneField _ ih =>
    rcases ih with ⟨_, -, ⟨e⟩⟩
    exact ⟨_, Nat.le_refl _, ⟨.oneField e⟩⟩
  | moreFields _ comma _ ih ih' =>
    rcases ih with ⟨_, -, ⟨e⟩⟩
    rcases ih' with ⟨_, -, ⟨c⟩⟩
    exact ⟨_, Nat.le_refl _, ⟨.moreFields e (read?_tokensOf rfl comma) c⟩⟩
  | noFields =>
    exact ⟨_, Nat.le_refl _, ⟨.noFields⟩⟩
  | someFields _ ih =>
    rcases ih with ⟨_, -, ⟨e⟩⟩
    exact ⟨_, Nat.le_refl _, ⟨.someFields e⟩⟩

/-- What is read over the tokens of a text can be read over the text. -/
theorem mirrors_text :
    Mirrors Terminal.ReadsTokens Terminal.ReadsText (fun _ => True) fun p q => tokensOf q = p where
  inside_of_reads _ _ := trivial
  step h _ hp := by
    subst hp
    exact (exists_readsText h).imp fun _ hq => hq

/-- A derivation over the tokens of a text is one over the text. If it is
preferred over the tokens, it is preferred over the text. -/
theorem exists_textDerivation (d : TokenDerivation n k (tokensOf p) rest) :
    ∃ q, tokensOf q = rest ∧ ∃ e : TextDerivation n k p q,
      e.tree = d.tree ∧ (d.Preferred → e.Preferred) := by
  obtain ⟨q, rfl, e, htree, hmatches⟩ := mirrors_text.exists_derivation d trivial p rfl
  refine ⟨q, rfl, e, htree, fun hd o ho hlayered j hj hread => ?_⟩
  -- an earlier alternative over the text would give one over the tokens
  obtain ⟨other⟩ := hread
  obtain ⟨⟨n, k, start, stop⟩, hmem, hmatch⟩ := exists_mem_of_forall₂ hmatches ho
  obtain ⟨rfl, rfl, rfl, rfl⟩ := hmatch
  obtain ⟨i, hi, hother⟩ := exists_tokenDerivation other
  exact hd _ hmem hlayered i (Nat.lt_of_le_of_lt hi hj) hother

end DocComment
