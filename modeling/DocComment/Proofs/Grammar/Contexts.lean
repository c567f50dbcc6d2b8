import DocComment.Proofs.Grammar.Levels
import DocComment.Proofs.Grammar.Transfer

/-!
# A stretch in front of other tokens

Tokens without an arrow are read in the same way in front of two ends: no terminal looks
behind the tokens that it takes, so a preferred derivation up to one end is one up to the other
(`Aligned.exists_preferred`). The last token may be an equals sign, which knows whether it
touches what stands behind it.
-/

namespace DocComment

open Terminal Token DocComment.Derivation

/-- The same tokens in front of two ends. No equals sign touches a `>`, except that the last
token may be an equals sign that touches the end or does not. -/
inductive Aligned (rest rest' : List Token) (touches touches' : Bool) :
    List Token → List Token → Prop
  | rest : Aligned rest rest' touches touches' rest rest'
  | last : Aligned rest rest' touches touches' (.equals touches :: rest) (.equals touches' :: rest')
  | cons {token : Token} {p p' : List Token} (htoken : token ≠ .equals true)
      (h : Aligned rest rest' touches touches' p p') :
      Aligned rest rest' touches touches' (token :: p) (token :: p')

namespace Aligned

variable {rest rest' p p' q q' r : List Token} {touches touches' : Bool} {token : Token}
  {n : Nonterminal} {k : Nat} {x : String}

theorem symm (h : Aligned rest rest' touches touches' p p') :
    Aligned rest' rest touches' touches p' p := by
  induction h with
  | rest => exact .rest
  | last => exact .last
  | cons htoken _ ih => exact .cons htoken ih

theorem suffix (h : Aligned rest rest' touches touches' p p') : rest <:+ p := by
  induction h with
  | rest => exact List.suffix_refl _
  | last => exact List.suffix_cons _ _
  | cons _ _ ih => exact ih.trans (List.suffix_cons _ _)

/-- Aligned places are equally far from their ends. -/
theorem length_eq (h : Aligned rest rest' touches touches' p p') :
    p.length + rest'.length = p'.length + rest.length := by
  induction h with
  | rest => exact Nat.add_comm ..
  | last => simp only [List.length_cons]; omega
  | cons _ _ ih => simp only [List.length_cons]; omega

/-- Only the first end is in front of the second one. -/
theorem eq_rest (h : Aligned rest rest' touches touches' p rest') : p = rest := by
  have hlength := h.length_eq
  exact (h.suffix.eq_of_length (by omega)).symm

/-- A place in front of the second end belongs to one place in front of the first. -/
theorem unique (h : Aligned rest rest' false touches' p p')
    (h' : Aligned rest rest' false touches' q p') : p = q := by
  induction h generalizing q with
  | rest => exact h'.eq_rest.symm
  -- the last token is aligned with a place that touches the end, and only with that
  | last =>
    cases h' with
    | last => rfl
    | cons htoken h' =>
      obtain rfl : touches' = false := by simpa using htoken
      rw [h'.eq_rest]
  | cons htoken h ih =>
    cases h' with
    | rest => exact absurd h.symm.suffix.length_le (by simp)
    | last =>
      obtain rfl : touches' = false := by simpa using htoken
      rw [h.eq_rest]
    | cons _ h' => rw [ih h']

/-- Tokens without an arrow stand in the same way in front of two ends. -/
theorem append {front : List Token} (h : Aligned rest rest' touches touches' p p')
    (hfront : .equals true ∉ front) :
    Aligned rest rest' touches touches' (front ++ p) (front ++ p') := by
  induction front with
  | nil => exact h
  | cons token front ih =>
    have htoken : token ≠ .equals true := fun heq => hfront (heq ▸ List.mem_cons_self)
    exact .cons htoken (ih fun hmem => hfront (List.mem_cons_of_mem _ hmem))

/-! ## Reading in front of an end -/

/-- Any token but an equals sign stands at both places. -/
theorem exists_cons (h : Aligned rest rest' touches touches' (token :: p) q) (hp : rest <:+ p)
    (htoken : ∀ b, token ≠ .equals b) :
    ∃ p', q = token :: p' ∧ Aligned rest rest' touches touches' p p' := by
  cases h with
  | rest => exact absurd hp.length_le (by simp)
  | last => exact absurd rfl (htoken touches)
  | cons _ h => exact ⟨_, rfl, h⟩

/-- An equals sign stands at both places, whatever it touches. -/
theorem exists_equals {b : Bool} (h : Aligned rest rest' touches touches' (.equals b :: p) q)
    (hp : rest <:+ p) :
    ∃ b' p', q = .equals b' :: p' ∧ Aligned rest rest' touches touches' p p' := by
  cases h with
  | rest => exact absurd hp.length_le (by simp)
  | last => exact ⟨_, _, rfl, .rest⟩
  | cons _ h => exact ⟨_, _, rfl, h⟩

/-- A terminal of one token that is no equals sign. -/
theorem exists_read?_single {t : Terminal} (h : Aligned rest rest' touches touches' p p')
    (hread : t.read? p = some (x, q)) (hq : rest <:+ q)
    (ht : t ≠ .ellipsis ∧ t ≠ .arrow ∧ t ≠ .equals) :
    ∃ q', t.read? p' = some (x, q') ∧ Aligned rest rest' touches touches' q q' := by
  obtain ⟨token, rfl⟩ := exists_token hread ht.1 ht.2.1
  have htoken : ∀ b, token ≠ .equals b := by
    rintro b rfl
    unfold read? at hread
    split at hread <;> simp_all
  obtain ⟨q', rfl, hq'⟩ := h.exists_cons hq htoken
  refine ⟨q', ?_, hq'⟩
  unfold read? at hread
  split at hread <;> simp_all [read?]

/-- A terminal that is read in front of one end is read in front of the other. -/
theorem exists_read? {t : Terminal} (h : Aligned rest rest' touches touches' p p')
    (hread : t.read? p = some (x, q)) (hq : rest <:+ q) :
    ∃ q', t.read? p' = some (x, q') ∧ Aligned rest rest' touches touches' q q' := by
  cases t with
  | arrow =>
    -- the arrow would reach into the end
    obtain rfl := eq_of_read?_arrow hread
    have hlength := hq.length_le
    cases h with
    | rest | last => simp only [List.length_cons] at hlength; omega
    | cons htoken => exact absurd rfl htoken
  | ellipsis =>
    obtain ⟨b, c, rfl⟩ := eq_of_read?_ellipsis hread
    have hsecond : rest <:+ .dot c :: q := hq.trans (List.suffix_cons _ _)
    have hfirst : rest <:+ .dot b :: .dot c :: q := hsecond.trans (List.suffix_cons _ _)
    obtain ⟨_, rfl, h₁⟩ := h.exists_cons hfirst (by simp)
    obtain ⟨_, rfl, h₂⟩ := h₁.exists_cons hsecond (by simp)
    obtain ⟨q', rfl, h₃⟩ := h₂.exists_cons hq (by simp)
    exact ⟨q', by simpa [read?] using hread, h₃⟩
  | equals =>
    obtain ⟨b, rfl⟩ := eq_of_read?_equals hread
    obtain ⟨b', q', rfl, hq'⟩ := h.exists_equals hq
    exact ⟨q', by simpa [read?] using hread, hq'⟩
  | _ => exact h.exists_read?_single hread hq (by simp)

/-- What is read in front of one end can be read in front of the other. -/
theorem mirrors (rest rest' : List Token) (touches touches' : Bool) :
    Mirrors ReadsTokens ReadsTokens (rest <:+ ·) (Aligned rest rest' touches touches') where
  inside_of_reads h hq := hq.trans (suffix_of_read? h)
  step h hq hp := hp.exists_read? h hq

/-- A preferred derivation up to the first end is one up to the second. -/
theorem exists_preferred (h : Aligned rest rest' false touches' p p')
    (d : TokenDerivation n k p rest) (hd : d.Preferred) :
    ∃ e : TokenDerivation n k p' rest', e.tree = d.tree ∧ e.Preferred := by
  have hback : Mirrors ReadsTokens ReadsTokens (rest' <:+ ·)
      fun p' p => Aligned rest rest' false touches' p p' := by
    refine ⟨fun h hq => hq.trans (suffix_of_read? h), fun h hq hp => ?_⟩
    obtain ⟨q, hread, hq⟩ := hp.symm.exists_read? h hq
    exact ⟨q, hread, hq.symm⟩
  obtain ⟨q', hq', e, htree, he⟩ := (mirrors rest rest' false touches').exists_preferred hback
    (fun h => h.symm.suffix) (fun h h' => h.unique h') d hd (List.suffix_refl _) h
  obtain rfl := hq'.symm.eq_rest
  exact ⟨e, htree, he⟩

/-! ## Levels in front of an end -/

/-- The level falls by the same amount up to both ends, if the equals sign at an end is no part
of an arrow. -/
theorem level_sub (h : Aligned rest rest' touches touches' p p')
    (hlast : level (.equals touches :: rest) = level rest)
    (hlast' : level (.equals touches' :: rest') = level rest') :
    level p - level rest = level p' - level rest' := by
  induction h with
  | rest => omega
  | last => omega
  | cons htoken _ ih =>
    rw [level_cons (.inl htoken), level_cons (.inl htoken)]
    omega

end Aligned

end DocComment
