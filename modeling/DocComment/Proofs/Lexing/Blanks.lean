import DocComment.Proofs.Lexing.Delimiters
import DocComment.Proofs.Text.Trimmed

/-!
# Blanks around a text

Spacing around a text leaves its tokens as they are (`tokensOf_append_spacing`). Of the
other blanks none begins a token, so a text in which every character has a token keeps its
tokens when it is trimmed (`tokensOf_trim`).
-/

namespace DocComment

open Text Token

variable {c : Char} {cs spacing front : List Char}

namespace Text

def blankCodes : List Nat :=
  List.range' 0x9 5 ++ List.range' 0x1c 5 ++ List.range' 0x2000 11 ++
    [0x85, 0xa0, 0x1680, 0x2028, 0x2029, 0x202f, 0x205f, 0x3000]

theorem toNat_mem_blankCodes (h : isBlank c = true) : c.toNat ∈ blankCodes := by
  simp only [isBlank, Bool.or_eq_true, Bool.and_eq_true, decide_eq_true_eq, beq_iff_eq] at h
  simp only [blankCodes, List.mem_append, List.mem_range'_1, List.mem_cons, List.not_mem_nil,
    or_false]
  omega

/-- What holds of no blank can be computed. -/
theorem eq_false_of_isBlank {holds : Char → Bool} (h : isBlank c = true)
    (hall : blankCodes.all (fun code => !holds (Char.ofNat code)) = true) : holds c = false := by
  have hc := List.all_eq_true.mp hall c.toNat (toNat_mem_blankCodes h)
  rw [Char.ofNat_toNat] at hc
  simpa using hc

end Text

namespace Token

/-! ## Tokens and blanks -/

/-- No name and no number holds a blank. -/
theorem isWordlike_of_isBlank (h : isBlank c = true) : isWordlike c = false :=
  eq_false_of_isBlank h (by decide +kernel)

/-- Spacing is blank. -/
theorem isBlank_of_isSpacing (h : isSpacing c = true) : isBlank c = true := by
  simp only [isSpacing, Bool.or_eq_true, beq_iff_eq] at h
  rcases h with (((rfl | rfl) | rfl) | rfl) | rfl <;> rfl

/-- No token begins with a blank. -/
theorem read_of_isBlank (h : isBlank c = true) (cs : List Char) : read c cs = (stray, 0) := by
  have hwordlike := isWordlike_of_isBlank h
  have hsign : ∀ d, isBlank d = false → c ≠ d := by
    rintro _ hd rfl
    rw [h] at hd
    cases hd
  -- a blank begins no name, no literal and no number, and it is no mark
  rcases read_cases c cs with ⟨hc, -⟩ | ⟨_, hquote, -⟩ | ⟨mark, hmark, -⟩ | ⟨_, hnumeral, -⟩ | hread
  · simp [isWordlike, isNameChar_of_isNameStart hc] at hwordlike
  · rcases hquote with rfl | rfl <;> exact absurd rfl (hsign _ rfl)
  · unfold mark? at hmark
    split at hmark <;> first | exact absurd rfl (hsign _ rfl) | cases hmark
  · have hmem : c :: _ ∈ numberLanguage := hnumeral ▸ numeral_mem (hnumeral ▸ List.cons_ne_nil _ _)
    have hc := isWordlike_of_mem_number hmem c List.mem_cons_self
    rw [hwordlike] at hc
    cases hc
  · exact hread

/-- Blanks whose characters all have tokens are spacing. -/
theorem isSpacing_of_isBlank (hfront : ∀ c ∈ front, isBlank c = true)
    (h : stray ∉ tokensOf (front ++ cs)) : ∀ c ∈ front, isSpacing c = true := by
  induction front with
  | nil => exact List.forall_mem_nil _
  | cons c front ih =>
    obtain ⟨hc, hfront⟩ := List.forall_mem_cons.mp hfront
    rw [List.cons_append] at h
    cases hspacing : isSpacing c with
    | true =>
      rw [tokensOf_cons_spacing hspacing] at h
      exact List.forall_mem_cons.mpr ⟨hspacing, ih hfront h⟩
    | false =>
      rw [tokensOf_cons hspacing, read_of_isBlank hc] at h
      exact absurd List.mem_cons_self h

/-- Blanks behind a text are read behind its tokens. -/
theorem tokensOf_append_blanks {back : List Char} (h : ∀ c ∈ back, isBlank c = true)
    (cs : List Char) : tokensOf (cs ++ back) = tokensOf cs ++ tokensOf back := by
  have hnot {d : Char} (hd : isBlank d = false) : d ∉ back := by
    intro hmem
    rw [h d hmem] at hd
    cases hd
  refine tokensOf_append ?_ ?_ (.inr ⟨hnot rfl, hnot rfl⟩)
  · exact fun d hd => isWordlike_of_isBlank (h d (List.mem_of_head? hd))
  · exact fun hgreater => absurd (List.mem_of_head? hgreater) (hnot rfl)

/-- Spacing behind a text has no tokens. -/
theorem tokensOf_append_spacing (h : ∀ c ∈ spacing, isSpacing c = true) (cs : List Char) :
    tokensOf (cs ++ spacing) = tokensOf cs := by
  rw [tokensOf_append_blanks (fun c hc => isBlank_of_isSpacing (h c hc)),
    tokensOf_eq_nil_iff.mpr h, List.append_nil]

/-- Trimming drops no tokens. -/
theorem tokensOf_trim (h : stray ∉ tokensOf cs) : tokensOf (trim cs) = tokensOf cs := by
  obtain ⟨front, back, hfront, hback, hcs⟩ := exists_around_trim cs
  rw [← hcs] at h
  have hfront := isSpacing_of_isBlank hfront h
  rw [tokensOf_spacing_append hfront, tokensOf_append_blanks hback] at h
  have hstray : stray ∉ tokensOf (back ++ []) := by
    rw [List.append_nil]
    exact fun hmem => h (List.mem_append_right _ hmem)
  have hback := isSpacing_of_isBlank hback hstray
  nth_rewrite 2 [← hcs]
  rw [tokensOf_spacing_append hfront, tokensOf_append_spacing hback]

end Token

end DocComment
