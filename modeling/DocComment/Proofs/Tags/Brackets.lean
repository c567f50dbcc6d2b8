import DocComment.Tag
import Mathlib.Data.List.Infix

/-!
# Balanced brackets

Brackets are balanced if a text never closes more of them than it has opened, and
closes all that it opens. The part that a bracket encloses ends at the first
closing bracket in front of which the brackets are balanced, and at no other
(`bracketedPart_eq_some_iff`). It has no end if the brackets that are open cover all that
are closed (`enclosed_eq_none_iff`).
-/

namespace DocComment

variable {opening closing : Char} {depth d : Nat} {c : Char} {cs ds inner rest text : List Char}

/-- The brackets of a text are balanced when `depth` brackets are open in front of
it: no part from the start on closes more than are open, and all are closed. -/
structure BalancedBelow (opening closing : Char) (depth : Nat) (cs : List Char) : Prop where
  covered : ∀ front, front <+: cs → front.count closing ≤ depth + front.count opening
  closed : cs.count closing = depth + cs.count opening

abbrev Balanced (opening closing : Char) (cs : List Char) : Prop :=
  BalancedBelow opening closing 0 cs

instance : Decidable (BalancedBelow opening closing depth cs) :=
  decidable_of_iff
    ((∀ front ∈ cs.inits, front.count closing ≤ depth + front.count opening) ∧
      cs.count closing = depth + cs.count opening)
    ⟨fun h => ⟨fun front hfront => h.1 front ((List.mem_inits front cs).mpr hfront), h.2⟩,
      fun h => ⟨fun front hfront => h.covered front ((List.mem_inits front cs).mp hfront), h.closed⟩⟩

/-- No part of a text from its start on closes more brackets than are open, when `depth`
brackets are open in front of it. -/
def Covered (opening closing : Char) (depth : Nat) (cs : List Char) : Prop :=
  ∀ front, front <+: cs → front.count closing ≤ depth + front.count opening

/-- Balance is cover on the way and the right count at the end. -/
theorem balancedBelow_iff_covered :
    BalancedBelow opening closing depth cs ↔
      Covered opening closing depth cs ∧ cs.count closing = depth + cs.count opening :=
  ⟨fun h => ⟨h.covered, h.closed⟩, fun h => ⟨h.1, h.2⟩⟩

/-! ## One character -/

/-- Behind the character `c` there are `d` open brackets if there are `depth` in front of
it: both give the same count at the end of whatever follows. -/
def BracketStep (opening closing : Char) (depth : Nat) (c : Char) (d : Nat) : Prop :=
  ∀ cs : List Char,
    (c :: cs).count closing + (d + cs.count opening) =
      cs.count closing + (depth + (c :: cs).count opening)

/-- An opening bracket is one more that is open. -/
theorem bracketStep_opening (hne : opening ≠ closing) (depth : Nat) :
    BracketStep opening closing depth opening (depth + 1) := by
  intro cs
  rw [List.count_cons_of_ne hne, List.count_cons_self]
  omega

/-- A closing bracket is one less, if one is open. -/
theorem bracketStep_closing (hne : opening ≠ closing) (depth : Nat) :
    BracketStep opening closing (depth + 1) closing depth := by
  intro cs
  rw [List.count_cons_self, List.count_cons_of_ne hne.symm]
  omega

/-- No other character changes the number of open brackets. -/
theorem bracketStep_of_ne (ho : c ≠ opening) (hc : c ≠ closing) (depth : Nat) :
    BracketStep opening closing depth c depth := by
  intro cs
  rw [List.count_cons_of_ne hc, List.count_cons_of_ne ho]

theorem covered_nil : Covered opening closing depth [] := by
  intro front hfront
  rw [List.prefix_nil.mp hfront]
  simp

/-- Cover behind one character is cover from there on. -/
theorem covered_cons (h : BracketStep opening closing depth c d) :
    Covered opening closing depth (c :: cs) ↔ Covered opening closing d cs := by
  constructor
  · intro hcs front hfront
    have hle := hcs (c :: front) ((List.prefix_cons_inj c).mpr hfront)
    have hstep := h front
    omega
  · intro hcs front hfront
    rcases List.prefix_cons_iff.mp hfront with rfl | ⟨t, rfl, ht⟩
    · simp
    · have hle := hcs t ht
      have hstep := h t
      omega

/-- A closing bracket needs an open one. -/
theorem not_covered_cons_closing (hne : opening ≠ closing) :
    ¬ Covered opening closing 0 (closing :: cs) := by
  intro hcs
  have hle := hcs [closing] ((List.prefix_cons_inj closing).mpr List.nil_prefix)
  rw [List.count_singleton_self, List.count_singleton, if_neg (by simpa using hne.symm)] at hle
  omega

theorem balancedBelow_nil : BalancedBelow opening closing depth [] ↔ depth = 0 := by
  constructor
  · intro h
    simpa using h.closed.symm
  · rintro rfl
    exact ⟨covered_nil, rfl⟩

/-- Balance behind one character is balance from there on. -/
theorem balancedBelow_cons (h : BracketStep opening closing depth c d) :
    BalancedBelow opening closing depth (c :: cs) ↔ BalancedBelow opening closing d cs := by
  have hclosed : (c :: cs).count closing = depth + (c :: cs).count opening ↔
      cs.count closing = d + cs.count opening := by
    have hstep := h cs
    omega
  rw [balancedBelow_iff_covered, balancedBelow_iff_covered, covered_cons h, hclosed]

/-! ## Several texts -/

/-- A text without brackets is balanced. -/
theorem balanced_of_notMem (ho : opening ∉ cs) (hc : closing ∉ cs) :
    Balanced opening closing cs := by
  refine ⟨fun front hfront => ?_, ?_⟩
  · have hnone : closing ∉ front := fun hmem => hc (hfront.subset hmem)
    rw [List.count_eq_zero_of_not_mem hnone]
    exact Nat.zero_le _
  · rw [List.count_eq_zero_of_not_mem hc, List.count_eq_zero_of_not_mem ho]

theorem balanced_nil : Balanced opening closing [] :=
  balanced_of_notMem List.not_mem_nil List.not_mem_nil

/-- What is balanced can stand in front of what is balanced when brackets are open. -/
theorem BalancedBelow.append (h : Balanced opening closing cs)
    (h' : BalancedBelow opening closing depth ds) :
    BalancedBelow opening closing depth (cs ++ ds) := by
  have hclosed := h.closed
  refine ⟨fun front hfront => ?_, ?_⟩
  · rcases List.prefix_or_prefix_of_prefix hfront (List.prefix_append cs ds) with hp | ⟨t, rfl⟩
    · have hle := h.covered front hp
      omega
    · have hle := h'.covered t ((List.prefix_append_right_inj cs).mp hfront)
      rw [List.count_append, List.count_append]
      omega
  · have hclosed' := h'.closed
    rw [List.count_append, List.count_append]
    omega

/-- Brackets around what is balanced are balanced. -/
theorem balanced_enclose (hne : opening ≠ closing) (h : Balanced opening closing cs) :
    Balanced opening closing (opening :: (cs ++ [closing])) := by
  have hlast : BalancedBelow opening closing 1 [closing] :=
    (balancedBelow_cons (bracketStep_closing hne 0)).mpr (balancedBelow_nil.mpr rfl)
  exact (balancedBelow_cons (bracketStep_opening hne 0)).mpr (h.append hlast)

/-! ## Matching brackets -/

/-- A kept character stands in front of what is enclosed. -/
theorem keep_eq_some_iff {found : Option (List Char × List Char)} :
    enclosed.keep c found = some (inner, rest) ↔
      ∃ ds, inner = c :: ds ∧ found = some (ds, rest) := by
  rw [enclosed.keep, Option.map_eq_some_iff]
  constructor
  · rintro ⟨⟨ds, behind⟩, hfound, heq⟩
    obtain ⟨rfl, rfl⟩ := Prod.mk.inj heq
    exact ⟨ds, rfl, hfound⟩
  · rintro ⟨ds, rfl, hfound⟩
    exact ⟨(ds, rest), hfound, rfl⟩

theorem keep_eq_none_iff {found : Option (List Char × List Char)} :
    enclosed.keep c found = none ↔ found = none :=
  Option.map_eq_none_iff

/-- Inside a part a character closes it, if it is a closing bracket and no further bracket
is open, or is kept and changes the depth. -/
theorem enclosed_cons (hne : opening ≠ closing) (depth : Nat) (c : Char) (cs : List Char) :
    (c = closing ∧ depth = 0 ∧ enclosed opening closing depth (c :: cs) = some ([], cs)) ∨
      ∃ d, BracketStep opening closing depth c d ∧
        enclosed opening closing depth (c :: cs) =
          enclosed.keep c (enclosed opening closing d cs) := by
  rw [enclosed.eq_def]
  by_cases ho : c = opening
  · subst ho
    exact .inr ⟨depth + 1, bracketStep_opening hne depth, if_pos rfl⟩
  · simp only [ho, ↓reduceIte]
    by_cases hc : c = closing
    · subst hc
      cases depth with
      | zero => exact .inl ⟨rfl, rfl, if_pos rfl⟩
      | succ depth => exact .inr ⟨depth, bracketStep_closing hne depth, if_pos rfl⟩
    · exact .inr ⟨depth, bracketStep_of_ne ho hc depth, if_neg hc⟩

/-- The enclosed text is the one whose brackets are balanced in front of a closing
bracket. -/
theorem enclosed_eq_some_iff (hne : opening ≠ closing) :
    enclosed opening closing depth text = some (inner, rest) ↔
      text = inner ++ closing :: rest ∧ BalancedBelow opening closing depth inner := by
  -- the first character changes the depth and is the first one of the enclosed text
  induction text generalizing depth inner with
  | nil => simp [enclosed]
  | cons c cs ih =>
    rcases enclosed_cons hne depth c cs with ⟨rfl, rfl, heq⟩ | ⟨d, hstep, heq⟩
    · -- the part ends here, and nothing else can be enclosed
      rw [heq]
      constructor
      · intro h
        obtain ⟨rfl, rfl⟩ := Prod.mk.inj (Option.some.inj h)
        exact ⟨rfl, balanced_nil⟩
      · rintro ⟨htext, hbalanced⟩
        cases inner with
        | nil => rw [(List.cons.inj htext).2]
        | cons e ds =>
          obtain ⟨rfl, -⟩ := List.cons.inj htext
          exact absurd hbalanced.covered (not_covered_cons_closing hne)
    · rw [heq, keep_eq_some_iff]
      constructor
      · rintro ⟨ds, rfl, hds⟩
        obtain ⟨rfl, hbalanced⟩ := ih.mp hds
        exact ⟨rfl, (balancedBelow_cons hstep).mpr hbalanced⟩
      · rintro ⟨htext, hbalanced⟩
        cases inner with
        | nil =>
          -- a closing bracket that is kept leaves an open one behind
          obtain ⟨rfl, -⟩ := List.cons.inj htext
          obtain rfl := balancedBelow_nil.mp hbalanced
          exact absurd ((covered_cons hstep).mpr covered_nil) (not_covered_cons_closing hne)
        | cons e ds =>
          obtain ⟨rfl, rfl⟩ := List.cons.inj htext
          exact ⟨ds, rfl, ih.mpr ⟨rfl, (balancedBelow_cons hstep).mp hbalanced⟩⟩

/-- Nothing is enclosed if and only if the text closes no more brackets than are open. -/
theorem enclosed_eq_none_iff (hne : opening ≠ closing) :
    enclosed opening closing depth text = none ↔ Covered opening closing depth text := by
  induction text generalizing depth with
  | nil => exact iff_of_true rfl covered_nil
  | cons c cs ih =>
    rcases enclosed_cons hne depth c cs with ⟨rfl, rfl, heq⟩ | ⟨d, hstep, heq⟩
    · -- the closing bracket is found, and no open one covers it
      rw [heq]
      exact iff_of_false (Option.some_ne_none _) (not_covered_cons_closing hne)
    · rw [heq, keep_eq_none_iff, covered_cons hstep]
      exact ih

/-- A bracketed part is cut at the first place that leaves its inside balanced. -/
theorem bracketedPart_eq_some_iff (hne : opening ≠ closing) :
    bracketedPart opening closing text = some (inner, rest) ↔
      text = opening :: (inner ++ closing :: rest) ∧ Balanced opening closing inner := by
  cases text with
  | nil => simp [bracketedPart]
  | cons c cs =>
    by_cases hc : c = opening
    · subst hc
      rw [bracketedPart, if_pos rfl, enclosed_eq_some_iff hne, List.cons_inj_right]
    · rw [bracketedPart, if_neg hc]
      constructor
      · intro h
        cases h
      · rintro ⟨heq, -⟩
        exact absurd (List.cons.inj heq).1 hc

end DocComment
