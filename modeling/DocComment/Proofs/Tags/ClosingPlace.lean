import DocComment.Proofs.Tags.Brackets

/-!
# Places of closing brackets

A bracket at the start of a text is open as long as more brackets have been opened than
closed. It is closed where the two counts meet for the first time, and never if they do not
meet (`closingPlace_iff_counts_meet`). The part that it encloses ends there.

The bracket at the start counts as well, so the counts differ by one more than the number of
further brackets that are open inside the part (`balanced_iff_counts_meet`).
-/

namespace DocComment

variable {opening closing : Char} {cs inner rest text : List Char} {i : Nat}

/-- The place of the bracket that closes the one at the start of a text. -/
def closingPlace? (opening closing : Char) (text : List Char) : Option Nat :=
  (bracketedPart opening closing text).map fun parts => parts.1.length + 1

/-- Every part of a text from its start on, the empty one apart, opens more brackets than it
closes. -/
def StaysOpen (opening closing : Char) (cs : List Char) : Prop :=
  ∀ front, front <+: cs → front ≠ [] → front.count closing < front.count opening

instance : Decidable (StaysOpen opening closing cs) :=
  decidable_of_iff (∀ front ∈ cs.inits, front ≠ [] → front.count closing < front.count opening)
    ⟨fun h front hfront => h front ((List.mem_inits front cs).mpr hfront),
      fun h front hfront => h front ((List.mem_inits front cs).mp hfront)⟩

/-! ## Behind the first bracket -/

/-- The bracket at the start stays open if and only if what follows covers all that it
closes. -/
theorem staysOpen_cons_opening (hne : opening ≠ closing) :
    StaysOpen opening closing (opening :: cs) ↔ Covered opening closing 0 cs := by
  -- the bracket at the start is one more than what follows needs, so `<` becomes `≤`
  have hstep := bracketStep_opening hne 0
  constructor
  · intro h front hfront
    have hlt := h (opening :: front) ((List.prefix_cons_inj opening).mpr hfront)
      (List.cons_ne_nil _ _)
    have hcount := hstep front
    omega
  · intro h front hfront hnil
    rcases List.prefix_cons_iff.mp hfront with rfl | ⟨t, rfl, ht⟩
    · exact absurd rfl hnil
    · have hle := h t ht
      have hcount := hstep t
      omega

/-- What a pair of brackets encloses is balanced if and only if the counts meet behind the
pair, and not before. -/
theorem balanced_iff_counts_meet (hne : opening ≠ closing) :
    Balanced opening closing inner ↔
      (opening :: (inner ++ [closing])).count opening =
          (opening :: (inner ++ [closing])).count closing ∧
        StaysOpen opening closing (opening :: inner) := by
  have hopened : (opening :: (inner ++ [closing])).count opening = inner.count opening + 1 := by
    rw [List.count_cons_self, List.count_append, List.count_cons_of_ne hne.symm, List.count_nil]
  have hclosed : (opening :: (inner ++ [closing])).count closing = inner.count closing + 1 := by
    rw [List.count_cons_of_ne hne, List.count_append, List.count_singleton_self]
  rw [staysOpen_cons_opening hne, hopened, hclosed]
  constructor
  · intro h
    have hcount := h.closed
    exact ⟨by omega, h.covered⟩
  · rintro ⟨hcount, hcovered⟩
    exact ⟨hcovered, by omega⟩

/-! ## The place -/

/-- A closing bracket is not the one at the start, so it cuts what follows that one in two. -/
theorem exists_cut_of_getElem? (hne : opening ≠ closing)
    (h : (opening :: cs)[i]? = some closing) :
    ∃ inner rest, cs = inner ++ closing :: rest ∧ i = inner.length + 1 := by
  cases i with
  | zero => exact absurd (Option.some.inj h) hne
  | succ k =>
    rw [List.getElem?_cons_succ] at h
    obtain ⟨hk, hget⟩ := List.getElem?_eq_some_iff.mp h
    refine ⟨cs.take k, cs.drop (k + 1), ?_, ?_⟩
    · rw [← hget, List.getElem_cons_drop, List.take_append_drop]
    · rw [List.length_take_of_le hk.le]

theorem take_before_cut (inner rest : List Char) :
    (opening :: (inner ++ closing :: rest)).take (inner.length + 1) = opening :: inner := by
  rw [List.take_succ_cons, List.take_left]

theorem take_through_cut (inner rest : List Char) :
    (opening :: (inner ++ closing :: rest)).take (inner.length + 1 + 1) =
      opening :: (inner ++ [closing]) := by
  rw [List.take_succ_cons, List.take_length_add_append, List.take_one, List.head?_cons,
    Option.toList_some]

theorem drop_through_cut (inner rest : List Char) :
    (opening :: (inner ++ closing :: rest)).drop (inner.length + 1 + 1) = rest := by
  rw [List.drop_succ_cons, List.drop_length_add_append, List.drop_one, List.tail_cons]

/-- The closing bracket stands behind what is balanced. -/
theorem closingPlace?_eq_some_iff (hne : opening ≠ closing) :
    closingPlace? opening closing (opening :: cs) = some i ↔
      ∃ inner rest, cs = inner ++ closing :: rest ∧ Balanced opening closing inner ∧
        i = inner.length + 1 := by
  rw [closingPlace?, Option.map_eq_some_iff]
  constructor
  · rintro ⟨⟨inner, rest⟩, hfound, rfl⟩
    obtain ⟨htext, hbalanced⟩ := (bracketedPart_eq_some_iff hne).mp hfound
    exact ⟨inner, rest, (List.cons.inj htext).2, hbalanced, rfl⟩
  · rintro ⟨inner, rest, rfl, hbalanced, rfl⟩
    exact ⟨(inner, rest), (bracketedPart_eq_some_iff hne).mpr ⟨rfl, hbalanced⟩, rfl⟩

/-- No bracket closes the first one if and only if it stays open. -/
theorem closingPlace?_eq_none_iff (hne : opening ≠ closing) :
    closingPlace? opening closing (opening :: cs) = none ↔
      StaysOpen opening closing (opening :: cs) := by
  rw [closingPlace?, Option.map_eq_none_iff, bracketedPart, if_pos rfl, enclosed_eq_none_iff hne,
    staysOpen_cons_opening hne]

/-- The place cuts the part that the brackets enclose out of the text. -/
theorem bracketedPart_eq_map_closingPlace? (hne : opening ≠ closing) (text : List Char) :
    bracketedPart opening closing text =
      (closingPlace? opening closing text).map fun i =>
        ((text.take i).drop 1, text.drop (i + 1)) := by
  cases hfound : bracketedPart opening closing text with
  | none => rw [closingPlace?, hfound, Option.map_none, Option.map_none]
  | some parts =>
    obtain ⟨inner, rest⟩ := parts
    obtain ⟨rfl, -⟩ := (bracketedPart_eq_some_iff hne).mp hfound
    rw [closingPlace?, hfound, Option.map_some, Option.map_some, take_before_cut,
      drop_through_cut, List.drop_one, List.tail_cons]

/-- If a text begins with an opening bracket, the closing place is the first one behind which
as many brackets have been closed as opened, and a closing bracket stands there. There is no
such place if and only if the text stays open to its end. What the brackets enclose, and what
stands behind them, is cut out of the text at this place. -/
theorem closingPlace_iff_counts_meet (hne : opening ≠ closing)
    (hstart : text.head? = some opening) :
    (∀ i, closingPlace? opening closing text = some i ↔
      text[i]? = some closing ∧
        (text.take (i + 1)).count opening = (text.take (i + 1)).count closing ∧
        StaysOpen opening closing (text.take i)) ∧
    (closingPlace? opening closing text = none ↔ StaysOpen opening closing text) ∧
    bracketedPart opening closing text =
      (closingPlace? opening closing text).map fun i =>
        ((text.take i).drop 1, text.drop (i + 1)) := by
  obtain ⟨cs, rfl⟩ := List.head?_eq_some_iff.mp hstart
  refine ⟨?_, closingPlace?_eq_none_iff hne, bracketedPart_eq_map_closingPlace? hne _⟩
  intro i
  rw [closingPlace?_eq_some_iff hne]
  constructor
  · rintro ⟨inner, rest, rfl, hbalanced, rfl⟩
    have hclosing : (opening :: (inner ++ closing :: rest))[inner.length + 1]? = some closing := by
      simp
    rw [take_through_cut, take_before_cut]
    exact ⟨hclosing, (balanced_iff_counts_meet hne).mp hbalanced⟩
  · rintro ⟨hclosing, hmeet, hopen⟩
    -- any closing bracket cuts the text; that it is the matching one is said by the counts
    obtain ⟨inner, rest, rfl, rfl⟩ := exists_cut_of_getElem? hne hclosing
    rw [take_through_cut] at hmeet
    rw [take_before_cut] at hopen
    have hbalanced := (balanced_iff_counts_meet hne).mpr ⟨hmeet, hopen⟩
    exact ⟨inner, rest, rfl, hbalanced, rfl⟩

/-- A name with brackets inside its brackets and a further one behind them, and a name of
which the inner brackets alone are closed. -/
theorem closingPlace_iff_counts_meet_nested :
    let text := "[a[0]=b] c]".toList
    '[' ≠ ']' ∧ text.head? = some '[' ∧ closingPlace? '[' ']' text = some 7 ∧
      bracketedPart '[' ']' text = some ("a[0]=b".toList, " c]".toList) ∧
      "[a[0]".toList.head? = some '[' ∧ closingPlace? '[' ']' "[a[0]".toList = none := by
  intro text
  obtain ⟨hplace, -, hpart⟩ := closingPlace_iff_counts_meet
    (show '[' ≠ ']' by decide) (show text.head? = some '[' from rfl)
  have hseven : closingPlace? '[' ']' text = some 7 := (hplace 7).mpr (by decide)
  obtain ⟨-, hnone, -⟩ := closingPlace_iff_counts_meet
    (show '[' ≠ ']' by decide) (show "[a[0]".toList.head? = some '[' from rfl)
  rw [hseven] at hpart
  exact ⟨by decide, rfl, hseven, hpart, rfl, hnone.mpr (by decide)⟩

end DocComment
