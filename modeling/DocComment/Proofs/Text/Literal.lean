import DocComment.Proofs.Text.Emoji
import DocComment.Proofs.Text.Lines
import DocComment.Text.Literal

/-!
# Literal text

The console shows a text literally, except for what it reads in it: emoji codes, the escaping
of brackets and of a backslash at the end. A text in which there is nothing of this kind
(`Plain`) is shown as it is, without the control characters that the console leaves out
(`literal_of_plain`).
-/

namespace DocComment.Text

variable {table : EmojiTable} {cs piece : List Char}

/-- A text that the console has nothing to read in: it holds no known emoji code, it does not
end in a backslash, and a backslash in front of a bracket stands in front of a tag. -/
structure Plain (table : EmojiTable) (cs : List Char) : Prop where
  codes : ∀ code, ':' :: code ++ [':'] <:+: cs → emojiOf? table code = none
  final : cs.getLast? ≠ some '\\'
  brackets : ∀ front back, cs = front ++ '\\' :: '[' :: back → (tagLength? back).isSome

/-- A code takes two colons. -/
theorem not_code_infix_of_count (h : cs.count ':' ≤ 1) (code : List Char) :
    ¬ ':' :: code ++ [':'] <:+: cs := by
  intro hinfix
  have hcount := hinfix.sublist.count_le ':'
  simp at hcount
  omega

/-- Whether a text with one colon at most is plain can be computed place by place. -/
theorem Plain.of_places (hcolon : cs.count ':' ≤ 1) (hfinal : cs.getLast? ≠ some '\\')
    (hbrackets : ∀ n < cs.length, ['\\', '['].isPrefixOf (cs.drop n) →
      (tagLength? (cs.drop (n + 2))).isSome) :
    Plain table cs := by
  constructor
  · intro code hcode
    exact absurd hcode (not_code_infix_of_count hcolon code)
  · exact hfinal
  · rintro front back rfl
    have hplace := hbrackets front.length (by simp)
    rw [List.drop_left, List.drop_length_add_append] at hplace
    exact hplace rfl

/-! ## Emoji codes -/

/-- A code stands between two colons of the text. -/
theorem infix_of_mem_emojiCodesFrom {skip : Nat} {code : List Char}
    (h : code ∈ emojiCodesFrom skip cs) : ':' :: code ++ [':'] <:+: cs := by
  fun_induction emojiCodesFrom skip cs with
  | case1 skip => cases h
  | case2 skip c cs ih => exact (ih h).trans (List.suffix_cons c cs).isInfix
  | case3 c cs hfirst ih => exact (ih h).trans (List.suffix_cons c cs).isInfix
  | case4 c cs first hfirst ih =>
    obtain ⟨rfl, hfirst⟩ := eq_colon_of_code hfirst
    rcases List.mem_cons.mp h with rfl | h
    · refine ⟨[], cs.drop (code.length + 1), ?_⟩
      rw [List.nil_append, List.cons_append, List.cons_append, List.append_assoc,
        List.singleton_append, eq_of_emojiCode? hfirst]
    · exact (ih h).trans (List.suffix_cons ':' cs).isInfix

/-- Any part of a text without known codes stays as it is. -/
theorem replaceEmoji_of_infix
    (h : ∀ code, ':' :: code ++ [':'] <:+: cs → emojiOf? table code = none)
    (hpiece : piece <:+: cs) :
    replaceEmoji table piece = piece := by
  apply replaceEmojiFrom_of_unknown
  intro code hcode
  exact h code ((infix_of_mem_emojiCodesFrom hcode).trans hpiece)

/-! ## Pieces -/

/-- The pieces are all of the text. -/
theorem flatten_tagPieces (tag : Nat) (cs : List Char) : (tagPieces tag cs).flatten = cs := by
  fun_induction tagPieces tag cs with
  | case1 => rfl
  | case2 c cs ih => rw [List.flatten_cons, ih, List.singleton_append]
  | case3 tag c cs ih => rw [flatten_consToLine, ih]
  | case4 c cs _ ih => rw [flatten_consToLine, ih]
  | case5 c cs length _ ih => rw [List.flatten_cons, List.nil_append, flatten_consToLine, ih]

/-- A piece is a part of the text. -/
theorem infix_of_mem_tagPieces {tag : Nat} (h : piece ∈ tagPieces tag cs) : piece <:+: cs := by
  have hinfix := List.infix_of_mem_flatten h
  rwa [flatten_tagPieces] at hinfix

/-- A tag has no bracket behind the one that opens it. -/
theorem bracket_notMem_of_tagLength? {length : Nat} (h : tagLength? cs = some length) :
    '[' ∉ cs.take length := by
  cases cs with
  | nil => cases h
  | cons c cs =>
    simp only [tagLength?] at h
    split at h
    · next htag =>
      obtain ⟨hstart, hclose⟩ := (Bool.and_eq_true _ _).mp htag
      obtain rfl := Option.some.inj h
      -- the inner part stops at the first bracket of either kind, and the tag at the one behind it
      generalize hinner : (cs.takeWhile fun d => d != '[' && d != ']') = inner at hclose
      have hc : '[' ≠ c := by
        rintro rfl
        cases hstart
      have hnone : '[' ∉ inner := by
        intro hmem
        rw [← hinner] at hmem
        cases List.mem_takeWhile_imp hmem
      obtain ⟨rest, hrest⟩ := List.isPrefixOf_iff_prefix.mp hclose
      have htake : cs.take (inner.length + 1) = inner ++ [']'] := by
        -- what the inner part leaves begins with the closing bracket
        have hsplit : inner ++ ']' :: rest = cs := by
          obtain ⟨behind, hbehind⟩ := List.takeWhile_prefix (l := cs) fun d => d != '[' && d != ']'
          rw [hinner] at hbehind
          rw [← hbehind, List.drop_left] at hrest
          rw [← hbehind, ← hrest, List.singleton_append]
        rw [← hsplit, List.take_length_add_append]
        rfl
      rw [List.take_succ_cons, htake]
      simp [hc, hnone]
    · cases h

/-! ## Escapes -/

/-- A character stays unless it is a backslash in front of a bracket. -/
theorem dropEscapes_cons {c : Char} (h : c = '\\' → piece.head? ≠ some '[') :
    dropEscapes (c :: piece) = c :: dropEscapes piece := by
  rw [dropEscapes]
  rintro cs rfl rfl
  exact h rfl rfl

/-- The first piece begins as the text does, or is empty in front of a tag. -/
theorem head?_of_head?_tagPieces {tag : Nat} {d : Char}
    (h : d ∈ ((tagPieces tag cs).headD []).head?) : d ∈ cs.head? := by
  have hcons (c : Char) (pieces : List (List Char)) :
      ((consToLine c pieces).headD []).head? = some c := by
    cases pieces <;> rfl
  revert h
  -- the first piece is empty only in front of a tag; everywhere else it takes the character
  fun_cases tagPieces tag cs with
  | case1 => exact nofun
  | case2 c cs => exact id
  | case3 tag c cs =>
    rw [hcons]
    exact id
  | case4 c cs _ =>
    rw [hcons]
    exact id
  | case5 => exact nofun

/-- In front of a tag a piece ends. -/
theorem headD_tagPieces_of_tag {back : List Char} (h : (tagLength? back).isSome) :
    (tagPieces 0 ('[' :: back)).headD [] = [] := by
  obtain ⟨length, hlength⟩ := Option.isSome_iff_exists.mp h
  rw [tagPieces, if_pos rfl, hlength]
  rfl

/-- Where each backslash in front of a bracket stands in front of a tag, nothing is dropped
from a piece. -/
theorem dropEscapes_of_mem_tagPieces {tag : Nat} (hinside : '[' ∉ cs.take tag)
    (hbrackets : ∀ front back, cs = front ++ '\\' :: '[' :: back → (tagLength? back).isSome) :
    ∀ piece ∈ tagPieces tag cs, dropEscapes piece = piece := by
  have htail {c : Char} {cs : List Char}
      (h : ∀ front back, c :: cs = front ++ '\\' :: '[' :: back → (tagLength? back).isSome) :
      ∀ front back, cs = front ++ '\\' :: '[' :: back → (tagLength? back).isSome := by
    rintro front back rfl
    exact h (c :: front) back rfl
  have hcons {c : Char} {pieces : List (List Char)}
      (h : ∀ piece ∈ pieces, dropEscapes piece = piece)
      (hc : c = '\\' → (pieces.headD []).head? ≠ some '[') :
      ∀ piece ∈ consToLine c pieces, dropEscapes piece = piece := by
    apply forall_mem_consToLine
    · rw [dropEscapes_cons hc]
      cases pieces with
      | nil => rfl
      | cons first others => rw [List.headD_cons, h first List.mem_cons_self]
    · intro piece hpiece
      exact h piece (List.mem_of_mem_tail hpiece)
  fun_induction tagPieces tag cs with
  | case1 => exact List.forall_mem_singleton.mpr rfl
  | case2 c cs ih =>
    refine List.forall_mem_cons.mpr ⟨dropEscapes_cons nofun, ih ?_ (htail hbrackets)⟩
    exact List.not_mem_nil
  | case3 tag c cs ih =>
    rw [List.take_succ_cons] at hinside
    obtain ⟨-, hinside⟩ := not_or.mp (mt List.mem_cons.mpr hinside)
    refine hcons (ih hinside (htail hbrackets)) ?_
    -- inside of a tag no bracket follows
    intro _ hhead
    have hfirst : cs.head? = some '[' := head?_of_head?_tagPieces hhead
    obtain ⟨back, rfl⟩ := List.head?_eq_some_iff.mp hfirst
    exact hinside (by simp)
  | case4 c cs hnone ih =>
    refine hcons (ih List.not_mem_nil (htail hbrackets)) ?_
    -- outside of a tag a bracket that follows a backslash opens one
    rintro rfl hhead
    have hfirst : cs.head? = some '[' := head?_of_head?_tagPieces hhead
    obtain ⟨back, rfl⟩ := List.head?_eq_some_iff.mp hfirst
    rw [headD_tagPieces_of_tag (hbrackets [] back rfl)] at hhead
    cases hhead
  | case5 c cs length hlength ih =>
    split at hlength
    · next hc =>
      refine List.forall_mem_cons.mpr ⟨rfl, hcons (ih ?_ (htail hbrackets)) ?_⟩
      · exact bracket_notMem_of_tagLength? hlength
      · rw [hc]
        exact nofun
    · cases hlength

/-! ## Texts -/

/-- A text with nothing to read in it is shown without the control characters that the
console leaves out, and otherwise as it is. -/
theorem literal_of_plain (h : Plain table cs) : literal table cs = cs.filter (!isDropped ·) := by
  -- a console changes a text in three places, and there is nothing to change in any of them: at its
  -- end, in its codes and at its brackets
  have hfinal : doubleFinalBackslash cs = cs := by
    have hsuffix : ['\\'].isSuffixOf cs = false := by
      rw [Bool.eq_false_iff, ne_eq, List.isSuffixOf_iff_suffix]
      rintro ⟨front, rfl⟩
      exact h.final List.getLast?_concat
    rw [doubleFinalBackslash, hsuffix]
    rfl
  have hpieces : ∀ piece ∈ tagPieces 0 cs, replaceEmoji table (dropEscapes piece) = piece := by
    intro piece hpiece
    rw [dropEscapes_of_mem_tagPieces List.not_mem_nil h.brackets piece hpiece]
    exact replaceEmoji_of_infix h.codes (infix_of_mem_tagPieces hpiece)
  have htext :
      ((tagPieces 0 cs).flatMap fun piece => replaceEmoji table (dropEscapes piece)) = cs := by
    rw [List.flatMap_def, List.map_congr_left hpieces, List.map_id', flatten_tagPieces]
  rw [literal, hfinal, htext]

end DocComment.Text
