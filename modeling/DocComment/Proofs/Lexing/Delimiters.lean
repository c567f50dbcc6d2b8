import DocComment.Proofs.Lexing.Characters

/-!
# Text behind a text

The scanners of names and numbers see a text only through the words of their languages at
its start, so a token is read in the same way in front of two texts that begin with the
same words (`SameWords`, `read_eq`). No word goes on over a character that stands in no
name and in no number. So a text in front of such a character keeps its tokens
(`tokensOf_append`), if neither an equals sign comes to touch a `>` nor a quote is closed
that was not closed before.
-/

namespace DocComment

open Text Token

variable {c : Char} {cs ds back text word : List Char} {texts : Language Char}

namespace Token

/-! ## Words -/

/-- Whether a character can stand in a name or in a number literal. -/
def isWordlike (c : Char) : Bool :=
  isNameChar c || isNumberChar c

/-- The same words of names and numbers begin two texts. -/
def SameWords (cs ds : List Char) : Prop :=
  ∀ word : List Char, (∀ c ∈ word, isWordlike c = true) → (word <+: cs ↔ word <+: ds)

theorem SameWords.symm (h : SameWords cs ds) : SameWords ds cs :=
  fun word hword => (h word hword).symm

theorem SameWords.cons (h : SameWords cs ds) (c : Char) : SameWords (c :: cs) (c :: ds) := by
  intro word hword
  cases word with
  | nil => simp
  | cons d word =>
    have hbehind := h word fun e he => hword e (List.mem_cons_of_mem d he)
    rw [List.cons_prefix_cons, List.cons_prefix_cons, hbehind]

theorem isWordlike_of_mem_name (h : text ∈ nameLanguage) : ∀ c ∈ text, isWordlike c = true := by
  intro c hc
  simp [isWordlike, isNameChar_of_mem_name h c hc]

theorem isWordlike_of_mem_number (h : text ∈ numberLanguage) :
    ∀ c ∈ text, isWordlike c = true := by
  intro c hc
  simp [isWordlike, isNumberChar_of_mem h c hc]

end Token

/-- The longest word at the start of a text begins every text with the same words. -/
theorem Longest.of_sameWords (h : Longest texts text cs) (hsame : SameWords cs ds)
    (hwords : ∀ word ∈ texts, ∀ c ∈ word, isWordlike c = true) : Longest texts text ds where
  starts := (hsame text (hwords text h.mem)).mp h.starts
  mem := h.mem
  longest other hstarts hmem := h.longest other ((hsame other (hwords other hmem)).mpr hstarts) hmem

namespace Token

/-! ## Scanners -/

theorem nameTail_of_sameWords (h : SameWords cs ds) (hc : isNameStart c = true) :
    nameTail false cs = nameTail false ds := by
  have hlongest := (longest_name hc cs).of_sameWords (h.cons c) fun _ => isWordlike_of_mem_name
  exact (List.cons.inj (hlongest.eq (longest_name hc ds))).2

/-- Of two texts with the same words neither begins with a longer number. -/
theorem length_numeral_le (h : SameWords cs ds) : (numeral cs).length ≤ (numeral ds).length := by
  by_cases hnil : numeral cs = []
  · simp [hnil]
  · have hlongest := (longest_number hnil).of_sameWords h fun _ => isWordlike_of_mem_number
    exact length_le_numeral hlongest.mem hlongest.starts

/-- Texts with the same words begin with the same number. -/
theorem numeral_of_sameWords (h : SameWords cs ds) : numeral cs = numeral ds := by
  have hle := length_numeral_le h
  have hge := length_numeral_le h.symm
  by_cases hnil : numeral cs = []
  · rw [hnil] at hge ⊢
    exact (List.eq_nil_of_length_eq_zero (Nat.le_zero.mp hge)).symm
  · have hlongest := (longest_number hnil).of_sameWords h fun _ => isWordlike_of_mem_number
    have hpos := List.length_pos_of_ne_nil hnil
    exact hlongest.eq (longest_number (List.ne_nil_of_length_pos (by omega)))

/-- A mark depends on what stands behind it only if it is an equals sign. -/
theorem mark?_of_sameWords (h : SameWords cs ds)
    (hgreater : c = '=' → (['>'] <+: cs ↔ ['>'] <+: ds)) : mark? c cs = mark? c ds := by
  have hdots : ['.', '.'].isPrefixOf cs = ['.', '.'].isPrefixOf ds := by
    rw [Bool.eq_iff_iff, List.isPrefixOf_iff_prefix, List.isPrefixOf_iff_prefix]
    exact h ['.', '.'] (List.all_eq_true.mp rfl)
  unfold mark?
  split
  case h_7 =>
    have hflag : ['>'].isPrefixOf cs = ['>'].isPrefixOf ds := by
      rw [Bool.eq_iff_iff, List.isPrefixOf_iff_prefix, List.isPrefixOf_iff_prefix]
      exact hgreater rfl
    rw [hflag]
  all_goals first | rfl | rw [hdots]

/-- A token is read in the same way in front of the same words. Only an equals sign looks
at a character of another kind, and only a quote looks at all that stands behind it. -/
theorem read_eq (h : SameWords cs ds) (hgreater : c = '=' → (['>'] <+: cs ↔ ['>'] <+: ds))
    (hquote : c = '"' ∨ c = '\'' → stringTail c cs = stringTail c ds) : read c cs = read c ds := by
  unfold read
  split
  · next hstart => rw [nameTail_of_sameWords h hstart]
  · split
    · next hc =>
      have hc : c = '"' ∨ c = '\'' := by simpa using hc
      rw [hquote hc]
    · rw [mark?_of_sameWords h hgreater, numeral_of_sameWords (h.cons c)]

/-! ## Text behind a text -/

/-- What begins a text that was put together begins its front or goes on over it. -/
theorem prefix_append_cases (h : text <+: cs ++ back) :
    text <+: cs ∨ ∃ more, more ≠ [] ∧ more <+: back ∧ text = cs ++ more := by
  rcases List.prefix_or_prefix_of_prefix h (List.prefix_append cs back) with hcs | ⟨more, rfl⟩
  · exact .inl hcs
  · by_cases hmore : more = []
    · exact .inl (by simp [hmore])
    · exact .inr ⟨more, hmore, (List.prefix_append_right_inj cs).mp h, rfl⟩

theorem sameWords_append (hback : ∀ d ∈ back.head?, isWordlike d = false) :
    SameWords (cs ++ back) cs := by
  intro word hword
  refine ⟨fun h => ?_, fun h => h.trans (List.prefix_append cs back)⟩
  rcases prefix_append_cases h with h | ⟨more, hmore, ⟨rest, rfl⟩, rfl⟩
  · exact h
  · -- the word would go on over the first character behind the text
    obtain ⟨d, more, rfl⟩ := List.exists_cons_of_ne_nil hmore
    have hd := hword d (by simp)
    rw [hback d rfl] at hd
    exact Bool.noConfusion hd

/-- A `>` stands at the start of a text alone if nothing lets one come in from behind. -/
theorem greater_prefix_append (hback : back.head? = some '>' → cs ≠ []) :
    ['>'] <+: cs ++ back ↔ ['>'] <+: cs := by
  refine ⟨fun h => ?_, fun h => h.trans (List.prefix_append cs back)⟩
  cases cs with
  | nil =>
    obtain ⟨rest, rfl⟩ := h
    exact absurd rfl (hback rfl)
  | cons d ds =>
    obtain rfl := (List.cons_prefix_cons.mp h).1
    simp

/-- A literal that is closed in a text is closed there whatever stands behind it. -/
theorem stringTail_append_of_some (hquote : c = '"' ∨ c = '\'')
    (h : stringTail c cs = some text) (back : List Char) :
    stringTail c (cs ++ back) = some text := by
  have hne : c ≠ '\\' := by rcases hquote with rfl | rfl <;> decide
  obtain ⟨hstarts, hmem⟩ := (stringTail_eq_some_iff hne).mp h
  exact (stringTail_eq_some_iff hne).mpr ⟨hstarts.trans (List.prefix_append cs back), hmem⟩

end Token

/-! ## Longest texts -/

/-- A longest text that does not reach over the end of a front is longest there. -/
theorem Longest.of_append (h : Longest texts text (cs ++ back)) (htext : text <+: cs) :
    Longest texts text cs where
  starts := htext
  mem := h.mem
  longest other hstarts := h.longest other (hstarts.trans (List.prefix_append cs back))

theorem Longest.refl (h : text ∈ texts) : Longest texts text text where
  starts := List.prefix_refl text
  mem := h
  longest _ hstarts _ := hstarts.length_le

/-- All terminals are written out but for names and literals. -/
theorem Terminal.language_cases (t : Terminal) :
    (∃ word, t.language = {word}) ∨ t = name ∨ t = number ∨ t = string := by
  cases t
  all_goals first
    | exact .inl ⟨_, rfl⟩
    | simp

/-- What a terminal covers at the end of a text or in front of other text, it covers in front
of a character of no name and no number. -/
theorem Terminal.longest_append {t : Terminal} (h : Longest t.language text cs)
    (hback : ∀ d ∈ back.head?, isWordlike d = false) :
    Longest t.language text (cs ++ back) := by
  rcases t.language_cases with ⟨word, hword⟩ | rfl | rfl | rfl
  · rw [hword] at h ⊢
    obtain rfl : text = word := h.mem
    obtain ⟨rest, rfl⟩ := h.starts
    rw [List.append_assoc]
    exact longest_singleton text (rest ++ back)
  · exact h.of_sameWords (sameWords_append hback).symm fun _ => isWordlike_of_mem_name
  · exact h.of_sameWords (sameWords_append hback).symm fun _ => isWordlike_of_mem_number
  · -- a literal ends at its own quote
    obtain ⟨c, tail, hquote, -, rfl⟩ := mem_stringLanguage.mp h.mem
    obtain ⟨rest, rfl⟩ := h.starts
    obtain ⟨tail', -, hscan, htail⟩ := exists_stringTail h.mem h.starts
    obtain rfl : tail = tail' := (List.cons.inj htail).2
    exact longest_string hquote (stringTail_append_of_some hquote hscan back)

namespace Token

/-- A text without the quote closes no literal. -/
theorem stringTail_append_of_none (hquote : c = '"' ∨ c = '\'') (h : stringTail c cs = none)
    (hback : c ∉ back) : stringTail c (cs ++ back) = none := by
  have hne : c ≠ '\\' := by rcases hquote with rfl | rfl <;> decide
  cases htail : stringTail c (cs ++ back) with
  | none => rfl
  | some tail =>
    obtain ⟨hstarts, hmem⟩ := (stringTail_eq_some_iff hne).mp htail
    rcases prefix_append_cases hstarts with hcs | ⟨more, hmore, hbegins, rfl⟩
    · have hclosed := (stringTail_eq_some_iff hne).mpr ⟨hcs, hmem⟩
      rw [h] at hclosed
      cases hclosed
    · -- the closing quote would be the last character of the tail
      have hlast := getLast_of_mem_quotation hmem
      rw [List.getLast?_append_of_ne_nil _ hmore] at hlast
      exact absurd (hbegins.subset (List.mem_of_getLast? hlast)) hback

/-- A token does not reach over the end of the text. -/
theorem length_read_le (c : Char) (cs : List Char) : (read c cs).2 ≤ cs.length := by
  -- a name, a string literal, a mark, a number literal, and what is no token
  rcases read_cases c cs with ⟨-, hread⟩ | ⟨tail, hquote, htail, hread⟩ | ⟨mark, -, hread⟩ |
    ⟨tail, hnumeral, hread⟩ | hread
  · rw [hread]
    exact (nameTail_starts false cs).length_le
  · rw [hread]
    have hlength := (longest_string hquote htail).starts.length_le
    simpa using hlength
  · rw [hread]
    exact Nat.zero_le _
  · rw [hread]
    have hlength := (numeral_starts (c :: cs)).length_le
    rw [hnumeral] at hlength
    simpa using hlength
  · rw [hread]
    exact Nat.zero_le _

/-- What stands behind a text is read behind the tokens of the text: it begins with a
character of no name and no number, which is no `>` behind an equals sign, and it closes no
literal. -/
theorem tokensOf_append {cs back : List Char} (hback : ∀ d ∈ back.head?, isWordlike d = false)
    (hgreater : back.head? = some '>' → cs.getLast? ≠ some '=')
    (hquotes : stray ∉ tokensOf cs ∨ '"' ∉ back ∧ '\'' ∉ back) :
    tokensOf (cs ++ back) = tokensOf cs ++ tokensOf back := by
  cases cs with
  | nil => rfl
  | cons c cs =>
    rw [List.cons_append]
    cases hspacing : isSpacing c with
    | true =>
      have hlast : back.head? = some '>' → cs.getLast? ≠ some '=' := by
        intro hhead hlast
        exact hgreater hhead (by simp [List.getLast?_cons, hlast])
      rw [tokensOf_cons_spacing hspacing] at hquotes
      rw [tokensOf_cons_spacing hspacing, tokensOf_cons_spacing hspacing]
      exact tokensOf_append hback hlast hquotes
    | false =>
      -- the first token is the same with the other text behind it
      have hread : read c (cs ++ back) = read c cs := by
        refine read_eq (sameWords_append hback) ?_ fun hc => ?_
        · rintro rfl
          refine greater_prefix_append fun hhead hnil => ?_
          exact hgreater hhead (by rw [hnil]; rfl)
        · -- an open quote is stray, so no quote may stand behind it
          cases htail : stringTail c cs with
          | some tail => exact stringTail_append_of_some hc htail back
          | none =>
            refine stringTail_append_of_none hc htail ?_
            rcases hquotes with hstray | ⟨hdouble, hsingle⟩
            · have hread : (read c cs).1 = stray := by
                rcases hc with rfl | rfl <;> simp [read, isNameStart, isAsciiLetter, htail]
              rw [tokensOf_cons hspacing, hread] at hstray
              exact absurd List.mem_cons_self hstray
            · rcases hc with rfl | rfl
              · exact hdouble
              · exact hsingle
      have hle := length_read_le c cs
      have hlast : back.head? = some '>' → (cs.drop (read c cs).2).getLast? ≠ some '=' := by
        intro hhead hlast
        have hne : cs.drop (read c cs).2 ≠ [] := by
          intro hnil
          rw [hnil] at hlast
          cases hlast
        -- the last character stays the last one behind the token
        have hcs : (c :: cs).getLast? = (cs.drop (read c cs).2).getLast? := by
          rw [← List.take_append_drop (read c cs).2 cs, ← List.cons_append,
            List.getLast?_append_of_ne_nil _ hne, List.take_append_drop]
        exact hgreater hhead (hcs.trans hlast)
      rw [tokensOf_cons hspacing] at hquotes
      have hlength : (cs.drop (read c cs).2).length ≤ cs.length := by simp
      rw [tokensOf_cons hspacing, tokensOf_cons hspacing, hread, List.cons_append,
        List.drop_append_of_le_length hle,
        tokensOf_append hback hlast
          (hquotes.imp_left fun hstray hmem => hstray (List.mem_cons_of_mem _ hmem))]
termination_by cs.length

/-- Behind a text an equals sign is a token of its own. -/
theorem tokensOf_concat (cs : List Char) :
    tokensOf (cs ++ ['=']) = tokensOf cs ++ [.equals false] := by
  have hback : ∀ d ∈ ['='].head?, isWordlike d = false := by
    rintro _ ⟨⟩
    decide
  exact tokensOf_append hback nofun (.inr (by decide))

end Token

end DocComment
