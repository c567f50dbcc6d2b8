import DocComment.Proofs.Lexing.Language

/-!
# Scanners

The scanners of names, string literals and number literals each find the longest
text of their language. A name and a string literal are scanned along the first
words of their languages. A number literal is scanned in parts; a part that is
cut short leaves a character behind with which no later part begins.
-/

namespace DocComment

open Text Token

variable {c : Char} {cs text : List Char}

namespace Token

/-! ## Names -/

/-- No character both goes on a segment and joins two. -/
theorem not_isNamePart_of_isNameJoint {later : Bool} (h : isNameJoint c = true) :
    isNamePart later c = false := by
  simp only [isNameJoint, Bool.or_eq_true, beq_iff_eq] at h
  rcases h with (((rfl | rfl) | rfl) | rfl) | rfl <;> cases later <;> decide

theorem nameTail_cons {later : Bool} (h : isNamePart later c = true) (cs : List Char) :
    nameTail later (c :: cs) = c :: nameTail later cs := by
  cases cs <;> simp [nameTail, h]

theorem nameTail_eq_nil {later : Bool} (hpart : isNamePart later c = false)
    (hjoint : isNameJoint c = false) (cs : List Char) : nameTail later (c :: cs) = [] := by
  cases cs <;> simp [nameTail, hpart, hjoint]

/-- Characters that go on a segment belong to the name. -/
theorem nameTail_append {later : Bool} (h : ∀ c ∈ text, isNamePart later c = true)
    (rest : List Char) : nameTail later (text ++ rest) = text ++ nameTail later rest := by
  induction text with
  | nil => rfl
  | cons c text ih =>
    rw [List.cons_append, nameTail_cons (h c (by simp)), ih fun d hd => h d (by simp [hd])]
    rfl

/-- What the scanner takes for the rest of a name stands at the start of the text. -/
theorem nameTail_starts (later : Bool) (cs : List Char) : nameTail later cs <+: cs := by
  fun_induction nameTail later cs with
  | case1 => exact List.nil_prefix
  | case2 => exact List.prefix_refl _
  | case3 => exact List.nil_prefix
  | case4 later c d cs hpart ih => exact (List.prefix_cons_inj c).mpr ih
  | case5 later c d cs hpart hjoint ih =>
    exact (List.prefix_cons_inj c).mpr ((List.prefix_cons_inj d).mpr ih)
  | case6 => exact List.nil_prefix

/-- What the scanner takes for the rest of a name is one. -/
theorem nameTail_mem (later : Bool) (cs : List Char) : nameTail later cs ∈ segments later := by
  fun_induction nameTail later cs with
  | case1 => exact mem_segments.mpr (.inl rfl)
  | case2 later c hpart =>
    exact mem_segments.mpr (.inr (.inl ⟨c, [], hpart, mem_segments.mpr (.inl rfl), rfl⟩))
  | case3 => exact mem_segments.mpr (.inl rfl)
  | case4 later c d cs hpart ih => exact mem_segments.mpr (.inr (.inl ⟨c, _, hpart, ih, rfl⟩))
  | case5 later c d cs hpart hjoint ih =>
    rcases Bool.and_eq_true_iff.mp hjoint with ⟨hc, hd⟩
    exact mem_segments.mpr (.inr (.inr ⟨c, d, _, hc, hd, ih, rfl⟩))
  | case6 => exact mem_segments.mpr (.inl rfl)

/-- No longer rest of a name stands at the start of the text. -/
theorem length_le_nameTail (later : Bool) (cs : List Char) (hmem : text ∈ segments later)
    (hstarts : text <+: cs) : text.length ≤ (nameTail later cs).length := by
  -- the scanner and the language go on by the same characters, one step at a time
  fun_induction nameTail later cs generalizing text with
  | case1 => exact hstarts.length_le
  | case2 later c hpart => exact hstarts.length_le
  | case3 later c hpart =>
    rcases mem_segments.mp hmem with rfl | ⟨e, rest, he, -, rfl⟩ | ⟨e, f, rest, -, -, -, rfl⟩
    · exact Nat.le_refl _
    · rcases List.cons_prefix_cons.mp hstarts with ⟨rfl, -⟩
      exact absurd he hpart
    · simpa using hstarts.length_le
  | case4 later c d cs hpart ih =>
    rcases mem_segments.mp hmem with rfl | ⟨e, rest, -, hrest, rfl⟩ | ⟨e, f, rest, he, -, -, rfl⟩
    · exact Nat.zero_le _
    · have htail := ih hrest (List.cons_prefix_cons.mp hstarts).2
      simpa using htail
    · rcases List.cons_prefix_cons.mp hstarts with ⟨rfl, -⟩
      simp [not_isNamePart_of_isNameJoint he] at hpart
  | case5 later c d cs hpart hjoint ih =>
    rcases mem_segments.mp hmem with rfl | ⟨e, rest, he, -, rfl⟩ | ⟨e, f, rest, -, -, hrest, rfl⟩
    · exact Nat.zero_le _
    · rcases List.cons_prefix_cons.mp hstarts with ⟨rfl, -⟩
      exact absurd he hpart
    · have htail := (List.cons_prefix_cons.mp (List.cons_prefix_cons.mp hstarts).2).2
      have hlength := ih hrest htail
      simpa using hlength
  | case6 later c d cs hpart hjoint =>
    rcases mem_segments.mp hmem with rfl | ⟨e, rest, he, -, rfl⟩ | ⟨e, f, rest, he, hf, -, rfl⟩
    · exact Nat.le_refl _
    · rcases List.cons_prefix_cons.mp hstarts with ⟨rfl, -⟩
      exact absurd he hpart
    · rcases List.cons_prefix_cons.mp hstarts with ⟨rfl, htail⟩
      rcases List.cons_prefix_cons.mp htail with ⟨rfl, -⟩
      simp [he, hf] at hjoint

/-- A name ends where no name goes on. -/
theorem nameTail_of_mem {rest : List Char} (hrest : ∀ later, nameTail later rest = [])
    (later : Bool) (text : List Char) (hmem : text ∈ segments later) :
    nameTail later (text ++ rest) = text := by
  -- along the segments: their end, a character of this one, or a joint and the next one
  rcases mem_segments.mp hmem with h | ⟨c, tail, hc, htail, h⟩ | ⟨c, d, tail, hc, hd, htail, h⟩
  · rw [h]
    exact hrest later
  · rw [h, List.cons_append, nameTail_cons hc, nameTail_of_mem hrest later tail htail]
  · have hpart := @not_isNamePart_of_isNameJoint c later hc
    have hstep : nameTail later (c :: d :: tail ++ rest) =
        c :: d :: nameTail true (tail ++ rest) := by
      simp [nameTail, hpart, hc, hd]
    rw [h, hstep, nameTail_of_mem hrest true tail htail]
termination_by text.length
decreasing_by
  all_goals
    rw [h]
    simp only [List.length_cons]
    omega

/-- The scanner finds the longest name. -/
theorem longest_name (h : isNameStart c = true) (cs : List Char) :
    Longest nameLanguage (c :: nameTail false cs) (c :: cs) where
  starts := (List.prefix_cons_inj c).mpr (nameTail_starts false cs)
  mem := mem_oneOf_mul.mpr ⟨c, _, h, nameTail_mem false cs, rfl⟩
  longest := by
    intro other hstarts hmem
    rcases mem_oneOf_mul.mp hmem with ⟨d, rest, -, hrest, rfl⟩
    have htail := length_le_nameTail false cs hrest (List.cons_prefix_cons.mp hstarts).2
    simpa using htail

/-! ## String literals -/

/-- The rest of a string literal is there only if its closing quote is. -/
theorem stringTail_eq_some_iff {quote : Char} (hquote : quote ≠ '\\') :
    stringTail quote cs = some text ↔ text <+: cs ∧ text ∈ quotation quote := by
  -- the cases of the scanner: the end of the text, a backslash in front of a line feed, another
  -- backslash, the closing quote, a backslash at the end, any other character
  fun_induction stringTail quote cs generalizing text with
  | case1 =>
    refine ⟨fun h => by simp at h, ?_⟩
    intro hread
    rcases hread with ⟨hstarts, hmem⟩
    obtain rfl := List.prefix_nil.mp hstarts
    rcases mem_quotation.mp hmem with h | ⟨_, _, _, _, _, h⟩ | ⟨_, _, _, _, h⟩ <;> simp at h
  | case2 cs =>
    refine ⟨fun h => by simp at h, ?_⟩
    intro hread
    rcases hread with ⟨hstarts, hmem⟩
    rcases mem_quotation.mp hmem with rfl | ⟨d, _, _, hd, _, rfl⟩ | ⟨d, _, hd, _, rfl⟩
    · simp_all
    · exact absurd (List.cons_prefix_cons.mp hstarts).1 hd
    · rcases List.cons_prefix_cons.mp (List.cons_prefix_cons.mp hstarts).2 with ⟨rfl, -⟩
      exact absurd rfl hd
  | case3 c cs hc ih =>
    rw [Option.map_eq_some_iff]
    constructor
    · intro hread
      rcases hread with ⟨tail, htail, rfl⟩
      rcases ih.mp htail with ⟨hstarts, hmem⟩
      exact ⟨(List.prefix_cons_inj _).mpr ((List.prefix_cons_inj _).mpr hstarts),
        mem_quotation.mpr (.inr (.inr ⟨c, tail, hc, hmem, rfl⟩))⟩
    · intro hread
      rcases hread with ⟨hstarts, hmem⟩
      rcases mem_quotation.mp hmem with rfl | ⟨d, _, _, hd, _, rfl⟩ | ⟨d, rest, hd, hrest, rfl⟩
      · simp_all
      · exact absurd (List.cons_prefix_cons.mp hstarts).1 hd
      · rcases List.cons_prefix_cons.mp (List.cons_prefix_cons.mp hstarts).2 with ⟨rfl, htail⟩
        exact ⟨rest, ih.mpr ⟨htail, hrest⟩, rfl⟩
  | case4 cs hcs =>
    constructor
    · intro h
      obtain rfl := Option.some.inj h
      exact ⟨by simp, mem_quotation.mpr (.inl rfl)⟩
    · intro hread
      rcases hread with ⟨hstarts, hmem⟩
      rcases mem_quotation.mp hmem with rfl | ⟨d, _, hd, _, _, rfl⟩ | ⟨d, _, _, _, rfl⟩
      · rfl
      · exact absurd (List.cons_prefix_cons.mp hstarts).1 hd
      · exact absurd (List.cons_prefix_cons.mp hstarts).1.symm hquote
  | case5 cs hcs hne =>
    refine ⟨fun h => by simp at h, ?_⟩
    intro hread
    rcases hread with ⟨hstarts, hmem⟩
    rcases mem_quotation.mp hmem with rfl | ⟨d, _, _, hd, _, rfl⟩ | ⟨d, _, _, _, rfl⟩
    · exact absurd (List.cons_prefix_cons.mp hstarts).1.symm hne
    · exact absurd (List.cons_prefix_cons.mp hstarts).1 hd
    · rcases List.cons_prefix_cons.mp hstarts with ⟨-, hstarts⟩
      rcases hstarts with ⟨t, rfl⟩
      exact absurd rfl (hcs _ _ rfl)
  | case6 c cs hcs hne hbackslash ih =>
    rw [Option.map_eq_some_iff]
    constructor
    · intro hread
      rcases hread with ⟨tail, htail, rfl⟩
      rcases ih.mp htail with ⟨hstarts, hmem⟩
      exact ⟨(List.prefix_cons_inj _).mpr hstarts,
        mem_quotation.mpr (.inr (.inl ⟨c, tail, hne, hbackslash, hmem, rfl⟩))⟩
    · intro hread
      rcases hread with ⟨hstarts, hmem⟩
      rcases mem_quotation.mp hmem with rfl | ⟨d, rest, _, _, hrest, rfl⟩ | ⟨d, _, _, _, rfl⟩
      · exact absurd (List.cons_prefix_cons.mp hstarts).1.symm hne
      · rcases List.cons_prefix_cons.mp hstarts with ⟨rfl, htail⟩
        exact ⟨rest, ih.mpr ⟨htail, hrest⟩, rfl⟩
      · exact absurd (List.cons_prefix_cons.mp hstarts).1.symm hbackslash

/-- A string literal is a quote and the rest of a literal with that quote. -/
theorem mem_stringLanguage : text ∈ stringLanguage ↔ ∃ quote tail,
    (quote = '"' ∨ quote = '\'') ∧ tail ∈ quotation quote ∧ text = quote :: tail := by
  rw [stringLanguage, Language.mem_add, mem_oneOf_mul, mem_oneOf_mul]
  constructor
  · intro hread
    rcases hread with ⟨c, tail, hc, htail, rfl⟩ | ⟨c, tail, hc, htail, rfl⟩
    · obtain rfl := beq_iff_eq.mp hc
      exact ⟨_, tail, .inl rfl, htail, rfl⟩
    · obtain rfl := beq_iff_eq.mp hc
      exact ⟨_, tail, .inr rfl, htail, rfl⟩
  · intro hread
    rcases hread with ⟨_, tail, rfl | rfl, htail, rfl⟩
    · exact .inl ⟨_, tail, by simp, htail, rfl⟩
    · exact .inr ⟨_, tail, by simp, htail, rfl⟩

/-- A string literal that begins at a place is the one that the scanner finds
there. -/
theorem exists_stringTail (hmem : text ∈ stringLanguage) (hstarts : text <+: c :: cs) :
    ∃ tail, (c = '"' ∨ c = '\'') ∧ stringTail c cs = some tail ∧ text = c :: tail := by
  rcases mem_stringLanguage.mp hmem with ⟨quote, tail, hquote, htail, rfl⟩
  rcases List.cons_prefix_cons.mp hstarts with ⟨rfl, hbehind⟩
  have hne : quote ≠ '\\' := by rcases hquote with rfl | rfl <;> decide
  exact ⟨tail, hquote, (stringTail_eq_some_iff hne).mpr ⟨hbehind, htail⟩, rfl⟩

/-- The scanner finds the longest string literal. -/
theorem longest_string (hquote : c = '"' ∨ c = '\'') (h : stringTail c cs = some text) :
    Longest stringLanguage (c :: text) (c :: cs) := by
  have hne : c ≠ '\\' := by rcases hquote with rfl | rfl <;> decide
  rcases (stringTail_eq_some_iff hne).mp h with ⟨hstarts, hmem⟩
  refine ⟨(List.prefix_cons_inj c).mpr hstarts,
    mem_stringLanguage.mpr ⟨c, text, hquote, hmem, rfl⟩, ?_⟩
  intro other hother hmem
  rcases exists_stringTail hmem hother with ⟨tail, -, htail, rfl⟩
  rw [h] at htail
  obtain rfl := Option.some.inj htail
  exact Nat.le_refl _

/-! ## Number literals -/

theorem mem_digitsLanguage :
    text ∈ digitsLanguage ↔ text ≠ [] ∧ ∀ c ∈ text, isDecimalDigit c = true :=
  mem_oneOrMore_iff

theorem digits_starts (cs : List Char) : digits cs <+: cs :=
  List.takeWhile_prefix _

theorem digits_mem (h : digits cs ≠ []) : digits cs ∈ digitsLanguage :=
  mem_digitsLanguage.mpr ⟨h, fun _ hc => List.all_eq_true.mp (List.all_takeWhile) _ hc⟩

/-- Digits are scanned to their end, or a digit is left behind them. -/
theorem eq_digits_or (hdigits : ∀ c ∈ text, isDecimalDigit c = true) (rest : List Char) :
    text = digits (text ++ rest) ∨
      (∃ d behind, isDecimalDigit d = true ∧ rest = d :: behind) ∧
        text.length < (digits (text ++ rest)).length := by
  -- all of the text is scanned, so the question is only what stands behind it
  have happend : digits (text ++ rest) = text ++ digits rest :=
    List.takeWhile_append_of_pos hdigits
  rw [happend]
  rcases rest with _ | ⟨d, behind⟩
  · exact .inl (List.append_nil text).symm
  · by_cases hd : isDecimalDigit d = true
    · exact .inr ⟨⟨d, behind, hd, rfl⟩, by simp [digits, hd]⟩
    · exact .inl (by simp [digits, hd])

/-- No exponent begins with a digit or a point. -/
theorem exponent_head {d : Char} (hmem : text ∈ orEmpty exponentLanguage)
    (hstarts : text <+: d :: cs) (hd : isDecimalDigit d = true ∨ d = '.') : text = [] := by
  rcases mem_orEmpty.mp hmem with rfl | hmem
  · rfl
  · rw [exponentLanguage, mul_assoc] at hmem
    rcases mem_oneOf_mul.mp hmem with ⟨e, rest, he, -, rfl⟩
    rcases List.cons_prefix_cons.mp hstarts with ⟨rfl, -⟩
    simp only [Bool.or_eq_true, beq_iff_eq] at he
    have hletter : isDecimalDigit e = false ∧ e ≠ '.' := by
      rcases he with rfl | rfl <;> decide
    rcases hd with hd | hd
    · simp [hletter.1] at hd
    · exact absurd hd hletter.2

/-- No fraction begins with a digit. -/
theorem fraction_head {d : Char} (hmem : text ∈ orEmpty fractionLanguage)
    (hstarts : text <+: d :: cs) (hd : isDecimalDigit d = true) : text = [] := by
  rcases mem_orEmpty.mp hmem with rfl | hmem
  · rfl
  · rcases mem_oneOf_mul.mp hmem with ⟨e, rest, he, -, rfl⟩
    rcases List.cons_prefix_cons.mp hstarts with ⟨rfl, -⟩
    obtain rfl := beq_iff_eq.mp he
    have hpoint : isDecimalDigit '.' = false := by decide
    simp [hpoint] at hd

/-- The scanned fraction stands at the start of the text. -/
theorem fraction_starts (cs : List Char) : fraction cs <+: cs := by
  unfold fraction
  split
  · split
    · exact List.nil_prefix
    · exact (List.prefix_cons_inj _).mpr (digits_starts _)
  · exact List.nil_prefix

/-- The scanned fraction is one, or empty. -/
theorem fraction_mem (cs : List Char) : fraction cs ∈ orEmpty fractionLanguage := by
  unfold fraction
  split
  · split
    · exact mem_orEmpty.mpr (.inl rfl)
    · rename_i h
      have hdigits := digits_mem (by simpa using h)
      exact mem_orEmpty.mpr (.inr (mem_oneOf_mul.mpr ⟨_, _, by simp, hdigits, rfl⟩))
  · exact mem_orEmpty.mpr (.inl rfl)

theorem exponentSign_starts (cs : List Char) : exponentSign cs <+: cs := by
  unfold exponentSign
  split <;> simp

theorem exponentSign_mem (cs : List Char) :
    exponentSign cs ∈ orEmpty (oneOf fun c => c == '+' || c == '-') := by
  unfold exponentSign
  split
  · exact mem_orEmpty.mpr (.inr ⟨_, by simp, rfl⟩)
  · exact mem_orEmpty.mpr (.inr ⟨_, by simp, rfl⟩)
  · exact mem_orEmpty.mpr (.inl rfl)

/-- What is read at the start of a text and then behind it is read at the start
of the whole. -/
theorem append_starts {front behind : List Char} (hfront : front <+: cs)
    (hbehind : behind <+: cs.drop front.length) : front ++ behind <+: cs := by
  rcases hfront with ⟨rest, rfl⟩
  rw [List.drop_left] at hbehind
  exact (List.prefix_append_right_inj front).mpr hbehind

/-- The scanned exponent stands at the start of the text. -/
theorem exponent_starts (cs : List Char) : exponent cs <+: cs := by
  cases cs with
  | nil => exact List.nil_prefix
  | cons c cs =>
    simp only [exponent]
    split
    · exact (List.prefix_cons_inj c).mpr (append_starts (exponentSign_starts cs) (digits_starts _))
    · exact List.nil_prefix

/-- The scanned exponent is one, or empty. -/
theorem exponent_mem (cs : List Char) : exponent cs ∈ orEmpty exponentLanguage := by
  cases cs with
  | nil => exact mem_orEmpty.mpr (.inl rfl)
  | cons c cs =>
    simp only [exponent]
    split
    · rename_i h
      rcases Bool.and_eq_true_iff.mp h with ⟨hc, hpower⟩
      -- an exponent without digits is not taken
      have hne : digits (cs.drop (exponentSign cs).length) ≠ [] := by simpa using hpower
      have hdigits := digits_mem hne
      have hsign := Language.append_mem_mul (exponentSign_mem cs) hdigits
      refine mem_orEmpty.mpr (.inr ?_)
      rw [exponentLanguage, mul_assoc]
      exact mem_oneOf_mul.mpr ⟨c, _, hc, hsign, rfl⟩
    · exact mem_orEmpty.mpr (.inl rfl)

/-- The scanned magnitude stands at the start of the text. -/
theorem magnitude_starts (cs : List Char) : magnitude cs <+: cs := by
  simp only [magnitude]
  split
  · exact List.nil_prefix
  · have hfraction := append_starts (digits_starts cs) (fraction_starts _)
    refine append_starts hfraction ?_
    rw [List.length_append]
    exact exponent_starts _

theorem magnitude_mem (h : magnitude cs ≠ []) : magnitude cs ∈ magnitudeLanguage := by
  simp only [magnitude] at h ⊢
  split
  · simp_all
  · rename_i hdigits
    have hwhole := digits_mem (by simpa using hdigits)
    exact Language.append_mem_mul (Language.append_mem_mul hwhole (fraction_mem _)) (exponent_mem _)

/-- Every exponent at a place is at most as long as the scanned one. -/
theorem length_le_exponent (hmem : text ∈ orEmpty exponentLanguage) (hstarts : text <+: cs) :
    text.length ≤ (exponent cs).length := by
  rcases mem_orEmpty.mp hmem with rfl | hmem
  · exact Nat.zero_le _
  · rw [exponentLanguage, mul_assoc] at hmem
    rcases mem_oneOf_mul.mp hmem with ⟨c, _, hc, hbehind, rfl⟩
    rcases Language.mem_mul.mp hbehind with ⟨sign, hsign, power, hpower, rfl⟩
    rcases hstarts with ⟨rest, rfl⟩
    rcases mem_digitsLanguage.mp hpower with ⟨hne, hdigits⟩
    have hscan : exponentSign (sign ++ (power ++ rest)) = sign := by
      rcases mem_orEmpty.mp hsign with rfl | ⟨s, hs, rfl⟩
      · -- a digit is no sign
        rcases List.exists_cons_of_ne_nil hne with ⟨d, ds, rfl⟩
        have hd := hdigits d (by simp)
        unfold exponentSign
        split
        · rename_i heq
          rcases List.cons.inj heq with ⟨rfl, -⟩
          revert hd
          decide
        · rename_i heq
          rcases List.cons.inj heq with ⟨rfl, -⟩
          revert hd
          decide
        · rfl
      · simp only [Bool.or_eq_true, beq_iff_eq] at hs
        rcases hs with rfl | rfl <;> rfl
    have happend : digits (power ++ rest) = power ++ digits rest :=
      List.takeWhile_append_of_pos hdigits
    simp only [List.cons_append, List.append_assoc, exponent, hscan, List.drop_left, happend, hc]
    simp [hne]

/-- A fraction and an exponent that begin at a place are together at most as
long as those that the scanner finds there. -/
theorem length_le_decimals {part power : List Char} (hpart : part ∈ orEmpty fractionLanguage)
    (hpower : power ∈ orEmpty exponentLanguage) (hstarts : part ++ power <+: cs) :
    part.length + power.length ≤
      (fraction cs).length + (exponent (cs.drop (fraction cs).length)).length := by
  rcases hstarts with ⟨rest, rfl⟩
  rcases mem_orEmpty.mp hpart with rfl | hpart
  · rw [List.nil_append]
    by_cases hempty : fraction (power ++ rest) = []
    · have hle := length_le_exponent hpower (List.prefix_append power rest)
      simpa [hempty] using hle
    · -- a point stands at the place, so there is no exponent
      have hnil : power = [] := by
        rcases hcs : power ++ rest with _ | ⟨d, behind⟩
        · exact (List.append_eq_nil_iff.mp hcs).1
        · by_cases hd : d = '.'
          · exact exponent_head hpower ⟨rest, hcs⟩ (.inr hd)
          · simp [hcs, fraction, hd] at hempty
      simp [hnil]
  · rcases mem_oneOf_mul.mp hpart with ⟨_, ds, hpoint, hds, rfl⟩
    obtain rfl := beq_iff_eq.mp hpoint
    rcases mem_digitsLanguage.mp hds with ⟨hne, hdigits⟩
    have happend : digits (ds ++ (power ++ rest)) = ds ++ digits (power ++ rest) :=
      List.takeWhile_append_of_pos hdigits
    have hfraction : fraction ('.' :: (ds ++ (power ++ rest))) =
        '.' :: digits (ds ++ (power ++ rest)) := by
      simp [fraction, happend, hne]
    rw [List.append_assoc, List.cons_append, hfraction]
    rcases eq_digits_or hdigits (power ++ rest) with heq | ⟨⟨d, behind, hd, hrest⟩, hlt⟩
    · rw [← heq]
      have hle := length_le_exponent hpower (List.prefix_append power rest)
      simp only [List.length_cons, List.drop_succ_cons, List.drop_left]
      omega
    · have hnil := exponent_head hpower ⟨rest, hrest⟩ (.inl hd)
      simp only [List.length_cons, hnil, List.length_nil]
      rw [hnil] at hlt
      omega

theorem length_magnitude (h : digits cs ≠ []) :
    (magnitude cs).length = (digits cs).length +
      ((fraction (cs.drop (digits cs).length)).length +
        (exponent ((cs.drop (digits cs).length).drop
          (fraction (cs.drop (digits cs).length)).length)).length) := by
  simp [magnitude, h]

/-- Every magnitude that begins at a place is at most as long as the one that
the scanner finds there. -/
theorem length_le_magnitude (hmem : text ∈ magnitudeLanguage) (hstarts : text <+: cs) :
    text.length ≤ (magnitude cs).length := by
  rcases Language.mem_mul.mp hmem with ⟨_, hfront, power, hpower, rfl⟩
  rcases Language.mem_mul.mp hfront with ⟨whole, hwhole, part, hpart, rfl⟩
  rcases hstarts with ⟨rest, rfl⟩
  rcases mem_digitsLanguage.mp hwhole with ⟨hne, hdigits⟩
  have hcs : whole ++ part ++ power ++ rest = whole ++ (part ++ power ++ rest) := by simp
  have hlength : (whole ++ part ++ power).length = whole.length + (part.length + power.length) := by
    simp
  rw [hcs, hlength]
  -- the scanner takes the same digits, or more of them: then nothing but digits can follow
  rcases eq_digits_or hdigits (part ++ power ++ rest) with heq | ⟨⟨d, behind, hd, hrest⟩, hlt⟩
  · rw [length_magnitude (by rwa [← heq]), ← heq, List.drop_left]
    have hle := length_le_decimals hpart hpower (List.prefix_append (part ++ power) rest)
    omega
  · have hpart : part = [] := fraction_head hpart ⟨power ++ rest, by simpa using hrest⟩ hd
    have hpower : power = [] := exponent_head hpower ⟨rest, by simpa [hpart] using hrest⟩ (.inl hd)
    rw [length_magnitude (List.ne_nil_of_length_pos (by omega)), hpart, hpower]
    rw [hpart, hpower] at hlt
    simp only [List.length_nil] at hlt ⊢
    omega

/-- The scanned number stands at the start of the text. -/
theorem numeral_starts (cs : List Char) : numeral cs <+: cs := by
  unfold numeral
  split
  · split
    · exact List.nil_prefix
    · exact (List.prefix_cons_inj _).mpr (magnitude_starts _)
  · exact magnitude_starts _

/-- The scanned number is a number literal. -/
theorem numeral_mem (h : numeral cs ≠ []) : numeral cs ∈ numberLanguage := by
  unfold numeral at h ⊢
  split at h
  · split at h
    · exact absurd rfl h
    · rename_i hmagnitude
      have hmem := magnitude_mem (by simpa using hmagnitude)
      refine Language.mem_mul.mpr ⟨['-'], mem_orEmpty.mpr (.inr ⟨_, by simp, rfl⟩), _, hmem, ?_⟩
      simp [hmagnitude]
  · have hmem := magnitude_mem h
    refine Language.mem_mul.mpr ⟨[], mem_orEmpty.mpr (.inl rfl), _, hmem, ?_⟩
    simp

/-- Every number literal at a place is at most as long as the scanned one. -/
theorem length_le_numeral (hmem : text ∈ numberLanguage) (hstarts : text <+: cs) :
    text.length ≤ (numeral cs).length := by
  rcases Language.mem_mul.mp hmem with ⟨sign, hsign, unsigned, hunsigned, rfl⟩
  rcases mem_orEmpty.mp hsign with rfl | ⟨c, hc, rfl⟩
  · rw [List.nil_append] at hstarts ⊢
    have hle := length_le_magnitude hunsigned hstarts
    unfold numeral
    split
    · -- an unsigned literal does not begin with the sign
      have hmagnitude : ∀ rest, magnitude ('-' :: rest) = [] := by
        intro rest
        have hdash : isDecimalDigit '-' = false := by decide
        simp [magnitude, digits, hdash]
      rw [hmagnitude] at hle
      exact Nat.le_trans hle (Nat.zero_le _)
    · exact hle
  · obtain rfl := beq_iff_eq.mp hc
    rcases hstarts with ⟨rest, rfl⟩
    have hle := length_le_magnitude hunsigned (List.prefix_append unsigned rest)
    have hne : unsigned ≠ [] := by
      rcases Language.mem_mul.mp hunsigned with ⟨_, hfront, _, -, rfl⟩
      rcases Language.mem_mul.mp hfront with ⟨_, hwhole, _, -, rfl⟩
      simp [(mem_digitsLanguage.mp hwhole).1]
    have hpos := List.length_pos_of_ne_nil hne
    have hmagnitude : magnitude (unsigned ++ rest) ≠ [] := List.ne_nil_of_length_pos (by omega)
    simp only [List.cons_append, List.nil_append, numeral, List.isEmpty_eq_false_iff.mpr hmagnitude]
    simpa using hle

theorem nil_notMem_number : [] ∉ numberLanguage := by
  intro hmem
  rcases Language.mem_mul.mp hmem with ⟨_, -, _, hunsigned, h⟩
  obtain rfl := (List.append_eq_nil_iff.mp h).2
  rcases Language.mem_mul.mp hunsigned with ⟨_, hfront, _, -, h⟩
  obtain rfl := (List.append_eq_nil_iff.mp h).1
  rcases Language.mem_mul.mp hfront with ⟨_, hwhole, _, -, h⟩
  exact (mem_digitsLanguage.mp hwhole).1 (List.append_eq_nil_iff.mp h).1

/-- The first character of a number literal is a digit or a minus sign. -/
theorem head_of_mem_number (hmem : c :: text ∈ numberLanguage) :
    isDecimalDigit c = true ∨ c = '-' := by
  rcases Language.mem_mul.mp hmem with ⟨_, hsign, _, hunsigned, h⟩
  rcases mem_orEmpty.mp hsign with rfl | ⟨d, hd, rfl⟩
  · rcases Language.mem_mul.mp hunsigned with ⟨_, hfront, _, -, rfl⟩
    rcases Language.mem_mul.mp hfront with ⟨whole, hwhole, _, -, rfl⟩
    rcases mem_digitsLanguage.mp hwhole with ⟨hne, hdigits⟩
    rcases List.exists_cons_of_ne_nil hne with ⟨d, ds, rfl⟩
    rcases List.cons.inj h with ⟨rfl, -⟩
    exact .inl (hdigits d (by simp))
  · rcases List.cons.inj h with ⟨rfl, -⟩
    exact .inr (beq_iff_eq.mp hd)

/-- Whether a character can stand in a number literal. -/
def isNumberChar (c : Char) : Bool :=
  isDecimalDigit c || c == '.' || c == 'e' || c == 'E' || c == '+' || c == '-'

theorem isNumberChar_of_mem_digits (hmem : text ∈ digitsLanguage) :
    ∀ c ∈ text, isNumberChar c = true := by
  intro c hc
  simp [isNumberChar, (mem_digitsLanguage.mp hmem).2 c hc]

/-- Number literals are made of the characters of numbers. -/
theorem isNumberChar_of_mem (hmem : text ∈ numberLanguage) : ∀ c ∈ text, isNumberChar c = true := by
  have hsign : ∀ {sign : List Char} {holds : Char → Bool},
      (∀ c, holds c = true → isNumberChar c = true) → sign ∈ orEmpty (oneOf holds) →
        ∀ c ∈ sign, isNumberChar c = true := by
    intro sign holds himp hmem
    rcases mem_orEmpty.mp hmem with rfl | ⟨d, hd, rfl⟩
    · simp
    · simpa using himp d hd
  -- part by part: a minus sign, digits, a fraction, an exponent
  rcases Language.mem_mul.mp hmem with ⟨minus, hminus, _, hunsigned, rfl⟩
  rcases Language.mem_mul.mp hunsigned with ⟨_, hfront, power, hpower, rfl⟩
  rcases Language.mem_mul.mp hfront with ⟨whole, hwhole, part, hpart, rfl⟩
  have hminus' := hsign (by simp +contextual [isNumberChar]) hminus
  have hwhole' := isNumberChar_of_mem_digits hwhole
  have hpart' : ∀ c ∈ part, isNumberChar c = true := by
    rcases mem_orEmpty.mp hpart with rfl | hpart
    · simp
    · rcases mem_oneOf_mul.mp hpart with ⟨c, ds, hc, hds, rfl⟩
      refine List.forall_mem_cons.mpr ⟨?_, isNumberChar_of_mem_digits hds⟩
      simp [isNumberChar, beq_iff_eq.mp hc]
  have hpower' : ∀ c ∈ power, isNumberChar c = true := by
    rcases mem_orEmpty.mp hpower with rfl | hpower
    · simp
    · rcases Language.mem_mul.mp hpower with ⟨_, hletter, ds, hds, rfl⟩
      rcases mem_oneOf_mul.mp hletter with ⟨c, sign, hc, hletter', rfl⟩
      have hsign' := hsign (by simp +contextual [isNumberChar, or_imp]) hletter'
      have hds' := isNumberChar_of_mem_digits hds
      simp only [Bool.or_eq_true, beq_iff_eq] at hc
      have hc' : isNumberChar c = true := by rcases hc with rfl | rfl <;> decide
      intro d hd
      simp only [List.cons_append, List.mem_cons, List.mem_append] at hd
      rcases hd with rfl | hd | hd
      · exact hc'
      · exact hsign' d hd
      · exact hds' d hd
  intro c hc
  simp only [List.mem_append] at hc
  rcases hc with hc | (hc | hc) | hc
  · exact hminus' c hc
  · exact hwhole' c hc
  · exact hpart' c hc
  · exact hpower' c hc

/-- A number literal ends where no character of one follows. -/
theorem numeral_of_mem {rest : List Char} (hmem : text ∈ numberLanguage)
    (hrest : ∀ c behind, rest = c :: behind → isNumberChar c = false) :
    numeral (text ++ rest) = text := by
  have hle := length_le_numeral hmem (List.prefix_append text rest)
  have hne : numeral (text ++ rest) ≠ [] := by
    intro hnil
    rw [hnil] at hle
    obtain rfl := List.eq_nil_of_length_eq_zero (Nat.le_zero.mp hle)
    exact nil_notMem_number hmem
  -- what the scanner finds cannot be longer, since its next character would be in the rest
  obtain ⟨more, hmore⟩ := List.prefix_of_prefix_length_le (List.prefix_append text rest)
    (numeral_starts (text ++ rest)) hle
  rcases more with _ | ⟨c, more⟩
  · rw [← hmore, List.append_nil]
  · rcases numeral_starts (text ++ rest) with ⟨behind, hbehind⟩
    rw [← hmore, List.append_assoc] at hbehind
    have hc := hrest c _ (List.append_cancel_left hbehind).symm
    have hc' := isNumberChar_of_mem (numeral_mem hne) c (by simp [← hmore])
    rw [hc] at hc'
    exact Bool.noConfusion hc'

/-- The scanner finds the longest number literal. -/
theorem longest_number (h : numeral cs ≠ []) : Longest numberLanguage (numeral cs) cs :=
  ⟨numeral_starts cs, numeral_mem h, fun _ hstarts hmem => length_le_numeral hmem hstarts⟩

end Token

end DocComment
