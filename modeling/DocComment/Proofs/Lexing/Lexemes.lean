import DocComment.Proofs.Grammar.Tokens
import DocComment.Proofs.Lexing.Scanners

/-!
# Lexemes and terminals

The tokens of a text tell which terminals can be read at its places. Reading a
terminal from the tokens is reading it from the text (`exists_readsText`), and
the other way round (`read?_tokensOf`), with two exceptions. The word `function`
is a token of its own only if no name goes on behind it, as in front of a
parenthesis. The word `typeof` may touch the name behind it; both are then one
token, which is a name.
-/

namespace DocComment

open Text Token

namespace Token

variable {c : Char} {cs spacing : List Char} {token : Token} {rest : List Token}

/-! ## The tokens of a text -/

def tokensOf (cs : List Char) : List Token :=
  (lexemes cs).map (·.token)

/-- Skipping characters and dropping them is the same. -/
theorem lexemesFrom_eq_drop (n : Nat) (cs : List Char) :
    lexemesFrom n cs = lexemes (cs.drop n) := by
  induction cs generalizing n with
  | nil => simp [lexemes, lexemesFrom]
  | cons c cs ih =>
    cases n with
    | zero => rfl
    | succ n => simpa [lexemesFrom] using ih n

@[simp] theorem tokensOf_nil : tokensOf [] = [] := rfl

/-- Spacing in front makes no lexeme. -/
theorem lexemes_cons_spacing (h : isSpacing c = true) : lexemes (c :: cs) = lexemes cs := by
  simp [lexemes, lexemesFrom, h]

theorem tokensOf_cons_spacing (h : isSpacing c = true) : tokensOf (c :: cs) = tokensOf cs := by
  rw [tokensOf, lexemes_cons_spacing h, tokensOf]

/-- The first lexeme, and the lexemes behind its token. -/
theorem lexemes_cons (h : isSpacing c = false) :
    lexemes (c :: cs) = ⟨(read c cs).1, c :: cs⟩ :: lexemes (cs.drop (read c cs).2) := by
  rw [← lexemesFrom_eq_drop, lexemes, lexemesFrom, h]
  rfl

/-- The first token of a text, and those behind it. -/
theorem tokensOf_cons (h : isSpacing c = false) :
    tokensOf (c :: cs) = (read c cs).1 :: tokensOf (cs.drop (read c cs).2) := by
  rw [tokensOf, lexemes_cons h]
  rfl

/-- No lexeme begins in spacing. -/
theorem lexemes_spacing_append (h : ∀ c ∈ spacing, isSpacing c = true) (cs : List Char) :
    lexemes (spacing ++ cs) = lexemes cs := by
  induction spacing with
  | nil => rfl
  | cons c spacing ih =>
    obtain ⟨hc, hspacing⟩ := List.forall_mem_cons.mp h
    rw [List.cons_append, lexemes_cons_spacing hc, ih hspacing]

theorem tokensOf_spacing_append (h : ∀ c ∈ spacing, isSpacing c = true) (cs : List Char) :
    tokensOf (spacing ++ cs) = tokensOf cs := by
  rw [tokensOf, lexemes_spacing_append h, tokensOf]

/-- Spacing has no tokens, and a text without tokens is spacing. -/
theorem tokensOf_eq_nil_iff : tokensOf cs = [] ↔ ∀ c ∈ cs, isSpacing c = true := by
  constructor
  · intro h
    induction cs with
    | nil => simp
    | cons c cs ih =>
      cases hc : isSpacing c with
      | true =>
        rw [tokensOf_cons_spacing hc] at h
        simpa [hc] using ih h
      | false => simp [tokensOf_cons hc] at h
  · intro h
    simpa using tokensOf_spacing_append h []

/-- The first lexeme is read behind the spacing in front of it. -/
theorem exists_of_lexemes_cons {lexeme : Lexeme} {later : List Lexeme}
    (h : lexemes cs = lexeme :: later) :
    ∃ spacing c behind, (∀ c ∈ spacing, isSpacing c = true) ∧ isSpacing c = false ∧
      cs = spacing ++ c :: behind ∧ lexeme = ⟨(read c behind).1, c :: behind⟩ ∧
      later = lexemes (behind.drop (read c behind).2) := by
  induction cs with
  | nil => cases h
  | cons c cs ih =>
    cases hc : isSpacing c with
    | true =>
      rw [lexemes_cons_spacing hc] at h
      obtain ⟨spacing, d, behind, hspacing, hd, rfl, hread⟩ := ih h
      exact ⟨c :: spacing, d, behind, List.forall_mem_cons.mpr ⟨hc, hspacing⟩, hd, rfl, hread⟩
    | false =>
      rw [lexemes_cons hc] at h
      obtain ⟨rfl, rfl⟩ := List.cons.inj h
      exact ⟨[], c, cs, nofun, hc, rfl, rfl, rfl⟩

/-- The first token stands behind spacing. -/
theorem exists_of_tokensOf_cons (h : tokensOf cs = token :: rest) :
    ∃ spacing c behind, (∀ c ∈ spacing, isSpacing c = true) ∧ cs = spacing ++ c :: behind ∧
      (read c behind).1 = token ∧ tokensOf (behind.drop (read c behind).2) = rest := by
  obtain ⟨lexeme, later, hlexemes, rfl, rfl⟩ := List.map_eq_cons_iff.mp h
  obtain ⟨spacing, c, behind, hspacing, -, rfl, rfl, rfl⟩ := exists_of_lexemes_cons hlexemes
  exact ⟨spacing, c, behind, hspacing, rfl, rfl, rfl⟩

/-- A lexeme has the text from its token on, and the lexemes of that text are the lexeme and
those behind it. -/
theorem exists_of_lexeme_suffix {cs : List Char} {lexeme : Lexeme} {later : List Lexeme}
    (h : lexeme :: later <:+ lexemes cs) :
    ∃ front c behind, cs = front ++ lexeme.text ∧ lexeme.text = c :: behind ∧
      isSpacing c = false ∧ lexemes lexeme.text = lexeme :: later := by
  cases hlexemes : lexemes cs with
  | nil =>
    rw [hlexemes] at h
    exact absurd (List.eq_nil_of_suffix_nil h) (List.cons_ne_nil _ _)
  | cons first others =>
    obtain ⟨spacing, c, behind, -, hc, rfl, rfl, rfl⟩ := exists_of_lexemes_cons hlexemes
    rw [hlexemes] at h
    rcases List.suffix_cons_iff.mp h with heq | hlater
    · obtain ⟨rfl, rfl⟩ := List.cons.inj heq
      exact ⟨spacing, c, behind, rfl, rfl, hc, lexemes_cons hc⟩
    · -- the lexeme is one of those behind the first token
      have hlength : (behind.drop (read c behind).2).length < (spacing ++ c :: behind).length := by
        simp
        omega
      obtain ⟨front, d, tail, hfront, htext, hd, hread⟩ := exists_of_lexeme_suffix hlater
      refine ⟨spacing ++ c :: behind.take (read c behind).2 ++ front, d, tail, ?_, htext, hd, hread⟩
      rw [List.append_assoc, ← hfront, List.append_assoc, List.cons_append,
        List.take_append_drop]
termination_by cs.length

/-! ## Reading one token -/

theorem read_name (h : isNameStart c = true) (cs : List Char) :
    read c cs = (name (String.ofList (c :: nameTail false cs)), (nameTail false cs).length) := by
  simp [read, h]

theorem read_string {tail : List Char} (hquote : c = '"' ∨ c = '\'')
    (h : stringTail c cs = some tail) :
    read c cs = (string (String.ofList (c :: tail)), tail.length) := by
  have hstart : isNameStart c = false := by rcases hquote with rfl | rfl <;> decide
  simp [read, hstart, hquote, h]

/-- A mark is read as its token. -/
theorem read_mark (h : mark? c cs = some token) : read c cs = (token, 0) := by
  have hne : isNameStart c = false ∧ c ≠ '"' ∧ c ≠ '\'' := by
    unfold mark? at h
    split at h <;> first | decide | simp at h
  simp [read, hne, h]

/-- A segment of a name begins with an ASCII character behind the digits, or with
a dollar sign. -/
theorem code_of_isNameStart (h : isNameStart c = true) :
    c.toNat = 0x24 ∨ (0x41 ≤ c.toNat ∧ c.toNat < 0x80) := by
  simp only [isNameStart, isAsciiLetter, Bool.or_eq_true, Bool.and_eq_true, decide_eq_true_eq,
    beq_iff_eq, Char.le_def, UInt32.le_iff_toNat_le] at h
  have hval : c.val.toNat = c.toNat := rfl
  rcases h with ((⟨h, h'⟩ | ⟨h, h'⟩) | rfl) | rfl
  · simp at h h'
    omega
  · simp at h h'
    omega
  · decide
  · decide

theorem isNamePart_of_isNameStart (h : isNameStart c = true) (later : Bool) :
    isNamePart later c = true := by
  have hcode := code_of_isNameStart h
  have hascii : c.toNat < 0x80 := by omega
  simp only [isNameStart, Bool.or_eq_true, beq_iff_eq] at h
  rcases h with (h | h) | h <;> simp [isNamePart, isWordChar, hascii, h]

/-- No segment of a name begins with a digit. -/
theorem not_isDecimalDigit_of_isNameStart (h : isNameStart c = true) :
    isDecimalDigit c = false := by
  have hcode := code_of_isNameStart h
  have hascii : c.toNat < 0x80 := by omega
  have hdigit : isAsciiDigit c = false := by
    have hval : c.val.toNat = c.toNat := rfl
    simp only [isAsciiDigit, Bool.and_eq_false_iff, decide_eq_false_iff_not, Char.le_def,
      UInt32.le_iff_toNat_le]
    simp
    omega
  simp [isDecimalDigit, hascii, hdigit]

/-- A number literal is read as its token. -/
theorem read_number {tail : List Char} (h : numeral (c :: cs) = c :: tail) :
    read c cs = (number (String.ofList (c :: tail)), tail.length) := by
  have hne : numeral (c :: cs) ≠ [] := by simp [h]
  have hmem := numeral_mem hne
  rw [h] at hmem
  -- no other token begins with a digit or a minus sign
  have hmark : mark? c cs = none := by
    unfold mark?
    split
    all_goals first | rfl | exact absurd (head_of_mem_number hmem) (by decide)
  have hquote : c ≠ '"' ∧ c ≠ '\'' := by
    constructor <;> rintro rfl <;> exact absurd (head_of_mem_number hmem) (by decide)
  have hstart : isNameStart c = false := by
    by_contra hstart
    rw [Bool.not_eq_false] at hstart
    rcases head_of_mem_number hmem with hdigit | rfl
    · simp [not_isDecimalDigit_of_isNameStart hstart] at hdigit
    · revert hstart
      decide
  simp [read, hstart, hquote, hmark, h]

/-- What can stand at a place: a name, a string literal, a mark, a number literal
or a character that begins no token. -/
theorem read_cases (c : Char) (cs : List Char) :
    (isNameStart c = true ∧ read c cs =
      (name (String.ofList (c :: nameTail false cs)), (nameTail false cs).length)) ∨
    (∃ tail, (c = '"' ∨ c = '\'') ∧ stringTail c cs = some tail ∧
      read c cs = (string (String.ofList (c :: tail)), tail.length)) ∨
    (∃ mark, mark? c cs = some mark ∧ read c cs = (mark, 0)) ∨
    (∃ tail, numeral (c :: cs) = c :: tail ∧
      read c cs = (number (String.ofList (c :: tail)), tail.length)) ∨
    read c cs = (stray, 0) := by
  -- the cases in the order in which the reader tries them
  by_cases hstart : isNameStart c = true
  · exact .inl ⟨hstart, read_name hstart cs⟩
  refine .inr ?_
  by_cases hquote : c = '"' ∨ c = '\''
  · cases htail : stringTail c cs with
    | some tail => exact .inl ⟨tail, hquote, rfl, read_string hquote htail⟩
    | none =>
      have hread : read c cs = (stray, 0) := by simp [read, hstart, hquote, htail]
      exact .inr (.inr (.inr hread))
  refine .inr ?_
  cases hmark : mark? c cs with
  | some mark => exact .inl ⟨mark, rfl, read_mark hmark⟩
  | none =>
    refine .inr ?_
    cases hnumeral : numeral (c :: cs) with
    | nil =>
      have hread : read c cs = (stray, 0) := by simp [read, hstart, hquote, hmark, hnumeral]
      exact .inr hread
    | cons d ds =>
      rcases numeral_starts (c :: cs) with ⟨rest, hrest⟩
      rw [hnumeral] at hrest
      rcases List.cons.inj hrest with ⟨rfl, -⟩
      exact .inl ⟨ds, rfl, read_number hnumeral⟩

/-- Only a name is read as a name. -/
theorem eq_of_read_name {text : String} (h : (read c cs).1 = name text) :
    isNameStart c = true ∧ text = String.ofList (c :: nameTail false cs) ∧
      (read c cs).2 = (nameTail false cs).length := by
  rcases read_cases c cs with ⟨hc, hread⟩ | ⟨_, -, -, hread⟩ | ⟨mark, hmark, hread⟩ |
    ⟨_, -, hread⟩ | hread
  · rw [hread] at h ⊢
    exact ⟨hc, (name.inj h).symm, rfl⟩
  · simp [hread] at h
  · rw [hread] at h
    subst h
    unfold mark? at hmark
    split at hmark <;> simp at hmark
  · simp [hread] at h
  · simp [hread] at h

/-- Only a string literal is read as a string literal. -/
theorem eq_of_read_string {text : String} (h : (read c cs).1 = string text) :
    ∃ tail, (c = '"' ∨ c = '\'') ∧ stringTail c cs = some tail ∧
      text = String.ofList (c :: tail) ∧ (read c cs).2 = tail.length := by
  rcases read_cases c cs with ⟨-, hread⟩ | ⟨tail, hc, htail, hread⟩ | ⟨mark, hmark, hread⟩ |
    ⟨_, -, hread⟩ | hread
  · simp [hread] at h
  · rw [hread] at h ⊢
    exact ⟨tail, hc, htail, (string.inj h).symm, rfl⟩
  · rw [hread] at h
    subst h
    unfold mark? at hmark
    split at hmark <;> simp at hmark
  · simp [hread] at h
  · simp [hread] at h

/-- Only a number literal is read as a number literal. -/
theorem eq_of_read_number {text : String} (h : (read c cs).1 = number text) :
    ∃ tail, numeral (c :: cs) = c :: tail ∧ text = String.ofList (c :: tail) ∧
      (read c cs).2 = tail.length := by
  rcases read_cases c cs with ⟨-, hread⟩ | ⟨_, -, -, hread⟩ | ⟨mark, hmark, hread⟩ |
    ⟨tail, htail, hread⟩ | hread
  · simp [hread] at h
  · simp [hread] at h
  · rw [hread] at h
    subst h
    unfold mark? at hmark
    split at hmark <;> simp at hmark
  · rw [hread] at h ⊢
    exact ⟨tail, htail, (number.inj h).symm, rfl⟩
  · simp [hread] at h

/-- Only a mark is read as a mark. -/
theorem mark?_of_read (h : (read c cs).1 = token) (hstray : token ≠ stray)
    (hword : ∀ text, token ≠ name text ∧ token ≠ string text ∧ token ≠ number text) :
    mark? c cs = some token ∧ (read c cs).2 = 0 := by
  rcases read_cases c cs with ⟨-, hread⟩ | ⟨_, -, -, hread⟩ | ⟨mark, hmark, hread⟩ |
    ⟨_, -, hread⟩ | hread <;> rw [hread] at h ⊢
  · exact absurd h.symm (hword _).1
  · exact absurd h.symm (hword _).2.1
  · obtain rfl : mark = token := h
    exact ⟨hmark, rfl⟩
  · exact absurd h.symm (hword _).2.2
  · exact absurd h.symm hstray

/-- What holds of a character and of no spacing tells the two apart. -/
theorem isSpacing_eq_false {holds : Char → Bool} (h : holds c = true)
    (hspacing : ([' ', '\t', '\n', '\r', '\x0c'].any holds) = false) : isSpacing c = false := by
  by_contra hc
  simp only [Bool.not_eq_false, isSpacing, Bool.or_eq_true, beq_iff_eq] at hc
  rcases hc with (((rfl | rfl) | rfl) | rfl) | rfl <;> simp [h] at hspacing

/-- A token and the text behind it. -/
theorem lexemes_of_read {n : Nat} (h : read c cs = (token, n)) (htoken : token ≠ stray) :
    lexemes (c :: cs) = ⟨token, c :: cs⟩ :: lexemes (cs.drop n) := by
  have hread : decide ((read c cs).1 ≠ stray) = true := by
    rw [h]
    exact decide_eq_true htoken
  have hspacing : isSpacing c = false :=
    @isSpacing_eq_false c (fun c => decide ((read c cs).1 ≠ stray)) hread rfl
  rw [lexemes_cons hspacing, h]

theorem tokensOf_of_read {n : Nat} (h : read c cs = (token, n)) (htoken : token ≠ stray) :
    tokensOf (c :: cs) = token :: tokensOf (cs.drop n) :=
  congrArg (List.map Lexeme.token) (lexemes_of_read h htoken)

end Token

/-! ## Terminals of one character -/

namespace Terminal

variable {t : Terminal} {c : Char} {cs p q r : List Char} {x y : String} {rest : List Token}

/-- The character of a terminal that is a single mark. -/
def sign? : Terminal → Option Char
  | bang => some '!'
  | colon => some ':'
  | comma => some ','
  | dot => some '.'
  | equals => some '='
  | leftBrace => some '{'
  | less => some '<'
  | leftParen => some '('
  | leftBracket => some '['
  | greater => some '>'
  | question => some '?'
  | rightBrace => some '}'
  | rightParen => some ')'
  | rightBracket => some ']'
  | star => some '*'
  | bar => some '|'
  | _ => none

theorem language_of_sign? (h : t.sign? = some c) : t.language = {[c]} := by
  cases t <;> simp only [sign?, reduceCtorEq, Option.some.injEq] at h <;> subst h <;> rfl

/-- A sign is one token, which is read as the sign. -/
theorem read?_of_sign? (h : t.sign? = some c) (cs : List Char) (rest : List Token) :
    ∃ mark, Token.mark? c cs = some mark ∧
      t.read? (mark :: rest) = some (String.ofList [c], rest) := by
  cases t <;> simp only [sign?, reduceCtorEq, Option.some.injEq] at h <;> subst h <;>
    exact ⟨_, rfl, rfl⟩

/-- Only the sign has a token that is read as the sign. -/
theorem eq_of_read?_sign {d : Char} {mark : Token} (h : t.sign? = some d)
    (hmark : Token.mark? c cs = some mark) (hread : t.read? (mark :: rest) ≠ none) : c = d := by
  unfold Token.mark? at hmark
  split at hmark <;> simp only [Option.some.injEq, reduceCtorEq] at hmark <;> subst hmark <;>
    cases t <;> simp only [sign?, reduceCtorEq, Option.some.injEq] at h <;>
    first | exact h | exact absurd rfl hread

/-- The mark of a terminal is neither stray nor a name nor a literal. -/
theorem not_word_of_sign? {token : Token} (h : t.sign? = some c)
    (hread : t.read? (token :: rest) ≠ none) :
    token ≠ .stray ∧ ∀ text, token ≠ .name text ∧ token ≠ .string text ∧ token ≠ .number text := by
  cases t <;> simp only [sign?, reduceCtorEq] at h <;>
    cases token <;> simp_all [read?]

/-! ## From the text to the tokens -/

/-- A longest name is the first lexeme. -/
theorem lexemes_name (h : Longest nameLanguage p (p ++ q)) :
    lexemes (p ++ q) = ⟨.name (String.ofList p), p ++ q⟩ :: lexemes q := by
  rcases mem_oneOf_mul.mp h.mem with ⟨c, tail, hc, -, rfl⟩
  have htail : c :: tail = c :: nameTail false (tail ++ q) := h.eq (longest_name hc _)
  have hread := lexemes_of_read (read_name hc (tail ++ q)) (by simp)
  rw [← (List.cons.inj htail).2, List.drop_left] at hread
  exact hread

theorem tokensOf_name (h : Longest nameLanguage p (p ++ q)) :
    tokensOf (p ++ q) = .name (String.ofList p) :: tokensOf q :=
  congrArg (List.map Lexeme.token) (lexemes_name h)

/-- A longest string literal is the first lexeme. -/
theorem lexemes_string (h : Longest stringLanguage p (p ++ q)) :
    lexemes (p ++ q) = ⟨.string (String.ofList p), p ++ q⟩ :: lexemes q := by
  rcases mem_stringLanguage.mp h.mem with ⟨c, tail, hquote, -, rfl⟩
  rcases exists_stringTail h.mem h.starts with ⟨tail', -, hscan, htail⟩
  obtain rfl : tail = tail' := (List.cons.inj htail).2
  have hread : lexemes (c :: (tail ++ q)) = _ :: lexemes ((tail ++ q).drop tail.length) :=
    lexemes_of_read (read_string hquote hscan) (by simp)
  rw [List.drop_left] at hread
  exact hread

theorem tokensOf_string (h : Longest stringLanguage p (p ++ q)) :
    tokensOf (p ++ q) = .string (String.ofList p) :: tokensOf q :=
  congrArg (List.map Lexeme.token) (lexemes_string h)

theorem lexemes_number (h : Longest numberLanguage p (p ++ q)) :
    lexemes (p ++ q) = ⟨.number (String.ofList p), p ++ q⟩ :: lexemes q := by
  have hle := length_le_numeral h.mem h.starts
  have hpos : 0 < p.length := by
    rcases p with _ | ⟨c, tail⟩
    · exact absurd h.mem nil_notMem_number
    · simp
  have hnumeral : p = numeral (p ++ q) :=
    h.eq (longest_number (List.ne_nil_of_length_pos (by omega)))
  rcases List.exists_cons_of_length_pos hpos with ⟨c, tail, rfl⟩
  have hread : lexemes (c :: (tail ++ q)) = _ :: lexemes ((tail ++ q).drop tail.length) :=
    lexemes_of_read (read_number hnumeral.symm) (by simp)
  rw [List.drop_left] at hread
  exact hread

theorem tokensOf_number (h : Longest numberLanguage p (p ++ q)) :
    tokensOf (p ++ q) = .number (String.ofList p) :: tokensOf q :=
  congrArg (List.map Lexeme.token) (lexemes_number h)

/-- Whether a terminal is a word, which other text can touch. -/
def isWord : Terminal → Bool
  | function | typeOf => true
  | _ => false

/-- Where a terminal can be read from a text, it can be read from the tokens of the text, unless
it is a word: another token may begin with the word. -/
theorem read?_tokensOf (hword : t.isWord = false) (h : t.ReadsText p x q) :
    t.read? (tokensOf p) = some (x, tokensOf q) := by
  rcases h with ⟨spacing, text, hspacing, rfl, rfl, hlongest⟩
  rw [tokensOf_spacing_append hspacing]
  -- marks of one character are all alike; the others are gone through one by one
  cases hsign : t.sign? with
  | some c =>
    have hmem := hlongest.mem
    rw [language_of_sign? hsign] at hmem
    obtain rfl : text = [c] := hmem
    rcases read?_of_sign? hsign q (tokensOf q) with ⟨mark, hmark, hread⟩
    have hne : t.read? (mark :: tokensOf q) ≠ none := by simp [hread]
    have hstray : mark ≠ .stray := (not_word_of_sign? hsign hne).1
    have htokens : tokensOf (c :: q) = mark :: tokensOf q :=
      tokensOf_of_read (read_mark hmark) hstray
    rw [List.singleton_append, htokens, hread]
  | none =>
    cases t with
    | name => rw [tokensOf_name hlongest]; rfl
    | string => rw [tokensOf_string hlongest]; rfl
    | number => rw [tokensOf_number hlongest]; rfl
    | ellipsis =>
      obtain rfl : text = ['.', '.', '.'] := hlongest.mem
      rfl
    | arrow =>
      obtain rfl : text = ['=', '>'] := hlongest.mem
      rfl
    | function | typeOf => simp [isWord] at hword
    | _ => simp [sign?] at hsign

/-- No name goes on over spacing. -/
theorem nameTail_spacing {spacing : List Char} (h : ∀ c ∈ spacing, isSpacing c = true)
    (hne : spacing ≠ []) (later : Bool) (rest : List Char) :
    nameTail later (spacing ++ rest) = [] := by
  rcases List.exists_cons_of_ne_nil hne with ⟨c, cs, rfl⟩
  have hc := h c (by simp)
  simp only [isSpacing, Bool.or_eq_true, beq_iff_eq] at hc
  refine nameTail_eq_nil ?_ ?_ _
  · rcases hc with (((rfl | rfl) | rfl) | rfl) | rfl <;> cases later <;> decide
  · rcases hc with (((rfl | rfl) | rfl) | rfl) | rfl <;> decide

/-- A word is read together with whatever goes on with it as a name. -/
theorem tokensOf_word {word : List Char} (hc : isNameStart c = true)
    (hword : ∀ d ∈ word, isNamePart false d = true) (rest : List Char) :
    tokensOf (c :: word ++ rest) =
      .name (String.ofList (c :: word ++ nameTail false rest)) ::
        tokensOf (rest.drop (nameTail false rest).length) := by
  have hread := tokensOf_of_read (read_name hc (word ++ rest)) (by simp)
  rw [nameTail_append hword, List.length_append, ← List.drop_drop, List.drop_left] at hread
  exact hread

/-- In front of a parenthesis the word `function` is a token of its own. -/
theorem read?_tokensOf_function (h : function.ReadsText p x q)
    (hopening : leftParen.ReadsText q y r) :
    function.read? (tokensOf p) = some (x, tokensOf q) := by
  rcases h with ⟨spacing, text, hspacing, rfl, rfl, hlongest⟩
  obtain rfl : text = ['f', 'u', 'n', 'c', 't', 'i', 'o', 'n'] := hlongest.mem
  rcases hopening with ⟨gap, paren, hgap, rfl, -, hparen⟩
  obtain rfl : paren = ['('] := hparen.mem
  rw [tokensOf_spacing_append hspacing]
  -- neither spacing nor the parenthesis goes on with the word
  have hstop : nameTail false (gap ++ (['('] ++ r)) = [] := by
    by_cases hempty : gap = []
    · subst hempty
      exact nameTail_eq_nil rfl rfl r
    · exact nameTail_spacing hgap hempty false _
  have hletters : ['u', 'n', 'c', 't', 'i', 'o', 'n'].all (isNamePart false) = true := rfl
  have hword := tokensOf_word (show isNameStart 'f' = true from rfl)
    (List.all_eq_true.mp hletters) (gap ++ (['('] ++ r))
  rw [hstop, List.append_nil] at hword
  rw [hword]
  rfl

/-- The word `typeof` is a token of its own, or it is one token with the name
behind it. -/
theorem read?_tokensOf_typeOf (h : typeOf.ReadsText p x q) (hvalue : name.ReadsText q y r) :
    typeOf.read? (tokensOf p) = some (x, tokensOf q) ∨
      ∃ text, name.read? (tokensOf p) = some (text, tokensOf r) := by
  rcases h with ⟨spacing, text, hspacing, rfl, rfl, hlongest⟩
  obtain rfl : text = ['t', 'y', 'p', 'e', 'o', 'f'] := hlongest.mem
  rcases hvalue with ⟨gap, value, hgap, rfl, rfl, hvalue⟩
  rw [tokensOf_spacing_append hspacing]
  have hletters : ['y', 'p', 'e', 'o', 'f'].all (isNamePart false) = true := rfl
  have hword := tokensOf_word (show isNameStart 't' = true from rfl)
    (List.all_eq_true.mp hletters) (gap ++ (value ++ r))
  by_cases hempty : gap = []
  · -- the name goes on with the word
    subst hempty
    rcases mem_oneOf_mul.mp hvalue.mem with ⟨c, tail, hc, -, rfl⟩
    have htail : c :: tail = c :: nameTail false (tail ++ r) := hvalue.eq (longest_name hc _)
    have hstop : nameTail false (c :: tail ++ r) = c :: tail := by
      rw [List.cons_append, nameTail_cons (isNamePart_of_isNameStart hc false), htail]
    rw [List.nil_append, hstop, List.drop_left] at hword
    exact .inr ⟨_, by rw [List.nil_append, hword]; rfl⟩
  · rw [nameTail_spacing hgap hempty, List.append_nil] at hword
    refine .inl ?_
    rw [hword]
    rfl

/-! ## From the tokens to the text -/

/-- A terminal whose longest text begins a lexeme is read from the text as from the tokens. -/
theorem exists_readsText_of_longest {spacing tail : List Char} {rest : List Token}
    (hspacing : ∀ c ∈ spacing, isSpacing c = true) (h : Longest t.language (c :: tail) (c :: cs))
    (hword : t.isWord = false)
    (hread : t.read? (tokensOf (spacing ++ c :: cs)) = some (x, rest)) :
    ∃ q, t.ReadsText (spacing ++ c :: cs) x q ∧ tokensOf q = rest := by
  rcases (List.cons_prefix_cons.mp h.starts).2 with ⟨q, rfl⟩
  have htext : t.ReadsText (spacing ++ c :: (tail ++ q)) (String.ofList (c :: tail)) q :=
    ⟨spacing, c :: tail, hspacing, rfl, rfl, h⟩
  have htokens := read?_tokensOf hword htext
  obtain ⟨rfl, rfl⟩ : String.ofList (c :: tail) = x ∧ tokensOf q = rest := by
    simpa using htokens.symm.trans hread
  exact ⟨q, htext, rfl⟩

/-- A word that is a whole name stands in the text. -/
theorem exists_readsText_word {spacing : List Char} {text : String} {rest : List Token}
    (hspacing : ∀ c ∈ spacing, isSpacing c = true) (ht : t.language = {text.toList})
    (htoken : (Token.read c cs).1 = .name text)
    (hbehind : tokensOf (cs.drop (Token.read c cs).2) = rest) :
    ∃ q, t.ReadsText (spacing ++ c :: cs) text q ∧ tokensOf q = rest := by
  rcases eq_of_read_name htoken with ⟨-, rfl, hlength⟩
  rcases nameTail_starts false cs with ⟨q, hq⟩
  have hcs : c :: cs = c :: nameTail false cs ++ q := by rw [List.cons_append, hq]
  refine ⟨q, ⟨spacing, c :: nameTail false cs, hspacing, by rw [hcs], rfl, ?_⟩, ?_⟩
  · rw [ht, String.toList_ofList]
    exact longest_singleton _ q
  · rw [← hbehind, hlength]
    nth_rewrite 2 [← hq]
    rw [List.drop_left]

/-- A token that is read as a sign is the sign. -/
theorem mark?_of_read_sign {d : Char} {token : Token} {rest : List Token}
    (hsign : t.sign? = some d) (htoken : (Token.read c cs).1 = token)
    (hread : t.read? (token :: rest) ≠ none) :
    c = d ∧ Token.mark? c cs = some token := by
  rcases not_word_of_sign? hsign hread with ⟨hstray, hword⟩
  have hmark := (mark?_of_read htoken hstray hword).1
  exact ⟨eq_of_read?_sign hsign hmark hread, hmark⟩

/-- Where a terminal can be read from the tokens of a text, it can be read from the text. -/
theorem exists_readsText {rest : List Token} (h : t.read? (tokensOf p) = some (x, rest)) :
    ∃ q, t.ReadsText p x q ∧ tokensOf q = rest := by
  have hne : tokensOf p ≠ [] := by
    intro hnil
    rw [hnil] at h
    cases t <;> simp [read?] at h
  -- the terminal is read from the first token, which stands behind some spacing
  rcases List.exists_cons_of_ne_nil hne with ⟨token, behind, htokens⟩
  rcases exists_of_tokensOf_cons htokens with ⟨spacing, c, cs, hspacing, rfl, htoken, hbehind⟩
  have hread := h
  rw [htokens] at hread
  cases hsign : t.sign? with
  | some d =>
    have hsome : t.read? (token :: behind) ≠ none := by simp [hread]
    rcases mark?_of_read_sign hsign htoken hsome with ⟨rfl, -⟩
    have hlongest : Longest t.language [c] (c :: cs) := by
      rw [language_of_sign? hsign]
      exact longest_singleton [c] cs
    have hword : t.isWord = false := by cases t <;> simp_all [sign?, isWord]
    exact exists_readsText_of_longest hspacing hlongest hword h
  | none =>
  cases t with
  | name =>
    rcases List.cons.inj (eq_of_read?_name hread) with ⟨rfl, -⟩
    have hlongest := longest_name (eq_of_read_name htoken).1 cs
    exact exists_readsText_of_longest (t := name) hspacing hlongest rfl h
  | string =>
    rcases List.cons.inj (eq_of_read?_string hread) with ⟨rfl, -⟩
    rcases eq_of_read_string htoken with ⟨tail, hc, htail, -, -⟩
    have hlongest := longest_string hc htail
    exact exists_readsText_of_longest (t := string) hspacing hlongest rfl h
  | number =>
    rcases List.cons.inj (eq_of_read?_number hread) with ⟨rfl, -⟩
    rcases eq_of_read_number htoken with ⟨tail, htail, -, -⟩
    have hne : numeral (c :: cs) ≠ [] := by simp [htail]
    have hlongest := longest_number hne
    rw [htail] at hlongest
    exact exists_readsText_of_longest (t := number) hspacing hlongest rfl h
  | function =>
    rcases List.cons.inj (eq_of_read?_function hread) with ⟨rfl, rfl⟩
    obtain rfl : "function" = x := by simpa [read?] using hread
    exact exists_readsText_word hspacing rfl htoken hbehind
  | typeOf =>
    rcases List.cons.inj (eq_of_read?_typeOf hread) with ⟨rfl, rfl⟩
    obtain rfl : "typeof" = x := by simpa [read?] using hread
    exact exists_readsText_word hspacing rfl htoken hbehind
  | ellipsis =>
    rcases eq_of_read?_ellipsis hread with ⟨_, _, heq⟩
    rcases List.cons.inj heq with ⟨rfl, -⟩
    have hdot : dot.read? [.dot true] ≠ none := by simp [read?]
    rcases mark?_of_read_sign rfl htoken hdot with ⟨rfl, hmark⟩
    -- the first dot knows that two more stand behind it
    have hdots : ['.', '.'].isPrefixOf cs = true := by simpa [Token.mark?] using hmark
    rcases List.isPrefixOf_iff_prefix.mp hdots with ⟨q, rfl⟩
    have hlongest : Longest ellipsis.language ['.', '.', '.'] ('.' :: (['.', '.'] ++ q)) :=
      longest_singleton ['.', '.', '.'] q
    exact exists_readsText_of_longest hspacing hlongest rfl h
  | arrow =>
    rcases List.cons.inj (eq_of_read?_arrow hread) with ⟨rfl, -⟩
    have hequals : equals.read? [.equals true] ≠ none := by simp [read?]
    rcases mark?_of_read_sign rfl htoken hequals with ⟨rfl, hmark⟩
    -- the equals sign knows that `>` stands right behind it
    have hgreater : ['>'].isPrefixOf cs = true := by simpa [Token.mark?] using hmark
    rcases List.isPrefixOf_iff_prefix.mp hgreater with ⟨q, rfl⟩
    have hlongest : Longest arrow.language ['=', '>'] ('=' :: (['>'] ++ q)) :=
      longest_singleton ['=', '>'] q
    exact exists_readsText_of_longest hspacing hlongest rfl h
  | _ => simp [sign?] at hsign

/-- Behind a mark the next lexeme begins. -/
theorem lexemes_suffix_of_mark? {mark : Token} (h : Token.mark? c cs = some mark) :
    lexemes cs <:+ lexemes (c :: cs) := by
  have hstray : mark ≠ .stray := by
    rintro rfl
    unfold Token.mark? at h
    split at h <;> cases h
  have hlexemes : lexemes (c :: cs) = ⟨mark, c :: cs⟩ :: lexemes cs :=
    lexemes_of_read (read_mark h) hstray
  rw [hlexemes]
  exact List.suffix_cons _ _

/-- Behind a word that is a token of its own the next lexeme begins. -/
theorem lexemes_suffix_of_word {word : List Char} (hc : isNameStart c = true)
    (hword : ∀ d ∈ word, isNamePart false d = true)
    (h : tokensOf (c :: word ++ q) = .name (String.ofList (c :: word)) :: rest) :
    lexemes q <:+ lexemes (c :: word ++ q) := by
  have hread : read c (word ++ q) = _ := read_name hc (word ++ q)
  have hlexemes := lexemes_of_read hread (by simp)
  rw [tokensOf_word hc hword] at h
  obtain ⟨htoken, -⟩ := List.cons.inj h
  have hstop : nameTail false q = [] := by simpa using Token.name.inj htoken
  rw [nameTail_append hword, hstop, List.append_nil, List.drop_left] at hlexemes
  rw [List.cons_append, hlexemes]
  exact List.suffix_cons _ _

/-- What is read from the tokens as from the text ends where a lexeme begins. -/
theorem lexemes_suffix_of_read? (h : t.ReadsText p x q)
    (hread : t.read? (tokensOf p) = some (x, tokensOf q)) : lexemes q <:+ lexemes p := by
  obtain ⟨spacing, text, hspacing, rfl, rfl, hlongest⟩ := h
  rw [tokensOf_spacing_append hspacing] at hread
  rw [lexemes_spacing_append hspacing]
  cases hsign : t.sign? with
  | some c =>
    have hmem := hlongest.mem
    rw [language_of_sign? hsign] at hmem
    obtain rfl : text = [c] := hmem
    obtain ⟨mark, hmark, -⟩ := read?_of_sign? hsign q (tokensOf q)
    exact lexemes_suffix_of_mark? hmark
  | none =>
    cases t with
    | name =>
      rw [lexemes_name hlongest]
      exact List.suffix_cons _ _
    | string =>
      rw [lexemes_string hlongest]
      exact List.suffix_cons _ _
    | number =>
      rw [lexemes_number hlongest]
      exact List.suffix_cons _ _
    -- a dot may be read where three stand, and an equals sign where an arrow stands: each of these
    -- characters is a lexeme of its own
    | ellipsis =>
      obtain rfl : text = ['.', '.', '.'] := hlongest.mem
      have hdot (behind : List Char) : lexemes behind <:+ lexemes ('.' :: behind) :=
        lexemes_suffix_of_mark? rfl
      exact (hdot q).trans ((hdot ('.' :: q)).trans (hdot ('.' :: '.' :: q)))
    | arrow =>
      obtain rfl : text = ['=', '>'] := hlongest.mem
      have hgreater : lexemes q <:+ lexemes ('>' :: q) := lexemes_suffix_of_mark? rfl
      exact hgreater.trans (lexemes_suffix_of_mark? rfl)
    | function =>
      obtain rfl : text = ['f', 'u', 'n', 'c', 't', 'i', 'o', 'n'] := hlongest.mem
      have hletters : ['u', 'n', 'c', 't', 'i', 'o', 'n'].all (isNamePart false) = true := rfl
      exact lexemes_suffix_of_word rfl (List.all_eq_true.mp hletters) (eq_of_read?_function hread)
    | typeOf =>
      obtain rfl : text = ['t', 'y', 'p', 'e', 'o', 'f'] := hlongest.mem
      have hletters : ['y', 'p', 'e', 'o', 'f'].all (isNamePart false) = true := rfl
      exact lexemes_suffix_of_word rfl (List.all_eq_true.mp hletters) (eq_of_read?_typeOf hread)
    | _ => simp [sign?] at hsign

end Terminal

end DocComment
