import DocComment.TypeExpr.Terminal
import Mathlib.Computability.Language

/-!
# The languages of the terminals

Which texts a terminal stands for, as a regular language over characters. At a
place of a text a terminal covers the longest of its texts that begins there
(`Longest`); spacing in front of it is skipped (`Terminal.ReadsText`).

A word of an iterated language begins with a word of that language or is empty.
The lemmas `mem_segments` and `mem_quotation` say so for the rest of a name and
the rest of a string literal, and the scanners are compared with the languages
along them.
-/

namespace DocComment

open Text Token Computability

/-! ## Characters -/

/-- The texts of one character that has a property. -/
def oneOf (holds : Char → Bool) : Language Char :=
  fun text => ∃ c, holds c = true ∧ text = [c]

/-- The texts of one or more texts of a language. -/
def oneOrMore (texts : Language Char) : Language Char :=
  texts * texts∗

/-- The texts of a language and the empty text. -/
def orEmpty (texts : Language Char) : Language Char :=
  1 + texts

/-! ## Names and literals -/

/-- The rest of a name, from inside a segment on. -/
def segments (later : Bool) : Language Char :=
  (oneOf (isNamePart later))∗ *
    (oneOf isNameJoint * oneOf isNameStart * (oneOf (isNamePart true))∗)∗

def nameLanguage : Language Char :=
  oneOf isNameStart * segments false

/-- One character of a string literal, or a backslash and the character that it
takes along. -/
def quotable (quote : Char) : Language Char :=
  oneOf (fun c => c != quote && c != '\\') + oneOf (· == '\\') * oneOf (· != '\n')

/-- The rest of a string literal, from behind the opening quote on. -/
def quotation (quote : Char) : Language Char :=
  (quotable quote)∗ * oneOf (· == quote)

def stringLanguage : Language Char :=
  oneOf (· == '"') * quotation '"' + oneOf (· == '\'') * quotation '\''

def digitsLanguage : Language Char :=
  oneOrMore (oneOf isDecimalDigit)

def fractionLanguage : Language Char :=
  oneOf (· == '.') * digitsLanguage

/-- The letter of an exponent, perhaps a sign, and digits. -/
def exponentLanguage : Language Char :=
  oneOf (fun c => c == 'e' || c == 'E') * (orEmpty (oneOf fun c => c == '+' || c == '-')) *
    digitsLanguage

def magnitudeLanguage : Language Char :=
  digitsLanguage * orEmpty fractionLanguage * orEmpty exponentLanguage

def numberLanguage : Language Char :=
  orEmpty (oneOf (· == '-')) * magnitudeLanguage

/-- The texts that a terminal stands for. -/
def Terminal.language : Terminal → Language Char
  | bang => {['!']}
  | colon => {[':']}
  | comma => {[',']}
  | dot => {['.']}
  | equals => {['=']}
  | function => {['f', 'u', 'n', 'c', 't', 'i', 'o', 'n']}
  | leftBrace => {['{']}
  | less => {['<']}
  | leftParen => {['(']}
  | leftBracket => {['[']}
  | greater => {['>']}
  | name => nameLanguage
  | number => numberLanguage
  | question => {['?']}
  | rightBrace => {['}']}
  | rightParen => {[')']}
  | rightBracket => {[']']}
  | star => {['*']}
  | string => stringLanguage
  | typeOf => {['t', 'y', 'p', 'e', 'o', 'f']}
  | bar => {['|']}
  | ellipsis => {['.', '.', '.']}
  | arrow => {['=', '>']}

/-! ## Longest texts -/

/-- A text of the language stands at the start of another text, and no longer
one does. -/
structure Longest (texts : Language Char) (front text : List Char) : Prop where
  starts : front <+: text
  mem : front ∈ texts
  longest : ∀ other, other <+: text → other ∈ texts → other.length ≤ front.length

/-- A terminal covers a longest text behind spacing. -/
def Terminal.ReadsText (t : Terminal) (p : List Char) (x : String) (q : List Char) : Prop :=
  ∃ spacing text, (∀ c ∈ spacing, isSpacing c = true) ∧ p = spacing ++ (text ++ q) ∧
    x = String.ofList text ∧ Longest t.language text (text ++ q)

variable {texts : Language Char} {front other text : List Char}

/-- A longest text at a place is the only one. -/
theorem Longest.eq (h : Longest texts front text) (h' : Longest texts other text) :
    front = other := by
  have hle := h.longest other h'.starts h'.mem
  have hge := h'.longest front h.starts h.mem
  rcases List.prefix_or_prefix_of_prefix h.starts h'.starts with hp | hp
  · exact hp.eq_of_length (by omega)
  · exact (hp.eq_of_length (by omega)).symm

/-- A language of one text has a longest text wherever that text stands. -/
theorem longest_singleton (word rest : List Char) : Longest {word} word (word ++ rest) where
  starts := List.prefix_append word rest
  mem := rfl
  longest := by
    intro other _ heq
    subst heq
    exact Nat.le_refl _

/-! ## First words -/

theorem mem_oneOf {holds : Char → Bool} : text ∈ oneOf holds ↔ ∃ c, holds c = true ∧ text = [c] :=
  Iff.rfl

/-- A text of one character and a text of a language. -/
theorem mem_oneOf_mul {holds : Char → Bool} :
    text ∈ oneOf holds * texts ↔ ∃ c rest, holds c = true ∧ rest ∈ texts ∧ text = c :: rest := by
  rw [Language.mem_mul]
  constructor
  · intro hread
    rcases hread with ⟨_, ⟨c, hc, rfl⟩, rest, hrest, rfl⟩
    exact ⟨c, rest, hc, hrest, rfl⟩
  · intro hread
    rcases hread with ⟨c, rest, hc, hrest, rfl⟩
    exact ⟨[c], ⟨c, hc, rfl⟩, rest, hrest, rfl⟩

theorem mem_orEmpty : text ∈ orEmpty texts ↔ text = [] ∨ text ∈ texts :=
  Language.mem_add 1 texts text

/-- An iterated language and what may follow it: either a word of it comes first
or what follows does. -/
theorem kstar_mul_eq (texts others : Language Char) :
    texts∗ * others = others + texts * (texts∗ * others) := by
  rw [← mul_assoc]
  nth_rewrite 1 [← Language.one_add_self_mul_kstar_eq_kstar texts]
  rw [add_mul, one_mul]

/-- The rest of a name is empty, goes on the segment, or begins with a joint and
another segment. -/
theorem mem_segments {later : Bool} :
    text ∈ segments later ↔ text = [] ∨
      (∃ c rest, isNamePart later c = true ∧ rest ∈ segments later ∧ text = c :: rest) ∨
      ∃ c d rest, isNameJoint c = true ∧ isNameStart d = true ∧ rest ∈ segments true ∧
        text = c :: d :: rest := by
  -- one step of both iterations: of the segment, and of the segments joined to it
  let joined := oneOf isNameJoint * oneOf isNameStart * (oneOf (isNamePart true))∗
  have hparts : segments later = joined∗ + oneOf (isNamePart later) * segments later :=
    kstar_mul_eq _ _
  have hjoined : joined∗ = 1 + oneOf isNameJoint * (oneOf isNameStart * segments true) := by
    rw [← Language.one_add_self_mul_kstar_eq_kstar joined]
    simp only [joined, segments, mul_assoc]
  have hsegments : segments later = 1 + (oneOf (isNamePart later) * segments later +
      oneOf isNameJoint * (oneOf isNameStart * segments true)) := by
    nth_rewrite 1 [hparts, hjoined]
    rw [add_assoc, add_comm (oneOf isNameJoint * _)]
  nth_rewrite 1 [hsegments]
  rw [Language.mem_add, Language.mem_add, Language.mem_one, mem_oneOf_mul, mem_oneOf_mul]
  refine or_congr_right (or_congr_right ?_)
  constructor
  · intro hread
    rcases hread with ⟨c, _, hc, htail, rfl⟩
    rcases mem_oneOf_mul.mp htail with ⟨d, rest, hd, hrest, rfl⟩
    exact ⟨c, d, rest, hc, hd, hrest, rfl⟩
  · intro hread
    rcases hread with ⟨c, d, rest, hc, hd, hrest, rfl⟩
    exact ⟨c, d :: rest, hc, mem_oneOf_mul.mpr ⟨d, rest, hd, hrest, rfl⟩, rfl⟩

/-- The rest of a string literal is the closing quote, or begins with a
character or a backslash and a character. -/
theorem mem_quotation {quote : Char} :
    text ∈ quotation quote ↔ text = [quote] ∨
      (∃ c rest, c ≠ quote ∧ c ≠ '\\' ∧ rest ∈ quotation quote ∧ text = c :: rest) ∨
      ∃ c rest, c ≠ '\n' ∧ rest ∈ quotation quote ∧ text = '\\' :: c :: rest := by
  have hquotation : quotation quote =
      oneOf (· == quote) + (oneOf (fun c => c != quote && c != '\\') * quotation quote +
        oneOf (· == '\\') * (oneOf (· != '\n') * quotation quote)) := by
    -- one step of the star, and the escaped character apart
    have hstar : quotation quote = oneOf (· == quote) + quotable quote * quotation quote :=
      kstar_mul_eq _ _
    nth_rewrite 1 [hstar]
    rw [quotable, add_mul, mul_assoc (oneOf (· == '\\'))]
  nth_rewrite 1 [hquotation]
  rw [Language.mem_add, Language.mem_add, mem_oneOf, mem_oneOf_mul, mem_oneOf_mul]
  refine or_congr (by simp) (or_congr (by simp [and_assoc]) ?_)
  constructor
  · intro hread
    rcases hread with ⟨c, _, hc, htail, rfl⟩
    rcases mem_oneOf_mul.mp htail with ⟨d, rest, hd, hrest, rfl⟩
    exact ⟨d, rest, by simpa using hd, hrest, by simpa using hc⟩
  · intro hread
    rcases hread with ⟨d, rest, hd, hrest, rfl⟩
    exact ⟨'\\', d :: rest, rfl, mem_oneOf_mul.mpr ⟨d, rest, by simpa using hd, hrest, rfl⟩, rfl⟩

/-- Repeating single characters gives the texts of such characters that are not empty. -/
theorem mem_oneOrMore_iff {holds : Char → Bool} :
    text ∈ oneOrMore (oneOf holds) ↔ text ≠ [] ∧ ∀ c ∈ text, holds c = true := by
  have hstar : ∀ word : List Char, word ∈ (oneOf holds)∗ ↔ ∀ c ∈ word, holds c = true := by
    intro word
    induction word with
    | nil => simp [Language.nil_mem_kstar]
    | cons c word ih =>
      rw [← Language.one_add_self_mul_kstar_eq_kstar, Language.mem_add, Language.mem_one,
        mem_oneOf_mul]
      simp [ih]
  rw [oneOrMore, mem_oneOf_mul]
  cases text <;> simp [hstar]

end DocComment
