import DocComment.TypeExpr.Render
import DocComment.Proofs.Grammar.Levels
import DocComment.Proofs.Writing.Layers

/-!
# The tokens of a written tree

A tree is written as a fixed sequence of tokens in front of whatever follows it.
What follows must not run into its last token: it ends the text or begins with a
comma, a bar, a closing sign or an equals sign (`delimits`).
-/

namespace DocComment

open Text Token

/-! ## What can follow a tree -/

/-- Whether a text can follow a tree. -/
def Text.delimits : List Char → Bool
  | [] => true
  | ',' :: _ | '|' :: _ | ')' :: _ | ']' :: _ | '}' :: _ => true
  | '=' :: cs | '>' :: cs => delimits cs
  | _ => false

/-- Whether tokens can follow a tree. -/
def Token.delimit : List Token → Bool
  | [] => true
  | .comma :: _ | .bar :: _ | .rightParen :: _ | .rightBracket :: _ | .rightBrace :: _ => true
  | .equals _ :: rest | .greater :: rest => delimit rest
  | _ => false

/-- An equals sign in front of tokens. -/
def Token.equalsBefore (rest : List Token) : List Token :=
  .equals (rest.head? == some .greater) :: rest

/-- An ellipsis in front of tokens; it looks different in front of another one. -/
def Token.ellipsisBefore (rest : List Token) : List Token :=
  let dots := rest.head? == some (.dot true)
  .dot true :: .dot dots :: .dot dots :: rest

/-! ## Tokens of trees -/

namespace TypeExpr

mutual

/-- The tokens of a tree, in front of other tokens. -/
def tokens : TypeExpr → List Token → List Token
  | name text, rest => .name text :: rest
  | string text, rest => .string text :: rest
  | number text, rest => .number text :: rest
  | any, rest => .star :: rest
  | unknown, rest => .question :: rest
  | typeOf value, rest => .name "typeof" :: .name value :: rest
  | union left right, rest => tokens left (.bar :: tokens right rest)
  | optional inner, rest => tokens inner (equalsBefore rest)
  | nullable inner, rest => .question :: tokens inner rest
  | notNullable inner, rest => .bang :: tokens inner rest
  | variadic inner, rest => ellipsisBefore (tokens inner rest)
  | parens inner, rest => .leftParen :: tokens inner (.rightParen :: rest)
  | generic subject arguments, rest =>
    .name subject :: .less :: tokensOfAll arguments (.greater :: rest)
  | tuple entries, rest => .leftBracket :: tokensOfAll entries (.rightBracket :: rest)
  | record fields, rest => .leftBrace :: tokensOfFields fields (.rightBrace :: rest)
  | function params, rest =>
    .name "function" :: .leftParen :: tokensOfAll params (.rightParen :: rest)
  | functionReturning params returns, rest =>
    .name "function" :: .leftParen ::
      tokensOfAll params (.rightParen :: .colon :: tokens returns rest)
  | arrow params returns, rest =>
    .leftParen :: tokensOfFields params
      (.rightParen :: .equals true :: .greater :: tokens returns rest)

def tokensOfAll : List TypeExpr → List Token → List Token
  | [], rest => rest
  | [t], rest => tokens t rest
  | t :: u :: ts, rest => tokens t (.comma :: tokensOfAll (u :: ts) rest)

def tokensOfField : Field → List Token → List Token
  | .bare label, rest => .name label :: rest
  | .typed label type, rest => .name label :: .colon :: tokens type rest

def tokensOfFields : List Field → List Token → List Token
  | [], rest => rest
  | [f], rest => tokensOfField f rest
  | f :: g :: fs, rest => tokensOfField f (.comma :: tokensOfFields (g :: fs) rest)

end

end TypeExpr

/-! ## Reading what was written -/

namespace Token

variable {c : Char} {cs rest : List Char} {mark : Token} {text : String}

/-- A mark is the first token. -/
theorem tokensOf_mark (h : mark? c cs = some mark) : tokensOf (c :: cs) = mark :: tokensOf cs := by
  have hstray : mark ≠ stray := by
    intro heq
    subst heq
    unfold mark? at h
    split at h <;> simp at h
  exact tokensOf_of_read (read_mark h) hstray

/-- A name is the first token if no name goes on behind it. -/
theorem tokensOf_append_name (hmem : text.toList ∈ nameLanguage)
    (hrest : ∀ later, nameTail later rest = []) :
    tokensOf (text.toList ++ rest) = .name text :: tokensOf rest := by
  have hlongest : Longest nameLanguage text.toList (text.toList ++ rest) := by
    rcases mem_oneOf_mul.mp hmem with ⟨c, tail, hc, htail, h⟩
    have hscan := longest_name hc (tail ++ rest)
    rw [nameTail_of_mem hrest false tail htail] at hscan
    rw [h]
    exact hscan
  rw [Terminal.tokensOf_name hlongest, String.ofList_toList]

/-- A string literal is the first token whatever is behind it. -/
theorem tokensOf_append_string (hmem : text.toList ∈ stringLanguage) (rest : List Char) :
    tokensOf (text.toList ++ rest) = .string text :: tokensOf rest := by
  have hlongest : Longest stringLanguage text.toList (text.toList ++ rest) := by
    rcases mem_stringLanguage.mp hmem with ⟨c, tail, -, -, h⟩
    rw [h] at hmem ⊢
    rcases exists_stringTail hmem (List.prefix_append _ rest) with ⟨_, hc, hscan, heq⟩
    obtain rfl := (List.cons.inj heq).2
    exact longest_string hc hscan
  rw [Terminal.tokensOf_string hlongest, String.ofList_toList]

/-- A number literal is the first token if no number goes on behind it. -/
theorem tokensOf_append_number (hmem : text.toList ∈ numberLanguage)
    (hrest : ∀ c behind, rest = c :: behind → isNumberChar c = false) :
    tokensOf (text.toList ++ rest) = .number text :: tokensOf rest := by
  have hscan := numeral_of_mem hmem hrest
  have hne : text.toList ≠ [] := by
    intro hnil
    rw [hnil] at hmem
    exact nil_notMem_number hmem
  have hlongest : Longest numberLanguage text.toList (text.toList ++ rest) := by
    have hlongest := longest_number (show numeral (text.toList ++ rest) ≠ [] by rwa [hscan])
    rwa [hscan] at hlongest
  rw [Terminal.tokensOf_number hlongest, String.ofList_toList]

/-- No name goes on over what can follow a tree. -/
theorem nameTail_of_delimits (h : delimits cs = true) (later : Bool) : nameTail later cs = [] := by
  unfold delimits at h
  split at h
  all_goals
    first
    | rfl
    | exact nameTail_eq_nil (by cases later <;> rfl) rfl _
    | exact absurd h Bool.false_ne_true

/-- What can follow a tree does not go on a number. -/
theorem isNumberChar_of_delimits (h : delimits cs = true) :
    ∀ c behind, cs = c :: behind → isNumberChar c = false := by
  intro c behind heq'
  subst heq'
  unfold delimits at h
  split at h
  all_goals
    first
    | (rename_i heq; obtain ⟨rfl, -⟩ := List.cons.inj heq; decide)
    | simp_all

/-- Where a tree has been written, a `>` is the token of one. -/
theorem isPrefixOf_greater (h : delimits cs = true) :
    ['>'].isPrefixOf cs = ((tokensOf cs).head? == some .greater) := by
  unfold delimits at h
  split at h
  all_goals
    first
    | rfl
    | exact absurd h Bool.false_ne_true

/-- An equals sign in front of what can follow a tree. -/
theorem tokensOf_equals (h : delimits cs = true) :
    tokensOf ('=' :: cs) = equalsBefore (tokensOf cs) := by
  rw [tokensOf_mark rfl, isPrefixOf_greater h]
  rfl

theorem eq_dot_of_read {b : Bool} (h : (read c cs).1 = .dot b) : c = '.' := by
  have hmark := mark?_of_read h (by simp)
  unfold mark? at hmark
  split at hmark <;> simp_all

end Token

/-! ## The tokens of what was written -/

namespace TypeExpr

variable {n : Nonterminal} {t : TypeExpr}

/-- A tree begins with a token that can begin a type. -/
theorem typeAhead_tokens : (t : TypeExpr) → (rest : List Token) → typeAhead (t.tokens rest) = true
  | name _, _ | string _, _ | number _, _ | any, _ | unknown, _ | typeOf _, _ | nullable _, _
  | notNullable _, _ | variadic _, _ | parens _, _ | generic _ _, _ | tuple _, _ | record _, _
  | function _, _ | functionReturning _ _, _ | arrow _ _, _ => rfl
  | union left _, _ => typeAhead_tokens left _
  | optional inner, _ => typeAhead_tokens inner _

/-- A tree begins with a character of a token. -/
theorem Formed.exists_chars (h : Formed True n t) :
    ∃ c cs, t.chars = c :: cs ∧ isSpacing c = false := by
  have hname {text : String} (htext : text.toList ∈ nameLanguage) :
      ∃ c cs, text.toList = c :: cs ∧ isSpacing c = false := by
    rcases mem_oneOf_mul.mp htext with ⟨c, tail, hc, -, heq⟩
    exact ⟨c, tail, heq, isSpacing_eq_false hc rfl⟩
  -- names, literals and signs begin a tree; an operand that stands first begins with what it begins
  -- with
  induction h with
  | name htext => exact hname htext
  | string htext =>
    rcases mem_stringLanguage.mp htext with ⟨c, tail, hc, -, heq⟩
    refine ⟨c, tail, heq, ?_⟩
    rcases hc with rfl | rfl <;> rfl
  | @number text htext =>
    rcases hchars : text.toList with _ | ⟨c, cs⟩
    · rw [hchars] at htext
      exact absurd htext nil_notMem_number
    · have hc := isNumberChar_of_mem htext c (by rw [hchars]; exact List.mem_cons_self)
      exact ⟨c, cs, hchars, isSpacing_eq_false hc rfl⟩
  | any | unknown | typeOf | parens | tuple | record | function | functionReturning | nullable
  | notNullable | variadic | nullableBehind | notNullableBehind | arrow => exact ⟨_, _, rfl, rfl⟩
  | @generic _ arguments hsubject =>
    rcases hname hsubject with ⟨c, cs, heq, hc⟩
    exact ⟨c, _, congrArg (· ++ Notation.bracketed '<' '>' (charsOfAll arguments)) heq, hc⟩
  | plain _ ih | unmarked _ ih | operand _ ih => exact ih
  | optional _ ih =>
    rcases ih with ⟨c, cs, heq, hc⟩
    exact ⟨c, cs ++ ['='], congrArg (· ++ ['=']) heq, hc⟩
  | @union left right _ _ _ ih _ =>
    rcases ih with ⟨c, cs, heq, hc⟩
    exact ⟨c, cs ++ '|' :: right.chars, congrArg (· ++ '|' :: right.chars) heq, hc⟩

/-! ### Lists -/

theorem chars_bracketed (opening closing : Char) (items : List (List Char)) (rest : List Char) :
    Notation.bracketed opening closing items ++ rest =
      opening :: (joinWith [',', ' '] items ++ closing :: rest) := by
  simp [Notation.bracketed]

/-- Types with commas and spaces between them. -/
theorem tokensOf_types {ts : List TypeExpr} {rest : List Char}
    (h : ∀ t ∈ ts, ∀ rest, delimits rest = true →
      tokensOf (t.chars ++ rest) = t.tokens (tokensOf rest)) (hrest : delimits rest = true) :
    tokensOf (joinWith [',', ' '] (charsOfAll ts) ++ rest) = tokensOfAll ts (tokensOf rest) := by
  induction ts with
  | nil => rfl
  | cons t ts ih =>
    have hothers := ih fun u hu => h u (List.mem_cons_of_mem t hu)
    rcases ts with _ | ⟨u, us⟩
    · exact h t List.mem_cons_self rest hrest
    · have hsplit : joinWith [',', ' '] (charsOfAll (t :: u :: us)) ++ rest =
          t.chars ++ ',' :: ' ' :: (joinWith [',', ' '] (charsOfAll (u :: us)) ++ rest) := by
        simp [charsOfAll, joinWith]
      rw [hsplit, h t List.mem_cons_self _ rfl, tokensOf_mark rfl, tokensOf_cons_spacing rfl,
        hothers]
      rfl

/-- A field and what follows it. -/
theorem tokensOf_field {f : Field} {rest : List Char} (hlabel : f.label.toList ∈ nameLanguage)
    (h : ∀ t, f.type? = some t → ∀ rest, delimits rest = true →
      tokensOf (t.chars ++ rest) = t.tokens (tokensOf rest)) (hrest : delimits rest = true) :
    tokensOf (charsOfField f ++ rest) = tokensOfField f (tokensOf rest) := by
  cases f with
  | bare label => exact tokensOf_append_name hlabel (nameTail_of_delimits hrest)
  | typed label type =>
    have hsplit : charsOfField (.typed label type) ++ rest =
        label.toList ++ ':' :: ' ' :: (type.chars ++ rest) := by
      simp [charsOfField, Notation.typed]
    have hcolon (later : Bool) : nameTail later (':' :: ' ' :: (type.chars ++ rest)) = [] := by
      cases later <;> rfl
    have hname : label.toList ∈ nameLanguage := hlabel
    rw [hsplit, tokensOf_append_name hname hcolon, tokensOf_mark rfl, tokensOf_cons_spacing rfl,
      h type rfl rest hrest]
    rfl

/-- Fields with commas and spaces between them. -/
theorem tokensOf_fields {fs : List Field} {rest : List Char}
    (hlabels : ∀ f ∈ fs, f.label.toList ∈ nameLanguage)
    (h : ∀ f ∈ fs, ∀ t, f.type? = some t → ∀ rest, delimits rest = true →
      tokensOf (t.chars ++ rest) = t.tokens (tokensOf rest)) (hrest : delimits rest = true) :
    tokensOf (joinWith [',', ' '] (charsOfFields fs) ++ rest) =
      tokensOfFields fs (tokensOf rest) := by
  induction fs with
  | nil => rfl
  | cons f fs ih =>
    have hothers := ih (fun g hg => hlabels g (List.mem_cons_of_mem f hg))
      fun g hg => h g (List.mem_cons_of_mem f hg)
    rcases fs with _ | ⟨g, gs⟩
    · exact tokensOf_field (hlabels f List.mem_cons_self) (h f List.mem_cons_self) hrest
    · -- the first field, the comma with its space, and the later fields
      have hsplit : joinWith [',', ' '] (charsOfFields (f :: g :: gs)) ++ rest =
          charsOfField f ++
            ',' :: ' ' :: (joinWith [',', ' '] (charsOfFields (g :: gs)) ++ rest) := by
        simp [charsOfFields, joinWith]
      rw [hsplit, tokensOf_field (hlabels f List.mem_cons_self) (h f List.mem_cons_self) rfl,
        tokensOf_mark rfl, tokensOf_cons_spacing rfl, hothers]
      rfl

/-! ### Trees -/

/-- Three dots in front of a tree are an ellipsis. -/
theorem tokensOf_ellipsis {cs : List Char}
    (hchars : ∃ c behind, cs = c :: behind ∧ isSpacing c = false)
    (hahead : typeAhead (tokensOf cs) = true) :
    tokensOf ('.' :: '.' :: '.' :: cs) = ellipsisBefore (tokensOf cs) := by
  rcases hchars with ⟨c, behind, rfl, hc⟩
  have hdots : ((tokensOf (c :: behind)).head? == some (.dot true)) =
      ['.', '.'].isPrefixOf ('.' :: c :: behind) ∧
      ((tokensOf (c :: behind)).head? == some (.dot true)) =
        ['.', '.'].isPrefixOf (c :: behind) := by
    rw [tokensOf_cons hc] at hahead ⊢
    by_cases hdot : c = '.'
    · subst hdot
      have hread : (read '.' behind).1 = .dot (['.', '.'].isPrefixOf behind) := rfl
      rw [hread] at hahead ⊢
      -- a single dot begins no type
      have hahead' : ['.', '.'].isPrefixOf behind = true := hahead
      rw [hahead']
      rcases List.isPrefixOf_iff_prefix.mp hahead' with ⟨rest, rfl⟩
      exact ⟨rfl, rfl⟩
    · have hread : (read c behind).1 ≠ .dot true := fun h => hdot (eq_dot_of_read h)
      have hne : ('.' == c) = false := beq_eq_false_iff_ne.mpr fun h => hdot h.symm
      constructor <;> simp [hread, List.isPrefixOf, hne]
  rw [tokensOf_mark rfl, tokensOf_mark rfl, tokensOf_mark rfl, ellipsisBefore, hdots.1]
  rw [← hdots.2, hdots.1]
  rfl

/-- A word of the grammar is a name. -/
theorem typeof_mem : ("typeof" : String).toList ∈ nameLanguage :=
  (longest_name (show isNameStart 't' = true from rfl) ['y', 'p', 'e', 'o', 'f']).mem

theorem function_mem : ("function" : String).toList ∈ nameLanguage :=
  (longest_name (show isNameStart 'f' = true from rfl)
    ['u', 'n', 'c', 't', 'i', 'o', 'n']).mem

/-- The head of a function type. -/
theorem tokensOf_function {params : List TypeExpr}
    (h : ∀ t ∈ params, ∀ rest, delimits rest = true →
      tokensOf (t.chars ++ rest) = t.tokens (tokensOf rest)) (rest : List Char) :
    tokensOf (Notation.function (charsOfAll params) ++ rest) =
      .name "function" :: .leftParen :: tokensOfAll params (.rightParen :: tokensOf rest) := by
  have hparen (later : Bool) : nameTail later
      ('(' :: (joinWith [',', ' '] (charsOfAll params) ++ ')' :: rest)) = [] :=
    nameTail_eq_nil (by cases later <;> rfl) rfl _
  have hword := tokensOf_append_name function_mem hparen
  rw [tokensOf_mark rfl, tokensOf_types h rfl, tokensOf_mark rfl] at hword
  rw [Notation.function, List.append_assoc, chars_bracketed]
  exact hword

/-- The tokens of a written tree and of what follows it. -/
theorem Formed.tokensOf_chars (h : Formed True n t) :
    ∀ rest, delimits rest = true → tokensOf (t.chars ++ rest) = t.tokens (tokensOf rest) := by
  induction h with
  | name htext =>
    intro rest hrest
    exact tokensOf_append_name htext (nameTail_of_delimits hrest)
  | string htext =>
    intro rest _
    exact tokensOf_append_string htext rest
  | number htext =>
    intro rest hrest
    exact tokensOf_append_number htext (isNumberChar_of_delimits hrest)
  | any | unknown =>
    intro rest _
    exact tokensOf_mark rfl
  | @typeOf value hvalue =>
    intro rest hrest
    have hspace (later : Bool) : nameTail later (' ' :: (value.toList ++ rest)) = [] :=
      nameTail_eq_nil (by cases later <;> rfl) rfl _
    have hword := tokensOf_append_name typeof_mem hspace
    rw [tokensOf_cons_spacing rfl,
      tokensOf_append_name hvalue (nameTail_of_delimits hrest)] at hword
    exact hword
  | @parens inner _ ih =>
    intro rest hrest
    rw [chars, chars_bracketed, tokensOf_mark rfl, joinWith, ih _ rfl, tokensOf_mark rfl]
    rfl
  | tuple _ ih =>
    intro rest hrest
    rw [chars, chars_bracketed, tokensOf_mark rfl, tokensOf_types ih rfl, tokensOf_mark rfl]
    rfl
  | record hlabels _ ih =>
    intro rest hrest
    rw [chars, chars_bracketed, tokensOf_mark rfl, tokensOf_fields hlabels ih rfl,
      tokensOf_mark rfl]
    rfl
  | @generic subject arguments hsubject _ _ ih =>
    intro rest hrest
    have hless (later : Bool) : nameTail later
        ('<' :: (joinWith [',', ' '] (charsOfAll arguments) ++ '>' :: rest)) = [] :=
      nameTail_eq_nil (by cases later <;> rfl) rfl _
    have hbehind : delimits ('>' :: rest) = true := hrest
    rw [chars, Notation.generic, List.append_assoc, chars_bracketed,
      tokensOf_append_name hsubject hless, tokensOf_mark rfl, tokensOf_types ih hbehind,
      tokensOf_mark rfl]
    rfl
  | function _ ih =>
    intro rest hrest
    exact tokensOf_function ih rest
  | plain _ ih | unmarked _ ih | operand _ ih => exact ih
  | optional _ ih =>
    intro rest hrest
    -- the sign may touch a `>` behind it, so it has to be a delimiter itself
    have hbehind : delimits ('=' :: rest) = true := hrest
    rw [chars, Notation.optional, List.append_assoc, List.singleton_append, ih _ hbehind,
      tokensOf_equals hrest]
    rfl
  | nullableBehind _ _ ih | notNullableBehind _ _ ih | nullable _ _ ih | notNullable _ ih =>
    intro rest hrest
    rw [chars, Notation.marked, List.append_assoc, List.singleton_append, tokensOf_mark rfl,
      ih rest hrest]
    rfl
  | functionReturning _ _ ih ih' =>
    intro rest hrest
    rw [chars, Notation.typed, List.append_assoc, List.cons_append, List.cons_append,
      tokensOf_function ih, tokensOf_mark rfl, tokensOf_cons_spacing rfl, ih' rest hrest]
    rfl
  | @variadic inner hinner ih =>
    intro rest hrest
    have hahead : typeAhead (tokensOf (inner.chars ++ rest)) = true := by
      rw [ih rest hrest]
      exact typeAhead_tokens inner _
    rcases hinner.exists_chars with ⟨c, cs, heq, hc⟩
    have hellipsis := tokensOf_ellipsis ⟨c, cs ++ rest, congrArg (· ++ rest) heq, hc⟩ hahead
    rw [ih rest hrest] at hellipsis
    exact hellipsis
  | @union left right _ _ _ ihl ihr =>
    intro rest hrest
    rw [chars, Notation.union, List.append_assoc, List.cons_append, ihl _ rfl, tokensOf_mark rfl,
      ihr rest hrest]
    rfl
  | @arrow params returns hlabels _ _ ih ih' =>
    intro rest hrest
    have hsplit : (TypeExpr.arrow params returns).chars ++ rest =
        '(' :: (joinWith [',', ' '] (charsOfFields params) ++
          ')' :: ' ' :: '=' :: '>' :: ' ' :: (returns.chars ++ rest)) := by
      simp [chars, Notation.arrow, Notation.bracketed]
    rw [hsplit, tokensOf_mark rfl, tokensOf_fields hlabels ih rfl, tokensOf_mark rfl,
      tokensOf_cons_spacing rfl, tokensOf_mark rfl, tokensOf_mark rfl, tokensOf_cons_spacing rfl,
      ih' rest hrest]
    rfl

end TypeExpr

end DocComment
