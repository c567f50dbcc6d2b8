import DocComment.Proofs.Grammar.Reach
import DocComment.Proofs.Parsing
import DocComment.Proofs.Text.Lines

/-!
# Completing a rejected text

A text that is rejected is blamed at a place up to which it could have been completed
(`parse_error_completable`). The place that the readings reached expects a terminal, so the
nonterminals around it are begun there. The text in front of the place is read in the same way
whatever stands behind it, as long as nothing touches it (`mirrors_cut`). Each symbol that is
still to come has a sample, and the samples complete the text.
-/

namespace DocComment

open Text Token

/-! ## Cutting a text -/

variable {front back more rest spacing cs : List Char} {t : Terminal} {n : Nonterminal} {x : String}

/-- A text is cut in front of one of its tokens, or at its end. -/
structure CutsAt (front back : List Char) : Prop where
  suffix : lexemes back <:+ lexemes (front ++ back)
  head : ∀ c ∈ back.head?, isSpacing c = false

theorem cutsAt_end (cs : List Char) : CutsAt cs [] where
  suffix := List.nil_suffix
  head := by
    intro c hc
    cases hc

/-- Where the lexemes of a text end in those of another one, the text itself does. -/
theorem CutsAt.exists_of_suffix (hhead : ∀ c ∈ back.head?, isSpacing c = false)
    (h : lexemes back <:+ lexemes cs) : ∃ front, cs = front ++ back ∧ CutsAt front back := by
  cases back with
  | nil => exact ⟨cs, (List.append_nil cs).symm, cutsAt_end cs⟩
  | cons c back =>
    have hc : isSpacing c = false := hhead c rfl
    have hsuffix := h
    rw [lexemes_cons hc] at hsuffix
    obtain ⟨front, _, _, rfl, -⟩ := exists_of_lexeme_suffix hsuffix
    exact ⟨front, rfl, ⟨h, hhead⟩⟩

/-- A text is cut in front of each of its lexemes. -/
theorem exists_cutsAt_lexeme {lexeme : Lexeme} {later : List Lexeme}
    (h : lexeme :: later <:+ lexemes cs) :
    ∃ front, cs = front ++ lexeme.text ∧ CutsAt front lexeme.text ∧ lexeme.text ≠ [] ∧
      lexemes lexeme.text = lexeme :: later := by
  obtain ⟨front, c, behind, hcs, htext, hc, hlexemes⟩ := exists_of_lexeme_suffix h
  refine ⟨front, hcs, ⟨?_, ?_⟩, ?_, hlexemes⟩
  · rwa [hlexemes, ← hcs]
  · intro d hd
    rw [htext, List.head?_cons] at hd
    rwa [← Option.some.inj hd]
  · rw [htext]
    exact List.cons_ne_nil c behind

/-- Nothing but spacing stands in front of the first token. -/
theorem CutsAt.spacing_of_tokensOf_eq (h : CutsAt front back)
    (heq : tokensOf (front ++ back) = tokensOf back) : ∀ c ∈ front, isSpacing c = true := by
  cases back with
  | nil =>
    rw [List.append_nil, tokensOf_nil] at heq
    exact tokensOf_eq_nil_iff.mp heq
  | cons c back =>
    have hlength : (lexemes (c :: back)).length = (lexemes (front ++ c :: back)).length := by
      simpa [tokensOf] using congrArg List.length heq.symm
    have hlexemes := (h.suffix.eq_of_length hlength).symm
    rw [lexemes_cons (h.head c rfl)] at hlexemes
    obtain ⟨spacing, _, _, hspacing, -, htext, hlexeme, -⟩ := exists_of_lexemes_cons hlexemes
    rw [← (Lexeme.mk.inj hlexeme).2] at htext
    rw [List.append_cancel_right htext]
    exact hspacing

/-- What a terminal covers in front of a cut, it covers there whatever stands behind it. -/
theorem Terminal.ReadsText.of_cut {front' : List Char}
    (h : t.ReadsText (front ++ back) x (front' ++ back))
    (hmore : ∀ c ∈ more.head?, isWordlike c = false) :
    t.ReadsText (front ++ more) x (front' ++ more) := by
  obtain ⟨spacing, text, hspacing, heq, rfl, hlongest⟩ := h
  rw [← List.append_assoc, ← List.append_assoc] at heq
  obtain rfl := List.append_cancel_right heq
  refine ⟨spacing, text, hspacing, by simp, rfl, ?_⟩
  rw [← List.append_assoc] at hlongest ⊢
  exact Terminal.longest_append (hlongest.of_append (List.prefix_append text front')) hmore

/-- What is read up to a cut is read in front of other text, too. -/
theorem mirrors_cut (hmore : ∀ c ∈ more.head?, isWordlike c = false) :
    Mirrors Terminal.ReadsTokens Terminal.ReadsText (fun p => tokensOf back <:+ p)
      fun p q => ∃ front, CutsAt front back ∧ p = tokensOf (front ++ back) ∧ q = front ++ more where
  inside_of_reads hread hq := hq.trans (Terminal.suffix_of_read? hread)
  step := by
    rintro t p x q _ hread hq ⟨front, hcut, rfl, rfl⟩
    obtain ⟨r, htext, rfl⟩ := Terminal.exists_readsText hread
    have hr : lexemes r <:+ lexemes (front ++ back) :=
      Terminal.lexemes_suffix_of_read? htext hread
    have hlength : (lexemes back).length ≤ (lexemes r).length := by
      simpa [tokensOf] using hq.length_le
    have hback : lexemes back <:+ lexemes r :=
      List.suffix_of_suffix_length_le hcut.suffix hr hlength
    obtain ⟨front', rfl, hcut'⟩ := CutsAt.exists_of_suffix hcut.head hback
    exact ⟨front' ++ more, htext.of_cut hmore, front', hcut', rfl, rfl⟩

/-! ## Samples -/

/-- A text of a terminal. -/
def Terminal.sample : Terminal → List Char
  | bang => ['!']
  | colon => [':']
  | comma => [',']
  | dot => ['.']
  | equals => ['=']
  | function => ['f', 'u', 'n', 'c', 't', 'i', 'o', 'n']
  | leftBrace => ['{']
  | less => ['<']
  | leftParen => ['(']
  | leftBracket => ['[']
  | greater => ['>']
  | name => ['a']
  | number => ['0']
  | question => ['?']
  | rightBrace => ['}']
  | rightParen => [')']
  | rightBracket => [']']
  | star => ['*']
  | string => ['"', '"']
  | typeOf => ['t', 'y', 'p', 'e', 'o', 'f']
  | bar => ['|']
  | ellipsis => ['.', '.', '.']
  | arrow => ['=', '>']

/-- A text of a nonterminal; lists that may be left out are left out. -/
def Nonterminal.sample : Nonterminal → List Char
  | maybeTypes | maybeFields => []
  | _ => ' ' :: Terminal.name.sample

/-- A text of a symbol. Spacing keeps a terminal from what stands in front of it. -/
def Symbol.sample : Symbol → List Char
  | terminal t => ' ' :: t.sample
  | nonterminal n => n.sample

theorem Terminal.sample_mem (t : Terminal) : t.sample ∈ t.language := by
  cases t with
  | name => exact (longest_name rfl []).mem
  | number =>
    have hnumeral : numeral ['0'] ≠ [] := by decide
    exact numeral_mem hnumeral
  | string =>
    have hquote : stringTail '"' ['"'] = some ['"'] := rfl
    exact (longest_string (.inl rfl) hquote).mem
  | _ => rfl

/-- A text that touches nothing in front of it: it is empty or begins with spacing. -/
def Detached (cs : List Char) : Prop :=
  ∀ c ∈ cs.head?, isSpacing c = true

theorem Detached.not_isWordlike (h : Detached cs) : ∀ c ∈ cs.head?, isWordlike c = false := by
  intro c hc
  exact isWordlike_of_isBlank (isBlank_of_isSpacing (h c hc))

theorem detached_nil : Detached [] := by
  intro c hc
  cases hc

theorem detached_space (cs : List Char) : Detached (' ' :: cs) := by
  intro c hc
  cases hc
  rfl

/-- The samples of symbols are detached too, since each begins with a space. -/
theorem Detached.samples (h : Detached rest) (symbols : List Symbol) :
    Detached (symbols.flatMap Symbol.sample ++ rest) := by
  induction symbols with
  | nil => exact h
  | cons symbol symbols ih =>
    rw [List.flatMap_cons, List.append_assoc]
    cases symbol with
    | terminal t => exact detached_space _
    | nonterminal n =>
      cases n with
      | maybeTypes | maybeFields => exact ih
      | _ => exact detached_space _

/-- A terminal is read from its sample, behind spacing. -/
theorem Terminal.readsText_sample (hspacing : ∀ c ∈ spacing, isSpacing c = true)
    (hrest : Detached rest) (t : Terminal) :
    t.ReadsText (spacing ++ (' ' :: t.sample ++ rest)) (String.ofList t.sample) rest := by
  refine ⟨spacing ++ [' '], t.sample, ?_, by simp, rfl, ?_⟩
  · rw [List.forall_mem_append, List.forall_mem_singleton]
    exact ⟨hspacing, rfl⟩
  · exact longest_append (.refl t.sample_mem) hrest.not_isWordlike

/-- A nonterminal is read from its sample. -/
theorem Nonterminal.derives_sample (hrest : Detached rest) (n : Nonterminal) :
    Derives Terminal.ReadsText n (n.sample ++ rest) rest := by
  have hname : Terminal.name.ReadsText (' ' :: Terminal.name.sample ++ rest)
      (String.ofList Terminal.name.sample) rest :=
    Terminal.readsText_sample (List.forall_mem_nil _) hrest .name
  have hsuffixed := Derivation.plain (.name hname)
  have htype := Derivation.operand (.unmarked hsuffixed)
  have hfield := Derivation.bareField hname
  -- each sample is a single name, or nothing at all
  cases n with
  | type => exact htype.derives
  | prefixed => exact (Derivation.unmarked hsuffixed).derives
  | suffixed => exact hsuffixed.derives
  | primary => exact (Derivation.name hname).derives
  | types => exact (Derivation.oneType htype).derives
  | maybeTypes => exact Derivation.noTypes.derives
  | field => exact hfield.derives
  | fields => exact (Derivation.oneField hfield).derives
  | maybeFields => exact Derivation.noFields.derives

/-- Symbols are read from their samples, one behind the other. -/
theorem readsAll_samples (hrest : Detached rest) (symbols : List Symbol) :
    ReadsAll Terminal.ReadsText symbols (symbols.flatMap Symbol.sample ++ rest) rest := by
  induction symbols with
  | nil => exact .nil
  | cons symbol symbols ih =>
    have hlater := hrest.samples symbols
    rw [List.flatMap_cons, List.append_assoc]
    refine .cons ?_ ih
    cases symbol with
    | terminal t => exact ⟨_, t.readsText_sample (List.forall_mem_nil _) hlater⟩
    | nonterminal n => exact n.derives_sample hlater

/-! ## Completing a text -/

/-- A nonterminal that expects a terminal at a cut can be read from the text in front of the
cut and some text that completes it. -/
theorem exists_completion {p q : List Token} (h : ExpectsToken n p q) (hq : q = tokensOf back) :
    ∃ more, ∀ rest, Detached rest → ∀ front, CutsAt front back → p = tokensOf (front ++ back) →
      Derives Terminal.ReadsText n (front ++ (' ' :: more ++ rest)) rest := by
  induction h with
  | @here n p _ t symbols begun =>
    subst hq
    refine ⟨t.sample ++ symbols.flatMap Symbol.sample, ?_⟩
    intro rest hrest front hcut hp
    have hmore := detached_space (t.sample ++ symbols.flatMap Symbol.sample ++ rest)
    obtain ⟨_, ⟨gap, hgap, heq, rfl⟩, begun⟩ := (mirrors_cut hmore.not_isWordlike).exists_begun
      begun (List.suffix_refl _) ⟨front, hcut, hp, rfl⟩
    -- only spacing is left in front of the cut, and the sample is read behind it
    have hterminal := t.readsText_sample (hgap.spacing_of_tokensOf_eq heq.symm)
      (hrest.samples symbols)
    rw [List.cons_append, ← List.append_assoc] at hterminal
    exact begun.derives (.cons ⟨_, hterminal⟩ (readsAll_samples hrest symbols))
  | @within n m p r _ symbols begun inner ih =>
    obtain ⟨more, hinner⟩ := ih hq
    subst hq
    refine ⟨more ++ symbols.flatMap Symbol.sample, ?_⟩
    intro rest hrest front hcut hp
    have hmore := detached_space (more ++ symbols.flatMap Symbol.sample ++ rest)
    have hmirrors := @mirrors_cut back _ hmore.not_isWordlike
    obtain ⟨_, ⟨front', hcut', heq, rfl⟩, begun⟩ := hmirrors.exists_begun begun
      (hmirrors.inside_of_expects inner (List.suffix_refl _)) ⟨front, hcut, hp, rfl⟩
    -- the inner nonterminal is completed first, and the samples of the rest stand behind it
    have hread := hinner _ (hrest.samples symbols) front' hcut' heq
    rw [List.cons_append, ← List.append_assoc] at hread
    exact begun.derives (.cons hread (readsAll_samples hrest symbols))

/-- A text that expects a terminal at a cut is accepted with some other text behind the cut. -/
theorem exists_parseChars_of_cut (hcut : CutsAt front back)
    (h : ExpectsToken .type (tokensOf (front ++ back)) (tokensOf back)) :
    ∃ more t, TypeExpr.parseChars (front ++ more) = .ok t := by
  obtain ⟨more, hmore⟩ := exists_completion h rfl
  refine ⟨' ' :: more ++ [], ?_⟩
  obtain ⟨k, ⟨d⟩⟩ := hmore [] detached_nil front hcut rfl
  obtain ⟨j, -, hderivation⟩ := exists_tokenDerivation d
  rcases parseChars_cases (front ++ (' ' :: more ++ [])) with ⟨_, e, -, hok⟩ | ⟨hnone, -⟩
  · exact ⟨e.tree, hok⟩
  · exact absurd hderivation (hnone j)

/-! ## The blamed place -/

/-- Before anything was read, a type expects a terminal. -/
theorem expects_start (tokens : List Token) : ExpectsToken .type tokens tokens := by
  have name : BegunTokens .primary tokens [.terminal .name] tokens :=
    .start (by simp [Nonterminal.bodies]) tokens
  have primary : BegunTokens .suffixed tokens [.nonterminal .primary] tokens :=
    .start (by simp [Nonterminal.bodies]) tokens
  have suffixed : BegunTokens .prefixed tokens [.nonterminal .suffixed] tokens :=
    .start (by simp [Nonterminal.bodies]) tokens
  have prefixed : BegunTokens .type tokens [.nonterminal .prefixed] tokens :=
    .start (by simp [Nonterminal.bodies]) tokens
  exact .within prefixed (.within suffixed (.within primary (.here name)))

/-- The lexemes that are left where the readings of a text reached. -/
def lexemesAtReach (cs : List Char) : List Lexeme :=
  let reach := (Grammar.readType (tokensOf cs)).reach.getD ⟨(tokensOf cs).length, []⟩
  (lexemes cs).drop ((lexemes cs).length - reach.left)

/-- The place in the fault is where the lexemes at the reach begin. -/
theorem offset_of_parseChars {fault : SyntaxFault} (h : TypeExpr.parseChars cs = .error fault) :
    fault.offset =
      (lexemesAtReach cs).head?.map fun lexeme => cs.length - lexeme.text.length := by
  simp only [TypeExpr.parseChars] at h
  split at h
  · cases h
  · rw [← Except.error.inj h, lexemesAtReach, tokensOf, List.length_map]
    rfl

/-- Where the readings of a text reached, a type expects a terminal. -/
theorem expects_lexemesAtReach (cs : List Char) :
    ExpectsToken .type (tokensOf cs) ((lexemesAtReach cs).map (·.token)) := by
  -- if nothing was tried, that is the first place
  obtain ⟨place, hlength, hplace⟩ : ∃ place,
      place.length =
        ((Grammar.readType (tokensOf cs)).reach.getD ⟨(tokensOf cs).length, []⟩).left ∧
      ExpectsToken .type (tokensOf cs) place := by
    cases hreach : (Grammar.readType (tokensOf cs)).reach with
    | none => exact ⟨tokensOf cs, rfl, expects_start _⟩
    | some reach => exact Grammar.reachesOnly_readType _ reach hreach
  have hsuffix : place <:+ tokensOf cs :=
    hplace.rel_of_reads (fun p q => q <:+ p) List.suffix_refl (fun hq hr => hr.trans hq)
      Terminal.suffix_of_read?
  have hfound : (lexemesAtReach cs).map (·.token) <:+ tokensOf cs :=
    (List.drop_suffix _ _).map _
  have hle : place.length ≤ (lexemes cs).length := by simpa [tokensOf] using hsuffix.length_le
  have heq : (lexemesAtReach cs).map (·.token) = place := by
    refine Reading.eq_of_suffix_of_length hfound hsuffix ?_
    rw [List.length_map, lexemesAtReach, List.length_drop, ← hlength]
    omega
  rwa [heq]

/-- A text that is rejected is cut at the place that it is blamed at: in front of a token, or
at its end. A type expects a terminal there. -/
theorem exists_cut_of_parseChars {fault : SyntaxFault} (h : TypeExpr.parseChars cs = .error fault) :
    ∃ front back, cs = front ++ back ∧ CutsAt front back ∧
      ExpectsToken .type (tokensOf cs) (tokensOf back) ∧
      (back = [] ∧ fault.offset = none ∨ back ≠ [] ∧ fault.offset = some front.length) := by
  have hoffset := offset_of_parseChars h
  have hexpects := expects_lexemesAtReach cs
  have hsuffix : lexemesAtReach cs <:+ lexemes cs := List.drop_suffix _ _
  cases hlexemes : lexemesAtReach cs with
  | nil =>
    rw [hlexemes] at hoffset hexpects
    exact ⟨cs, [], (List.append_nil cs).symm, cutsAt_end cs, hexpects, .inl ⟨rfl, hoffset⟩⟩
  | cons lexeme later =>
    rw [hlexemes] at hoffset hexpects hsuffix
    obtain ⟨front, hcs, hcut, hne, htext⟩ := exists_cutsAt_lexeme hsuffix
    rw [← htext] at hexpects
    refine ⟨front, lexeme.text, hcs, hcut, hexpects, .inr ⟨hne, ?_⟩⟩
    rw [hoffset, hcs]
    simp

namespace SyntaxFault

variable {line column place other : Nat}

/-! ## Lines and columns -/

/-- A line and a column name a place of a text. -/
structure IsPlace (cs : List Char) (line column place : Nat) : Prop where
  le : place ≤ cs.length
  line : lineOf (cs.take place) = line
  column : columnOf (cs.take place) = column

theorem lastLine_append (h : '\n' ∉ more) (cs : List Char) :
    lastLine (cs ++ more) = lastLine cs ++ more := by
  obtain ⟨pieces, last, hcs, happend⟩ := exists_splitAt_append h cs
  rw [lastLine, lastLine, hcs, happend]
  simp

/-- Text behind a place moves its line or its column. -/
theorem eq_nil_of_place (hline : lineOf (cs ++ more) = lineOf cs)
    (hcolumn : columnOf (cs ++ more) = columnOf cs) : more = [] := by
  have hcount : more.count '\n' = 0 := by
    simp only [lineOf, List.count_append] at hline
    omega
  have hlength : more.length = 0 := by
    simp only [columnOf, lastLine_append (List.count_eq_zero.mp hcount), List.length_append]
      at hcolumn
    omega
  exact List.eq_nil_of_length_eq_zero hlength

theorem IsPlace.le_of_isPlace (h : IsPlace cs line column place)
    (hother : IsPlace cs line column other) (hle : place ≤ other) : other ≤ place := by
  have htake : cs.take other = cs.take place ++ (cs.drop place).take (other - place) := by
    rw [← List.take_add, Nat.add_sub_cancel' hle]
  have hline := hother.line.trans h.line.symm
  have hcolumn := hother.column.trans h.column.symm
  rw [htake] at hline hcolumn
  have hlength := congrArg List.length (eq_nil_of_place hline hcolumn)
  have hbound := hother.le
  simp only [List.length_take, List.length_drop, List.length_nil] at hlength
  omega

/-- A line and a column name one place. -/
theorem IsPlace.eq (h : IsPlace cs line column place) (hother : IsPlace cs line column other) :
    other = place := by
  rcases Nat.le_total place other with hle | hle
  · exact Nat.le_antisymm (h.le_of_isPlace hother hle) hle
  · exact Nat.le_antisymm hle (hother.le_of_isPlace h hle)

/-- The end of the text is reported where no place is. -/
theorem reason_eq_iff (fault : SyntaxFault) :
    fault.reason = "Unexpected end-of-input." ↔ fault.offset = none := by
  cases hoffset : fault.offset with
  | none => simp [reason, hoffset]
  | some offset =>
    refine iff_of_false ?_ (Option.some_ne_none offset)
    intro hreason
    have hhead := congrArg (·.toList.head?) hreason
    simp only [reason, hoffset, String.toList_append, List.append_assoc] at hhead
    cases hhead

end SyntaxFault

/-- A text that is rejected could have been completed up to the place that it is blamed at. If
the fault is the end of the text, some continuation of the text is accepted. Otherwise the line
and the column of the fault name one place of the text, where a character stands, and some
continuation of what is in front of it is accepted. -/
theorem parse_error_completable (text : String) (fault : SyntaxFault)
    (h : TypeExpr.parse text = .error fault) :
    (fault.reason = "Unexpected end-of-input." → ∃ more t, TypeExpr.parse (text ++ more) = .ok t) ∧
      ∀ line column, fault.line? = some line → fault.column? = some column →
        ∃ place < text.toList.length,
          (∀ other, SyntaxFault.IsPlace text.toList line column other ↔ other = place) ∧
            ∃ more t, TypeExpr.parse (String.ofList (text.toList.take place) ++ more) = .ok t := by
  obtain ⟨front, back, htext, hcut, hexpects, hoffset⟩ := exists_cut_of_parseChars h
  rw [htext] at hexpects
  obtain ⟨more, t, hok⟩ := exists_parseChars_of_cut hcut hexpects
  constructor
  · intro hreason
    rcases hoffset with ⟨rfl, -⟩ | ⟨-, hsome⟩
    · rw [List.append_nil] at htext
      refine ⟨String.ofList more, t, ?_⟩
      rw [TypeExpr.parse, String.toList_append, String.toList_ofList, htext]
      exact hok
    · rw [fault.reason_eq_iff.mp hreason] at hsome
      cases hsome
  · intro line column hline hcolumn
    rcases hoffset with ⟨-, hnone⟩ | ⟨hne, hsome⟩
    · rw [SyntaxFault.line?, hnone] at hline
      cases hline
    · have hexpression : fault.expression = text := by
        rw [expression_of_parseChars h, String.ofList_toList]
      have htake : text.toList.take front.length = front := by rw [htext, List.take_left]
      rw [SyntaxFault.line?, hsome, Option.map_some, SyntaxFault.before, hexpression] at hline
      rw [SyntaxFault.column?, hsome, Option.map_some, SyntaxFault.before, hexpression] at hcolumn
      have hlt : front.length < text.toList.length := by
        rw [htext, List.length_append]
        exact Nat.lt_add_of_pos_right (List.length_pos_of_ne_nil hne)
      have hplace : SyntaxFault.IsPlace text.toList line column front.length :=
        ⟨Nat.le_of_lt hlt, Option.some.inj hline, Option.some.inj hcolumn⟩
      refine ⟨front.length, hlt, ?_, String.ofList more, t, ?_⟩
      · intro other
        constructor
        · exact hplace.eq
        · rintro rfl
          exact hplace
      · rw [TypeExpr.parse, String.toList_append, String.toList_ofList, String.toList_ofList,
          htake]
        exact hok

/-- A dot asks for arguments, and a comma for another parameter, on the next line too. -/
theorem parse_error_completable_sample :
    (TypeExpr.parse "A." = .error ⟨"A.", none, [.less]⟩ ∧
      ∃ more t, TypeExpr.parse ("A." ++ more) = .ok t) ∧
    TypeExpr.parse "(a: B,\n %" = .error ⟨"(a: B,\n %", some 8, [.name]⟩ ∧
      ∃ place < "(a: B,\n %".toList.length,
        (∀ other, SyntaxFault.IsPlace "(a: B,\n %".toList 2 2 other ↔ other = place) ∧
          ∃ more t, TypeExpr.parse
            (String.ofList ("(a: B,\n %".toList.take place) ++ more) = .ok t := by
  have hdot : TypeExpr.parse "A." = .error ⟨"A.", none, [.less]⟩ := by decide +kernel
  have hcomma : TypeExpr.parse "(a: B,\n %" = .error ⟨"(a: B,\n %", some 8, [.name]⟩ := by
    decide +kernel
  constructor
  · constructor
    · exact hdot
    · exact (parse_error_completable "A." _ hdot).1 rfl
  · constructor
    · exact hcomma
    · exact (parse_error_completable "(a: B,\n %" _ hcomma).2 2 2 rfl rfl

end DocComment
