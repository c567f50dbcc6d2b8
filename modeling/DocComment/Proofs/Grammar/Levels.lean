import DocComment.Proofs.Grammar.Tokens

/-!
# Levels of brackets

The level of a place is the number of brackets that are closed behind it and not
opened behind it. A derivation reads brackets in pairs, so it cannot end on a
lower level than it starts on (`TokenDerivation.level_le`), and if it ends on
the same level, then it stays on that level or above (`TokenDerivation.along`).

Only `=>` is in doubt: `>` may close a bracket, or the two may be an arrow. They
count as an arrow if a type can begin behind them. A derivation that takes such
an arrow for a closing bracket ends on a higher level than it starts on.
-/

namespace DocComment

open Terminal

/-! ## Levels -/

namespace Token

/-- Whether a type can begin with a token. -/
def opensType : Token → Bool
  | name _ | string _ | number _ | question | bang | star | leftParen | leftBracket | leftBrace =>
    true
  | dot ofThree => ofThree
  | _ => false

/-- How much the level rises behind a token. -/
def rise : Token → Int
  | leftParen | leftBracket | leftBrace | less => 1
  | rightParen | rightBracket | rightBrace | greater => -1
  | _ => 0

/-- Whether a type can begin at a place. -/
def typeAhead (tokens : List Token) : Bool :=
  tokens.head?.any opensType

/-- The level of a place. -/
def level : List Token → Int
  | [] => 0
  -- an arrow if a type can begin behind it, otherwise an equals sign and a closing bracket
  | equals true :: greater :: rest => level rest + if typeAhead rest then 0 else 1
  | token :: rest => level rest - token.rise

end Token

open Token

/-- How much the level rises when a terminal is read, if that is certain. -/
def Terminal.rise? : Terminal → Option Int
  | leftParen | leftBracket | leftBrace | less => some 1
  | rightParen | rightBracket | rightBrace | greater => some (-1)
  | equals | arrow => none
  | _ => some 0

/-- An opening sign and the sign that closes it. -/
inductive Terminal.Pair : Terminal → Terminal → Prop
  | parens : Pair leftParen rightParen
  | brackets : Pair leftBracket rightBracket
  | braces : Pair leftBrace rightBrace
  | angles : Pair less greater

/-- An opening sign leads up a level, and its closing sign down again. -/
theorem Terminal.Pair.rise {o c : Terminal} (h : o.Pair c) :
    o.rise? = some 1 ∧ c.rise? = some (-1) := by
  cases h <;> exact ⟨rfl, rfl⟩

variable {t : Terminal} {n : Nonterminal} {k : Nat} {p q r m : List Token} {x : String}

/-- Only an arrow does not have the level of its first token. -/
theorem level_cons {token : Token} (h : token ≠ .equals true ∨ q.head? ≠ some .greater) :
    level (token :: q) = level q - token.rise := by
  rcases q with _ | ⟨next, q⟩
  · simp [level]
  · rw [level]
    intro rest heq' heq
    subst heq'
    rcases List.cons.inj heq with ⟨rfl, -⟩
    simp at h

/-- A terminal that rises for certain changes the level by its rise. -/
theorem level_of_read? {i : Int} (h : t.read? p = some (x, q)) (hrise : t.rise? = some i) :
    level q = level p + i := by
  cases hmark : Terminal.mark? t with
  | some token =>
    obtain rfl := eq_of_read?_mark hmark h
    -- the rise of a mark is certain, so the mark is no equals sign
    have htoken : token ≠ .equals true ∧ t.rise? = some token.rise := by
      cases t <;> simp only [Terminal.mark?, reduceCtorEq, Option.some.injEq] at hmark <;>
        subst hmark <;> simp [Token.rise, Terminal.rise?]
    obtain rfl : token.rise = i := by simpa [htoken.2] using hrise
    rw [level_cons (.inl htoken.1)]
    omega
  | none =>
    cases t with
    | name =>
      obtain rfl := eq_of_read?_name h
      simp_all [level_cons, Token.rise, Terminal.rise?]
    | string =>
      obtain rfl := eq_of_read?_string h
      simp_all [level_cons, Token.rise, Terminal.rise?]
    | number =>
      obtain rfl := eq_of_read?_number h
      simp_all [level_cons, Token.rise, Terminal.rise?]
    | function =>
      obtain rfl := eq_of_read?_function h
      simp_all [level_cons, Token.rise, Terminal.rise?]
    | typeOf =>
      obtain rfl := eq_of_read?_typeOf h
      simp_all [level_cons, Token.rise, Terminal.rise?]
    | dot =>
      rcases eq_of_read?_dot h with ⟨_, rfl⟩
      simp_all [level_cons, Token.rise, Terminal.rise?]
    | ellipsis =>
      rcases eq_of_read?_ellipsis h with ⟨_, _, rfl⟩
      simp_all [level_cons, Token.rise, Terminal.rise?]
      omega
    | _ => simp_all [Terminal.rise?, Terminal.mark?]

/-- An equals sign does not lower the level. It raises the level if an arrow is
torn apart. -/
theorem level_le_of_equals (h : equals.read? p = some (x, q)) : level p ≤ level q := by
  rcases eq_of_read?_equals h with ⟨torn, rfl⟩
  -- only an equals sign right in front of `>` can be torn off an arrow
  by_cases hcons : Token.equals torn ≠ .equals true ∨ q.head? ≠ some .greater
  · have hlevel := level_cons hcons
    simp only [Token.rise] at hlevel
    omega
  · rcases not_or.mp hcons with ⟨htorn, hgreater⟩
    obtain ⟨rest, rfl⟩ : ∃ rest, q = .greater :: rest := by
      rcases q with _ | ⟨token, rest⟩
      · simp at hgreater
      · exact ⟨rest, by simpa using hgreater⟩
    obtain rfl : torn = true := by simpa using htorn
    have hrest : level (.greater :: rest) = level rest + 1 := by
      simp [level_cons, Token.rise]
    rw [level, hrest]
    split <;> omega

/-- An arrow in front of a type leaves the level as it is. -/
theorem level_of_arrow (h : arrow.read? p = some (x, q)) (hq : typeAhead q = true) :
    level q = level p := by
  obtain rfl := eq_of_read?_arrow h
  simp [level, hq]

namespace TokenDerivation

/-- What is not an optional list begins with a token that can begin a type. -/
theorem typeAhead (d : TokenDerivation n k p q) :
    typeAhead p = true ∨ n = .maybeTypes ∨ n = .maybeFields := by
  -- the first token is that of the first terminal, which is found down the first parts
  induction d with
  | nullable mark | notNullable mark | any mark | unknown mark =>
    obtain rfl := eq_of_read?_mark rfl mark
    exact .inl rfl
  | arrow opening | tuple opening | record opening | parens opening =>
    obtain rfl := eq_of_read?_mark rfl opening
    exact .inl rfl
  | variadic mark =>
    rcases eq_of_read?_ellipsis mark with ⟨_, _, rfl⟩
    exact .inl rfl
  | name word | generic word | dottedGeneric word | bareField word | typedField word =>
    obtain rfl := eq_of_read?_name word
    exact .inl rfl
  | function word | functionReturning word =>
    obtain rfl := eq_of_read?_function word
    exact .inl rfl
  | typeOf word =>
    obtain rfl := eq_of_read?_typeOf word
    exact .inl rfl
  | string literal =>
    obtain rfl := eq_of_read?_string literal
    exact .inl rfl
  | number literal =>
    obtain rfl := eq_of_read?_number literal
    exact .inl rfl
  | noTypes | someTypes | noFields | someFields => simp
  | operand _ ih | union _ _ _ ih | unmarked _ ih | plain _ ih | optional _ _ ih | array _ _ _ ih
  | nullableBehind _ _ ih | notNullableBehind _ _ ih | oneType _ ih | moreTypes _ _ _ ih
  | oneField _ ih | moreFields _ _ _ ih => simpa using ih

theorem typeAhead_type (d : TokenDerivation .type k p q) : Token.typeAhead p = true := by
  simpa using typeAhead d

/-- A relation that can be put together holds over a derivation if it holds over every terminal
but the brackets, and over brackets in pairs if it holds between them. -/
theorem rel_of_pairs (rel : List Token → List Token → Prop) (hrefl : ∀ p, rel p p)
    (htrans : ∀ {p q r}, rel p q → rel q r → rel p r)
    (hflat : ∀ {t : Terminal} {p x q}, t.read? p = some (x, q) → t.rise? = some 0 → rel p q)
    (hequals : ∀ {p x q}, equals.read? p = some (x, q) → rel p q)
    (harrow : ∀ {p x q}, arrow.read? p = some (x, q) → Token.typeAhead q = true → rel p q)
    (hpair : ∀ {o c : Terminal} {p x q r y s}, o.Pair c → o.read? p = some (x, q) → rel q r →
      c.read? r = some (y, s) → rel p s)
    (d : TokenDerivation n k p q) : rel p q := by
  induction d with
  | operand _ ih | unmarked _ ih | plain _ ih | oneType _ ih | someTypes _ ih | oneField _ ih
  | someFields _ ih => exact ih
  | noTypes | noFields => exact hrefl _
  | name sign | any sign | unknown sign | string sign | number sign | bareField sign =>
    exact hflat sign rfl
  | union _ sign _ ih ih' | moreTypes _ sign _ ih ih' | moreFields _ sign _ ih ih' =>
    exact htrans ih (htrans (hflat sign rfl) ih')
  | nullable mark _ ih | notNullable mark _ ih | variadic mark _ ih =>
    exact htrans (hflat mark rfl) ih
  | nullableBehind _ mark ih | notNullableBehind _ mark ih => exact htrans ih (hflat mark rfl)
  | optional _ mark ih => exact htrans ih (hequals mark)
  | array _ opening closing ih => exact htrans ih (hpair .brackets opening (hrefl _) closing)
  | tuple opening _ closing ih => exact hpair .brackets opening ih closing
  | record opening _ closing ih => exact hpair .braces opening ih closing
  | parens opening _ closing ih => exact hpair .parens opening ih closing
  | typeOf word value => exact htrans (hflat word rfl) (hflat value rfl)
  | typedField label colon _ ih => exact htrans (hflat label rfl) (htrans (hflat colon rfl) ih)
  | generic subject opening _ closing ih =>
    exact htrans (hflat subject rfl) (hpair .angles opening ih closing)
  | function subject opening _ closing ih =>
    exact htrans (hflat subject rfl) (hpair .parens opening ih closing)
  | dottedGeneric subject dot opening _ closing ih =>
    exact htrans (hflat subject rfl) (htrans (hflat dot rfl) (hpair .angles opening ih closing))
  | functionReturning word opening _ closing colon _ ih ih' =>
    exact htrans (hflat word rfl)
      (htrans (hpair .parens opening ih closing) (htrans (hflat colon rfl) ih'))
  | arrow opening _ closing sign returns ih ih' =>
    -- the result begins behind the sign, so the sign counts as an arrow
    have hsign := harrow sign (typeAhead_type returns)
    exact htrans (hpair .parens opening ih closing) (htrans hsign ih')

/-- What terminals keep up to the rise of the level, a derivation keeps: it reads brackets in
pairs. -/
theorem rel_of_rise (rel : Int → List Token → List Token → Prop) (hrefl : ∀ p, rel 0 p p)
    (htrans : ∀ {i j p q r}, rel i p q → rel j q r → rel (i + j) p r)
    (hreads : ∀ {t : Terminal} {p x q i}, t.read? p = some (x, q) → t.rise? = some i → rel i p q)
    (hequals : ∀ {p x q}, equals.read? p = some (x, q) → rel 0 p q)
    (harrow : ∀ {p x q}, arrow.read? p = some (x, q) → Token.typeAhead q = true → rel 0 p q)
    (d : TokenDerivation n k p q) : rel 0 p q :=
  d.rel_of_pairs (rel 0) hrefl htrans hreads hequals harrow fun hpair opening inside closing =>
    htrans (hreads opening hpair.rise.1) (htrans inside (hreads closing hpair.rise.2))

/-- A derivation does not end on a lower level than it starts on. -/
theorem level_le (d : TokenDerivation n k p q) : level p ≤ level q := by
  have hle : level p + 0 ≤ level q := by
    refine d.rel_of_rise (fun i p q => level p + i ≤ level q) (fun _ => by omega)
      (fun h h' => by omega) (fun h hrise => ?_) (fun h => ?_) fun h hahead => ?_
    · exact Int.le_of_eq (level_of_read? h hrise).symm
    · -- an equals sign is the only terminal that can change the level by itself
      have hequals := level_le_of_equals h
      omega
    · have harrow := level_of_arrow h hahead
      omega
  omega

/-- Over tokens that have no arrow a derivation ends on the level that it starts on. -/
theorem level_eq (d : TokenDerivation n k p q) (h : Token.equals true ∉ p) :
    level q = level p := by
  have hlevel : Token.equals true ∉ p → Token.equals true ∉ q ∧ level q = level p + 0 := by
    -- the only terminals without a rise are an equals sign, which is no arrow here, and an arrow,
    -- which is not there
    refine d.rel_of_rise
      (fun i p q => Token.equals true ∉ p → Token.equals true ∉ q ∧ level q = level p + i)
      (fun _ hp => ⟨hp, by omega⟩) (fun h h' hp => ?_) (fun h hrise hp => ?_)
      (@fun _ _ q h hp => ?_) fun h hahead hp => ?_
    · obtain ⟨hq, hlevel⟩ := h hp
      obtain ⟨hr, hlevel'⟩ := h' hq
      exact ⟨hr, by omega⟩
    · exact ⟨fun hq => hp ((suffix_of_read? h).subset hq), level_of_read? h hrise⟩
    · obtain ⟨torn, rfl⟩ := eq_of_read?_equals h
      have htorn : Token.equals torn ≠ .equals true := fun heq => hp (heq ▸ List.mem_cons_self)
      have hcons : level (.equals torn :: q) = level q - 0 := level_cons (.inl htorn)
      exact ⟨fun hq => hp (List.mem_cons_of_mem _ hq), by omega⟩
    · obtain rfl := eq_of_read?_arrow h
      exact absurd List.mem_cons_self hp
  have hq := (hlevel h).2
  omega

end TokenDerivation

/-! ## Places along a stretch -/

/-- A property of every place from the first one on, before the second one. -/
def Along (holds : List Token → Prop) (p q : List Token) : Prop :=
  ∀ m, q <:+ m → m <:+ p → m ≠ q → holds m

namespace Along

variable {holds holds' : List Token → Prop}

theorem refl (p : List Token) : Along holds p p := by
  intro m hstart hstop hne
  exact absurd (hstart.eq_of_length_le hstop.length_le).symm hne

/-- What holds of the places of two stretches holds of those of both together. -/
theorem trans (h : Along holds p q) (h' : Along holds q r) (hq : q <:+ p) : Along holds p r := by
  intro m hr hm hne
  rcases List.suffix_or_suffix_of_suffix hm hq with hmq | hqm
  · exact h' m hr hmq hne
  · -- the middle belongs to the second stretch
    by_cases heq : m = q
    · subst heq
      exact h' m hr (List.suffix_refl m) hne
    · exact h m hqm hm heq

theorem mono (h : Along holds p q) (himp : ∀ m, holds m → holds' m) : Along holds' p q :=
  fun m hq hp hne => himp m (h m hq hp hne)

/-- One more place in front. -/
theorem cons {token : Token} (h : holds (token :: p)) (h' : Along holds p q) :
    Along holds (token :: p) q := by
  intro m hq hm hne
  rcases List.suffix_cons_iff.mp hm with rfl | hm
  · exact h
  · exact h' m hq hm hne

theorem single {token : Token} (h : holds (token :: p)) : Along holds (token :: p) p :=
  cons h (refl p)

end Along

/-- The place is on a level or above it, and on the level itself only some tokens
stand. -/
structure OnLevel (base : Int) (allowed : Token → Prop) (m : List Token) : Prop where
  le : base ≤ level m
  head : level m = base → ∀ token, m.head? = some token → allowed token

/-- Above the level any token may stand. -/
theorem OnLevel.of_lt {base : Int} {allowed : Token → Prop} (h : base < level m) :
    OnLevel base allowed m :=
  ⟨by omega, fun heq => by omega⟩

theorem OnLevel.mono {base : Int} {allowed allowed' : Token → Prop} (h : OnLevel base allowed m)
    (himp : ∀ token, allowed token → allowed' token) : OnLevel base allowed' m :=
  ⟨h.le, fun hlevel token htoken => himp token (h.head hlevel token htoken)⟩

/-! ## Levels along a derivation -/

/-- The tokens that can stand on the level of a nonterminal. Only a list has
commas there. -/
def Nonterminal.Allows : Nonterminal → Token → Prop
  | types, _ | maybeTypes, _ | fields, _ | maybeFields, _ => True
  | _, token => token ≠ .comma

variable {base : Int} {allowed : Token → Prop}

theorem Nonterminal.allows_of_ne (n : Nonterminal) {token : Token} (h : token ≠ .comma) :
    n.Allows token := by
  cases n <;> first | exact h | trivial

/-- A terminal takes one token, unless it is an ellipsis or an arrow. -/
theorem exists_token (h : t.read? p = some (x, q)) (hellipsis : t ≠ .ellipsis)
    (harrow : t ≠ .arrow) : ∃ token, p = token :: q := by
  unfold read? at h
  split at h <;> simp_all

theorem head_ne_comma (h : t.read? p = some (x, q)) (hcomma : t ≠ .comma) :
    ∀ token, p.head? = some token → token ≠ .comma := by
  unfold read? at h
  split at h <;> grind

/-- The places of a terminal. A comma stands inside a list only, and the second
sign of an arrow stands on a level of its own. -/
theorem along_terminal (n : Nonterminal) (h : t.read? p = some (x, q)) (hcomma : t ≠ .comma)
    (harrow : t ≠ .arrow) (hle : base ≤ level p) : Along (OnLevel base n.Allows) p q := by
  have hhead := head_ne_comma h hcomma
  have hp : OnLevel base n.Allows p :=
    ⟨hle, fun _ token htoken => n.allows_of_ne (hhead token htoken)⟩
  -- the dots of an ellipsis are places of their own, all on one level
  by_cases hellipsis : t = .ellipsis
  · subst hellipsis
    rcases eq_of_read?_ellipsis h with ⟨b, c, rfl⟩
    have hlevel : level (.dot b :: .dot c :: q) = level (.dot true :: .dot b :: .dot c :: q) ∧
        level (.dot c :: q) = level (.dot true :: .dot b :: .dot c :: q) := by
      simp [level_cons, Token.rise]
    have hdot : ∀ token, token = .dot b ∨ token = .dot c → n.Allows token := by
      rintro _ (rfl | rfl) <;> exact n.allows_of_ne (by simp)
    refine Along.cons hp (Along.cons ⟨by omega, fun _ token htoken => ?_⟩
      (Along.single ⟨by omega, fun _ token htoken => ?_⟩))
    · exact hdot token (.inl (by simpa using htoken.symm))
    · exact hdot token (.inr (by simpa using htoken.symm))
  · rcases exists_token h hellipsis harrow with ⟨token, rfl⟩
    exact Along.single hp

/-- The two places of an arrow in front of a type. -/
theorem along_arrow (n : Nonterminal) (h : arrow.read? p = some (x, q)) (hq : typeAhead q = true)
    (hle : base ≤ level p) : Along (OnLevel base n.Allows) p q := by
  have hlevel := level_of_arrow h hq
  obtain rfl := eq_of_read?_arrow h
  have hgreater : level (.greater :: q) = level q + 1 := by simp [level_cons, Token.rise]
  refine Along.cons ⟨hle, fun _ token htoken => ?_⟩ (Along.single (.of_lt (by omega)))
  obtain rfl : token = .equals true := by simpa using htoken.symm
  exact n.allows_of_ne (by simp)

/-- What stands between brackets stands above the level of the brackets. -/
theorem along_brackets (base : Int) {o c : Terminal} {y : String} {s : List Token}
    (opening : o.read? p = some (x, q)) (ho : o.rise? = some 1)
    (inside : Along (OnLevel (base + 1) allowed) q r) (hr : r <:+ q)
    (closing : c.read? r = some (y, s)) (hc : c.rise? = some (-1)) (hlevel : base < level r) :
    Along (fun m => m = p ∨ base < level m) p s := by
  have hne : o ≠ .ellipsis ∧ o ≠ .arrow := by constructor <;> rintro rfl <;> simp [rise?] at ho
  have hne' : c ≠ .ellipsis ∧ c ≠ .arrow := by constructor <;> rintro rfl <;> simp [rise?] at hc
  rcases exists_token opening hne.1 hne.2 with ⟨first, rfl⟩
  rcases exists_token closing hne'.1 hne'.2 with ⟨last, rfl⟩
  have hinside : Along (fun m => m = first :: q ∨ base < level m) q (last :: s) :=
    inside.mono fun m hm => .inr (Int.lt_of_lt_of_le (Int.lt_succ base) hm.le)
  exact Along.cons (.inl rfl) (hinside.trans (Along.single (.inr hlevel)) hr)

/-- The places of brackets and of what stands between them. -/
theorem along_bracketed (n : Nonterminal) {o c : Terminal} {y : String} {s : List Token}
    (opening : o.read? p = some (x, q)) (ho : o.rise? = some 1)
    (inside : Along (OnLevel (base + 1) allowed) q r) (hr : r <:+ q)
    (closing : c.read? r = some (y, s)) (hc : c.rise? = some (-1)) (hp : base ≤ level p)
    (hlevel : base < level r) : Along (OnLevel base n.Allows) p s := by
  have hbrackets := along_brackets base opening ho inside hr closing hc hlevel
  have hcomma : o ≠ .comma := by
    intro heq
    subst heq
    simp [rise?] at ho
  refine hbrackets.mono fun m hm => ?_
  rcases hm with rfl | hm
  · exact ⟨hp, fun _ token htoken => n.allows_of_ne (head_ne_comma opening hcomma token htoken)⟩
  · exact .of_lt hm

namespace TokenDerivation

/-- A derivation that ends on the level that it starts on never goes below it. -/
theorem along (d : TokenDerivation n k p q) (hp : level p = base) (hq : level q = base) :
    Along (OnLevel base n.Allows) p q := by
  -- no part lowers the level, so each part starts and ends on the level too
  induction d generalizing base with
  | operand _ ih | unmarked _ ih | plain _ ih | someTypes _ ih | someFields _ ih =>
    exact ih hp hq
  | oneType _ ih | oneField _ ih => exact (ih hp hq).mono fun m hm => hm.mono fun _ _ => trivial
  | noTypes | noFields => exact Along.refl _
  | name sign | any sign | unknown sign | string sign | number sign | bareField sign =>
    exact along_terminal _ sign (by simp) (by simp) (Int.le_of_eq hp.symm)
  | nullable mark _ ih | notNullable mark _ ih | variadic mark _ ih =>
    have hmark := level_of_read? mark rfl
    have hfirst := along_terminal .prefixed mark (by simp) (by simp) (Int.le_of_eq hp.symm)
    exact hfirst.trans (ih (by omega) hq) (suffix_of_read? mark)
  | nullableBehind d mark ih | notNullableBehind d mark ih =>
    have hmark := level_of_read? mark rfl
    have hlast := along_terminal .suffixed mark (by simp) (by simp) (show base ≤ _ by omega)
    exact (ih hp (by omega)).trans hlast (suffix d)
  | optional d mark ih =>
    have hmark := level_le_of_equals mark
    have hd := level_le d
    have hlast := along_terminal .suffixed mark (by simp) (by simp) (show base ≤ _ by omega)
    exact (ih hp (by omega)).trans hlast (suffix d)
  | union left bar right ih ih' =>
    have hbar := level_of_read? bar rfl
    have hleft := level_le left
    have hright := level_le right
    have hmiddle := along_terminal .type bar (by simp) (by simp) (show base ≤ _ by omega)
    have hrest := hmiddle.trans (ih' (by omega) hq) (suffix_of_read? bar)
    exact (ih hp (by omega)).trans hrest (suffix left)
  | moreTypes left comma right ih ih' | moreFields left comma right ih ih' =>
    have hcomma := level_of_read? comma rfl
    have hleft := level_le left
    have hright := level_le right
    obtain rfl := eq_of_read?_mark rfl comma
    -- a list has commas on its level, its items have none
    have hfirst := (ih hp (by omega)).mono fun m hm => hm.mono fun _ _ => trivial
    refine hfirst.trans (Along.cons ⟨?_, fun _ _ _ => trivial⟩ (ih' (by omega) hq)) (suffix left)
    omega
  | array d opening closing ih =>
    have hopening := level_of_read? opening rfl
    have hclosing := level_of_read? closing rfl
    have hd := level_le d
    have hlast := along_bracketed .suffixed opening rfl
      (Along.refl _ : Along (OnLevel (base + 1) fun _ => True) _ _) (List.suffix_refl _) closing rfl
      (by omega) (by omega)
    exact (ih hp (by omega)).trans hlast (suffix d)
  | tuple opening d closing ih | record opening d closing ih | parens opening d closing ih =>
    have hopening := level_of_read? opening rfl
    have hclosing := level_of_read? closing rfl
    have hinside := @ih (base + 1) (by omega) (by omega)
    exact along_bracketed .primary opening rfl hinside (suffix d) closing rfl (by omega) (by omega)
  | generic subject opening d closing ih | function subject opening d closing ih =>
    have hsubject := level_of_read? subject rfl
    have hopening := level_of_read? opening rfl
    have hclosing := level_of_read? closing rfl
    have hinside := @ih (base + 1) (by omega) (by omega)
    have hrest := along_bracketed .primary opening rfl hinside (suffix d) closing rfl (by omega)
      (by omega)
    have hfirst := along_terminal .primary subject (by simp) (by simp) (Int.le_of_eq hp.symm)
    exact hfirst.trans hrest (suffix_of_read? subject)
  | dottedGeneric subject dot opening d closing ih =>
    have hsubject := level_of_read? subject rfl
    have hdot := level_of_read? dot rfl
    have hopening := level_of_read? opening rfl
    have hclosing := level_of_read? closing rfl
    have hinside := @ih (base + 1) (by omega) (by omega)
    have hrest := along_bracketed .primary opening rfl hinside (suffix d) closing rfl (by omega)
      (by omega)
    have hmiddle := along_terminal .primary dot (by simp) (by simp) (show base ≤ _ by omega)
    have hfirst := along_terminal .primary subject (by simp) (by simp) (Int.le_of_eq hp.symm)
    exact hfirst.trans (hmiddle.trans hrest (suffix_of_read? dot)) (suffix_of_read? subject)
  | functionReturning word opening d closing colon e ih ih' =>
    have hword := level_of_read? word rfl
    have hopening := level_of_read? opening rfl
    have hclosing := level_of_read? closing rfl
    have hcolon := level_of_read? colon rfl
    have hd := level_le d
    have he := level_le e
    have hinside := @ih (base + 1) (by omega) (by omega)
    have hparams := along_bracketed .primary opening rfl hinside (suffix d) closing rfl (by omega)
      (by omega)
    have hfirst := along_terminal .primary word (by simp) (by simp) (Int.le_of_eq hp.symm)
    have hmiddle := along_terminal .primary colon (by simp) (by simp) (show base ≤ _ by omega)
    have hreturns := hmiddle.trans (ih' (by omega) hq) (suffix_of_read? colon)
    have hrest := hparams.trans hreturns
      (((suffix_of_read? closing).trans (suffix d)).trans (suffix_of_read? opening))
    exact hfirst.trans hrest (suffix_of_read? word)
  | arrow opening d closing sign e ih ih' =>
    have hopening := level_of_read? opening rfl
    have hclosing := level_of_read? closing rfl
    have hsign := level_of_arrow sign (typeAhead_type e)
    have hd := level_le d
    have he := level_le e
    have hinside := @ih (base + 1) (by omega) (by omega)
    have hparams := along_bracketed .type opening rfl hinside (suffix d) closing rfl (by omega)
      (by omega)
    have hmiddle := along_arrow .type sign (typeAhead_type e) (show base ≤ _ by omega)
    have hreturns := hmiddle.trans (ih' (by omega) hq) (suffix_of_read? sign)
    exact hparams.trans hreturns
      (((suffix_of_read? closing).trans (suffix d)).trans (suffix_of_read? opening))
  | typeOf word value =>
    have hword := level_of_read? word rfl
    have hfirst := along_terminal .primary word (by simp) (by simp) (Int.le_of_eq hp.symm)
    have hlast := along_terminal .primary value (by simp) (by simp) (show base ≤ _ by omega)
    exact hfirst.trans hlast (suffix_of_read? word)
  | typedField label colon e ih =>
    have hlabel := level_of_read? label rfl
    have hcolon := level_of_read? colon rfl
    have he := level_le e
    have hfirst := along_terminal .field label (by simp) (by simp) (Int.le_of_eq hp.symm)
    have hmiddle := along_terminal .field colon (by simp) (by simp) (show base ≤ _ by omega)
    have hrest := hmiddle.trans (ih (by omega) hq) (suffix_of_read? colon)
    exact hfirst.trans hrest (suffix_of_read? label)

/-- Between brackets on one level everything stands above the level. -/
theorem along_enclosed {o c : Terminal} {y : String} {s : List Token}
    (opening : o.read? p = some (x, q)) (ho : o.rise? = some 1) (d : TokenDerivation n k q r)
    (closing : c.read? r = some (y, s)) (hc : c.rise? = some (-1)) (hp : level p = base)
    (hs : level s = base) : Along (fun m => m = p ∨ base < level m) p s := by
  have hopening := level_of_read? opening ho
  have hclosing := level_of_read? closing hc
  have hinside : Along (OnLevel (base + 1) n.Allows) q r := along d (by omega) (by omega)
  exact along_brackets base opening ho hinside (suffix d) closing hc (by omega)

end TokenDerivation

end DocComment
