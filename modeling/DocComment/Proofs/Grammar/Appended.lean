import DocComment.Proofs.Grammar.Rows
import Mathlib.Data.List.Forall2

/-!
# Tokens behind others

What the readings of a list of tokens become when other tokens are put behind it. No rule
looks further ahead than it reads, and no sign of several tokens goes on behind the border
if the tokens there cannot go on a sign (`Apart`). So the ways that end in front of the
border are the ways over the shorter list, and all other ways end behind it (`Agree`).
There is one lemma for each way to combine rules, and the rules of the grammar are put
together from them (`agree_readType`).
-/

namespace DocComment

open Reading Rule Terminal Token

variable {α β : Type} {m n : Nat} {value : α} {p q rest back : List Token}

/-- The first of the tokens goes on no sign of several tokens, so it can be told from what
stands in front of it. -/
structure Token.Apart (back : List Token) : Prop where
  greater : back.head? ≠ some .greater
  bracket : back.head? ≠ some .rightBracket
  dot : ∀ b, back.head? ≠ some (.dot b)

/-! ## Ways that end in front of the border -/

namespace Reading

/-- The ways over tokens with others behind them, and the ways over the tokens alone. Less
than `n` tokens are left in front of the border. -/
inductive Agree (back : List Token) (n : Nat) :
    List (α × List Token) → List (α × List Token) → Prop
  | nil : Agree back n [] []
  /-- A way that takes some of the tokens behind the border. -/
  | beyond {value rest ways shorter} (hrest : rest.length < back.length)
      (h : Agree back n ways shorter) : Agree back n ((value, rest) :: ways) shorter
  /-- A way that takes none of them. -/
  | left {value rest ways shorter} (hrest : rest.length < n) (h : Agree back n ways shorter) :
      Agree back n ((value, rest ++ back) :: ways) ((value, rest) :: shorter)

namespace Agree

variable {ways shorter others shorterOthers : List (α × List Token)}

/-- Places further from the border may be allowed. -/
theorem mono (h : Agree back m ways shorter) (hn : m ≤ n) : Agree back n ways shorter := by
  induction h with
  | nil => exact .nil
  | beyond hrest _ ih => exact .beyond hrest ih
  | left hrest _ ih => exact .left (Nat.lt_of_lt_of_le hrest hn) ih

/-- Ways that all end behind the border. -/
theorem of_beyond (h : ∀ way ∈ ways, way.2.length < back.length) : Agree back n ways [] := by
  induction ways with
  | nil => exact .nil
  | cons way ways ih =>
    obtain ⟨hway, hways⟩ := List.forall_mem_cons.mp h
    exact .beyond hway (ih hways)

/-- The ways that end at the border or in front of it are those over the tokens alone. -/
theorem mem_iff (h : Agree back n ways shorter) :
    (value, rest ++ back) ∈ ways ↔ (value, rest) ∈ shorter := by
  induction h with
  | nil => exact iff_of_false nofun nofun
  | @beyond _ other _ _ hother _ ih =>
    rw [List.mem_cons, ih, or_iff_right]
    intro heq
    have hlength := congrArg List.length (Prod.mk.inj heq).2
    rw [List.length_append] at hlength
    omega
  | left _ _ ih =>
    rw [List.mem_cons, List.mem_cons, ih, Prod.mk.injEq, Prod.mk.injEq, List.append_cancel_right_eq]

/-- As many tokens more are left as there are behind the border. -/
theorem mem_ends_iff {reading shorter : Reading α} (h : Agree back n reading.ways shorter.ways)
    (k : Nat) : k + back.length ∈ reading.ends ↔ k ∈ shorter.ends := by
  unfold ends
  generalize reading.ways = ways, shorter.ways = shorter at h
  induction h with
  | nil => simp
  | beyond hrest _ ih =>
    rw [List.map_cons, List.mem_cons, ih, or_iff_right]
    exact Nat.ne_of_gt (Nat.lt_of_lt_of_le hrest (Nat.le_add_left _ _))
  | left _ _ ih => simp only [List.map_cons, List.mem_cons, ih, List.length_append]; simp

/-- Merging keeps a way that ends behind the border in front of one that does not. -/
theorem merge (h : Agree back n ways shorter) (h' : Agree back n others shorterOthers) :
    Agree back n (merge ways others) (Reading.merge shorter shorterOthers) := by
  -- along both lists of ways, as merging goes: the longer way comes first, and of two equal ones
  -- the first
  induction h generalizing others shorterOthers with
  | nil => exact h'
  | @beyond value rest _ _ hrest h ih =>
    induction h' with
    | nil =>
      rw [merge_nil_right, merge_nil_right]
      exact .beyond hrest h
    | beyond hrest' h' ih' =>
      rw [merge_cons_cons]
      split
      · exact .beyond hrest' ih'
      · split
        · exact .beyond hrest (ih h')
        · exact .beyond hrest (ih (.beyond hrest' h'))
    | @left _ rest' _ _ hrest' h' _ =>
      -- a way that ends in front of the border is longer than one that ends behind it
      have hlonger : rest.length < (rest' ++ back).length := by
        rw [List.length_append]
        omega
      rw [merge_cons_cons, if_neg (Nat.lt_asymm hlonger), if_neg (Nat.ne_of_gt hlonger)]
      exact .beyond hrest (ih (.left hrest' h'))
  | @left _ rest _ _ hrest h ih =>
    induction h' with
    | nil =>
      rw [merge_nil_right, merge_nil_right]
      exact .left hrest h
    | @beyond _ rest' _ _ hrest' h' ih' =>
      have hlonger : rest'.length < (rest ++ back).length := by
        rw [List.length_append]
        omega
      rw [merge_cons_cons, if_pos hlonger]
      exact .beyond hrest' ih'
    | @left _ rest' _ _ hrest' h' ih' =>
      simp only [merge_cons_cons, List.length_append, Nat.add_lt_add_iff_right,
        Nat.add_right_cancel_iff]
      split
      · exact .left hrest' ih'
      · split
        · exact .left hrest (ih h')
        · exact .left hrest (ih (.left hrest' h'))

/-- Ways that go on behind the border end behind it. -/
theorem follow {next next' : α → List Token → Reading β} (h : Agree back n ways shorter)
    (hbeyond : ∀ value rest, rest.length < back.length → Agree back n (next value rest).ways [])
    (hleft : ∀ value rest, rest.length < n →
      Agree back n (next value (rest ++ back)).ways (next' value rest).ways) :
    Agree back n (follow next ways).ways (Reading.follow next' shorter).ways := by
  induction h with
  | nil => exact .nil
  | beyond hrest _ ih => exact (hbeyond _ _ hrest).merge ih
  | left hrest _ ih => exact (hleft _ _ hrest).merge ih

/-- Behind the border nothing corresponds to a way. -/
theorem follow_beyond {next : α → List Token → Reading β} (h : Agree back 0 ways [])
    (hnext : ∀ value rest, rest.length < back.length → Agree back 0 (next value rest).ways []) :
    Agree back 0 (Reading.follow next ways).ways [] := by
  have hnone : ∀ value rest, rest.length < 0 →
      Agree back 0 (next value (rest ++ back)).ways (Reading.none : Reading β).ways :=
    fun _ _ hrest => absurd hrest (Nat.not_lt_zero _)
  exact h.follow hnext hnone

end Agree

/-- A reading behind the border ends behind it. -/
theorem Ordered.agree {reading : Reading α} (h : reading.Ordered q) (hq : q.length < back.length) :
    Agree back n reading.ways [] :=
  .of_beyond fun _ hway => Nat.lt_of_le_of_lt (h.suffix hway).length_le hq

end Reading

/-! ## Rules -/

namespace Rule

/-- Two rules agree: the first one over tokens with others behind them, and the second one
over the tokens alone, if they are less than `n`. -/
structure Agrees (back : List Token) (n : Nat) (rule shorter : Rule α) : Prop where
  behind : ∀ q, q.length < back.length → Agree back 0 (rule q).ways []
  before : ∀ p, p.length < n → Agree back (p.length + 1) (rule (p ++ back)).ways (shorter p).ways

variable {rule shorter : Rule α} {next next' : α → Rule β}

/-- Nothing is read, so the border does not matter. -/
theorem agrees_pure (value : α) : Agrees back n (pure value) (pure value) :=
  ⟨fun _ hq => .beyond hq .nil, fun _ _ => .left (Nat.lt_succ_self _) .nil⟩

theorem Agrees.bind (h : Agrees back n rule shorter)
    (hnext : ∀ value, Agrees back n (next value) (next' value)) :
    Agrees back n (rule >>= next) (shorter >>= next') where
  behind q hq := (h.behind q hq).follow_beyond fun value => (hnext value).behind
  before p hp := by
    have hbeyond : ∀ value rest, rest.length < back.length →
        Agree back (p.length + 1) (next value rest).ways [] := fun value rest hrest =>
      ((hnext value).behind rest hrest).mono (Nat.zero_le _)
    refine (h.before p hp).follow hbeyond fun value rest hrest => ?_
    exact ((hnext value).before rest (by omega)).mono (by omega)

/-- Rules with alternatives that agree one by one agree. -/
theorem agrees_firstOf {rules shorters : List (Rule α)}
    (h : List.Forall₂ (Agrees back n) rules shorters) :
    Agrees back n (firstOf rules) (firstOf shorters) := by
  induction h with
  | nil => exact ⟨fun _ _ => .nil, fun _ _ => .nil⟩
  | cons h _ ih =>
    exact ⟨fun q hq => (h.behind q hq).merge (ih.behind q hq),
      fun p hp => (h.before p hp).merge (ih.before p hp)⟩

end Rule

/-! ## Terminals -/

namespace Terminal

variable {t : Terminal} {token : Token} {x : String}

/-- What a terminal reads does not depend on the tokens behind it. -/
theorem read?_append (h : t.read? p = some (x, q)) (behind : List Token) :
    t.read? (p ++ behind) = some (x, q ++ behind) := by
  unfold read? at h
  split at h
  case h_24 => cases h
  case h_6 | h_20 =>
    split at h
    · next hword =>
      cases h
      exact if_pos hword
    · cases h
  all_goals
    cases h
    rfl

/-- A token that is not the first one behind the border stands in front of it. -/
theorem exists_of_append {token : Token} (h : p ++ back = token :: q)
    (hback : back.head? ≠ some token) : ∃ rest, p = token :: rest ∧ q = rest ++ back := by
  cases p with
  | nil =>
    rw [List.nil_append] at h
    exact absurd (congrArg List.head? h) hback
  | cons first rest =>
    obtain ⟨rfl, rfl⟩ := List.cons.inj h
    exact ⟨rest, rfl, rfl⟩

/-- Only an arrow and an ellipsis take more than one token. -/
theorem eq_of_read?_cons (harrow : t ≠ .arrow) (hellipsis : t ≠ .ellipsis)
    (h : t.read? (token :: p) = some (x, q)) : p = q ∧ t.read? [token] = some (x, []) := by
  -- most terminals are matched by one token; the two words look at its text as well
  unfold read? at h
  split at h
  case h_22 => exact absurd rfl hellipsis
  case h_23 => exact absurd rfl harrow
  case h_24 => cases h
  case h_6 htokens | h_20 htokens =>
    cases htokens
    split at h
    · next hword =>
      cases h
      exact ⟨rfl, if_pos hword⟩
    · cases h
  all_goals
    rename_i htokens
    cases htokens
    cases h
    exact ⟨rfl, rfl⟩

/-- No terminal reads over the border. -/
theorem exists_of_read?_append (hback : Apart back)
    (h : t.read? (token :: p ++ back) = some (x, q)) :
    ∃ rest, q = rest ++ back ∧ t.read? (token :: p) = some (x, rest) := by
  -- the terminals of several tokens are looked at for a border inside them
  by_cases harrow : t = .arrow
  · subst harrow
    obtain ⟨rfl, hbehind⟩ := List.cons.inj (eq_of_read?_arrow h)
    obtain ⟨rest, rfl, rfl⟩ := exists_of_append hbehind hback.greater
    exact ⟨rest, rfl, congrArg (fun x => some (x, rest)) (Prod.mk.inj (Option.some.inj h)).1⟩
  by_cases hellipsis : t = .ellipsis
  · subst hellipsis
    obtain ⟨b, c, hdots⟩ := eq_of_read?_ellipsis h
    obtain ⟨rfl, hbehind⟩ := List.cons.inj hdots
    obtain ⟨rest, rfl, hrest⟩ := exists_of_append hbehind (hback.dot b)
    obtain ⟨rest, rfl, rfl⟩ := exists_of_append hrest.symm (hback.dot c)
    exact ⟨rest, rfl, congrArg (fun x => some (x, rest)) (Prod.mk.inj (Option.some.inj h)).1⟩
  · obtain ⟨rfl, hread⟩ := eq_of_read?_cons harrow hellipsis h
    exact ⟨p, rfl, read?_append hread p⟩

end Terminal

/-! ## Rules -/

namespace Rule

variable {next next' : String → Rule β}

/-- A terminal is read in front of the border as if nothing stood behind it. -/
theorem agree_terminal (hback : Apart back) (t : Terminal) (p : List Token) :
    Agree back p.length (terminal t (p ++ back)).ways (terminal t p).ways := by
  have hways (tokens : List Token) : (terminal t tokens).ways = (t.read? tokens).toList := rfl
  rw [hways, hways]
  -- at the border itself only what is behind it can be read
  cases p with
  | nil =>
    have hnone : t.read? [] = .none := by
      cases h : t.read? [] with
      | none => rfl
      | some way => exact absurd (length_read?_lt h) (Nat.not_lt_zero _)
    rw [hnone, List.nil_append]
    cases h : t.read? back with
    | none => exact .nil
    | some way => exact .beyond (length_read?_lt h) .nil
  | cons token p =>
    cases h : t.read? (token :: p) with
    | some way =>
      obtain ⟨x, rest⟩ := way
      rw [read?_append h]
      exact .left (length_read?_lt h) .nil
    | none =>
      cases h' : t.read? (token :: p ++ back) with
      | none => exact .nil
      | some way =>
        obtain ⟨rest, -, hrest⟩ := exists_of_read?_append hback h'
        rw [h] at hrest
        cases hrest

theorem agrees_terminal (hback : Apart back) (t : Terminal) :
    Agrees back n (terminal t) (terminal t) where
  behind q hq := (spec_terminal t q fun _ _ h => suffix_of_read? h).ordered.agree hq
  before p _ := (agree_terminal hback t p).mono (Nat.le_succ _)

/-- Behind a terminal there are fewer tokens. -/
theorem agrees_terminal_bind (hback : Apart back) (t : Terminal)
    (hnext : ∀ x, Agrees back n (next x) (next' x)) :
    Agrees back (n + 1) (terminal t >>= next) (terminal t >>= next') where
  behind := ((agrees_terminal (n := n) hback t).bind hnext).behind
  before p hp := by
    have hbeyond : ∀ x rest, rest.length < back.length →
        Agree back p.length (next x rest).ways [] := fun x rest hrest =>
      ((hnext x).behind rest hrest).mono (Nat.zero_le _)
    refine Agree.mono ((agree_terminal hback t p).follow hbeyond ?_) (Nat.le_succ _)
    intro x rest hrest
    exact ((hnext x).before rest (by omega)).mono hrest

end Rule

/-! ## Rows -/

/-- The readings of two rows agree. -/
structure Row.Agree (back : List Token) (n : Nat) (row shorter : Row) : Prop where
  prefixed : Reading.Agree back n row.prefixed.ways shorter.prefixed.ways
  type : Reading.Agree back n row.type.ways shorter.type.ways
  types : Reading.Agree back n row.types.ways shorter.types.ways
  moreTypes : Reading.Agree back n row.moreTypes.ways shorter.moreTypes.ways
  fields : Reading.Agree back n row.fields.ways shorter.fields.ways
  moreFields : Reading.Agree back n row.moreFields.ways shorter.moreFields.ways

/-- The rows of places agree: those of places with tokens behind the border, and those of
places without them, if less than `n` tokens are left in front of the border. -/
structure RowsAgree (back : List Token) (n : Nat) (row shorter : List Token → Row) : Prop where
  behind : ∀ q, q.length < back.length → (row q).Agree back 0 default
  before : ∀ p, p.length < n → (row (p ++ back)).Agree back (p.length + 1) (shorter p)

namespace RowsAgree

variable {row shorter : List Token → Row}

theorem prefixed (h : RowsAgree back n row shorter) :
    Agrees back n (fun tokens => (row tokens).prefixed) fun tokens => (shorter tokens).prefixed :=
  ⟨fun q hq => (h.behind q hq).prefixed, fun p hp => (h.before p hp).prefixed⟩

theorem type (h : RowsAgree back n row shorter) :
    Agrees back n (Grammar.laterType row) (Grammar.laterType shorter) :=
  ⟨fun q hq => (h.behind q hq).type, fun p hp => (h.before p hp).type⟩

theorem types (h : RowsAgree back n row shorter) :
    Agrees back n (fun tokens => (row tokens).types) fun tokens => (shorter tokens).types :=
  ⟨fun q hq => (h.behind q hq).types, fun p hp => (h.before p hp).types⟩

theorem moreTypes (h : RowsAgree back n row shorter) :
    Agrees back n (fun tokens => (row tokens).moreTypes) fun tokens => (shorter tokens).moreTypes :=
  ⟨fun q hq => (h.behind q hq).moreTypes, fun p hp => (h.before p hp).moreTypes⟩

theorem fields (h : RowsAgree back n row shorter) :
    Agrees back n (fun tokens => (row tokens).fields) fun tokens => (shorter tokens).fields :=
  ⟨fun q hq => (h.behind q hq).fields, fun p hp => (h.before p hp).fields⟩

theorem moreFields (h : RowsAgree back n row shorter) :
    Agrees back n (fun tokens => (row tokens).moreFields)
      fun tokens => (shorter tokens).moreFields :=
  ⟨fun q hq => (h.behind q hq).moreFields, fun p hp => (h.before p hp).moreFields⟩

end RowsAgree

/-! ## Rules of the grammar -/

namespace Grammar

variable {row shorter : List Token → Row} {operand operand' : Rule TypeExpr}

/-- Lists that may be left out agree if the lists do. -/
theorem agrees_optionalList {items items' : Rule (List α)} (h : Agrees back n items items') :
    Agrees back n (optionalList items) (optionalList items') :=
  agrees_firstOf (.cons h (.cons (agrees_pure []) .nil))

theorem agrees_arguments (hback : Apart back) (h : RowsAgree back n row shorter)
    (subject : String) : Agrees back (n + 1) (arguments row subject) (arguments shorter subject) :=
  agrees_terminal_bind hback .less fun _ => h.types.bind fun _ =>
    (agrees_terminal hback .greater).bind fun _ => agrees_pure _

theorem agrees_generic (hback : Apart back) (h : RowsAgree back n row shorter) :
    Agrees back (n + 1) (generic row) (generic shorter) :=
  (agrees_terminal hback .name).bind fun subject =>
    agrees_firstOf (.cons (agrees_arguments hback h subject) (.cons
      ((agrees_terminal hback .dot).bind fun _ => agrees_arguments hback h subject) .nil))

theorem agrees_tuple (hback : Apart back) (h : RowsAgree back n row shorter) :
    Agrees back (n + 1) (tuple row) (tuple shorter) :=
  agrees_terminal_bind hback .leftBracket fun _ => (agrees_optionalList h.types).bind fun _ =>
    (agrees_terminal hback .rightBracket).bind fun _ => agrees_pure _

theorem agrees_record (hback : Apart back) (h : RowsAgree back n row shorter) :
    Agrees back (n + 1) (record row) (record shorter) :=
  agrees_terminal_bind hback .leftBrace fun _ => (agrees_optionalList h.fields).bind fun _ =>
    (agrees_terminal hback .rightBrace).bind fun _ => agrees_pure _

theorem agrees_function (hback : Apart back) (h : RowsAgree back n row shorter) :
    Agrees back (n + 1) (function row) (function shorter) :=
  agrees_terminal_bind hback .function fun _ => (agrees_terminal hback .leftParen).bind fun _ =>
    (agrees_optionalList h.types).bind fun _ => (agrees_terminal hback .rightParen).bind fun _ =>
      agrees_firstOf (.cons (agrees_pure _) (.cons
        ((agrees_terminal hback .colon).bind fun _ => h.type.bind fun _ => agrees_pure _) .nil))

theorem agrees_typeOf (hback : Apart back) : Agrees back n typeOf typeOf :=
  (agrees_terminal hback .typeOf).bind fun _ =>
    (agrees_terminal hback .name).bind fun _ => agrees_pure _

theorem agrees_parens (hback : Apart back) (h : RowsAgree back n row shorter) :
    Agrees back (n + 1) (parens row) (parens shorter) :=
  agrees_terminal_bind hback .leftParen fun _ => h.type.bind fun _ =>
    (agrees_terminal hback .rightParen).bind fun _ => agrees_pure _

theorem agrees_atom (hback : Apart back) (t : Terminal) (build : String → TypeExpr) :
    Agrees back n (atom t build) (atom t build) :=
  (agrees_terminal hback t).bind fun _ => agrees_pure _

/-- Primaries agree, alternative by alternative. -/
theorem agrees_primary (hback : Apart back) (h : RowsAgree back n row shorter) :
    Agrees back (n + 1) (primary row) (primary shorter) :=
  agrees_firstOf <| .cons (agrees_atom hback _ _) <| .cons (agrees_generic hback h) <|
    .cons (agrees_tuple hback h) <| .cons (agrees_record hback h) <|
    .cons (agrees_function hback h) <| .cons (agrees_typeOf hback) <|
    .cons (agrees_parens hback h) <| .cons (agrees_atom hback _ _) <|
    .cons (agrees_atom hback _ _) <| .cons (agrees_atom hback _ _) <|
    .cons (agrees_atom hback _ _) .nil

/-- No operator is read over the border. -/
theorem operator?_append (hback : Apart back) (hp : p ≠ []) :
    operator? (p ++ back) = (operator? p).map fun step => (step.1, step.2 ++ back) := by
  rcases p with _ | ⟨token, _ | ⟨next, p⟩⟩
  · exact absurd rfl hp
  · cases token
    -- only the brackets take a second token, and it does not stand behind the border
    case leftBracket =>
      cases back with
      | nil => rfl
      | cons next back =>
        cases next
        case rightBracket => exact absurd rfl hback.bracket
        all_goals rfl
    all_goals rfl
  · cases token
    case leftBracket =>
      cases next
      all_goals rfl
    all_goals rfl

/-- Operators behind an operand take at least one token. -/
theorem agree_suffixes_beyond (stops : List Nat) (operand : TypeExpr)
    (hq : q.length ≤ back.length) : Agree back n (suffixes stops operand q).ways [] :=
  .of_beyond fun _ hway => Nat.lt_of_lt_of_le (leads_of_mem_suffixes hway).length_lt hq

/-- The chain of operators behind an operand is cut at the same places. -/
theorem agree_suffixes (hback : Apart back) {stops stops' : List Nat}
    (hstops : ∀ k, k + back.length ∈ stops ↔ k ∈ stops') (operand : TypeExpr) (p : List Token) :
    Agree back (p.length + 1) (suffixes stops operand (p ++ back)).ways
      (suffixes stops' operand p).ways := by
  obtain ⟨length, hlength⟩ : ∃ length, p.length = length := ⟨_, rfl⟩
  -- on the number of tokens, since the chain goes on behind each operator
  induction length using Nat.strongRecOn generalizing p operand with
  | ind length ih =>
    by_cases hp : p = []
    · subst hp
      have hnone : operator? [] = .none := rfl
      rw [ways_suffixes_of_none operand hnone]
      exact agree_suffixes_beyond stops operand (Nat.le_refl _)
    · have hstep' := operator?_append hback hp
      cases hstep : operator? p with
      | none =>
        rw [hstep] at hstep'
        rw [ways_suffixes_of_none operand hstep, ways_suffixes_of_none operand hstep']
        exact .nil
      | some step =>
        obtain ⟨build, rest⟩ := step
        rw [hstep] at hstep'
        have hlt := length_operator?_lt hstep
        rw [ways_suffixes_of_some operand hstep, ways_suffixes_of_some operand hstep']
        have hcut := hstops rest.length
        have hfurther := ih rest.length (hlength ▸ hlt) (build operand) rest rfl
        -- the chain is cut at a place if it is cut at the same place without the border
        simp only [grown, List.contains_eq_mem, List.length_append, hcut]
        split
        · exact .nil
        · exact Agree.merge (.left (by omega) .nil) (hfurther.mono (by omega))

/-- Operands with operators agree: their chains are cut where a primary ends, and the primaries
agree. -/
theorem agrees_suffixed (hback : Apart back) (h : RowsAgree back n row shorter) :
    Agrees back (n + 1) (suffixed row) (suffixed shorter) := by
  have hprimary := agrees_primary hback h
  refine ⟨fun q hq => ?_, fun p hp => ?_⟩
  · have hbehind := hprimary.behind q hq
    exact hbehind.merge (hbehind.follow_beyond fun operand rest hrest =>
      agree_suffixes_beyond _ operand (Nat.le_of_lt hrest))
  · have hbefore := hprimary.before p hp
    have hbeyond : ∀ operand rest, rest.length < back.length →
        Agree back (p.length + 1) (suffixes (primary row (p ++ back)).ends operand rest).ways [] :=
      fun operand rest hrest => agree_suffixes_beyond _ operand (Nat.le_of_lt hrest)
    refine hbefore.merge (hbefore.follow hbeyond fun operand rest hrest => ?_)
    exact (agree_suffixes hback hbefore.mem_ends_iff operand rest).mono hrest

theorem agrees_prefixOperator (hback : Apart back) (h : RowsAgree back n row shorter) (t : Terminal)
    (build : TypeExpr → TypeExpr) :
    Agrees back (n + 1) (prefixOperator row t build) (prefixOperator shorter t build) :=
  agrees_terminal_bind hback t fun _ => h.prefixed.bind fun _ => agrees_pure _

/-- Operands agree, alternative by alternative. -/
theorem agrees_prefixed (hback : Apart back) (h : RowsAgree back n row shorter) :
    Agrees back (n + 1) (prefixed row) (prefixed shorter) :=
  agrees_firstOf <| .cons (agrees_suffixed hback h) <| .cons (agrees_prefixOperator hback h _ _) <|
    .cons (agrees_prefixOperator hback h _ _) <| .cons (agrees_prefixOperator hback h _ _) .nil

theorem agrees_union (hback : Apart back) (h : RowsAgree back n row shorter)
    (hoperand : Agrees back (n + 1) operand operand') :
    Agrees back (n + 1) (union row operand) (union shorter operand') :=
  hoperand.bind fun _ =>
    agrees_terminal_bind hback .bar fun _ => h.type.bind fun _ => agrees_pure _

theorem agrees_arrow (hback : Apart back) (h : RowsAgree back n row shorter) :
    Agrees back (n + 1) (arrow row) (arrow shorter) :=
  agrees_terminal_bind hback .leftParen fun _ => (agrees_optionalList h.fields).bind fun _ =>
    (agrees_terminal hback .rightParen).bind fun _ => (agrees_terminal hback .arrow).bind fun _ =>
      h.type.bind fun _ => agrees_pure _

/-- Types agree if their operands do. -/
theorem agrees_type (hback : Apart back) (h : RowsAgree back n row shorter)
    (hoperand : Agrees back (n + 1) operand operand') :
    Agrees back (n + 1) (type row operand) (type shorter operand') :=
  agrees_firstOf <| .cons hoperand <| .cons (agrees_union hback h hoperand) <|
    .cons (agrees_arrow hback h) .nil

theorem agrees_field (hback : Apart back) (h : RowsAgree back n row shorter) :
    Agrees back (n + 1) (field row) (field shorter) :=
  agrees_terminal_bind hback .name fun _ =>
    agrees_firstOf (.cons (agrees_pure _) (.cons
      ((agrees_terminal hback .colon).bind fun _ => h.type.bind fun _ => agrees_pure _) .nil))

theorem agrees_oneItem {item item' : Rule α} (h : Agrees back n item item') :
    Agrees back n (oneItem item) (oneItem item') :=
  h.bind fun _ => agrees_pure _

theorem agrees_itemAndMore {item item' : Rule α} {more more' : Rule (List α)}
    (hback : Apart back) (h : Agrees back (n + 1) item item') (hmore : Agrees back n more more') :
    Agrees back (n + 1) (itemAndMore item more) (itemAndMore item' more') :=
  h.bind fun _ => agrees_terminal_bind hback .comma fun _ => hmore.bind fun _ => agrees_pure _

/-! A row is made from what its operands and its items are read as at its own place. -/

theorem listOf_at (item : Rule α) (more : Rule (List α)) (tokens : List Token) :
    listOf (fun _ => item tokens) more tokens = listOf item more tokens := rfl

theorem moreOf_at (item : Rule α) (more : Rule (List α)) (tokens : List Token) :
    moreOf (fun _ => item tokens) more tokens = moreOf item more tokens := rfl

theorem type_at (row : List Token → Row) (operand : Rule TypeExpr) (tokens : List Token) :
    type row (fun _ => operand tokens) tokens = type row operand tokens := rfl

/-- The row of a place, with each rule applied at the place. -/
theorem rowAt_eq (row : List Token → Row) (tokens : List Token) :
    rowAt row tokens =
      { prefixed := prefixed row tokens
        type := type row (prefixed row) tokens
        types := listOf (type row (prefixed row)) (fun rest => (row rest).moreTypes) tokens
        moreTypes := moreOf (type row (prefixed row)) (fun rest => (row rest).moreTypes) tokens
        fields := listOf (field row) (fun rest => (row rest).moreFields) tokens
        moreFields := moreOf (field row) (fun rest => (row rest).moreFields) tokens } := by
  have htype := type_at row (prefixed row) tokens
  have htypes := listOf_at (type row (prefixed row)) (fun rest => (row rest).moreTypes) tokens
  have hmore := moreOf_at (type row (prefixed row)) (fun rest => (row rest).moreTypes) tokens
  unfold rowAt
  dsimp only
  rw [htype, htypes, hmore]

/-- A type is read by the rules over the rows of the later places. -/
theorem readType_cons (token : Token) (tokens : List Token) :
    readType (token :: tokens) =
      type (lookUp (rows tokens)) (prefixed (lookUp (rows tokens))) (token :: tokens) := by
  rw [readType, lookUp_rows_cons, rowAt_eq]

/-- Rows that are made from rows that agree do so at one more place. -/
theorem agree_rowAt (hback : Apart back) (h : RowsAgree back n row shorter)
    (hp : p.length < n + 1) :
    (rowAt row (p ++ back)).Agree back (p.length + 1) (rowAt shorter p) := by
  -- in the order in which the row is built: operands, types, fields, lists
  have hprefixed := agrees_prefixed hback h
  have htype := agrees_type hback h hprefixed
  have hfield := agrees_field hback h
  have htypes := agrees_itemAndMore hback htype h.moreTypes
  have hfields := agrees_itemAndMore hback hfield h.moreFields
  have hone := agrees_oneItem hfield
  rw [rowAt_eq, rowAt_eq]
  exact {
    prefixed := hprefixed.before p hp
    type := htype.before p hp
    types := (agrees_firstOf (.cons htypes (.cons (agrees_oneItem htype) .nil))).before p hp
    moreTypes := (agrees_firstOf (.cons (agrees_oneItem htype) (.cons htypes .nil))).before p hp
    fields := (agrees_firstOf (.cons hfields (.cons hone .nil))).before p hp
    moreFields := (agrees_firstOf (.cons hone (.cons hfields .nil))).before p hp }

/-! ## The table -/

/-- The row of a later place is in the table of the tail. -/
theorem lookUp_rows_of_length {token : Token} {tokens : List Token} (h : p.length ≤ tokens.length) :
    lookUp (rows (token :: tokens)) p = lookUp (rows tokens) p := by
  have hlength : (rows (token :: tokens)).length - (p.length + 1) =
      (rows tokens).length - (p.length + 1) + 1 := by
    simp only [length_rows, List.length_cons]
    omega
  unfold lookUp
  rw [hlength, rows, List.getD_cons_succ]

/-- The row of a place does not depend on how that place is named. -/
theorem lookUp_rows_of_length_eq (h : p.length = q.length) (tokens : List Token) :
    lookUp (rows tokens) p = lookUp (rows tokens) q := by
  rw [lookUp, h, ← lookUp]

/-- The row of a place behind the border. -/
theorem agree_lookUp_beyond {tokens : List Token} (htokens : q.length ≤ tokens.length)
    (hq : q.length < back.length) : (lookUp (rows tokens) q).Agree back 0 default := by
  obtain ⟨front, place, rfl, hplace⟩ : ∃ front place, tokens = front ++ place ∧
      q.length = place.length := by
    refine ⟨tokens.take (tokens.length - q.length), tokens.drop (tokens.length - q.length),
      (List.take_append_drop ..).symm, ?_⟩
    rw [List.length_drop]
    omega
  rw [hplace] at hq
  rw [lookUp_rows_of_length_eq hplace, lookUp_rows]
  have hcovers := covers_lookUp_rows place
  exact {
    prefixed := hcovers.prefixed.ordered.agree hq
    type := hcovers.type.ordered.agree hq
    types := hcovers.types.ordered.agree hq
    moreTypes := hcovers.moreTypes.ordered.agree hq
    fields := hcovers.fields.ordered.agree hq
    moreFields := hcovers.moreFields.ordered.agree hq }

/-- The row at the border. -/
theorem agree_lookUp_border (hback : Apart back) :
    (lookUp (rows back) back).Agree back 1 (lookUp (rows []) []) := by
  cases back with
  | nil =>
    have hnone : RowsAgree [] 0 (fun _ => default) fun _ => default :=
      ⟨fun _ hq => absurd hq (Nat.not_lt_zero _), fun _ hp => absurd hp (Nat.not_lt_zero _)⟩
    exact agree_rowAt (p := []) hback hnone Nat.zero_lt_one
  | cons token back =>
    have hnone : RowsAgree (token :: back) 0 (lookUp (rows back)) fun _ => default :=
      ⟨fun _ hq => agree_lookUp_beyond (Nat.le_of_lt_succ hq) hq,
        fun _ hp => absurd hp (Nat.not_lt_zero _)⟩
    rw [lookUp_rows_cons]
    exact agree_rowAt (p := []) hback hnone Nat.zero_lt_one

/-- The rows over tokens with others behind them and the rows over the tokens alone agree. -/
theorem rowsAgree_rows (hback : Apart back) (tokens : List Token) :
    RowsAgree back (tokens.length + 1) (lookUp (rows (tokens ++ back))) (lookUp (rows tokens)) := by
  have hbehind (tokens : List Token) : ∀ q, q.length < back.length →
      (lookUp (rows (tokens ++ back)) q).Agree back 0 default := by
    intro q hq
    refine agree_lookUp_beyond ?_ hq
    rw [List.length_append]
    omega
  induction tokens with
  | nil =>
    refine ⟨hbehind [], fun p hp => ?_⟩
    obtain rfl : p = [] := List.length_eq_zero_iff.mp (Nat.lt_one_iff.mp hp)
    exact agree_lookUp_border hback
  | cons token tokens ih =>
    refine ⟨hbehind (token :: tokens), fun p hp => ?_⟩
    by_cases hlater : p.length ≤ tokens.length
    · have hlater' : (p ++ back).length ≤ (tokens ++ back).length := by
        simpa using hlater
      rw [lookUp_rows_of_length hlater, List.cons_append, lookUp_rows_of_length hlater']
      exact ih.before p (Nat.lt_succ_of_le hlater)
    · have hfirst : p.length = (token :: tokens).length := by
        rw [List.length_cons] at hp ⊢
        omega
      have hfirst' : (p ++ back).length = (token :: tokens ++ back).length := by
        rw [List.length_append, List.length_append, hfirst]
      rw [lookUp_rows_of_length_eq hfirst, lookUp_rows_of_length_eq hfirst', List.cons_append,
        lookUp_rows_cons, lookUp_rows_cons, hfirst]
      exact agree_rowAt hback ih (Nat.lt_succ_self _)

/-- In front of tokens that are told apart from them, tokens are read as by themselves. -/
theorem mem_readType_append (hback : Apart back) {t : TypeExpr} {tokens : List Token} :
    (t, back) ∈ (readType (tokens ++ back)).ways ↔ (t, []) ∈ (readType tokens).ways := by
  have hagree := ((rowsAgree_rows hback tokens).before tokens (Nat.lt_succ_self _)).type
  exact (List.nil_append back).symm ▸ hagree.mem_iff

end Grammar

end DocComment
