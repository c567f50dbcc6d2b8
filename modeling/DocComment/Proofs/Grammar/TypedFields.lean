import DocComment.Proofs.Grammar.Appended
import DocComment.Proofs.Grammar.Nesting
import DocComment.Proofs.Grammar.Primaries

/-!
# Named members with their types

A record with one named member, and a function type with one named parameter, is read part by
part whatever the types are: the type of the member is read as it is by itself
(`mem_readType_record`, `mem_readType_arrow`). A type between brackets can be read in more than
one way, so the ways of the readings are followed down to the type of the member.
-/

namespace DocComment

open Reading Rule Terminal Token DocComment.Derivation

variable {tokens p q r back : List Token} {label : String} {t returns : TypeExpr}
  {f : Field} {fs : List Field} {closing closing' : Token}

namespace Grammar

/-! ## Fields -/

/-- The type of a named member is read as it is by itself. -/
theorem eq_of_mem_field (ht : (t, closing :: back) ∈ (readType p).ways)
    (hlength : (closing :: back).length < p.length)
    (h : (f, closing :: back) ∈
      (field (lookUp (rows (.colon :: p))) (.name label :: .colon :: p)).ways) :
    f = .typed label t := by
  obtain ⟨x, mid, hname, h⟩ := exists_of_mem_terminal_bind h
  cases eq_of_read?_name hname
  obtain ⟨rule, hrule, h⟩ := exists_of_mem_firstOf h
  rcases List.mem_pair.mp hrule with rfl | rfl
  · obtain ⟨-, hback⟩ := Prod.mk.inj (List.mem_singleton.mp h)
    rw [hback, List.length_cons] at hlength
    omega
  · obtain ⟨y, mid, hcolon, h⟩ := exists_of_mem_terminal_bind h
    cases eq_of_read?_mark rfl hcolon
    obtain ⟨t', rest, ht', h⟩ := exists_of_mem_bind h
    obtain ⟨rfl, rfl⟩ := Prod.mk.inj (List.mem_singleton.mp h)
    -- the row of the type does not depend on the label
    have hrow : laterType (lookUp (rows (.colon :: p))) p = readType p :=
      congrArg Row.type (lookUp_rows [.colon] p)
    rw [hrow] at ht'
    rw [(covers_lookUp_rows p).type.ordered.sorted.unique ht ht']

/-- Behind a label there is one named member, up to the sign that closes the list and where a
type can be read up to. -/
theorem eq_of_mem_laterFields (ht : (t, closing :: back) ∈ (readType p).ways)
    (hclosing : closing.nesting = -1) (hclosing' : closing'.nesting = -1)
    (h : (fs, closing' :: r) ∈ (laterFields (lookUp (rows (.name label :: .colon :: p)))
      (.name label :: .colon :: p)).ways) :
    closing' :: r = closing :: back ∧ fs = [.typed label t] := by
  obtain ⟨k, d, -⟩ := (covers_lookUp_rows p).type.sound ht
  obtain ⟨j, e, -⟩ := (covers_laterFields (covers_lookUp_rows _)).sound h
  have hd : TokenDerivation .field 1 (.name label :: .colon :: p) (closing :: back) :=
    .typedField rfl rfl d
  have hback := e.nested.closing_eq hd.nested hclosing' hclosing
  refine ⟨hback, ?_⟩
  rw [hback] at h
  have hlength := d.length_lt nofun nofun
  obtain ⟨rule, hrule, h⟩ := exists_of_mem_firstOf h
  rcases List.mem_pair.mp hrule with rfl | rfl
  · dsimp only at h
    rw [lookUp_rows_cons, rowAt_eq] at h
    have hcovers : CoversBehind (lookUp (rows (.colon :: p))) (.name label :: .colon :: p) :=
      coversBehind_lookUp_rows _ fun rest _ => covers_lookUp_rows rest
    obtain ⟨rule, hrule, h⟩ := exists_of_mem_firstOf h
    rcases List.mem_pair.mp hrule with rfl | rfl
    · -- several members would not end where the type ends
      obtain ⟨d', -⟩ := (covers_moreFields hcovers (covers_field hcovers)).sound h
      have hcolon : (closing :: back).head? ≠ some .colon := by
        rintro ⟨⟩
        cases hclosing
      exact absurd ⟨d'⟩ (d.not_moreFields hcolon)
    · obtain ⟨f, mid, hf, h⟩ := exists_of_mem_bind h
      obtain ⟨rfl, rfl⟩ := Prod.mk.inj (List.mem_singleton.mp h)
      rw [eq_of_mem_field ht hlength hf]
  · obtain ⟨-, hq⟩ := Prod.mk.inj (List.mem_singleton.mp h)
    rw [hq, List.length_cons, List.length_cons] at hlength
    omega

/-! ## Records -/

section

variable {row : List Token → Row} {value : TypeExpr}

/-- A primary that begins with a brace is a record. -/
theorem exists_fields_of_mem_primary (h : (value, r) ∈ (primary row (.leftBrace :: q)).ways) :
    ∃ fs, value = .record fs ∧ (fs, .rightBrace :: r) ∈ (laterFields row q).ways := by
  obtain ⟨rule, hrule, h⟩ := exists_of_mem_firstOf h
  have hrecord : (value, r) ∈ (record row (.leftBrace :: q)).ways := by
    simp only [List.mem_cons, List.not_mem_nil, or_false] at hrule
    -- every other alternative begins with another token
    rcases hrule with rfl | rfl | rfl | rfl | rfl | rfl | rfl | rfl | rfl | rfl | rfl
    all_goals first
      | exact h
      | obtain ⟨x, mid, hread, -⟩ := exists_of_mem_terminal_bind h
        cases hread
  obtain ⟨x, mid, hopening, h⟩ := exists_of_mem_terminal_bind hrecord
  cases eq_of_read?_mark rfl hopening
  obtain ⟨fs, mid, hfields, h⟩ := exists_of_mem_bind h
  obtain ⟨y, rest, hclosing, h⟩ := exists_of_mem_terminal_bind h
  obtain ⟨rfl, rfl⟩ := Prod.mk.inj (List.mem_singleton.mp h)
  exact ⟨fs, rfl, eq_of_read?_mark rfl hclosing ▸ hfields⟩

/-- An operand that begins with a brace is a primary, perhaps with operators behind it. -/
theorem mem_suffixed_of_mem_prefixed
    (h : (value, r) ∈ (prefixed row (.leftBrace :: q)).ways) :
    (value, r) ∈ (suffixed row (.leftBrace :: q)).ways := by
  obtain ⟨rule, hrule, h⟩ := exists_of_mem_firstOf h
  simp only [List.mem_cons, List.not_mem_nil, or_false] at hrule
  rcases hrule with rfl | rfl | rfl | rfl
  all_goals first
    | exact h
    | obtain ⟨x, mid, hread, -⟩ := exists_of_mem_terminal_bind h
      cases hread

end

/-- A record that ends where the tokens end is the only operand there. -/
theorem eq_of_mem_prefixed {value : TypeExpr} (ht : (t, [.rightBrace]) ∈ (readType p).ways)
    (h : (value, r) ∈ (prefixed (lookUp (rows (.name label :: .colon :: p)))
      (.leftBrace :: .name label :: .colon :: p)).ways) :
    value = .record [.typed label t] ∧ r = [] := by
  have hprimary {value : TypeExpr} {r : List Token}
      (h : (value, r) ∈ (primary (lookUp (rows (.name label :: .colon :: p)))
        (.leftBrace :: .name label :: .colon :: p)).ways) :
      value = .record [.typed label t] ∧ r = [] := by
    obtain ⟨fs, rfl, hfields⟩ := exists_fields_of_mem_primary h
    obtain ⟨hr, rfl⟩ := eq_of_mem_laterFields ht rfl rfl hfields
    exact ⟨rfl, (List.cons.inj hr).2⟩
  rcases mem_of_mem_merge (mem_suffixed_of_mem_prefixed h) with h | h
  · exact hprimary h
  · -- there is no place for an operator
    obtain ⟨operand, mid, hoperand, h⟩ := mem_of_mem_follow h
    obtain ⟨-, rfl⟩ := hprimary hoperand
    exact absurd (leads_of_mem_suffixes h).length_lt (Nat.not_lt_zero _)

/-- A record with one named member is read as such. -/
theorem mem_readType_record (label : String) (ht : (t, []) ∈ (readType tokens).ways) :
    (.record [.typed label t], []) ∈
      (readType (.leftBrace :: .name label :: .colon :: (tokens ++ [.rightBrace]))).ways := by
  have hback : Apart [.rightBrace] := ⟨nofun, nofun, nofun⟩
  have hp := (mem_readType_append hback).mpr ht
  obtain ⟨k, d, -⟩ := (covers_lookUp_rows (tokens ++ [.rightBrace])).type.sound hp
  have hrecord : TokenDerivation .primary 3
      (.leftBrace :: .name label :: .colon :: (tokens ++ [.rightBrace])) [] :=
    .record rfl (.someFields (.oneField (.typedField rfl rfl d))) rfl
  obtain ⟨value, hvalue⟩ :=
    (covers_lookUp_rows _).type.complete ⟨_, ⟨.operand (.unmarked (.plain hrecord))⟩⟩
  suffices value = .record [.typed label t] from this ▸ hvalue
  change (value, []) ∈ (readType _).ways at hvalue
  rw [readType_cons] at hvalue
  obtain ⟨rule, hrule, h⟩ := exists_of_mem_firstOf hvalue
  simp only [List.mem_cons, List.not_mem_nil, or_false] at hrule
  rcases hrule with rfl | rfl | rfl
  · exact (eq_of_mem_prefixed hp h).1
  · -- there is no place for a bar
    obtain ⟨left, mid, hleft, h⟩ := exists_of_mem_bind h
    obtain ⟨-, rfl⟩ := eq_of_mem_prefixed hp hleft
    obtain ⟨x, mid, hbar, -⟩ := exists_of_mem_terminal_bind h
    cases hbar
  · obtain ⟨x, mid, hopening, -⟩ := exists_of_mem_terminal_bind h
    cases hopening

/-! ## Arrows -/

/-- No operand begins with a parenthesis and a label. -/
theorem not_prefixed_label {k : Nat} :
    ¬ Nonempty (TokenDerivation .prefixed k (.leftParen :: .name label :: .colon :: p) r) := by
  rintro ⟨d⟩
  cases d with
  | unmarked d =>
    obtain ⟨i, mid, f, e, -⟩ := exists_chain d
    obtain ⟨j, inner, -⟩ := e.exists_parens
    -- a type has no label at its own depth
    have hinner := inner.unlabelled (by simp) (by simp)
    exact hinner.not_label _ inner.suffix (List.suffix_refl _) (inner.start_ne nofun nofun) rfl
      ⟨label, p, rfl⟩
  | nullable mark | notNullable mark => cases eq_of_read?_mark rfl mark
  | variadic mark =>
    obtain ⟨b, c, hmark⟩ := eq_of_read?_ellipsis mark
    cases hmark

/-- Behind the parameter there is one sign that closes the list, and the result is read as it
is by itself. -/
theorem eq_of_mem_arrow {value : TypeExpr}
    (ht : (t, .rightParen :: .equals true :: .greater :: q) ∈ (readType p).ways)
    (hreturns : (returns, []) ∈ (readType q).ways)
    (h : (value, []) ∈ (arrow (lookUp (rows (.name label :: .colon :: p)))
      (.leftParen :: .name label :: .colon :: p)).ways) :
    value = .arrow [.typed label t] returns := by
  obtain ⟨x, mid, hopening, h⟩ := exists_of_mem_terminal_bind h
  cases eq_of_read?_mark rfl hopening
  obtain ⟨fs, mid, hfields, h⟩ := exists_of_mem_bind h
  obtain ⟨y, rest, hclosing, h⟩ := exists_of_mem_terminal_bind h
  rw [eq_of_read?_mark rfl hclosing] at hfields
  obtain ⟨hrest, rfl⟩ := eq_of_mem_laterFields ht rfl rfl hfields
  obtain rfl := (List.cons.inj hrest).2
  obtain ⟨z, rest, hsign, h⟩ := exists_of_mem_terminal_bind h
  cases eq_of_read?_arrow hsign
  obtain ⟨value, rest, hlater, h⟩ := exists_of_mem_bind h
  obtain ⟨rfl, rfl⟩ := Prod.mk.inj (List.mem_singleton.mp h)
  -- the row of the result does not depend on the parameter
  have hrow : laterType (lookUp (rows (.name label :: .colon :: p))) q = readType q := by
    obtain ⟨front, rfl⟩ := (covers_lookUp_rows p).type.ordered.suffix ht
    have hrow := lookUp_rows
      (.name label :: .colon :: (front ++ [.rightParen, .equals true, .greater])) q
    rw [List.cons_append, List.cons_append, List.append_assoc] at hrow
    exact congrArg Row.type hrow
  rw [hrow] at hlater
  rw [(covers_lookUp_rows q).type.ordered.sorted.unique hreturns hlater]

/-- A function type with one named parameter is read as such. -/
theorem mem_readType_arrow (label : String) (ht : (t, []) ∈ (readType tokens).ways)
    (hreturns : (returns, []) ∈ (readType q).ways) :
    (.arrow [.typed label t] returns, []) ∈ (readType (.leftParen :: .name label :: .colon ::
      (tokens ++ .rightParen :: .equals true :: .greater :: q))).ways := by
  have hback : Apart (.rightParen :: .equals true :: .greater :: q) := ⟨nofun, nofun, nofun⟩
  have hp := (mem_readType_append hback).mpr ht
  generalize tokens ++ .rightParen :: .equals true :: .greater :: q = p at hp ⊢
  obtain ⟨k, d, -⟩ := (covers_lookUp_rows p).type.sound hp
  obtain ⟨j, e, -⟩ := (covers_lookUp_rows q).type.sound hreturns
  have harrow : TokenDerivation .type 2 (.leftParen :: .name label :: .colon :: p) [] :=
    .arrow rfl (.someFields (.oneField (.typedField rfl rfl d))) rfl rfl e
  obtain ⟨value, hvalue⟩ := (covers_lookUp_rows _).type.complete ⟨_, ⟨harrow⟩⟩
  -- some way reads all tokens, so it is enough to see what it builds
  suffices value = .arrow [.typed label t] returns from this ▸ hvalue
  change (value, []) ∈ (readType _).ways at hvalue
  rw [readType_cons] at hvalue
  have hbehind : CoversBehind (lookUp (rows (.name label :: .colon :: p)))
      (.leftParen :: .name label :: .colon :: p) :=
    coversBehind_lookUp_rows _ fun rest _ => covers_lookUp_rows rest
  have hoperand := covers_prefixed hbehind
  obtain ⟨rule, hrule, h⟩ := exists_of_mem_firstOf hvalue
  simp only [List.mem_cons, List.not_mem_nil, or_false] at hrule
  -- an operand cannot begin with a label in parentheses, so it is an arrow
  rcases hrule with rfl | rfl | rfl
  · obtain ⟨i, d', -⟩ := hoperand.sound h
    exact absurd ⟨d'⟩ not_prefixed_label
  · obtain ⟨left, mid, hleft, -⟩ := exists_of_mem_bind h
    obtain ⟨i, d', -⟩ := hoperand.sound hleft
    exact absurd ⟨d'⟩ not_prefixed_label
  · exact eq_of_mem_arrow hp hreturns h

/-! ## The label behind an opening sign -/

/-- Fields whose first one has a type begin with its label. -/
theorem exists_label_of_tree_fields {k : Nat} (d : TokenDerivation .maybeFields k p q)
    (h : d.tree = .typed label t :: fs) : ∃ rest, p = .name label :: rest := by
  have hfield {j : Nat} {p q : List Token} (d : TokenDerivation .field j p q)
      (h : d.tree = .typed label t) : ∃ rest, p = .name label :: rest := by
    cases d with
    | bareField => cases h
    | typedField sign =>
      obtain ⟨rfl, -⟩ := Field.typed.inj h
      exact ⟨_, eq_of_read?_name sign⟩
  cases d with
  | noFields => cases h
  | someFields d =>
    cases d with
    | oneField only => exact hfield only (List.cons.inj h).1
    | moreFields first => exact hfield first (List.cons.inj h).1

/-- A type that is a record with a typed field begins with a brace and the label. -/
theorem exists_label_of_tree_record {k : Nat} (d : TokenDerivation .type k p q)
    (h : d.tree = .record (.typed label t :: fs)) :
    ∃ rest, p = .leftBrace :: .name label :: rest := by
  cases d with
  | operand d =>
    cases d with
    | unmarked d =>
      cases d with
      | plain d =>
        cases d with
        | record opening fields =>
          obtain ⟨rest, rfl⟩ := exists_label_of_tree_fields fields (TypeExpr.record.inj h)
          exact ⟨rest, eq_of_read?_mark rfl opening⟩
        | _ => cases h
      | _ => cases h
    | _ => cases h
  | _ => cases h

/-- A type that is an arrow with a typed parameter begins with a parenthesis and the label. -/
theorem exists_label_of_tree_arrow {k : Nat} (d : TokenDerivation .type k p q)
    (h : d.tree = .arrow (.typed label t :: fs) returns) :
    ∃ rest, p = .leftParen :: .name label :: rest := by
  cases d with
  | arrow opening params =>
    obtain ⟨rest, rfl⟩ := exists_label_of_tree_fields params (TypeExpr.arrow.inj h).1
    exact ⟨rest, eq_of_read?_mark rfl opening⟩
  | operand d =>
    cases d with
    | unmarked d =>
      cases d with
      | plain d => cases d <;> cases h
      | _ => cases h
    | _ => cases h
  | union => cases h

end Grammar

end DocComment
