import DocComment.TypeExpr.Notation
import DocComment.Proofs.Grammar.TypedFields
import DocComment.Proofs.Lexing.Delimiters
import DocComment.Proofs.Spacing

/-!
# Labels

The type of a named member stands behind a label and a colon. A colon is also a joint of names,
so with no space between it and a type that begins like a name, the label goes on over the
colon. That is all that the space is for: whatever the type is, the member is read by its label
and its type if and only if the character behind the colon begins no name
(`parse_labelled`).
-/

namespace DocComment

open Text Token

variable {label : String} {behind back cs : List Char} {t returns : TypeExpr}

/-! ## Tokens of a labelled type -/

/-- A label: the first segment of a name. -/
def isIdentifier : List Char → Bool
  | [] => false
  | c :: cs => isNameStart c && cs.all (isNamePart false)

/-- A label, a colon and what stands behind it. -/
def labelled (label behind : List Char) : List Char :=
  label ++ ':' :: behind

/-- Whether a name can begin at the start of a text. -/
def startsName (cs : List Char) : Bool :=
  cs.head?.any isNameStart

theorem mem_nameLanguage_of_isIdentifier {cs : List Char} (h : isIdentifier cs = true) :
    cs ∈ nameLanguage := by
  cases cs with
  | nil => cases h
  | cons c word =>
    obtain ⟨hc, hword⟩ := Bool.and_eq_true_iff.mp h
    have htail : nameTail false word = word := by
      simpa [nameTail] using nameTail_append (List.all_eq_true.mp hword) []
    exact htail ▸ (longest_name hc word).mem

namespace Token

/-- A colon goes on a name if and only if a name begins behind it. -/
theorem nameTail_colon_eq_nil_iff {later : Bool} :
    nameTail later (':' :: behind) = [] ↔ startsName behind = false := by
  have hpart : isNamePart later ':' = false := by
    cases later <;> rfl
  have hjoint : isNameJoint ':' = true := rfl
  cases behind with
  | nil => simp [nameTail, startsName, hpart]
  | cons c cs => cases hc : isNameStart c <;> simp [nameTail, startsName, hpart, hjoint, hc]

/-- If no name begins behind the colon, the label is a name of its own. -/
theorem tokensOf_labelled (hlabel : label.toList ∈ nameLanguage)
    (h : startsName behind = false) :
    tokensOf (labelled label.toList behind) = .name label :: .colon :: tokensOf behind := by
  rw [labelled, tokensOf_append_name hlabel fun _ => nameTail_colon_eq_nil_iff.mpr h,
    tokensOf_mark rfl]

/-- If the label is a name of its own, no name begins behind the colon: a label is read
together with the colon and the name behind it. -/
theorem not_startsName_of_tokensOf (hlabel : isIdentifier label.toList = true)
    {rest : List Token} (h : tokensOf (labelled label.toList behind) = .name label :: rest) :
    startsName behind = false := by
  -- the first token is the label with all that goes on as a name behind it
  have hread : ∃ rest, tokensOf (labelled label.toList behind) =
      .name (String.ofList (label.toList ++ nameTail false (':' :: behind))) :: rest := by
    unfold labelled
    generalize label.toList = chars at hlabel
    cases chars with
    | nil => cases hlabel
    | cons c word =>
      obtain ⟨hc, hword⟩ := Bool.and_eq_true_iff.mp hlabel
      exact ⟨_, Terminal.tokensOf_word hc (List.all_eq_true.mp hword) (':' :: behind)⟩
  obtain ⟨rest, hrest⟩ := hread
  rw [hrest] at h
  have hname := congrArg String.toList (Token.name.inj (List.cons.inj h).1)
  rw [String.toList_ofList] at hname
  exact nameTail_colon_eq_nil_iff.mp (List.append_right_eq_self.mp hname)

end Token

/-! ## Members -/

theorem parseChars_space (h : TypeExpr.parseChars cs = .ok t) :
    TypeExpr.parseChars (' ' :: cs) = .ok t := by
  rw [parseChars_eq_ok_iff, tokensOf_cons_spacing rfl]
  exact parseChars_eq_ok_iff.mp h

/-- The tokens of a type in front of a closing sign. -/
theorem tokensOf_append_closing {c : Char} {closing : Token}
    (h : TypeExpr.parseChars behind = .ok t) (hc : isWordlike c = false) (hgreater : c ≠ '>')
    (hclosing : mark? c back = some closing) :
    tokensOf (behind ++ c :: back) = tokensOf behind ++ closing :: tokensOf back := by
  obtain ⟨k, d, -⟩ := exists_preferred_of_parseChars h
  rw [tokensOf_append, tokensOf_mark hclosing]
  · rintro _ ⟨⟩
    exact hc
  · intro heq
    exact absurd (Option.some.inj heq) hgreater
  · exact .inl d.stray_notMem

/-- A closing sign behind a type begins no name. -/
theorem startsName_append {c : Char} (hc : isNameStart c = false) :
    startsName (behind ++ c :: back) = startsName behind := by
  cases behind with
  | nil => exact hc
  | cons d ds => rfl

theorem tokensOf_record :
    tokensOf (Notation.bracketed '{' '}' [labelled label.toList behind]) =
      .leftBrace :: tokensOf (labelled label.toList (behind ++ ['}'])) := by
  rw [← tokensOf_mark (c := '{') rfl]
  simp [Notation.bracketed, joinWith, labelled]

/-- A label in a record is read apart from its type if no name begins behind the colon. -/
theorem parseChars_record_labelled (hlabel : label.toList ∈ nameLanguage)
    (ht : TypeExpr.parseChars behind = .ok t) (h : startsName behind = false) :
    TypeExpr.parseChars (Notation.bracketed '{' '}' [labelled label.toList behind]) =
      .ok (.record [.typed label t]) := by
  have hstarts : startsName (behind ++ ['}']) = false := (startsName_append rfl).trans h
  have hclosing : tokensOf (behind ++ ['}']) = tokensOf behind ++ [.rightBrace] :=
    tokensOf_append_closing ht rfl (by decide) rfl
  rw [parseChars_eq_ok_iff, tokensOf_record, tokensOf_labelled hlabel hstarts, hclosing]
  exact Grammar.mem_readType_record label (parseChars_eq_ok_iff.mp ht)

/-- A label in a record is read apart from its type exactly if no name begins behind the colon.
-/
theorem parseChars_record_iff (hlabel : isIdentifier label.toList = true)
    (ht : TypeExpr.parseChars behind = .ok t) :
    TypeExpr.parseChars (Notation.bracketed '{' '}' [labelled label.toList behind]) =
      .ok (.record [.typed label t]) ↔ startsName behind = false := by
  refine ⟨fun h => ?_, parseChars_record_labelled (mem_nameLanguage_of_isIdentifier hlabel) ht⟩
  obtain ⟨k, d, -, htree⟩ := exists_preferred_of_parseChars h
  obtain ⟨rest, hrest⟩ := Grammar.exists_label_of_tree_record d htree
  rw [tokensOf_record] at hrest
  have hstarts := not_startsName_of_tokensOf hlabel (List.cons.inj hrest).2
  exact (startsName_append rfl).symm.trans hstarts

theorem tokensOf_arrow :
    tokensOf (Notation.arrow [labelled label.toList behind] cs) = .leftParen ::
      tokensOf (labelled label.toList (behind ++ ')' :: ' ' :: '=' :: '>' :: ' ' :: cs)) := by
  rw [← tokensOf_mark (c := '(') rfl]
  simp [Notation.arrow, Notation.bracketed, joinWith, labelled]

/-- A label of a parameter is read apart from its type exactly if no name begins behind the
colon. -/
theorem parseChars_arrow_iff (hlabel : isIdentifier label.toList = true)
    (ht : TypeExpr.parseChars behind = .ok t) (hreturns : TypeExpr.parseChars cs = .ok returns) :
    TypeExpr.parseChars (Notation.arrow [labelled label.toList behind] cs) =
      .ok (.arrow [.typed label t] returns) ↔ startsName behind = false := by
  have hstarts : startsName (behind ++ ')' :: ' ' :: '=' :: '>' :: ' ' :: cs) =
      startsName behind := startsName_append rfl
  rw [← hstarts]
  constructor
  · intro h
    obtain ⟨k, d, -, htree⟩ := exists_preferred_of_parseChars h
    obtain ⟨rest, hrest⟩ := Grammar.exists_label_of_tree_arrow d htree
    rw [tokensOf_arrow] at hrest
    exact not_startsName_of_tokensOf hlabel (List.cons.inj hrest).2
  · intro h
    -- behind the parameter there are a parenthesis and an arrow, which no name takes in
    have hsign : tokensOf (' ' :: '=' :: '>' :: ' ' :: cs) =
        .equals true :: .greater :: tokensOf cs := by
      rw [tokensOf_cons_spacing rfl, tokensOf_mark rfl, tokensOf_mark rfl,
        tokensOf_cons_spacing rfl]
      rfl
    have hclosing : tokensOf (behind ++ ')' :: ' ' :: '=' :: '>' :: ' ' :: cs) =
        tokensOf behind ++ .rightParen :: .equals true :: .greater :: tokensOf cs := by
      rw [← hsign]
      exact tokensOf_append_closing ht rfl (by decide) rfl
    rw [parseChars_eq_ok_iff, tokensOf_arrow,
      tokensOf_labelled (mem_nameLanguage_of_isIdentifier hlabel) h, hclosing]
    exact Grammar.mem_readType_arrow label (parseChars_eq_ok_iff.mp ht)
      (parseChars_eq_ok_iff.mp hreturns)

/-- With a space behind the colon a record and a function type with one labelled type are read
by their label and the type. Without the space they are read so if and only if the text of the
type begins no name. -/
theorem parse_labelled (label text : String) (t : TypeExpr)
    (hlabel : isIdentifier label.toList = true) (ht : TypeExpr.parse text = .ok t) :
    TypeExpr.parse (.ofList (Notation.bracketed '{' '}'
        [Notation.typed label.toList text.toList])) = .ok (.record [.typed label t]) ∧
    (TypeExpr.parse (.ofList (Notation.bracketed '{' '}'
        [labelled label.toList text.toList])) = .ok (.record [.typed label t]) ↔
      startsName text.toList = false) ∧
    ∀ (result : String) (returns : TypeExpr), TypeExpr.parse result = .ok returns →
      TypeExpr.parse (.ofList (Notation.arrow [Notation.typed label.toList text.toList]
          result.toList)) = .ok (.arrow [.typed label t] returns) ∧
      (TypeExpr.parse (.ofList (Notation.arrow [labelled label.toList text.toList]
          result.toList)) = .ok (.arrow [.typed label t] returns) ↔
        startsName text.toList = false) := by
  simp only [TypeExpr.parse, String.toList_ofList] at ht ⊢
  have hspaced := parseChars_space ht
  exact ⟨(parseChars_record_iff hlabel hspaced).mpr rfl, parseChars_record_iff hlabel ht,
    fun _ _ hreturns => ⟨(parseChars_arrow_iff hlabel hspaced hreturns).mpr rfl,
      parseChars_arrow_iff hlabel ht hreturns⟩⟩

/-- A function type and an operator in front need no space behind the colon. -/
theorem parse_labelled_marked :
    TypeExpr.parse "\x7bon:(e: Event) => void\x7d" =
        .ok (.record [.typed "on" (.arrow [.typed "e" (.name "Event")] (.name "void"))]) ∧
      TypeExpr.parse "(x:?T) => A<b=>" =
        .ok (.arrow [.typed "x" (.nullable (.name "T"))]
          (.generic "A" [.optional (.name "b")])) := by
  have hfunction : TypeExpr.parse "(e: Event) => void" =
      .ok (.arrow [.typed "e" (.name "Event")] (.name "void")) := by
    decide +kernel
  have hnullable : TypeExpr.parse "?T" = .ok (.nullable (.name "T")) := by
    decide +kernel
  have hreturns : TypeExpr.parse "A<b=>" = .ok (.generic "A" [.optional (.name "b")]) := by
    decide +kernel
  obtain ⟨-, hrecord, -⟩ := parse_labelled "on" "(e: Event) => void" _ rfl hfunction
  obtain ⟨-, -, harrow⟩ := parse_labelled "x" "?T" _ rfl hnullable
  exact ⟨hrecord.mpr rfl, (harrow "A<b=>" _ hreturns).2.mpr rfl⟩

/-- With no space between them a label and a name are one name. A letter that is not ASCII
begins no label, with or without the space. -/
theorem not_parse_labelled_name :
    TypeExpr.parse "\x7ba:b\x7d" = .ok (.record [.bare "a:b"]) ∧
      (TypeExpr.parse "\x7bé: b\x7d").toOption = none ∧
      ¬ ∀ (label text : String) (t : TypeExpr), isIdentifier label.toList = true →
        TypeExpr.parse text = .ok t →
          TypeExpr.parse (.ofList (Notation.bracketed '{' '}'
            [labelled label.toList text.toList])) = .ok (.record [.typed label t]) := by
  have hjoined : TypeExpr.parse "\x7ba:b\x7d" = .ok (.record [.bare "a:b"]) := by
    decide +kernel
  refine ⟨hjoined, by decide +kernel, fun h => ?_⟩
  have hname := h "a" "b" (.name "b") rfl (by decide +kernel)
  cases hjoined.symm.trans hname

end DocComment
