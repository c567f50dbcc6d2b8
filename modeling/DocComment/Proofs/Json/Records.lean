import DocComment.Proofs.Json.Decoding

/-!
# Records in their JSON texts

The JSON text of a record is read as the value of the record, and different records
have different texts (`Record.jsonChars_inj`). The text is plain ASCII, whatever the
record holds (`Record.ascii_jsonChars`).
-/

namespace DocComment

open Text

namespace JsonValue

/-! ## Values of records -/

theorem ofString_inj {s t : String} (h : ofString s = ofString t) : s = t :=
  String.toList_inj.mp (text.inj h)

/-- A missing text and a text that is there are different values. -/
theorem ofOption_inj {s t : Option String} (h : ofOption s = ofOption t) : s = t := by
  cases s with
  | none =>
    cases t with
    | none => rfl
    | some t => cases h
  | some s =>
    cases t with
    | none => cases h
    | some t => rw [ofString_inj h]

mutual

/-- Different shapes are different values. -/
theorem ofShape_inj : (shape other : Shape) → ofShape shape = ofShape other → shape = other
  | .absent, .absent, _ => rfl
  | .bare name, .bare other, h => by
    simp only [ofShape, object.injEq, List.cons.injEq, Prod.mk.injEq, field, and_true,
      true_and] at h
    rw [ofString_inj h]
  | .composite name members, .composite other others, h => by
    simp only [ofShape, object.injEq, List.cons.injEq, Prod.mk.injEq, field, list.injEq, and_true,
      true_and] at h
    rw [ofString_inj h.2, ofShapes_inj members others h.1]
  | .bare _, .composite _ _, h | .composite _ _, .bare _, h => by
    simp [ofShape] at h

theorem ofShapes_inj : (shapes others : List Shape) → ofShapes shapes = ofShapes others →
    shapes = others
  | [], [], _ => rfl
  | shape :: shapes, other :: others, h => by
    rw [ofShapes, ofShapes, List.cons.injEq] at h
    rw [ofShape_inj shape other h.1, ofShapes_inj shapes others h.2]

end

/-- Different parameters are different values. -/
theorem ofParam_inj {param other : Param} (h : ofParam param = ofParam other) : param = other := by
  simp only [ofParam, object.injEq, List.cons.injEq, Prod.mk.injEq, field, and_true,
    true_and] at h
  obtain ⟨hdescription, hname, hoptional, htype⟩ := h
  cases param
  cases other
  congr
  · exact ofString_inj hname
  · exact ofOption_inj hdescription
  · exact ofShape_inj _ _ htype
  · exact bool.inj hoptional

theorem ofReturns_inj {returns other : Returns} (h : ofReturns returns = ofReturns other) :
    returns = other := by
  simp only [ofReturns, object.injEq, List.cons.injEq, Prod.mk.injEq, field, and_true,
    true_and] at h
  obtain ⟨hdescription, htype⟩ := h
  cases returns
  cases other
  congr
  · exact ofOption_inj hdescription
  · exact ofShape_inj _ _ htype

/-- Different records are different values. -/
theorem ofRecord_inj {record other : Record} (h : ofRecord record = ofRecord other) :
    record = other := by
  simp only [ofRecord, object.injEq, List.cons.injEq, Prod.mk.injEq, field, list.injEq, and_true,
    true_and] at h
  obtain ⟨hdescription, hparams, hreturns⟩ := h
  have hparams : record.params = other.params :=
    (List.map_inj_right fun _ _ => ofParam_inj).mp hparams
  -- a result that is missing is `null`, and one that is there is an object
  have hreturns : record.returns = other.returns := by
    cases hrecord : record.returns with
    | none =>
      cases hother : other.returns with
      | none => rfl
      | some found => simp [hrecord, hother, ofReturns] at hreturns
    | some returns =>
      cases hother : other.returns with
      | none => simp [hrecord, hother, ofReturns] at hreturns
      | some found =>
        simp only [hrecord, hother, Option.map_some, Option.getD_some] at hreturns
        rw [ofReturns_inj hreturns]
  cases record
  cases other
  congr
  exact ofOption_inj hdescription

/-! ## Texts -/

def Ascii (cs : List Char) : Prop :=
  ∀ c ∈ cs, c.toNat ≤ 0x7f

variable {front back cs : List Char}

theorem Ascii.append (h : Ascii front) (h' : Ascii back) : Ascii (front ++ back) :=
  List.forall_mem_append.mpr ⟨h, h'⟩

/-- Texts of ASCII, put together, are ASCII. -/
theorem ascii_flatMap {α : Type} {items : List α} {f : α → List Char}
    (h : ∀ item ∈ items, Ascii (f item)) : Ascii (items.flatMap f) := by
  intro c hc
  obtain ⟨item, hitem, hmem⟩ := List.mem_flatMap.mp hc
  exact h item hitem c hmem

theorem ascii_hexDigits (width n : Nat) : Ascii (hexDigits width n) := by
  have hdigit (n : Nat) (h : n < 16) : (hexDigit n).toNat ≤ 0x7f := by decide +revert
  induction width generalizing n with
  | zero => exact List.forall_mem_nil _
  | succ width ih =>
    exact (ih (n / 16)).append (List.forall_mem_singleton.mpr (hdigit _ (Nat.mod_lt n (by decide))))

/-- However a character is written, it is written in ASCII. -/
theorem ascii_escapeChar (c : Char) : Ascii (escapeChar c) := by
  have hescape {d : Char} (hd : d.toNat ≤ 0x7f) : Ascii ['\\', d] :=
    List.forall_mem_cons.mpr ⟨by decide, List.forall_mem_singleton.mpr hd⟩
  rcases escapeChar_cases c with ⟨heq, -, -, -, hhigh⟩ | ⟨letter, heq, hletter⟩ | heq
  · rw [heq]
    exact List.forall_mem_singleton.mpr (Nat.le_trans (Char.le_def.mp hhigh) (by decide))
  · -- the letters behind a backslash are few enough to look at each
    have hascii : letter.toNat ≤ 0x7f := by
      unfold escaped? at hletter
      split at hletter
      case h_9 => cases hletter
      all_goals decide
    rw [heq]
    exact hescape hascii
  · rw [heq]
    exact ascii_flatMap fun unit _ => (hescape (by decide)).append (ascii_hexDigits 4 unit)

theorem ascii_quotedText (chars : List Char) : Ascii (quotedText chars) := by
  have hquote : Ascii ['"'] := List.forall_mem_singleton.mpr (by decide)
  exact (hquote.append (ascii_flatMap fun c _ => ascii_escapeChar c)).append hquote

theorem ascii_newLine (level : Nat) : Ascii (newLine level) := by
  refine List.forall_mem_cons.mpr ⟨by decide, fun c hc => ?_⟩
  rw [List.eq_of_mem_replicate hc]
  decide

/-- Items of ASCII between two signs of ASCII. -/
theorem ascii_block {opening closing : Char} (hopening : opening.toNat ≤ 0x7f)
    (hclosing : closing.toNat ≤ 0x7f) (level : Nat) {items : List (List Char)}
    (h : ∀ item ∈ items, Ascii item) : Ascii (block opening closing level items) := by
  have hfirst : Ascii [opening] := List.forall_mem_singleton.mpr hopening
  have hlast : Ascii [closing] := List.forall_mem_singleton.mpr hclosing
  have hcomma : Ascii [','] := List.forall_mem_singleton.mpr (by decide)
  cases items with
  | nil => exact hfirst.append hlast
  | cons item items =>
    obtain ⟨hitem, hitems⟩ := List.forall_mem_cons.mp h
    have hlater : Ascii (items.flatMap fun next => ',' :: newLine (level + 1) ++ next) :=
      ascii_flatMap fun next hnext => (hcomma.append (ascii_newLine _)).append (hitems next hnext)
    have hfront := (hfirst.append (ascii_newLine (level + 1))).append hitem
    exact ((hfront.append hlater).append (ascii_newLine level)).append hlast

mutual

/-- A value is written in ASCII. -/
theorem ascii_write : (value : JsonValue) → (level : Nat) → Ascii (value.write level)
  | null, _ | bool true, _ | bool false, _ => by
    unfold Ascii
    simp [write]
  | .text chars, _ => ascii_quotedText chars
  | list items, level =>
    ascii_block (by decide) (by decide) level (ascii_writeItems items (level + 1))
  | object fields, level =>
    ascii_block (by decide) (by decide) level (ascii_writeFields fields (level + 1))

theorem ascii_writeItems : (items : List JsonValue) → (level : Nat) →
    ∀ text ∈ writeItems level items, Ascii text
  | [], _ => List.forall_mem_nil _
  | item :: items, level =>
    List.forall_mem_cons.mpr ⟨ascii_write item level, ascii_writeItems items level⟩

theorem ascii_writeFields : (fields : List (List Char × JsonValue)) → (level : Nat) →
    ∀ text ∈ writeFields level fields, Ascii text
  | [], _ => List.forall_mem_nil _
  | (key, value) :: fields, level => by
    have hcolon : Ascii [':', ' '] :=
      List.forall_mem_cons.mpr ⟨by decide, List.forall_mem_singleton.mpr (by decide)⟩
    refine List.forall_mem_cons.mpr ⟨?_, ascii_writeFields fields level⟩
    exact (ascii_quotedText key).append (hcolon.append (ascii_write value level))

end

end JsonValue

/-! ## Texts of records -/

/-- The text of a record is read as the value of the record. -/
theorem Record.decode_jsonChars (record : Record) :
    JsonValue.decode record.jsonChars = some (.ofRecord record) :=
  JsonValue.decode_write _ 0

/-- Different records have different texts. -/
theorem Record.jsonChars_inj {record other : Record} (h : record.jsonChars = other.jsonChars) :
    record = other :=
  JsonValue.ofRecord_inj (JsonValue.write_inj h)

theorem Record.ascii_jsonChars (record : Record) : JsonValue.Ascii record.jsonChars :=
  JsonValue.ascii_write _ 0

end DocComment
