import DocComment.Proofs.Json.Reader
import Mathlib.Data.List.Forall2

/-!
# Reading what has been written

A value that is written is read as itself, at every level of indentation
(`decode_write`). Its text is cut into its tokens (`lexes_write`): spaces around tokens
do not matter, and a character of a string is read back from its units. The tokens of
a value take the machine from where a value is wanted to where it has been read,
whatever is open around it (`leads_tokens`).
-/

namespace DocComment.JsonValue

open Text

variable {c : Char} {cs front back : List Char} {first second : List JsonToken}
  {value : JsonValue}

/-! ## Characters and units -/

theorem char?_toNat (c : Char) : char? c.toNat = some c := by
  have hvalid : c.toNat.isValidChar := c.valid
  rw [char?, if_pos hvalid, Char.ofNat_toNat]

/-- The units of a character are read as the character. -/
theorem charsOfUnits?_units (c : Char) (rest : List Nat) :
    charsOfUnits? none (units c ++ rest) = (charsOfUnits? none rest).map (c :: ·) := by
  have hvalid : c.toNat < 0xd800 ∨ 0xdfff < c.toNat ∧ c.toNat < 0x110000 := c.valid
  simp only [units]
  split
  · have hsingle : ¬ (0xd800 ≤ c.toNat ∧ c.toNat < 0xdc00) := by omega
    rw [List.singleton_append, charsOfUnits?, if_neg hsingle, char?_toNat, Option.bind_some]
  · have hhigh : 0xd800 ≤ 0xd800 + (c.toNat - 0x10000) / 0x400 ∧
        0xd800 + (c.toNat - 0x10000) / 0x400 < 0xdc00 := by omega
    have hlow : 0xdc00 ≤ 0xdc00 + (c.toNat - 0x10000) % 0x400 ∧
        0xdc00 + (c.toNat - 0x10000) % 0x400 < 0xe000 := by omega
    have hwhole : 0x10000 + 0x400 * (0xd800 + (c.toNat - 0x10000) / 0x400 - 0xd800) +
        (0xdc00 + (c.toNat - 0x10000) % 0x400 - 0xdc00) = c.toNat := by omega
    rw [List.cons_append, List.singleton_append, charsOfUnits?, if_pos hhigh, charsOfUnits?,
      if_pos hlow, hwhole, char?_toNat, Option.bind_some]

/-- The units of a text are read as the text. -/
theorem charsOfUnits?_flatMap (cs : List Char) :
    charsOfUnits? none (cs.flatMap units) = some cs := by
  induction cs with
  | nil => rfl
  | cons c cs ih => rw [List.flatMap_cons, charsOfUnits?_units, ih, Option.map_some]

/-- A character has one unit or two, and each fits into four digits. -/
theorem units_lt (c : Char) : ∀ unit ∈ units c, unit < 0x10000 := by
  have hvalid : c.toNat < 0xd800 ∨ 0xdfff < c.toNat ∧ c.toNat < 0x110000 := c.valid
  simp only [units]
  split
  · simpa
  · simp only [List.mem_cons, List.not_mem_nil, or_false, forall_eq_or_imp, forall_eq]
    omega

theorem hexValue?_hexDigit {n : Nat} (h : n < 16) : hexValue? (hexDigit n) = some n := by
  decide +revert

/-- Four digits write a unit. -/
theorem exists_hexDigits {unit : Nat} (h : unit < 0x10000) :
    ∃ a b c d, hexDigits 4 unit = [a, b, c, d] ∧ unit? a b c d = some unit := by
  refine ⟨_, _, _, _, rfl, ?_⟩
  have hfirst := hexValue?_hexDigit (Nat.mod_lt (unit / 16 / 16 / 16) (by decide))
  have hsecond := hexValue?_hexDigit (Nat.mod_lt (unit / 16 / 16) (by decide))
  have hthird := hexValue?_hexDigit (Nat.mod_lt (unit / 16) (by decide))
  have hfourth := hexValue?_hexDigit (Nat.mod_lt unit (by decide))
  have hwhole : 0x1000 * (unit / 16 / 16 / 16 % 16) + 0x100 * (unit / 16 / 16 % 16) +
      0x10 * (unit / 16 % 16) + unit % 16 = unit := by omega
  rw [unit?, hfirst, hsecond, hthird, hfourth]
  exact congrArg some hwhole

/-! ## Strings -/

/-- An escaped unit is read as the unit. -/
theorem tokensFrom_unit {unit : Nat} (h : unit < 0x10000) (read : List Nat) (cs : List Char) :
    tokensFrom (.inText read) ('\\' :: 'u' :: hexDigits 4 unit ++ cs) =
      tokensFrom (.inText (read ++ [unit])) cs := by
  obtain ⟨a, b, c, d, hdigits, hunit⟩ := exists_hexDigits h
  rw [hdigits]
  simp only [List.cons_append, List.nil_append]
  rw [tokensFrom, hunit, Option.bind_some]

/-- Escaped units are read one by one. -/
theorem tokensFrom_units {read more : List Nat} (h : ∀ unit ∈ more, unit < 0x10000)
    (cs : List Char) :
    tokensFrom (.inText read) (more.flatMap (fun unit => '\\' :: 'u' :: hexDigits 4 unit) ++ cs) =
      tokensFrom (.inText (read ++ more)) cs := by
  induction more generalizing read with
  | nil => simp
  | cons unit more ih =>
    obtain ⟨hunit, hmore⟩ := List.forall_mem_cons.mp h
    rw [List.flatMap_cons, List.append_assoc, tokensFrom_unit hunit, ih hmore,
      List.append_assoc, List.singleton_append]

/-- A character that needs no escape stands for itself. -/
theorem tokensFrom_plain (hquote : c ≠ '"') (hslash : c ≠ '\\') (hprintable : ' ' ≤ c)
    (read : List Nat) (cs : List Char) :
    tokensFrom (.inText read) (c :: cs) = tokensFrom (.inText (read ++ units c)) cs := by
  rw [tokensFrom, if_neg (Char.not_lt.mpr hprintable)]
  · exact fun h => hquote h
  · rintro a b c' d ds h
    exact absurd h hslash
  · rintro d ds h
    exact absurd h hslash

/-- A character behind a backslash stands for the units of what it escapes. -/
theorem tokensFrom_escaped {letter : Char} (h : escaped? letter = some c) (read : List Nat)
    (cs : List Char) :
    tokensFrom (.inText read) ('\\' :: letter :: cs) =
      tokensFrom (.inText (read ++ units c)) cs := by
  rw [tokensFrom, h, Option.bind_some]
  rintro _ _ _ _ _ rfl -
  cases h

/-- A character is written as itself, behind a backslash, or by its units. -/
theorem escapeChar_cases (c : Char) :
    (escapeChar c = [c] ∧ c ≠ '"' ∧ c ≠ '\\' ∧ ' ' ≤ c ∧ c ≤ '~') ∨
    (∃ letter, escapeChar c = ['\\', letter] ∧ escaped? letter = some c) ∨
    escapeChar c = (units c).flatMap fun unit => '\\' :: 'u' :: hexDigits 4 unit := by
  -- in the order in which the writer asks: the signs, what is shown as it is, the five letters, all
  -- others
  unfold escapeChar
  split
  · next h =>
    have hsign : c = '"' ∨ c = '\\' := by simpa using h
    exact .inr (.inl ⟨c, rfl, by rcases hsign with rfl | rfl <;> rfl⟩)
  next hsign =>
  obtain ⟨hquote, hslash⟩ : c ≠ '"' ∧ c ≠ '\\' := by simpa using hsign
  split
  · next h =>
    obtain ⟨hlow, hhigh⟩ : ' ' ≤ c ∧ c ≤ '~' := by simpa using h
    exact .inl ⟨rfl, hquote, hslash, hlow, hhigh⟩
  split
  · next h => exact .inr (.inl ⟨'n', rfl, h ▸ rfl⟩)
  split
  · next h => exact .inr (.inl ⟨'r', rfl, h ▸ rfl⟩)
  split
  · next h => exact .inr (.inl ⟨'t', rfl, h ▸ rfl⟩)
  split
  · next h => exact .inr (.inl ⟨'b', rfl, h ▸ rfl⟩)
  split
  · next h => exact .inr (.inl ⟨'f', rfl, h ▸ rfl⟩)
  · exact .inr (.inr rfl)

/-- A written character is read as its units. -/
theorem tokensFrom_escapeChar (c : Char) (read : List Nat) (cs : List Char) :
    tokensFrom (.inText read) (escapeChar c ++ cs) = tokensFrom (.inText (read ++ units c)) cs := by
  rcases escapeChar_cases c with ⟨heq, hquote, hslash, hlow, -⟩ | ⟨letter, heq, hletter⟩ | heq
  · rw [heq]
    exact tokensFrom_plain hquote hslash hlow read cs
  · rw [heq]
    exact tokensFrom_escaped hletter read cs
  · rw [heq]
    exact tokensFrom_units (units_lt c) cs

/-- The characters of a text are read as its units. -/
theorem tokensFrom_flatMap (text : List Char) (read : List Nat) (cs : List Char) :
    tokensFrom (.inText read) (text.flatMap escapeChar ++ cs) =
      tokensFrom (.inText (read ++ text.flatMap units)) cs := by
  induction text generalizing read with
  | nil => simp
  | cons c text ih =>
    rw [List.flatMap_cons, List.append_assoc, tokensFrom_escapeChar, ih, List.flatMap_cons,
      List.append_assoc]

/-! ## Texts and tokens -/

/-- A text is cut into some tokens, whatever stands behind it. -/
def Lexes (text : List Char) (tokens : List JsonToken) : Prop :=
  ∀ cs, tokensFrom .outside (text ++ cs) = (tokensFrom .outside cs).map (tokens ++ ·)

/-- Texts are cut one behind the other. -/
theorem Lexes.append (h : Lexes front first) (h' : Lexes back second) :
    Lexes (front ++ back) (first ++ second) := by
  intro cs
  rw [List.append_assoc, h, h', Option.map_map]
  refine Option.map_congr fun found _ => ?_
  rw [Function.comp_apply, List.append_assoc]

theorem lexes_nil : Lexes [] [] := by
  intro cs
  simp

theorem lexes_sign {token : JsonToken} (h : JsonToken.ofSign? c = some token) :
    Lexes [c] [token] := by
  intro cs
  unfold JsonToken.ofSign? at h
  split at h
  all_goals cases h
  all_goals rfl

/-- Spaces make no tokens. -/
theorem lexes_spaces (count : Nat) : Lexes (List.replicate count ' ') [] := by
  induction count with
  | zero => exact lexes_nil
  | succ count ih =>
    intro cs
    exact ih cs

theorem lexes_newLine (level : Nat) : Lexes (newLine level) [] := by
  intro cs
  exact lexes_spaces (2 * level) cs

/-- A text between quotes is one token. -/
theorem lexes_quotedText (chars : List Char) : Lexes (quotedText chars) [.text chars] := by
  intro cs
  have hopened : tokensFrom .outside (quotedText chars ++ cs) =
      tokensFrom (.inText []) (chars.flatMap escapeChar ++ '"' :: cs) := by
    simp only [quotedText, List.cons_append, List.append_assoc, List.nil_append]
    rfl
  rw [hopened, tokensFrom_flatMap, List.nil_append, tokensFrom, charsOfUnits?_flatMap,
    Option.bind_some]
  rfl

/-! ## Values -/

/-- Parts with commas between them. -/
def separated : List (List JsonToken) → List JsonToken
  | [] => []
  | part :: parts => part ++ parts.flatMap (.comma :: ·)

mutual

def tokens : JsonValue → List JsonToken
  | null => [.null]
  | bool flag => [.bool flag]
  | text chars => [.text chars]
  | list items => .openList :: (separated (tokensOfItems items) ++ [.closeList])
  | object fields => .openObject :: (separated (tokensOfFields fields) ++ [.closeObject])

def tokensOfItems : List JsonValue → List (List JsonToken)
  | [] => []
  | item :: items => item.tokens :: tokensOfItems items

def tokensOfFields : List (List Char × JsonValue) → List (List JsonToken)
  | [] => []
  | (key, value) :: fields => (.text key :: .colon :: value.tokens) :: tokensOfFields fields

end

/-- Each later item stands behind a comma on a line of its own. -/
theorem lexes_later {texts : List (List Char)} {parts : List (List JsonToken)}
    (h : List.Forall₂ Lexes texts parts) (level : Nat) :
    Lexes (texts.flatMap fun next => ',' :: newLine level ++ next)
      (parts.flatMap (.comma :: ·)) := by
  induction h with
  | nil => exact lexes_nil
  | cons hnext hlater ih =>
    have hcomma : Lexes [','] [.comma] := lexes_sign rfl
    exact ((hcomma.append (lexes_newLine level)).append hnext).append ih

/-- Between its signs, a block is cut into the tokens of its items. -/
theorem lexes_block {opening closing : Char} {first last : JsonToken}
    (hopening : JsonToken.ofSign? opening = some first)
    (hclosing : JsonToken.ofSign? closing = some last) (level : Nat)
    {texts : List (List Char)} {parts : List (List JsonToken)}
    (h : List.Forall₂ Lexes texts parts) :
    Lexes (block opening closing level texts) (first :: (separated parts ++ [last])) := by
  have hfirst := lexes_sign hopening
  have hlast := lexes_sign hclosing
  cases h with
  | nil => exact hfirst.append hlast
  | @cons item part items parts hitem hitems =>
    have hfront := (hfirst.append (lexes_newLine (level + 1))).append hitem
    have hback := (lexes_newLine level).append hlast
    have hwhole := (hfront.append (lexes_later hitems (level + 1))).append hback
    simpa only [block, separated, List.append_assoc, List.cons_append, List.nil_append] using hwhole

mutual

/-- The text of a value is cut into its tokens. -/
theorem lexes_write : (value : JsonValue) → (level : Nat) → Lexes (value.write level) value.tokens
  | null, _ => fun _ => rfl
  | bool true, _ => fun _ => rfl
  | bool false, _ => fun _ => rfl
  | text chars, _ => lexes_quotedText chars
  | list items, level => lexes_block rfl rfl level (lexes_writeItems items (level + 1))
  | object fields, level => lexes_block rfl rfl level (lexes_writeFields fields (level + 1))

theorem lexes_writeItems : (items : List JsonValue) → (level : Nat) →
    List.Forall₂ Lexes (writeItems level items) (tokensOfItems items)
  | [], _ => .nil
  | item :: items, level => .cons (lexes_write item level) (lexes_writeItems items level)

theorem lexes_writeFields : (fields : List (List Char × JsonValue)) → (level : Nat) →
    List.Forall₂ Lexes (writeFields level fields) (tokensOfFields fields)
  | [], _ => .nil
  | (key, value) :: fields, level => by
    have hcolon : Lexes [':', ' '] [.colon] :=
      (lexes_sign rfl).append (lexes_spaces 1)
    have hfield := ((lexes_quotedText key).append hcolon).append (lexes_write value level)
    refine .cons ?_ (lexes_writeFields fields level)
    simpa only [List.append_assoc, List.cons_append, List.nil_append] using hfield

end

/-! ## Reading -/

/-- The tokens take the machine from one state to another, whatever stands behind
them. -/
def Leads (tokens : List JsonToken) (state after : JsonState) : Prop :=
  ∀ rest, state.run (tokens ++ rest) = after.run rest

theorem Leads.append {state between after : JsonState} (h : Leads first state between)
    (h' : Leads second between after) : Leads (first ++ second) state after := by
  intro rest
  rw [List.append_assoc, h, h']

/-- The first token of a value does not close a list, so it is read the same where an
item or the end of the list may follow. -/
theorem leads_listOpened {after : JsonState} {frames : List JsonFrame} (value : JsonValue)
    (h : Leads value.tokens (.valueWanted (.list [] :: frames)) after) :
    Leads value.tokens (.listOpened frames) after := by
  intro rest
  rw [← h rest]
  cases value with
  | null => rfl
  | bool flag => rfl
  | text chars => rfl
  | list items => rfl
  | object fields => rfl

mutual

/-- The tokens of a value lead to where the value has been read. -/
theorem leads_tokens : (value : JsonValue) → (frames : List JsonFrame) →
    Leads value.tokens (.valueWanted frames) (.behind value frames)
  | null, _ => fun _ => rfl
  | bool _, _ => fun _ => rfl
  | .text _, _ => fun _ => rfl
  | list [], _ => fun _ => rfl
  -- behind the first item the machine goes on with the later ones, one after the other
  | list (item :: items), frames => by
    have hfirst := leads_listOpened item (leads_tokens item (.list [] :: frames))
    have hwhole := hfirst.append (leads_laterItems items [] item frames)
    intro rest
    rw [List.nil_append] at hwhole
    rw [← hwhole rest, tokens, tokensOfItems, separated]
    simp only [List.append_assoc, List.cons_append]
    rfl
  | object [], _ => fun _ => rfl
  | object ((key, value) :: fields), frames => by
    have hvalue := leads_tokens value (.object [] key :: frames)
    have hwhole := hvalue.append (leads_laterFields fields [] key value frames)
    intro rest
    rw [List.nil_append] at hwhole
    rw [← hwhole rest, tokens, tokensOfFields, separated]
    simp only [List.append_assoc, List.cons_append]
    rfl

/-- Behind an item, later items and the sign that closes the list lead behind it. -/
theorem leads_laterItems : (later items : List JsonValue) → (item : JsonValue) →
    (frames : List JsonFrame) →
    Leads ((tokensOfItems later).flatMap (.comma :: ·) ++ [.closeList])
      (.behind item (.list items :: frames)) (.behind (.list (items ++ item :: later)) frames)
  | [], _, _, _ => fun _ => rfl
  | next :: later, items, item, frames => by
    have hnext := leads_tokens next (.list (items ++ [item]) :: frames)
    have hwhole := hnext.append (leads_laterItems later (items ++ [item]) next frames)
    intro rest
    rw [List.append_assoc items, List.singleton_append] at hwhole
    rw [← hwhole rest, tokensOfItems, List.flatMap_cons]
    simp only [List.append_assoc, List.cons_append]
    rfl

/-- Behind a field, later fields and the sign that closes the object lead behind it. -/
theorem leads_laterFields : (later fields : List (List Char × JsonValue)) → (key : List Char) →
    (value : JsonValue) → (frames : List JsonFrame) →
    Leads ((tokensOfFields later).flatMap (.comma :: ·) ++ [.closeObject])
      (.behind value (.object fields key :: frames))
      (.behind (.object (fields ++ (key, value) :: later)) frames)
  | [], _, _, _, _ => fun _ => rfl
  | (nextKey, next) :: later, fields, key, value, frames => by
    have hnext := leads_tokens next (.object (fields ++ [(key, value)]) nextKey :: frames)
    have hwhole :=
      hnext.append (leads_laterFields later (fields ++ [(key, value)]) nextKey next frames)
    intro rest
    rw [List.append_assoc fields, List.singleton_append] at hwhole
    rw [← hwhole rest, tokensOfFields, List.flatMap_cons]
    simp only [List.append_assoc, List.cons_append]
    rfl

end

/-- A value that is written is read as itself. -/
theorem decode_write (value : JsonValue) (level : Nat) :
    decode (value.write level) = some value := by
  have hlexes := lexes_write value level []
  have hleads := leads_tokens value [] []
  rw [List.append_nil] at hlexes hleads
  rw [decode, hlexes]
  simp only [tokensFrom, Option.map_some, List.append_nil, Option.bind_eq_bind, Option.bind_some,
    hleads]
  rfl

-- two escapes are one character
example : decode "[\"\\ud83d\\ude04\", true ]".toList = some (list [.text ['😄'], bool true]) := rfl

/-- Values with the same text are the same. -/
theorem write_inj {value other : JsonValue} {level level' : Nat}
    (h : value.write level = other.write level') : value = other := by
  have hvalue := decode_write value level
  rw [h, decode_write other level'] at hvalue
  exact (Option.some.inj hvalue).symm

end DocComment.JsonValue
