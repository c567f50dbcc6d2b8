import DocComment.Text.Emoji

/-!
# Emoji codes

A text is cut into its emoji codes from the left (`emojiCodes`). Where none of them is
known the text stays as it is (`replaceEmojiFrom_of_unknown`). A known one puts
something into the text that is not ASCII; so a text of ASCII stays as it is only if it
holds no known code (`replaceEmoji_eq_self_iff`).
-/

namespace DocComment.Text

variable {table : EmojiTable} {skip : Nat} {cs code emoji : List Char}

/-- The emoji codes of a text, without their colons, of which the first `skip`
characters belong to a code that stands in front. -/
def emojiCodesFrom : Nat → List Char → List (List Char)
  | _, [] => []
  | skip + 1, _ :: cs => emojiCodesFrom skip cs
  | 0, c :: cs =>
    match if c = ':' then emojiCode? cs else none with
    | none => emojiCodesFrom 0 cs
    | some code => code :: emojiCodesFrom (code.length + 1) cs

/-- The emoji codes of a text, known or not, without their colons. -/
def emojiCodes (cs : List Char) : List (List Char) :=
  emojiCodesFrom 0 cs

/-- No emoji code of the text is known. -/
def HoldsNoEmoji (table : EmojiTable) (cs : List Char) : Prop :=
  ∀ code ∈ emojiCodes cs, emojiOf? table code = none

/-- A code stands in front of a colon. -/
theorem eq_of_emojiCode? (h : emojiCode? cs = some code) :
    code ++ ':' :: cs.drop (code.length + 1) = cs := by
  simp only [emojiCode?] at h
  split at h
  · next hcolon =>
    obtain rfl := Option.some.inj h
    obtain ⟨rest, hrest⟩ := List.isPrefixOf_iff_prefix.mp hcolon
    obtain ⟨front, hfront⟩ := List.takeWhile_prefix (l := cs) fun c => !isBlank c && c != ':'
    generalize cs.takeWhile (fun c => !isBlank c && c != ':') = code at hrest hfront ⊢
    subst hfront
    rw [List.drop_left] at hrest
    rw [← hrest, ← List.drop_drop, List.drop_left]
    rfl
  · cases h

/-- A colon and a code are replaced if the code is known, and stay otherwise. -/
theorem replaceEmojiFrom_code (h : emojiCode? cs = some code) :
    replaceEmojiFrom table 0 (':' :: cs) =
      (emojiOf? table code).getD (':' :: code ++ [':']) ++
        replaceEmojiFrom table (code.length + 1) cs := by
  rw [replaceEmojiFrom, if_pos rfl, h]

/-- A character that begins no code stays. -/
theorem replaceEmojiFrom_cons {c : Char} (h : (if c = ':' then emojiCode? cs else none) = none) :
    replaceEmojiFrom table 0 (c :: cs) = c :: replaceEmojiFrom table 0 cs := by
  rw [replaceEmojiFrom, h]

/-- Only a colon opens a code. -/
theorem eq_colon_of_code {c : Char} (h : (if c = ':' then emojiCode? cs else none) = some code) :
    c = ':' ∧ emojiCode? cs = some code := by
  split at h
  · next hc => exact ⟨hc, h⟩
  · cases h

/-- Where no code is known, nothing is replaced. -/
theorem replaceEmojiFrom_of_unknown
    (h : ∀ code ∈ emojiCodesFrom skip cs, emojiOf? table code = none) :
    replaceEmojiFrom table skip cs = cs.drop skip := by
  fun_induction emojiCodesFrom skip cs with
  | case1 skip => simp [replaceEmojiFrom]
  | case2 skip c cs ih => rw [replaceEmojiFrom, ih h, List.drop_succ_cons]
  | case3 c cs hcode ih => rw [replaceEmojiFrom_cons hcode, ih h, List.drop_zero, List.drop_zero]
  | case4 c cs code hcode ih =>
    obtain ⟨rfl, hcode⟩ := eq_colon_of_code hcode
    obtain ⟨hunknown, hothers⟩ := List.forall_mem_cons.mp h
    rw [replaceEmojiFrom_code hcode, hunknown, Option.getD_none, ih hothers, List.cons_append,
      List.cons_append, List.append_assoc, List.singleton_append, eq_of_emojiCode? hcode,
      List.drop_zero]

/-- The emoji of a code is not plain ASCII. -/
theorem exists_foreign_of_emojiOf? (h : emojiOf? table code = some emoji) :
    ∃ c ∈ emoji, 0x7f < c.toNat := by
  obtain ⟨found, hfound, rfl⟩ := Option.map_eq_some_iff.mp h
  obtain ⟨c, hc, hforeign⟩ := table.foreign hfound
  exact ⟨c, List.mem_append_left _ hc, hforeign⟩

/-- Where a code is known, something comes into the text that is not ASCII. -/
theorem exists_foreign_of_known (hcode : code ∈ emojiCodesFrom skip cs)
    (hknown : emojiOf? table code = some emoji) :
    ∃ c ∈ replaceEmojiFrom table skip cs, 0x7f < c.toNat := by
  fun_induction emojiCodesFrom skip cs with
  | case1 skip => cases hcode
  | case2 skip c cs ih =>
    rw [replaceEmojiFrom]
    exact ih hcode
  | case3 c cs hfirst ih =>
    -- no code begins here, so the known one stands further behind
    obtain ⟨d, hd, hforeign⟩ := ih hcode
    rw [replaceEmojiFrom_cons hfirst]
    exact ⟨d, List.mem_cons_of_mem c hd, hforeign⟩
  | case4 c cs first hfirst ih =>
    obtain ⟨rfl, hfirst⟩ := eq_colon_of_code hfirst
    rw [replaceEmojiFrom_code hfirst]
    cases hemoji : emojiOf? table first with
    | some found =>
      obtain ⟨d, hd, hforeign⟩ := exists_foreign_of_emojiOf? hemoji
      exact ⟨d, List.mem_append_left _ hd, hforeign⟩
    | none =>
      -- the code that begins here is not known, so the known one is another
      have hne : code ≠ first := by
        rintro rfl
        rw [hknown] at hemoji
        cases hemoji
      obtain ⟨d, hd, hforeign⟩ := ih (List.mem_of_ne_of_mem hne hcode)
      exact ⟨d, List.mem_append_right _ hd, hforeign⟩

/-- A text of ASCII stays as it is if and only if it holds no known code. -/
theorem replaceEmoji_eq_self_iff (hascii : ∀ c ∈ cs, c.toNat ≤ 0x7f) :
    replaceEmoji table cs = cs ↔ HoldsNoEmoji table cs := by
  constructor
  · intro h code hcode
    cases hemoji : emojiOf? table code with
    | none => rfl
    | some emoji =>
      obtain ⟨c, hc, hforeign⟩ := exists_foreign_of_known hcode hemoji
      rw [← replaceEmoji, h] at hc
      exact absurd (hascii c hc) (Nat.not_le.mpr hforeign)
  · exact replaceEmojiFrom_of_unknown

end DocComment.Text
