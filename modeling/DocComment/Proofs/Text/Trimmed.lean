import DocComment.Text.Blank
import Mathlib.Data.List.TakeWhile

/-!
# Trimmed texts

A text is trimmed if trimming leaves it as it is. That is the case if neither of
its ends is blank (`trim_eq_self_iff`), and then blanks put around the text are
all that trimming takes away again (`trim_between`).
-/

namespace DocComment.Text

variable {c d : Char} {cs ds front back word : List Char}

/-- What holds of no character of a text can be computed from the text. -/
theorem forall_mem_of_all {holds : Char → Bool} (h : cs.all (!holds ·) = true) :
    ∀ c ∈ cs, holds c = false := by
  simpa using h

/-! ## One end -/

theorem trimStart_suffix (cs : List Char) : trimStart cs <:+ cs :=
  List.dropWhile_suffix isBlank

theorem trimStart_cons_of_not_isBlank (h : isBlank c = false) (cs : List Char) :
    trimStart (c :: cs) = c :: cs := by
  simp [trimStart, h]

/-- A text that does not begin with a blank has nothing to lose at its start. -/
theorem trimStart_of_head (h : ∀ c ∈ cs.head?, isBlank c = false) : trimStart cs = cs := by
  cases cs with
  | nil => rfl
  | cons c cs => exact trimStart_cons_of_not_isBlank (h c rfl) cs

/-- Only blanks are dropped from the start. -/
theorem exists_append_trimStart (cs : List Char) :
    ∃ front, (∀ c ∈ front, isBlank c = true) ∧ front ++ trimStart cs = cs :=
  ⟨cs.takeWhile isBlank, fun _ => List.mem_takeWhile_imp, List.takeWhile_append_dropWhile⟩

/-- What is left does not begin with a blank. -/
theorem head_trimStart (cs : List Char) : ∀ c ∈ (trimStart cs).head?, isBlank c = false := by
  intro c hc
  have hhead := List.head?_dropWhile_not isBlank cs
  rw [← trimStart, hc] at hhead
  simpa using hhead

theorem trimEnd_of_blank (h : ∀ c ∈ back, isBlank c = true) : trimEnd back = [] := by
  induction back with
  | nil => rfl
  | cons c back ih =>
    have hback : trimEnd back = [] := ih fun d hd => h d (List.mem_cons_of_mem c hd)
    simp [trimEnd, hback, h c]

/-- Blanks behind a text make no difference to its end. -/
theorem trimEnd_append_of_blank (h : ∀ c ∈ back, isBlank c = true) (cs : List Char) :
    trimEnd (cs ++ back) = trimEnd cs := by
  induction cs with
  | nil => exact trimEnd_of_blank h
  | cons c cs ih => simp only [List.cons_append, trimEnd, ih]

theorem trimEnd_cons_of_not_isBlank (h : isBlank d = false) (ds : List Char) :
    trimEnd (d :: ds) = d :: trimEnd ds := by
  rw [trimEnd]
  cases trimEnd ds with
  | nil => simp [h]
  | cons e es => rfl

/-- A character that is not blank keeps everything in front of it. -/
theorem trimEnd_append_cons (h : isBlank d = false) (cs ds : List Char) :
    trimEnd (cs ++ d :: ds) = cs ++ d :: trimEnd ds := by
  induction cs with
  | nil => exact trimEnd_cons_of_not_isBlank h ds
  | cons c cs ih =>
    rw [List.cons_append, trimEnd, ih]
    cases cs with
    | nil => rfl
    | cons e es => rfl

/-- Only blanks are dropped from the end. -/
theorem exists_trimEnd_append (cs : List Char) :
    ∃ back, (∀ c ∈ back, isBlank c = true) ∧ trimEnd cs ++ back = cs := by
  induction cs with
  | nil => exact ⟨[], List.forall_mem_nil _, rfl⟩
  | cons c cs ih =>
    obtain ⟨back, hback, heq⟩ := ih
    unfold trimEnd
    split
    · -- everything behind is blank, so the character stays only if it is none
      next hnil =>
      rw [hnil, List.nil_append] at heq
      subst heq
      split
      · next hc => exact ⟨c :: back, List.forall_mem_cons.mpr ⟨hc, hback⟩, rfl⟩
      · exact ⟨back, hback, rfl⟩
    · -- something stays behind the character, and so does the character
      next d ds hcons =>
      rw [hcons] at heq
      exact ⟨back, hback, congrArg (List.cons c) heq⟩

theorem trimEnd_starts (cs : List Char) : trimEnd cs <+: cs := by
  obtain ⟨back, -, heq⟩ := exists_trimEnd_append cs
  exact ⟨back, heq⟩

/-- A text that does not end with a blank has nothing to lose at its end. -/
theorem trimEnd_of_getLast (h : ∀ c ∈ cs.getLast?, isBlank c = false) : trimEnd cs = cs := by
  cases hlast : cs.getLast? with
  | none => simp [List.getLast?_eq_none_iff.mp hlast, trimEnd]
  | some d =>
    rcases List.getLast?_eq_some_iff.mp hlast with ⟨front, rfl⟩
    have hd : isBlank d = false := h d hlast
    rw [trimEnd_append_cons hd, trimEnd]

/-! ## Both ends -/

/-- A text is trimmed if and only if neither of its ends is blank. -/
theorem trim_eq_self_iff :
    trim cs = cs ↔ (∀ c ∈ cs.head?, isBlank c = false) ∧ ∀ c ∈ cs.getLast?, isBlank c = false := by
  constructor
  · intro h
    -- nothing is dropped at either end, since all characters are still there
    have hlength : (trimEnd (trimStart cs)).length = cs.length := congrArg List.length h
    have hend := (trimEnd_starts (trimStart cs)).length_le
    have hstart := (trimStart_suffix cs).length_le
    have hstart' : trimStart cs = cs := (trimStart_suffix cs).eq_of_length (by omega)
    have hend' : trimEnd cs = cs := by
      rw [trim, hstart'] at h
      exact h
    constructor
    · intro c hc
      cases cs with
      | nil => simp at hc
      | cons d ds =>
        obtain rfl : d = c := by simpa using hc
        by_contra hblank
        have hle := (trimStart_suffix ds).length_le
        have heq : trimStart (d :: ds) = trimStart ds :=
          List.dropWhile_cons_of_pos (by simpa using hblank)
        rw [← heq, hstart', List.length_cons] at hle
        omega
    · intro c hc
      rcases List.getLast?_eq_some_iff.mp hc with ⟨front, rfl⟩
      by_contra hblank
      have hdrop : trimEnd (front ++ [c]) = trimEnd front :=
        trimEnd_append_of_blank (by simpa using hblank) front
      have hle := (trimEnd_starts front).length_le
      rw [← hdrop, hend', List.length_append, List.length_singleton] at hle
      omega
  · intro h
    rw [trim, trimStart_of_head h.1, trimEnd_of_getLast h.2]

theorem head_of_trim (h : trim cs = cs) : ∀ c ∈ cs.head?, isBlank c = false :=
  (trim_eq_self_iff.mp h).1

theorem getLast_of_trim (h : trim cs = cs) : ∀ c ∈ cs.getLast?, isBlank c = false :=
  (trim_eq_self_iff.mp h).2

/-- Blanks around a text are trimmed away with its own. -/
theorem trim_between (hfront : ∀ c ∈ front, isBlank c = true) (hback : ∀ c ∈ back, isBlank c = true)
    (cs : List Char) : trim (front ++ (cs ++ back)) = trim cs := by
  have hstart : trimStart (front ++ (cs ++ back)) = trimStart (cs ++ back) :=
    List.dropWhile_append_of_pos hfront
  rw [trim, hstart]
  by_cases hcs : ∀ c ∈ cs, isBlank c = true
  · -- nothing but blanks is there
    have hall : trimStart (cs ++ back) = trimStart back := List.dropWhile_append_of_pos hcs
    have hcs' : trimStart cs = [] := List.dropWhile_eq_nil_iff.mpr hcs
    have hback' : trimStart back = [] := List.dropWhile_eq_nil_iff.mpr hback
    rw [hall, hback', trim, hcs']
  · have hsome : trimStart (cs ++ back) = trimStart cs ++ back := by
      rw [trimStart, List.dropWhile_append, if_neg (by simpa using hcs)]
      rfl
    rw [hsome, trimEnd_append_of_blank hback, trim]

/-- Blanks in front of a text are trimmed away. -/
theorem trim_blank_append (h : ∀ c ∈ front, isBlank c = true) (cs : List Char) :
    trim (front ++ cs) = trim cs := by
  have hbetween := trim_between h (List.forall_mem_nil _) cs
  rwa [List.append_nil] at hbetween

/-- Blanks behind a text are trimmed away. -/
theorem trim_append_blank (h : ∀ c ∈ back, isBlank c = true) (cs : List Char) :
    trim (cs ++ back) = trim cs :=
  trim_between (List.forall_mem_nil _) h cs

/-- Trimming does the trimming of the end. -/
theorem trim_trimEnd (cs : List Char) : trim (trimEnd cs) = trim cs := by
  obtain ⟨back, hback, hcs⟩ := exists_trimEnd_append cs
  rw [← trim_append_blank hback, hcs]

/-- Only blanks are dropped from the ends. -/
theorem exists_around_trim (cs : List Char) :
    ∃ front back, (∀ c ∈ front, isBlank c = true) ∧ (∀ c ∈ back, isBlank c = true) ∧
      front ++ (trim cs ++ back) = cs := by
  obtain ⟨front, hfront, hstart⟩ := exists_append_trimStart cs
  obtain ⟨back, hback, hend⟩ := exists_trimEnd_append (trimStart cs)
  refine ⟨front, back, hfront, hback, ?_⟩
  rw [trim, hend, hstart]

/-- What is left of a text is trimmed. -/
theorem trim_trim (cs : List Char) : trim (trim cs) = trim cs := by
  obtain ⟨front, back, hfront, hback, hcs⟩ := exists_around_trim cs
  calc trim (trim cs) = trim (front ++ (trim cs ++ back)) :=
        (trim_between hfront hback (trim cs)).symm
    _ = trim cs := by rw [hcs]

/-- Nothing is left of a text if all of it is blank, and only then. -/
theorem trim_eq_nil_iff : trim cs = [] ↔ ∀ c ∈ cs, isBlank c = true := by
  constructor
  · intro hnil
    obtain ⟨front, back, hfront, hback, hcs⟩ := exists_around_trim cs
    rw [hnil, List.nil_append] at hcs
    rw [← hcs]
    exact List.forall_mem_append.mpr ⟨hfront, hback⟩
  · intro hblank
    have htrim := trim_append_blank hblank []
    rwa [List.nil_append] at htrim

/-- A blank in front of a text stays there if the text is only trimmed at its end. -/
theorem exists_blanks_trimEnd (hc : isBlank c = true) (hne : trim cs ≠ []) :
    ∃ blanks, blanks ≠ [] ∧ (∀ d ∈ blanks, isBlank d = true) ∧
      trimEnd (c :: cs) = blanks ++ trim cs := by
  obtain ⟨front, back, hfront, hback, hcs⟩ := exists_around_trim cs
  refine ⟨c :: front, List.cons_ne_nil _ _, List.forall_mem_cons.mpr ⟨hc, hfront⟩, ?_⟩
  have hlast : ∀ d ∈ (c :: front ++ trim cs).getLast?, isBlank d = false := by
    have hsome : (trim cs).getLast?.isSome := by simpa using hne
    rw [List.getLast?_append, Option.or_of_isSome hsome]
    exact getLast_of_trim (trim_trim cs)
  calc trimEnd (c :: cs) = trimEnd ((c :: front ++ trim cs) ++ back) := by
        rw [List.append_assoc, List.cons_append, hcs]
    _ = c :: front ++ trim cs := by
        rw [trimEnd_append_of_blank hback, trimEnd_of_getLast hlast]

/-- What is put behind a trimmed text stays there, up to its trailing blanks, if it
does not begin with one. -/
theorem exists_trim_append (h : trim cs = cs) (hd : isBlank d = false) (ds : List Char) :
    ∃ es, trim (cs ++ d :: ds) = cs ++ d :: es := by
  have hstart : trimStart (cs ++ d :: ds) = cs ++ d :: ds := by
    refine trimStart_of_head fun c hc => ?_
    cases cs with
    | nil =>
      obtain rfl : d = c := by simpa using hc
      exact hd
    | cons e es => exact head_of_trim h c (by simpa using hc)
  exact ⟨trimEnd ds, by rw [trim, hstart, trimEnd_append_cons hd]⟩

theorem length_trim_le (cs : List Char) : (trim cs).length ≤ cs.length :=
  Nat.le_trans (trimEnd_starts _).length_le (trimStart_suffix cs).length_le

/-- Two texts that stand in front of the same sign, of which one is what the other is
trimmed to, are the same. -/
theorem eq_of_trim_eq {inner rest behind : List Char} (h : trim cs = cs) (hd : isBlank d = false)
    (hsplit : cs ++ d :: rest = inner ++ d :: behind) (htrim : trim inner = cs) : inner = cs := by
  rcases List.append_eq_append_iff.mp hsplit with ⟨more, hinner, hmore⟩ | ⟨more, hinner, hmore⟩
  · -- the inner text is the longer one: more of it would stay behind the sign
    cases more with
    | nil => simpa using hinner
    | cons c more =>
      obtain ⟨rfl, -⟩ := List.cons.inj hmore
      obtain ⟨es, hes⟩ := exists_trim_append h hd more
      have hlength := congrArg List.length hes
      rw [← hinner, htrim, List.length_append, List.length_cons] at hlength
      omega
  · -- the inner text is the shorter one, and trimming makes nothing longer
    have hle := length_trim_le inner
    have hlength := congrArg List.length hinner
    rw [htrim] at hle
    rw [List.length_append] at hlength
    have hnil : more = [] := List.eq_nil_of_length_eq_zero (by omega)
    simpa [hnil] using hinner.symm

/-! ## Words -/

theorem firstWord_parts (cs : List Char) : (firstWord cs).1 ++ (firstWord cs).2 = cs :=
  List.takeWhile_append_dropWhile

/-- A word has no blanks. -/
theorem not_isBlank_firstWord (cs : List Char) : ∀ c ∈ (firstWord cs).1, isBlank c = false := by
  intro c hc
  simpa using List.mem_takeWhile_imp hc

/-- A text that does not begin with a blank has a first word. -/
theorem firstWord_ne_nil (hne : cs ≠ []) (h : ∀ c ∈ cs.head?, isBlank c = false) :
    (firstWord cs).1 ≠ [] := by
  obtain ⟨c, cs, rfl⟩ := List.exists_cons_of_ne_nil hne
  simp [firstWord, h c rfl]

/-- Behind a word only trailing blanks are trimmed away. -/
theorem trim_word_append (hne : word ≠ []) (hword : ∀ c ∈ word, isBlank c = false)
    (cs : List Char) : trim (word ++ cs) = word ++ trimEnd cs := by
  have hstart : trimStart (word ++ cs) = word ++ cs := by
    obtain ⟨c, word, rfl⟩ := List.exists_cons_of_ne_nil hne
    exact trimStart_cons_of_not_isBlank (hword c List.mem_cons_self) _
  rcases List.eq_nil_or_concat word with rfl | ⟨front, d, hsplit⟩
  · exact absurd rfl hne
  rw [List.concat_eq_append] at hsplit
  have hd : isBlank d = false := hword d (by simp [hsplit])
  rw [trim, hstart, hsplit, List.append_assoc, List.singleton_append, trimEnd_append_cons hd,
    List.append_assoc, List.singleton_append]

/-- The first word of a text ends in front of the first blank. -/
theorem firstWord_append (hword : ∀ c ∈ word, isBlank c = false)
    (hrest : ∀ c ∈ cs.head?, isBlank c = true) : firstWord (word ++ cs) = (word, cs) := by
  have hall : ∀ c ∈ word, (!isBlank c) = true := fun c hc => by simp [hword c hc]
  have hstop : cs.takeWhile (!isBlank ·) = [] ∧ cs.dropWhile (!isBlank ·) = cs := by
    cases cs with
    | nil => exact ⟨rfl, rfl⟩
    | cons d ds => simp [hrest d rfl]
  rw [firstWord, List.takeWhile_append_of_pos hall, List.dropWhile_append_of_pos hall, hstop.1,
    hstop.2, List.append_nil]

end DocComment.Text
