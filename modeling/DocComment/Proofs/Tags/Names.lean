import DocComment.Proofs.Tags.Written

/-!
# Reading names

A name that is written plainly is read as itself. A name between brackets is read
as itself if the brackets inside are balanced (`WrittenName.nameAt_chars`), and
only then: otherwise the brackets would enclose less or more than was written
(`WrittenName.bracketsBalanced_of_nameAt`).
-/

namespace DocComment

open Text

variable {name rest behind inner : List Char} {default : Option (List Char)} {n : WrittenName}

/-- A plain name is read as itself if a blank follows. -/
theorem nameAt_plain (h : (WrittenName.plain name).Valid)
    (hrest : ∀ c ∈ rest.head?, isBlank c = true) :
    nameAt (name ++ rest) = ⟨String.ofList name, false, none, trimStart rest⟩ := by
  obtain ⟨hne, hword, hbracket⟩ := h
  have hnone : bracketedPart '[' ']' (name ++ rest) = none := by
    rcases List.exists_cons_of_ne_nil hne with ⟨c, cs, rfl⟩
    have hc : c ≠ '[' := by simpa using hbracket
    simp [bracketedPart, hc]
  rw [nameAt, hnone, firstWord_append hword hrest]

/-- In front of an equals sign stands all that has none. -/
theorem takeWhile_equals (h : '=' ∉ name) (value : List Char) :
    (name ++ '=' :: value).takeWhile (· != '=') = name ∧
      (name ++ '=' :: value).dropWhile (· != '=') = '=' :: value := by
  have hname : ∀ c ∈ name, (c != '=') = true := by
    intro c hc
    simp only [bne_iff_ne, ne_eq]
    rintro rfl
    exact h hc
  constructor
  · rw [List.takeWhile_append_of_pos hname]
    simp
  · rw [List.dropWhile_append_of_pos hname]
    simp

theorem dropWhile_equals (h : '=' ∉ name) : name.dropWhile (· != '=') = [] := by
  refine List.dropWhile_eq_nil_iff.mpr fun c hc => ?_
  simp only [bne_iff_ne, ne_eq]
  rintro rfl
  exact h hc

namespace WrittenName

/-- The content of the brackets is trimmed, as the name and the value are. -/
theorem trim_content (h : (bracketed name default).Valid) :
    trim (content name default) = content name default := by
  obtain ⟨-, hname, hvalue⟩ := h
  cases default with
  | none => exact hname
  | some value =>
    have hvalue := hvalue value rfl
    -- the name or the equals sign stands first, and the value or the equals sign stands last
    refine trim_eq_self_iff.mpr ⟨?_, ?_⟩
    · intro c hc
      rw [content, List.head?_append] at hc
      cases hhead : name.head? with
      | none =>
        obtain rfl : '=' = c := by simpa [hhead] using hc
        decide
      | some d => exact head_of_trim hname c (by simpa [hhead] using hc)
    · intro c hc
      rw [content, List.getLast?_append] at hc
      cases hlast : value.getLast? with
      | none =>
        obtain rfl := List.getLast?_eq_none_iff.mp hlast
        obtain rfl : '=' = c := by simpa using hc
        decide
      | some d =>
        have hne : value ≠ [] := by
          rintro rfl
          simp at hlast
        rw [List.getLast?_cons_of_ne_nil hne, hlast] at hc
        exact getLast_of_trim hvalue c (hlast ▸ by simpa using hc)

/-- What is written between brackets is read as the name and the value. -/
theorem bracketedName_content (h : (bracketed name default).Valid) (behind : List Char) :
    bracketedName (content name default) behind =
      ⟨String.ofList name, true, default.map String.ofList, trimStart behind⟩ := by
  have hcontent := trim_content h
  obtain ⟨hequals, hname, hvalue⟩ := h
  rw [bracketedName, hcontent]
  cases default with
  | none =>
    have hdrop : (content name none).dropWhile (· != '=') = [] := dropWhile_equals hequals
    rw [hdrop]
    rfl
  | some value =>
    have hparts := takeWhile_equals hequals value
    rw [content, hparts.1, hparts.2, hname]
    simp [hvalue value rfl]

/-- What brackets enclose if a name and a value are read from it: either there is
no value and nothing but the name, or an equals sign stands in between. -/
theorem content_of_bracketedName
    (hname : (bracketedName inner behind).name = String.ofList name)
    (hdefault : (bracketedName inner behind).default = default.map String.ofList) :
    (default = none ∧ trim inner = name) ∨
      ∃ raw value, default = some (trim value) ∧ '=' ∉ raw ∧ trim raw = name ∧
        trim inner = raw ++ '=' :: value := by
  have hsplit := List.takeWhile_append_dropWhile (p := (· != '=')) (l := trim inner)
  rw [bracketedName] at hname hdefault
  -- whether there is an equals sign decides between a value and none
  cases hdrop : (trim inner).dropWhile (· != '=') with
  | nil =>
    rw [hdrop] at hname hdefault
    refine .inl ⟨?_, String.ofList_injective hname⟩
    simpa using hdefault.symm
  | cons c value =>
    rw [hdrop] at hname hdefault hsplit
    have hc : c = '=' := by
      have hhead := List.head?_dropWhile_not (· != '=') (trim inner)
      rw [hdrop] at hhead
      simpa using hhead
    subst hc
    refine .inr ⟨_, value, ?_, ?_, String.ofList_injective hname, hsplit.symm⟩
    · cases default with
      | none => simp at hdefault
      | some v =>
        rw [String.ofList_injective (Option.some.inj hdefault)]
    · intro hmem
      have hequals := List.mem_takeWhile_imp hmem
      simp at hequals

/-- No name and value are read from a part that goes on behind their content. -/
theorem not_bracketedName_append (h : (bracketed name default).Valid) (more : List Char)
    (hinner : inner = content name default ++ ']' :: more)
    (hname : (bracketedName inner behind).name = String.ofList name)
    (hdefault : (bracketedName inner behind).default = default.map String.ofList) : False := by
  rcases exists_trim_append (d := ']') (trim_content h) rfl more with ⟨es, htrim⟩
  rw [← hinner] at htrim
  obtain ⟨hequals, -, hvalue⟩ := h
  rcases content_of_bracketedName hname hdefault with ⟨rfl, heq⟩ | ⟨raw, value, rfl, hraw, -, heq⟩
  · have hlength := congrArg List.length (heq.symm.trans htrim)
    simp [content] at hlength
  · -- the equals signs are the same, so the value goes on behind itself
    rw [content, List.append_assoc, List.cons_append, heq] at htrim
    have hdrop := congrArg (List.dropWhile (· != '=')) htrim
    rw [(takeWhile_equals hraw _).2, (takeWhile_equals hequals _).2] at hdrop
    have hbehind := (List.cons.inj hdrop).2
    rcases exists_trim_append (d := ']') (hvalue _ rfl) rfl es with ⟨es', hagain⟩
    rw [← hbehind] at hagain
    have hlength := congrArg List.length hagain
    simp at hlength

/-- The content is as long as what the brackets enclose, at most. -/
theorem length_content_le
    (hname : (bracketedName inner behind).name = String.ofList name)
    (hdefault : (bracketedName inner behind).default = default.map String.ofList) :
    (content name default).length ≤ inner.length := by
  have hinner := length_trim_le inner
  rcases content_of_bracketedName hname hdefault with ⟨rfl, heq⟩ | ⟨raw, value, rfl, -, hraw, heq⟩
  · rw [content, ← heq]
    exact hinner
  · have hname' := length_trim_le raw
    have hvalue := length_trim_le value
    rw [hraw] at hname'
    rw [heq, List.length_append, List.length_cons] at hinner
    rw [content, List.length_append, List.length_cons]
    omega

/-- A name that is read as itself has balanced brackets. -/
theorem bracketsBalanced_of_nameAt (h : n.Valid)
    (hname : (nameAt (n.chars ++ rest)).name = String.ofList n.label)
    (hoptional : (nameAt (n.chars ++ rest)).optional = n.isBracketed)
    (hdefault : (nameAt (n.chars ++ rest)).default = n.default.map String.ofList) :
    n.BracketsBalanced := by
  cases n with
  | plain name => trivial
  | bracketed name default =>
    rw [nameAt] at hname hoptional hdefault
    cases hfound : bracketedPart '[' ']' ((bracketed name default).chars ++ rest) with
    | none =>
      -- a word is not optional
      rw [hfound] at hoptional
      exact Bool.noConfusion hoptional
    | some parts =>
      obtain ⟨inner, behind⟩ := parts
      rw [hfound] at hname hdefault
      obtain ⟨htext, hbalanced⟩ := (bracketedPart_eq_some_iff (by decide)).mp hfound
      have hsplit : content name default ++ ']' :: rest = inner ++ ']' :: behind := by
        simpa [chars] using htext
      suffices heq : inner = content name default by
        rw [heq] at hbalanced
        exact hbalanced
      rcases List.append_eq_append_iff.mp hsplit with ⟨more, hinner, hmore⟩ | ⟨more, hinner, hmore⟩
      · cases more with
        | nil => simpa using hinner
        | cons c more =>
          obtain ⟨rfl, -⟩ := List.cons.inj hmore
          exact (not_bracketedName_append h more hinner hname hdefault).elim
      · cases more with
        | nil => simpa using hinner.symm
        | cons c more =>
          have hle : (content name default).length ≤ inner.length :=
            length_content_le hname hdefault
          rw [hinner, List.length_append, List.length_cons] at hle
          omega

/-- A name with balanced brackets is read as itself. -/
theorem nameAt_chars (h : n.Valid) (hbalanced : n.BracketsBalanced)
    (hrest : ∀ c ∈ rest.head?, isBlank c = true) :
    nameAt (n.chars ++ rest) =
      ⟨String.ofList n.label, n.isBracketed, n.default.map String.ofList, trimStart rest⟩ := by
  cases n with
  | plain name => exact nameAt_plain h hrest
  | bracketed name default =>
    have hfound : bracketedPart '[' ']' ((bracketed name default).chars ++ rest) =
        some (content name default, rest) := by
      refine (bracketedPart_eq_some_iff (by decide)).mpr ⟨?_, hbalanced⟩
      simp [chars]
    rw [nameAt, hfound]
    exact bracketedName_content h rest

/-- A name is not empty and does not begin with a blank. -/
theorem head_chars (h : n.Valid) : ∃ c, n.chars.head? = some c ∧ isBlank c = false := by
  cases n with
  | plain name =>
    obtain ⟨hne, hword, -⟩ := h
    rcases List.exists_cons_of_ne_nil hne with ⟨c, cs, rfl⟩
    exact ⟨c, rfl, hword c List.mem_cons_self⟩
  | bracketed name default => exact ⟨'[', rfl, by decide⟩

/-- A name does not end in a blank. -/
theorem getLast_chars (h : n.Valid) : ∀ c ∈ n.chars.getLast?, isBlank c = false := by
  intro c hc
  cases n with
  | plain name =>
    obtain ⟨-, hword, -⟩ := h
    exact hword c (List.mem_of_getLast? hc)
  | bracketed name default =>
    rw [chars, ← List.cons_append, List.getLast?_concat] at hc
    obtain rfl : ']' = c := by simpa using hc
    decide

end WrittenName

end DocComment
