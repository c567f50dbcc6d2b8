import DocComment.Proofs.Text.Lines
import DocComment.Record

/-!
# Newlines

A carriage return, alone or before a line feed, ends a line just as a line feed
does, and no sign of a block has one in it. So a comment says the same with line
feeds for all its newlines (`Record.ofComment_unifyNewlines`).
-/

namespace DocComment

open Text

variable {c : Char} {cs ds word body : List Char} {later : List (List Char)}

/-! ## Texts with line feeds for all newlines -/

namespace Text

theorem unifyNewlines_cons_of_ne (h : c ≠ '\r') (cs : List Char) :
    unifyNewlines (c :: cs) = c :: unifyNewlines cs := by
  rw [unifyNewlines]
  · rintro ds rfl
    exact absurd rfl h
  · exact h

/-- A carriage return alone becomes a line feed. -/
theorem unifyNewlines_carriageReturn (h : cs.head? ≠ some '\n') :
    unifyNewlines ('\r' :: cs) = '\n' :: unifyNewlines cs := by
  rw [unifyNewlines]
  rintro ds rfl
  exact h rfl

/-- The carriage return before a line feed is dropped. -/
theorem unifyNewlines_pair (cs : List Char) :
    unifyNewlines ('\r' :: '\n' :: cs) = unifyNewlines ('\n' :: cs) := by
  rw [unifyNewlines, unifyNewlines_cons_of_ne (by decide)]

/-- Nothing changes in front of a text if it has no carriage return. -/
theorem unifyNewlines_append_of_notMem (h : '\r' ∉ word) (cs : List Char) :
    unifyNewlines (word ++ cs) = word ++ unifyNewlines cs := by
  induction word with
  | nil => rfl
  | cons c word ih =>
    obtain ⟨hc, hword⟩ := not_or.mp (mt List.mem_cons.mpr h)
    rw [List.cons_append, unifyNewlines_cons_of_ne (Ne.symm hc), ih hword, List.cons_append]

/-- Nothing changes behind a text either, if the joint tears no newline apart. -/
theorem unifyNewlines_append (h : ds.head? ≠ some '\n') (cs : List Char) :
    unifyNewlines (cs ++ ds) = unifyNewlines cs ++ unifyNewlines ds := by
  fun_induction unifyNewlines cs with
  | case1 => rfl
  | case2 cs ih => rw [List.cons_append, List.cons_append, unifyNewlines, ih, List.cons_append]
  | case3 cs hpair ih =>
    have hhead : (cs ++ ds).head? ≠ some '\n' := by
      cases cs with
      | nil => exact h
      | cons c cs => simpa using fun hc => hpair cs (congrArg (· :: cs) hc)
    rw [List.cons_append, unifyNewlines_carriageReturn hhead, ih, List.cons_append]
  | case4 c cs _ hreturn ih =>
    rw [List.cons_append, unifyNewlines_cons_of_ne hreturn, ih, List.cons_append]

/-- A text without newlines stands at the start if and only if it did before. -/
theorem prefix_unifyNewlines_iff (hreturn : '\r' ∉ word) (hfeed : '\n' ∉ word) :
    word <+: unifyNewlines cs ↔ word <+: cs := by
  induction word generalizing cs with
  | nil => simp
  | cons d word ih =>
    obtain ⟨hd, hword⟩ := not_or.mp (mt List.mem_cons.mpr hreturn)
    obtain ⟨hd', hword'⟩ := not_or.mp (mt List.mem_cons.mpr hfeed)
    fun_cases unifyNewlines cs with
    | case1 => rfl
    | case2 cs => simp [Ne.symm hd, Ne.symm hd']
    | case3 cs => simp [Ne.symm hd, Ne.symm hd']
    | case4 c cs => rw [List.cons_prefix_cons, List.cons_prefix_cons, ih hword hword']

/-! ## Lines -/

theorem splitLines_cons_of_ne (h : c ≠ '\r') (cs : List Char) :
    splitLines (c :: cs) =
      if isLineBreak c then [] :: splitLines cs else consToLine c (splitLines cs) := by
  rw [splitLines]
  rintro ds rfl
  exact absurd rfl h

/-- A carriage return alone ends a line. -/
theorem splitLines_carriageReturn (h : cs.head? ≠ some '\n') :
    splitLines ('\r' :: cs) = [] :: splitLines cs :=
  splitLines_break rfl fun hpair => h hpair.2

/-- The lines are the same with line feeds for all newlines. -/
theorem splitLines_unifyNewlines (cs : List Char) :
    splitLines (unifyNewlines cs) = splitLines cs := by
  have hfeed (ds : List Char) : splitLines ('\n' :: ds) = [] :: splitLines ds :=
    splitLines_append_newline (List.forall_mem_nil _) ds
  fun_induction unifyNewlines cs with
  | case1 => rfl
  | case2 cs ih => rw [hfeed, ih, splitLines]
  | case3 cs hpair ih =>
    have hhead : cs.head? ≠ some '\n' := by
      intro hhead
      obtain ⟨ds, rfl⟩ := List.head?_eq_some_iff.mp hhead
      exact hpair ds rfl
    rw [hfeed, ih, splitLines_carriageReturn hhead]
  | case4 c cs _ hreturn ih =>
    rw [splitLines_cons_of_ne hreturn, splitLines_cons_of_ne hreturn, ih]

end Text

/-! ## Blocks -/

theorem blockBodies_cons (h : ¬ ['/', '*', '*'] <+: c :: cs) :
    blockBodies (c :: cs) = blockBodies cs := by
  rw [blockBodies]
  rintro ds rfl rfl
  exact h ⟨ds, rfl⟩

/-- A character that does not begin the closing sign belongs to the body. -/
theorem openBody_cons (h : ¬ ['*', '/'] <+: c :: cs) :
    openBody (c :: cs) = (openBody cs).map fun found => (c :: found.1, found.2) := by
  rw [openBody]
  rintro ds rfl rfl
  exact h ⟨ds, rfl⟩

/-- The body of a block stands in front of the sign that closes it. -/
theorem prefix_of_openBody (h : openBody cs = some (body, later)) :
    body ++ ['*', '/'] <+: cs := by
  induction cs generalizing body later with
  | nil => cases h
  | cons c cs ih =>
    by_cases hsign : ['*', '/'] <+: c :: cs
    · obtain ⟨ds, hds⟩ := hsign
      obtain ⟨rfl, rfl⟩ := List.cons.inj hds
      change openBody ('*' :: '/' :: ds) = _ at h
      rw [openBody] at h
      obtain ⟨rfl, -⟩ := Prod.mk.inj (Option.some.inj h)
      exact ⟨ds, rfl⟩
    · rw [openBody_cons hsign] at h
      obtain ⟨⟨inner, others⟩, hinner, hbody⟩ := Option.map_eq_some_iff.mp h
      obtain ⟨rfl, -⟩ := Prod.mk.inj hbody
      exact List.cons_prefix_cons.mpr ⟨rfl, ih hinner⟩

/-- A newline in front of a text in which a block is open belongs to the body. -/
theorem openBody_unifyNewlines_carriageReturn
    (ih : openBody (unifyNewlines cs) =
      (openBody cs).map fun found => (unifyNewlines found.1, found.2.map unifyNewlines)) :
    openBody (unifyNewlines ('\r' :: cs)) =
      (openBody ('\r' :: cs)).map fun found =>
        (unifyNewlines found.1, found.2.map unifyNewlines) := by
  have hreturn (ds : List Char) := @openBody_cons '\r' ds (by simp)
  have hfeed (ds : List Char) := @openBody_cons '\n' ds (by simp)
  rw [hreturn, Option.map_map]
  by_cases hhead : cs.head? = some '\n'
  · obtain ⟨ds, rfl⟩ := List.head?_eq_some_iff.mp hhead
    rw [unifyNewlines_pair, ih, hfeed, Option.map_map, Option.map_map]
    refine Option.map_congr fun found _ => ?_
    simp only [Function.comp_apply, unifyNewlines_pair]
  · rw [unifyNewlines_carriageReturn hhead, hfeed, ih, Option.map_map]
    refine Option.map_congr fun found hfound => ?_
    -- the body begins as the text does, so the return stays alone in it
    have hbody : found.1.head? ≠ some '\n' := by
      obtain ⟨rest, rfl⟩ := prefix_of_openBody hfound
      cases hfirst : found.1 with
      | nil => simp
      | cons d ds => simpa [hfirst] using hhead
    simp only [Function.comp_apply, unifyNewlines_carriageReturn hbody]

/-- The bodies of the blocks are found at the same places with line feeds for all
newlines, both before a block is opened and in it. -/
theorem bodies_unifyNewlines :
    (∀ cs, blockBodies (unifyNewlines cs) = (blockBodies cs).map unifyNewlines) ∧
      ∀ cs, openBody (unifyNewlines cs) =
        (openBody cs).map fun found => (unifyNewlines found.1, found.2.map unifyNewlines) := by
  -- outside a block, then in one; the signs themselves hold no newlines
  apply blockBodies.mutual_induct
  · intro cs hopen ih
    have hsign : unifyNewlines ('/' :: '*' :: '*' :: cs) = '/' :: '*' :: '*' :: unifyNewlines cs :=
      @unifyNewlines_append_of_notMem ['/', '*', '*'] (by decide) cs
    rw [hsign, blockBodies, blockBodies, ih, hopen]
    rfl
  · intro cs body later hopen ih
    have hsign : unifyNewlines ('/' :: '*' :: '*' :: cs) = '/' :: '*' :: '*' :: unifyNewlines cs :=
      @unifyNewlines_append_of_notMem ['/', '*', '*'] (by decide) cs
    rw [hsign, blockBodies, blockBodies, ih, hopen]
    rfl
  · intro c cs hopen ih
    have hsign : ¬ ['/', '*', '*'] <+: c :: cs := by
      rintro ⟨ds, hds⟩
      obtain ⟨rfl, rfl⟩ := List.cons.inj hds
      exact hopen ds rfl rfl
    rw [blockBodies_cons hsign, ← ih]
    by_cases hc : c = '\r'
    · subst hc
      by_cases hhead : cs.head? = some '\n'
      · obtain ⟨ds, rfl⟩ := List.head?_eq_some_iff.mp hhead
        rw [unifyNewlines_pair]
      · rw [unifyNewlines_carriageReturn hhead, blockBodies_cons (by simp)]
    · rw [← prefix_unifyNewlines_iff (by decide) (by decide), unifyNewlines_cons_of_ne hc] at hsign
      rw [unifyNewlines_cons_of_ne hc, blockBodies_cons hsign]
  · rfl
  · intro cs ih
    have hsign : unifyNewlines ('*' :: '/' :: cs) = '*' :: '/' :: unifyNewlines cs :=
      @unifyNewlines_append_of_notMem ['*', '/'] (by decide) cs
    rw [hsign, openBody, openBody, ih]
    rfl
  · intro c cs hclosed ih
    have hsign : ¬ ['*', '/'] <+: c :: cs := by
      rintro ⟨ds, hds⟩
      obtain ⟨rfl, rfl⟩ := List.cons.inj hds
      exact hclosed ds rfl rfl
    by_cases hc : c = '\r'
    · subst hc
      exact openBody_unifyNewlines_carriageReturn ih
    · rw [openBody_cons hsign]
      rw [← prefix_unifyNewlines_iff (by decide) (by decide), unifyNewlines_cons_of_ne hc] at hsign
      rw [unifyNewlines_cons_of_ne hc, openBody_cons hsign, ih, Option.map_map, Option.map_map]
      refine Option.map_congr fun found _ => ?_
      simp only [Function.comp_apply, unifyNewlines_cons_of_ne hc]
  · rfl

/-! ## Comments -/

/-- A block says the same with line feeds for all newlines of its body. -/
theorem Block.ofBody_unifyNewlines (body : List Char) :
    Block.ofBody (unifyNewlines body) = Block.ofBody body := by
  unfold Block.ofBody undecoratedLines
  rw [splitLines_unifyNewlines]

/-- Blocks are the same with line feeds for all newlines, since only the lines of their bodies
count. -/
theorem Block.ofBodies_unifyNewlines (bodies : List (List Char)) :
    Block.ofBodies (bodies.map unifyNewlines) = Block.ofBodies bodies := by
  induction bodies with
  | nil => rfl
  | cons body bodies ih =>
    rw [List.map_cons, Block.ofBodies, Block.ofBodies, Block.ofBody_unifyNewlines, ih]

/-- A comment says the same, and the same is noted, with line feeds for all
newlines. -/
theorem Record.ofComment_unifyNewlines (comment : String) :
    Record.ofComment (String.ofList (unifyNewlines comment.toList)) = Record.ofComment comment := by
  have hwrap : (Record.wrap (String.ofList (unifyNewlines comment.toList))).toList =
      unifyNewlines (Record.wrap comment).toList := by
    simp only [Record.wrap, String.toList_append, String.toList_ofList]
    rw [unifyNewlines_append (by decide), unifyNewlines_append_of_notMem (by decide)]
    rfl
  unfold Record.ofComment Block.allIn
  rw [hwrap, bodies_unifyNewlines.1, Block.ofBodies_unifyNewlines]

end DocComment
