import DocComment.Proofs.Extraction
import DocComment.Proofs.Newlines
import Mathlib.Data.List.Forall2

/-!
# Blocks of a text

A text may hold several blocks, with other text around them. As long as no block is
opened in the other text and none is closed in a body, each block is found by itself,
in order, however the signs and the text around them touch (`blockBodies_textOf`).
What is read from the text, and what is noted, is then what is read from the blocks one
by one (`Block.allIn_textOf`).
-/

namespace DocComment

open Text

/-! ## Texts with blocks -/

/-- The sign that opens a block does not stand in the text. -/
def Unopened (cs : List Char) : Prop :=
  ¬ ['/', '*', '*'] <:+: cs

/-- A body between the signs of a block. -/
def enclose (body : List Char) : List Char :=
  '/' :: '*' :: '*' :: (body ++ ['*', '/'])

/-- A body, and the text behind its block. -/
structure PlacedBody where
  body : List Char
  behind : List Char

/-- A text that begins with some text outside of blocks, and goes on with blocks and the
text behind each of them. -/
def textOf (front : List Char) (places : List PlacedBody) : List Char :=
  front ++ places.flatMap fun place => enclose place.body ++ place.behind

/-- The block is closed by its own sign, and none is opened behind it. -/
structure PlacedBody.Valid (place : PlacedBody) : Prop where
  body : Unclosed place.body
  behind : Unopened place.behind

variable {cs rest front body : List Char} {places : List PlacedBody}

/-! ## Finding the bodies -/

/-- Text in which no block is opened is passed over. A sign could only go on behind it
with a star. -/
theorem blockBodies_append (h : Unopened cs) (hrest : rest.head? ≠ some '*') :
    blockBodies (cs ++ rest) = blockBodies rest := by
  induction cs with
  | nil => rfl
  | cons c cs ih =>
    have hcs : Unopened cs := fun hinfix => h (List.infix_cons hinfix)
    have hsign : ¬ ['/', '*', '*'] <+: c :: (cs ++ rest) := by
      rintro ⟨more, hmore⟩
      -- either the whole sign stands in the text, or its last star comes behind it
      rcases cs with _ | ⟨d, _ | ⟨e, cs⟩⟩
      · obtain ⟨-, rfl⟩ := List.cons.inj hmore
        exact hrest rfl
      · obtain ⟨-, hbehind⟩ := List.cons.inj hmore
        obtain ⟨-, rfl⟩ := List.cons.inj hbehind
        exact hrest rfl
      · simp only [List.cons_append, List.nil_append, List.cons.injEq] at hmore
        obtain ⟨rfl, rfl, rfl, -⟩ := hmore
        exact h (List.prefix_append ['/', '*', '*'] cs).isInfix
    rw [List.cons_append, blockBodies_cons hsign]
    exact ih hcs

/-- The body is found up to the first sign that closes it, and the search goes on behind
that sign. -/
theorem blockBodies_enclose_append (h : Unclosed body) (rest : List Char) :
    blockBodies (enclose body ++ rest) = body :: blockBodies rest := by
  have hopen : openBody ('*' :: '/' :: rest) = some ([], blockBodies rest) := by
    rw [openBody]
  have htext : enclose body ++ rest = '/' :: '*' :: '*' :: (body ++ '*' :: '/' :: rest) := by
    simp [enclose]
  rw [htext, blockBodies, openBody_append h (by simp), hopen]
  simp

/-- The bodies of the blocks are found, in order, and nothing else. -/
theorem blockBodies_textOf (hfront : Unopened front) (hplaces : ∀ place ∈ places, place.Valid) :
    blockBodies (textOf front places) = places.map (·.body) := by
  induction places generalizing front with
  | nil =>
    rw [textOf, List.flatMap_nil, blockBodies_append hfront (by simp)]
    rfl
  | cons place places ih =>
    obtain ⟨hplace, hothers⟩ := List.forall_mem_cons.mp hplaces
    -- what precedes a block cannot run into its opening sign
    have hopened : (enclose place.body ++ textOf place.behind places).head? ≠ some '*' := by
      simp [enclose]
    have htext : textOf front (place :: places) =
        front ++ (enclose place.body ++ textOf place.behind places) := by
      simp [textOf]
    calc blockBodies (textOf front (place :: places))
        = blockBodies (enclose place.body ++ textOf place.behind places) := by
          rw [htext, blockBodies_append hfront hopened]
      _ = place.body :: blockBodies (textOf place.behind places) :=
          blockBodies_enclose_append hplace.body _
      _ = place.body :: places.map (·.body) := by rw [ih hplace.behind hothers]

/-! ## Reading the blocks -/

theorem Block.value_ofBodies (bodies : List (List Char)) :
    (Block.ofBodies bodies).value = bodies.map fun body => (Block.ofBody body).value := by
  induction bodies with
  | nil => rfl
  | cons body bodies ih =>
    rw [Block.ofBodies, Logged.value_bind, Logged.value_bind, Logged.value_pure, ih, List.map_cons]

/-- What is noted about blocks is noted about one after the other. -/
theorem Block.notices_ofBodies (bodies : List (List Char)) :
    (Block.ofBodies bodies).notices = bodies.flatMap fun body => (Block.ofBody body).notices := by
  induction bodies with
  | nil => rfl
  | cons body bodies ih =>
    rw [Block.ofBodies, Logged.notices_bind, Logged.notices_bind, Logged.notices_pure, ih,
      List.append_nil, List.flatMap_cons]

/-- A block that stands alone is read as the block with its body. -/
theorem Block.allIn_enclose (h : Unclosed body) :
    Block.allIn (String.ofList (enclose body)) = Block.ofBodies [body] := by
  rw [Block.allIn, String.toList_ofList, enclose, blockBodies_closed h]

/-- A text with blocks holds one block for each of them, in order, and each is the block
that is read from the signs and the body alone. What is noted is what is noted about
the blocks one by one. -/
theorem Block.allIn_textOf (front : List Char) (places : List PlacedBody)
    (hfront : Unopened front) (hplaces : ∀ place ∈ places, place.Valid) :
    List.Forall₂
        (fun place block => (Block.allIn (String.ofList (enclose place.body))).value = [block])
        places (Block.allIn (String.ofList (textOf front places))).value ∧
      (Block.allIn (String.ofList (textOf front places))).notices =
        places.flatMap fun place =>
          (Block.allIn (String.ofList (enclose place.body))).notices := by
  have hall : Block.allIn (String.ofList (textOf front places)) =
      Block.ofBodies (places.map (·.body)) := by
    rw [Block.allIn, String.toList_ofList, blockBodies_textOf hfront hplaces]
  -- a block alone is read from the same body
  have halone : ∀ place ∈ places, Block.allIn (String.ofList (enclose place.body)) =
      Block.ofBodies [place.body] :=
    fun place hplace => Block.allIn_enclose (hplaces place hplace).body
  rw [hall, Block.value_ofBodies, Block.notices_ofBodies]
  constructor
  · rw [List.map_map, List.forall₂_map_right_iff]
    refine List.forall₂_same.mpr ?_
    intro place hplace
    rw [halone place hplace, Block.value_ofBodies]
    rfl
  · rw [List.flatMap_map]
    refine List.flatMap_congr ?_
    intro place hplace
    rw [halone place hplace, Block.notices_ofBodies, List.flatMap_singleton]

/-- Blocks whose signs touch slashes and stars of the bodies and of the other text. -/
def touchingPlaces : List PlacedBody :=
  [⟨"/".toList, "*/".toList⟩, ⟨[], []⟩, ⟨" /** @param \x7bA b *".toList, "** /*".toList⟩,
    ⟨"*".toList, "/".toList⟩]

/-- The blocks of the sample are read one by one. -/
theorem Block.allIn_textOf_touching :
    (Unopened "*/".toList ∧ ∀ place ∈ touchingPlaces, place.Valid) ∧
      List.Forall₂
        (fun place block => (Block.allIn (String.ofList (enclose place.body))).value = [block])
        touchingPlaces (Block.allIn (String.ofList (textOf "*/".toList touchingPlaces))).value ∧
      (Block.allIn (String.ofList (textOf "*/".toList touchingPlaces))).notices =
        touchingPlaces.flatMap fun place =>
          (Block.allIn (String.ofList (enclose place.body))).notices := by
  have hfront : Unopened "*/".toList := by
    unfold Unopened
    decide
  have hplaces : ∀ place ∈ touchingPlaces, place.Valid := by
    have hparts : ∀ place ∈ touchingPlaces, Unclosed place.body ∧ Unopened place.behind := by
      unfold Unclosed Unopened
      decide
    intro place hplace
    exact ⟨(hparts place hplace).1, (hparts place hplace).2⟩
  exact ⟨⟨hfront, hplaces⟩, Block.allIn_textOf "*/".toList touchingPlaces hfront hplaces⟩

end DocComment
