import DocComment.Proofs.Blocks
import DocComment.Proofs.Sections

/-!
# Fields of a tag

The fields of a tag share out its text. Written one behind the other, with the braces of
the type and the brackets of the name put back, they are the source of the tag, up to
blanks and to one hyphen that sets off the description (`Block.fields_of_source`). This
holds of brackets that are not balanced as well, since such brackets are text of the
field in which they stand.
-/

namespace DocComment

open Text

/-! ## Writing -/

def withoutBlanks (cs : List Char) : List Char :=
  cs.filter (!isBlank ·)

namespace Tag

/-- A type between its braces. -/
def typeChars : Option String → List Char
  | none => []
  | some type => '{' :: (type.toList ++ ['}'])

/-- A name, which stands between brackets with its value if it is optional. -/
def nameChars (name : Option String) (optional : Bool) (default : Option String) : List Char :=
  match name, optional with
  | none, _ => []
  | some name, false => name.toList
  | some name, true => '[' :: (WrittenName.content name.toList (default.map String.toList) ++ [']'])

/-- The fields of the tag in front of its description. -/
def heading (tag : Tag) : List Char :=
  '@' :: (tag.keyword.toList ++
    (typeChars tag.type ++ nameChars tag.name tag.optional tag.default))

/-- The description, which is empty if there is none. -/
def remark (tag : Tag) : List Char :=
  (tag.description.getD "").toList

end Tag

variable {c : Char} {cs inner written : List Char}

/-! ## Blanks -/

theorem withoutBlanks_append (cs ds : List Char) :
    withoutBlanks (cs ++ ds) = withoutBlanks cs ++ withoutBlanks ds :=
  List.filter_append cs ds

theorem withoutBlanks_cons (h : isBlank c = false) (cs : List Char) :
    withoutBlanks (c :: cs) = c :: withoutBlanks cs :=
  List.filter_cons_of_pos (by simpa using h)

theorem withoutBlanks_of_blank (h : ∀ c ∈ cs, isBlank c = true) : withoutBlanks cs = [] :=
  List.filter_eq_nil_iff.mpr fun c hc => by simpa using h c hc

/-- Trimming takes nothing but blanks away. -/
theorem withoutBlanks_trim (cs : List Char) : withoutBlanks (trim cs) = withoutBlanks cs := by
  obtain ⟨front, back, hfront, hback, hcs⟩ := exists_around_trim cs
  calc withoutBlanks (trim cs) = withoutBlanks (front ++ (trim cs ++ back)) := by
        rw [withoutBlanks_append, withoutBlanks_append, withoutBlanks_of_blank hfront,
          withoutBlanks_of_blank hback, List.nil_append, List.append_nil]
    _ = withoutBlanks cs := by rw [hcs]

theorem withoutBlanks_trimStart (cs : List Char) :
    withoutBlanks (trimStart cs) = withoutBlanks cs := by
  obtain ⟨front, hfront, hcs⟩ := exists_append_trimStart cs
  calc withoutBlanks (trimStart cs) = withoutBlanks (front ++ trimStart cs) := by
        rw [withoutBlanks_append, withoutBlanks_of_blank hfront, List.nil_append]
    _ = withoutBlanks cs := by rw [hcs]

/-- Joining lines adds nothing but blanks. -/
theorem withoutBlanks_joinLines (lines : List (List Char)) :
    withoutBlanks (joinLines lines) = lines.flatMap withoutBlanks := by
  induction lines with
  | nil => rfl
  | cons line lines ih =>
    by_cases hlines : lines = []
    · simp [hlines, joinLines]
    · have hbreak : withoutBlanks ('\n' :: joinLines lines) = withoutBlanks (joinLines lines) := by
        simp [withoutBlanks, isBlank]
      rw [joinLines_cons line hlines, withoutBlanks_append, hbreak, ih, List.flatMap_cons]

/-! ## Parts -/

/-- What stands between brackets may be written with other blanks. -/
theorem withoutBlanks_enclosed {opening closing : Char}
    (h : withoutBlanks inner = withoutBlanks written) (behind : List Char) :
    withoutBlanks (opening :: (inner ++ closing :: behind)) =
      withoutBlanks (opening :: (written ++ [closing])) ++ withoutBlanks (trimStart behind) := by
  have hopening (ds : List Char) :
      withoutBlanks (opening :: ds) = withoutBlanks [opening] ++ withoutBlanks ds :=
    withoutBlanks_append [opening] ds
  have hclosing : withoutBlanks (closing :: behind) =
      withoutBlanks [closing] ++ withoutBlanks behind := withoutBlanks_append [closing] behind
  rw [hopening (inner ++ _), hopening (written ++ _), withoutBlanks_append, withoutBlanks_append,
    hclosing, h, withoutBlanks_trimStart, List.append_assoc, List.append_assoc]

/-- A type and what stands behind it are all of the text, up to blanks. -/
theorem typeAt_keeps (cs : List Char) :
    withoutBlanks cs =
      withoutBlanks (Tag.typeChars (typeAt cs).type) ++ withoutBlanks (typeAt cs).behind := by
  unfold typeAt
  split
  · next inner behind hfound =>
    obtain ⟨rfl, -⟩ := (bracketedPart_eq_some_iff (by decide)).mp hfound
    rw [Tag.typeChars, String.toList_ofList]
    exact withoutBlanks_enclosed (withoutBlanks_trim inner).symm behind
  · rfl

/-- The first equals sign between the brackets is the one in front of the value. -/
theorem bracketedName_keeps (inner behind : List Char) :
    withoutBlanks ('[' :: (inner ++ ']' :: behind)) =
      withoutBlanks (Tag.nameChars (some (bracketedName inner behind).name)
          (bracketedName inner behind).optional (bracketedName inner behind).default) ++
        withoutBlanks (bracketedName inner behind).behind := by
  -- without an equals sign all of the inside is the name
  have hsplit : (trim inner).takeWhile (· != '=') ++ (trim inner).dropWhile (· != '=') =
      trim inner := List.takeWhile_append_dropWhile
  simp only [bracketedName]
  split
  · simp only [Tag.nameChars, WrittenName.content, Option.map_none, String.toList_ofList]
    exact withoutBlanks_enclosed (withoutBlanks_trim inner).symm behind
  · -- the inside is cut at its first equals sign, which is put back between name and value
    next sign value hvalue =>
    obtain rfl : sign = '=' := by
      have hhead := List.head?_dropWhile_not (· != '=') (trim inner)
      simpa [hvalue] using hhead
    simp only [Tag.nameChars, WrittenName.content, Option.map_some, String.toList_ofList]
    refine withoutBlanks_enclosed ?_ behind
    calc withoutBlanks inner
        = withoutBlanks ((trim inner).takeWhile (· != '=') ++ '=' :: value) := by
          rw [← hvalue, hsplit, withoutBlanks_trim]
      _ = withoutBlanks (trim ((trim inner).takeWhile (· != '=')) ++ '=' :: trim value) := by
          rw [withoutBlanks_append, withoutBlanks_append, withoutBlanks_cons rfl,
            withoutBlanks_cons rfl, withoutBlanks_trim, withoutBlanks_trim]

/-- A name and what stands behind it are all of the text, up to blanks. -/
theorem nameAt_keeps (cs : List Char) :
    withoutBlanks cs =
      withoutBlanks (Tag.nameChars (some (nameAt cs).name) (nameAt cs).optional
        (nameAt cs).default) ++ withoutBlanks (nameAt cs).behind := by
  unfold nameAt
  split
  · next inner behind hfound =>
    obtain ⟨rfl, -⟩ := (bracketedPart_eq_some_iff (by decide)).mp hfound
    exact bracketedName_keeps inner behind
  · simp only [Tag.nameChars, String.toList_ofList, withoutBlanks_trimStart]
    rw [← withoutBlanks_append, firstWord_parts]

/-- At most a hyphen is dropped in front of the description. -/
theorem describe_keeps (cs : List Char) (others : List (List Char)) :
    ∃ separator ∈ [[], ['-']], withoutBlanks cs ++ others.flatMap withoutBlanks =
      withoutBlanks (separator ++ ((describe cs others).getD "").toList) := by
  have hremark (first : List Char) :
      withoutBlanks ((nonEmpty (trim (joinLines (first :: others)))).getD "").toList =
        withoutBlanks first ++ others.flatMap withoutBlanks := by
    have htext (ds : List Char) : ((nonEmpty ds).getD "").toList = ds := by
      cases ds with
      | nil => rfl
      | cons d ds => simp [nonEmpty]
    rw [htext, withoutBlanks_trim, withoutBlanks_joinLines, List.flatMap_cons]
  unfold describe dropMarker
  split
  · -- the text begins with a hyphen and a space: the space is blank, and the hyphen is what is lost
    next hmarker =>
    obtain ⟨first, rfl⟩ := List.isPrefixOf_iff_prefix.mp hmarker
    refine ⟨['-'], by simp, ?_⟩
    have hdrop : (['-', ' '] ++ first).drop ['-', ' '].length = first := rfl
    rw [hdrop, withoutBlanks_append, withoutBlanks_append, hremark, List.append_assoc]
    rfl
  · exact ⟨[], by simp, by rw [List.nil_append, hremark]⟩

/-! ## Tags -/

/-- The fields of a tag are all of its text, up to blanks and a hyphen. -/
theorem tagOfParts_keeps (keyword source : String) (cs : List Char) (others : List (List Char)) :
    ∃ separator ∈ [[], ['-']],
      withoutBlanks ('@' :: (keyword.toList ++ cs)) ++ others.flatMap withoutBlanks =
        withoutBlanks ((tagOfParts keyword source cs others).heading ++
          (separator ++ (tagOfParts keyword source cs others).remark)) := by
  have hkeyword (ds : List Char) : withoutBlanks ('@' :: (keyword.toList ++ ds)) =
      withoutBlanks ('@' :: keyword.toList) ++ withoutBlanks ds :=
    withoutBlanks_append ('@' :: keyword.toList) ds
  rw [hkeyword, typeAt_keeps cs]
  simp only [tagOfParts, Tag.heading, Tag.remark]
  -- with a name behind the type, and without one
  split
  · obtain ⟨separator, hseparator, hbehind⟩ :=
      describe_keeps (nameAt (typeAt cs).behind).behind others
    refine ⟨separator, hseparator, ?_⟩
    rw [withoutBlanks_append, hkeyword, withoutBlanks_append, ← hbehind,
      nameAt_keeps (typeAt cs).behind]
    simp only [List.append_assoc]
  · obtain ⟨separator, hseparator, hbehind⟩ := describe_keeps (typeAt cs).behind others
    refine ⟨separator, hseparator, ?_⟩
    rw [withoutBlanks_append, hkeyword, withoutBlanks_append, ← hbehind, Tag.nameChars]
    simp [withoutBlanks]

/-- The fields of a tag with a keyword are all of its source, up to blanks and a hyphen. -/
theorem readTag_keeps (cs : List Char) (others : List (List Char))
    (h : (readTag ⟨'@' :: cs, others⟩).value.keyword ≠ "") :
    ∃ separator ∈ [[], ['-']],
      withoutBlanks (readTag ⟨'@' :: cs, others⟩).value.source.toList =
        withoutBlanks ((readTag ⟨'@' :: cs, others⟩).value.heading ++
          (separator ++ (readTag ⟨'@' :: cs, others⟩).value.remark)) := by
  have hword : (firstWord cs).1 ≠ [] := by
    intro hnil
    rw [keyword_readTag, hnil] at h
    exact h rfl
  have hsource : withoutBlanks (readTag ⟨'@' :: cs, others⟩).value.source.toList =
      withoutBlanks ('@' :: ((String.ofList (firstWord cs).1).toList ++
        trimStart (firstWord cs).2)) ++ others.flatMap withoutBlanks := by
    rw [source_readTag, TagLines.source, String.toList_ofList, withoutBlanks_trim,
      withoutBlanks_joinLines, List.flatMap_cons, withoutBlanks_cons rfl, withoutBlanks_cons rfl,
      String.toList_ofList, withoutBlanks_append, withoutBlanks_trimStart, ← withoutBlanks_append,
      firstWord_parts]
  rw [hsource, value_readTag cs hword]
  exact tagOfParts_keeps ..

/-- The fields of a tag with a keyword are its source, up to blanks and a hyphen. -/
theorem Block.fields_of_source (text : String) :
    ∀ block ∈ (Block.allIn text).value, ∀ tag ∈ block.tags, tag.keyword ≠ "" →
      ∃ separator ∈ [[], ['-']],
        withoutBlanks tag.source.toList =
          withoutBlanks (tag.heading ++ (separator ++ tag.remark)) := by
  intro block hblock tag htag hkeyword
  rw [Block.allIn, Block.value_ofBodies] at hblock
  obtain ⟨body, -, rfl⟩ := List.mem_map.mp hblock
  rw [Block.value_ofBody] at htag
  obtain ⟨group, hgroup, rfl⟩ := List.mem_map.mp htag
  have hfirst : group.first ∈ (undecoratedLines body).filter opensTag := by
    rw [← map_first_sections]
    exact List.mem_map_of_mem hgroup
  obtain ⟨cs, hcs⟩ := List.head?_eq_some_iff.mp (opensTag_iff.mp (List.mem_filter.mp hfirst).2)
  obtain ⟨first, others⟩ := group
  obtain rfl : first = '@' :: cs := hcs
  exact readTag_keeps cs others hkeyword

/-- A tag with a type that is not closed. -/
theorem Block.fields_of_unclosed_type :
    let text := String.ofList ("/** @param ".toList ++ '{' :: "a[] - b [c] */".toList)
    let tag : Tag :=
      { keyword := "param"
        name := some (String.ofList ('{' :: "a[]".toList))
        description := some "b [c]"
        source := String.ofList ("@param ".toList ++ '{' :: "a[] - b [c]".toList) }
    { tags := [tag] } ∈ (Block.allIn text).value ∧ tag.keyword ≠ "" ∧
      ∃ separator ∈ [[], ['-']],
        withoutBlanks tag.source.toList =
          withoutBlanks (tag.heading ++ (separator ++ tag.remark)) := by
  intro text tag
  have hblock : { tags := [tag] } ∈ (Block.allIn text).value := by decide
  have hkeyword : tag.keyword ≠ "" := by decide
  exact ⟨hblock, hkeyword,
    Block.fields_of_source text _ hblock tag List.mem_cons_self hkeyword⟩

end DocComment
