import DocComment.Proofs.Grammar.LastOperator
import DocComment.Proofs.Lexing.Delimiters
import DocComment.Proofs.OptionalTypes

/-!
# Names of optional types

The shape of an optional type is the text of its operand. At the root that text is the
source without its last character, and it is read as the operand
(`TypeExpr.exists_of_parseChars_optional`). Inside a union, a container or a tuple the
operand is written anew, and what is written is accepted, though not always read as the
operand (`shapeOfText_optional`).
-/

namespace DocComment

open Text Token TypeExpr

/-! ## The root -/

theorem Text.dropFinal_concat (final : Char) (cs : List Char) :
    dropFinal final (cs ++ [final]) = cs := by
  induction cs with
  | nil => exact if_pos rfl
  | cons c cs ih =>
    cases cs with
    | nil => exact congrArg (c :: ·) ih
    | cons d ds => exact congrArg (c :: ·) ih

/-- A text that is read as an optional type ends in the mark, and the text in front of the
mark is read as the operand. -/
theorem TypeExpr.exists_of_parseChars_optional {cs : List Char} {operand : TypeExpr}
    (htrim : trim cs = cs) (h : TypeExpr.parseChars cs = .ok (.optional operand)) :
    ∃ name, cs = name ++ ['='] ∧ TypeExpr.parseChars name = .ok operand := by
  obtain ⟨k, d, htree⟩ := exists_textDerivation_of_parseChars h htrim
  have hmarked : (TypeExpr.optional operand).MarkedAtEnd cs :=
    htree ▸ TextDerivation.markedAtEnd_type d
  obtain ⟨name, rfl⟩ := List.getLast?_eq_some_iff.mp (hmarked.mp rfl).1
  rw [parseChars_eq_ok_iff, tokensOf_concat] at h
  exact ⟨name, rfl, parseChars_eq_ok_iff.mpr (Grammar.mem_readType_of_optional h)⟩

/-! ## Below the root -/

/-- The types whose shapes are the members of the shape of a type. -/
def TypeExpr.members : TypeExpr → List TypeExpr
  | union left right => [left, right]
  | generic _ arguments => arguments
  | tuple entries => entries
  | _ => []

/-- The type at a place: a path says which member is taken at each level. -/
def TypeExpr.at? (t : TypeExpr) : List Nat → Option TypeExpr
  | [] => some t
  | i :: path => t.members[i]?.bind (·.at? path)

def Shape.members : Shape → List Shape
  | composite _ members => members
  | _ => []

def Shape.at? (shape : Shape) : List Nat → Option Shape
  | [] => some shape
  | i :: path => shape.members[i]?.bind (·.at? path)

namespace TypeExpr

variable {wide : Prop} {n : Nonterminal} {t operand : TypeExpr}

theorem value_shapes (ts : List TypeExpr) :
    (TypeExpr.shapes ts).value = ts.map fun t => t.shape.value := by
  induction ts with
  | nil => rfl
  | cons t ts ih =>
    rw [List.map_cons, ← ih]
    rfl

theorem members_shape (t : TypeExpr) :
    t.shape.value.members = t.members.map fun member => member.shape.value := by
  cases t
  case generic subject arguments => exact value_shapes arguments
  case tuple entries => exact value_shapes entries
  all_goals rfl

/-- A shape has the shapes of the members, also if the type comes with its text. -/
theorem members_shapeOf (cs : List Char) (t : TypeExpr) :
    (t.shapeOf cs).value.members = t.members.map fun member => member.shape.value := by
  cases t
  case optional => rfl
  all_goals exact members_shape _

/-- Below any path, the shape of a type is the shape of what stands there. -/
theorem at?_shape (t : TypeExpr) (path : List Nat) :
    t.shape.value.at? path = (t.at? path).map fun found => found.shape.value := by
  induction path generalizing t with
  | nil => rfl
  | cons i path ih =>
    rw [Shape.at?, TypeExpr.at?, members_shape, List.getElem?_map]
    cases t.members[i]? with
    | none => rfl
    | some member => exact ih member

/-- Below the root a shape has the shapes of the types that are there. -/
theorem at?_shapeOf (cs : List Char) (t : TypeExpr) {path : List Nat} (hpath : path ≠ []) :
    (t.shapeOf cs).value.at? path = (t.at? path).map fun found => found.shape.value := by
  cases path with
  | nil => exact absurd rfl hpath
  | cons i path =>
    rw [Shape.at?, TypeExpr.at?, members_shapeOf, List.getElem?_map]
    cases t.members[i]? with
    | none => rfl
    | some member => exact at?_shape member path

/-- The members of a tree that can be read are trees that can be read. -/
theorem Formed.members (h : Formed wide n t) : ∀ member ∈ t.members, Formed wide .type member := by
  induction h with
  | tuple h _ | generic _ _ h _ => exact h
  | plain _ ih | unmarked _ ih | operand _ ih => exact ih
  | union hleft _ hright _ _ =>
    exact List.forall_mem_cons.mpr ⟨.operand hleft, List.forall_mem_singleton.mpr hright⟩
  | _ => exact nofun

/-- What stands below a formed type is formed. -/
theorem Formed.at? (h : Formed wide .type t) {path : List Nat} {found : TypeExpr}
    (hfound : t.at? path = some found) : Formed wide .type found := by
  induction path generalizing t with
  | nil =>
    obtain rfl := Option.some.inj hfound
    exact h
  | cons i path ih =>
    obtain ⟨member, hmember, hfound⟩ := Option.bind_eq_some_iff.mp hfound
    exact ih (h.members member (List.mem_of_getElem? hmember)) hfound

/-- The operand of an optional type that can be read can be read. -/
theorem Formed.operand_of_optional (h : Formed wide n (.optional operand)) :
    Formed wide .type operand := by
  generalize ht : TypeExpr.optional operand = t at h
  induction h with
  | plain _ ih | unmarked _ ih | operand _ ih => exact ih ht
  | optional h _ =>
    obtain rfl := TypeExpr.optional.inj ht
    exact .operand (.unmarked h)
  | _ => cases ht

end TypeExpr

/-- The shape of an optional type is a name that is accepted as a type. At the root it is
the source without the mark, which is read as the operand; below the root it is the text
of the operand. -/
theorem shapeOfText_optional (text : String) (t : TypeExpr)
    (h : TypeExpr.parseChars (trim text.toList) = .ok t) :
    ∃ shape, (shapeOfText (some text)).result = .ok shape ∧
      (∀ operand, t = .optional operand →
        ∃ name, trim text.toList = name ++ ['='] ∧ shape = .bare (String.ofList name) ∧
          TypeExpr.parseChars name = .ok operand) ∧
      ∀ path operand, path ≠ [] → t.at? path = some (.optional operand) →
        ∃ name, operand.toNode.render = .ok name ∧ shape.at? path = some (.bare name) ∧
          ∃ again, TypeExpr.parse name = .ok again := by
  have hread : typeOfText (some text) = .ok (some t) := typeOfText_of_parseChars h
  refine ⟨(t.shapeOf (trim text.toList)).value, ?_, ?_, ?_⟩
  · rw [result_shapeOfText, hread]
    rfl
  · -- at the root the name is cut from the source
    rintro operand rfl
    obtain ⟨name, hname, hoperand⟩ := TypeExpr.exists_of_parseChars_optional (trim_trim _) h
    refine ⟨name, hname, ?_, hoperand⟩
    rw [hname]
    exact congrArg (Shape.bare ∘ String.ofList) (dropFinal_concat '=' name)
  · -- below it the name is written anew, and what is written is read again
    intro path operand hpath hfound
    have hformed : Formed True .type t := formed_of_parseChars h
    refine ⟨operand.render, Node.render_toNode operand, ?_, operand.reread,
      parse_render (hformed.at? hfound).operand_of_optional⟩
    rw [at?_shapeOf _ t hpath, hfound]
    rfl

/-- A name keeps the space in front of the mark. A nullable empty tuple inside a container
is written anew, and what is written is accepted. -/
theorem shapeOfText_optional_sample :
    TypeExpr.parseChars (trim "A? =".toList) = .ok (.optional (.nullable (.name "A"))) ∧
      (shapeOfText (some "A? =")).result = .ok (.bare "A? ") ∧
      TypeExpr.parseChars "A? ".toList = .ok (.nullable (.name "A")) ∧
      TypeExpr.parseChars (trim "B|C<[]?=>".toList) =
        .ok (.union (.name "B") (.generic "C" [.optional (.nullable (.tuple []))])) ∧
      (∃ shape, (shapeOfText (some "B|C<[]?=>")).result = .ok shape ∧
        shape.at? [1, 0] = some (.bare "?[]")) ∧
      ∃ again, TypeExpr.parse "?[]" = .ok again := by
  have hspaced : TypeExpr.parseChars (trim "A? =".toList) =
      .ok (.optional (.nullable (.name "A"))) := by
    decide +kernel
  have hnested : TypeExpr.parseChars (trim "B|C<[]?=>".toList) =
      .ok (.union (.name "B") (.generic "C" [.optional (.nullable (.tuple []))])) := by
    decide +kernel
  obtain ⟨root, hroot, hmarked, -⟩ := shapeOfText_optional _ _ hspaced
  obtain ⟨name, hname, rfl, hoperand⟩ := hmarked _ rfl
  obtain rfl : "A? ".toList = name := List.append_cancel_right hname
  obtain ⟨shape, hshape, -, hbelow⟩ := shapeOfText_optional _ _ hnested
  obtain ⟨inner, hinner, hat, haccepted⟩ := hbelow [1, 0] _ nofun rfl
  obtain rfl : "?[]" = inner := Except.ok.inj hinner
  exact ⟨hspaced, hroot, hoperand, hnested, ⟨shape, hshape, hat⟩, haccepted⟩

end DocComment
