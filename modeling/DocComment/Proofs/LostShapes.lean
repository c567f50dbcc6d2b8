import DocComment.Proofs.CleanNames
import DocComment.Proofs.FlatNames
import DocComment.Proofs.Spacing

/-!
# Lost shapes

A type that is not kept leaves an absent shape at its place, and one notice. The shape of a
text can be walked together with its type: at each place the form of the shape fits that of
the type (`TypeExpr.Fits`), and so no place is dropped or moved. The places without a shape
are those of the kinds that are not kept, and the notices are theirs, one for each, in the
order of the places (`shapeOfText_lost`).
-/

namespace DocComment

open Text

/-! ## Places without a shape -/

namespace Shape

mutual

/-- The places of a shape where nothing is known, in order. -/
def gaps : Shape → List (List Nat)
  | absent => [[]]
  | bare _ => []
  | composite _ members => gapsFrom 0 members

/-- The gaps of members, of which the first has the given position. -/
def gapsFrom (first : Nat) : List Shape → List (List Nat)
  | [] => []
  | member :: members => (gaps member).map (first :: ·) ++ gapsFrom (first + 1) members

end

mutual

/-- The gaps of a shape are the places where it is absent. -/
theorem mem_gaps_iff : (shape : Shape) → (path : List Nat) →
    (path ∈ shape.gaps ↔ shape.at? path = some .absent)
  | absent, path => by
    cases path with
    | nil => simp [gaps, at?]
    | cons i path => simp [gaps, at?, members]
  | bare name, path => by
    cases path with
    | nil => simp [gaps, at?]
    | cons i path => simp [gaps, at?, members]
  | composite name members, path => by
    rw [gaps, mem_gapsFrom_iff]
    cases path with
    | nil => simp [at?]
    | cons i path => simp [at?, Shape.members]

/-- The gaps of members are those of each, behind its index. -/
theorem mem_gapsFrom_iff : (members : List Shape) → (first : Nat) → (path : List Nat) →
    (path ∈ gapsFrom first members ↔
      ∃ i below, path = (first + i) :: below ∧
        members[i]?.bind (·.at? below) = some .absent)
  | [], first, path => by simp [gapsFrom]
  | member :: members, first, path => by
    rw [gapsFrom, List.mem_append, mem_gapsFrom_iff members (first + 1) path, List.mem_map]
    constructor
    · rintro (⟨below, hbelow, rfl⟩ | ⟨i, below, rfl, hbelow⟩)
      · exact ⟨0, below, rfl, (mem_gaps_iff member below).mp hbelow⟩
      · refine ⟨i + 1, below, ?_, hbelow⟩
        rw [Nat.add_right_comm, Nat.add_assoc]
    · rintro ⟨i, below, rfl, hbelow⟩
      cases i with
      | zero => exact .inl ⟨below, (mem_gaps_iff member below).mpr hbelow, rfl⟩
      | succ i =>
        refine .inr ⟨i, below, ?_, hbelow⟩
        rw [Nat.add_right_comm, Nat.add_assoc]

end

mutual

/-- The gaps of a shape go from left to right. -/
theorem pairwise_gaps : (shape : Shape) → shape.gaps.Pairwise (· < ·)
  | absent => List.pairwise_singleton _ _
  | bare _ => List.Pairwise.nil
  | composite _ members => pairwise_gapsFrom members 0

/-- Gaps are listed from left to right. -/
theorem pairwise_gapsFrom : (members : List Shape) → (first : Nat) →
    (gapsFrom first members).Pairwise (· < ·)
  | [], _ => List.Pairwise.nil
  | member :: members, first => by
    rw [gapsFrom, List.pairwise_append]
    refine ⟨?_, pairwise_gapsFrom members (first + 1), ?_⟩
    · rw [List.pairwise_map]
      exact (pairwise_gaps member).imp fun h => List.cons_lt_cons_self.mpr h
    · intro path hpath later hlater
      obtain ⟨below, -, rfl⟩ := List.mem_map.mp hpath
      obtain ⟨i, below', rfl, -⟩ := (mem_gapsFrom_iff _ _ _).mp hlater
      exact List.cons_lt_cons_iff.mpr (.inl (by omega))

end

end Shape

/-! ## Types and their shapes -/

namespace TypeExpr

/-- The kinds of types that have a shape. -/
def shapedKinds : List Kind := [.name, .union, .optional, .any, .generic, .tuple]

/-- The form of a shape is the one that the form of the type asks for. -/
inductive Fits : TypeExpr → Shape → Prop where
  | name {text} : Fits (.name text) (.bare text)
  | any : Fits .any (.bare "mixed")
  | optional {inner name} : Fits (.optional inner) (.bare name)
  | union {left right first second} :
      Fits (.union left right) (.composite "union" [first, second])
  | generic {subject arguments members} (hlength : members.length = arguments.length) :
      Fits (.generic subject arguments) (.composite subject members)
  | tuple {entries members} (hlength : members.length = entries.length) :
      Fits (.tuple entries) (.composite "tuple" members)
  | lost {t : TypeExpr} (hkind : t.kind ∉ shapedKinds) : Fits t .absent

/-- A type and its shape fit at the root. -/
theorem fits_shape (t : TypeExpr) : Fits t t.shape.value := by
  cases t with
  | name => exact .name
  | any => exact .any
  | optional => exact .optional
  | union => exact .union
  | generic subject arguments =>
    refine .generic ?_
    rw [value_shapes, List.length_map]
  | tuple entries =>
    refine .tuple ?_
    rw [value_shapes, List.length_map]
  | _ => exact .lost (by simp [kind, shapedKinds])

theorem fits_shapeOf (cs : List Char) (t : TypeExpr) : Fits t (t.shapeOf cs).value := by
  cases t with
  | optional => exact .optional
  | _ => exact fits_shape _

/-- At each place the shape fits the type, also if the type comes with its text. -/
theorem rel_fits_shapeOf (cs : List Char) (t : TypeExpr) (path : List Nat) :
    Option.Rel Fits (t.at? path) ((t.shapeOf cs).value.at? path) := by
  cases path with
  | nil => exact .some (fits_shapeOf cs t)
  | cons i path =>
    rw [at?_shapeOf cs t (List.cons_ne_nil i path)]
    cases t.at? (i :: path) with
    | none => exact .none
    | some found => exact .some (fits_shape found)

/-- A shape that fits is absent exactly for the kinds that are not kept. -/
theorem Fits.eq_absent_iff {t : TypeExpr} {shape : Shape} (h : Fits t shape) :
    shape = .absent ↔ t.kind ∉ shapedKinds := by
  cases h with
  | lost hkind => simp [hkind]
  | _ => simp [kind, shapedKinds]

/-! ## Notices -/

/-- A notice about the type at a place. -/
def NotedAt (t : TypeExpr) (path : List Nat) (notice : Notice) : Prop :=
  ∃ found, t.at? path = some found ∧ notice = .noShape found.kind

theorem notices_shapes (ts : List TypeExpr) :
    (shapes ts).notices = ts.flatMap fun t => t.shape.notices := by
  induction ts with
  | nil => rfl
  | cons t ts ih =>
    simp only [shapes, Logged.notices_bind, Logged.notices_pure, List.append_nil, ih,
      List.flatMap_cons]

/-- A type of a kept kind has the gaps of its members. -/
theorem gaps_shape_of_shaped {t : TypeExpr} (h : t.kind ∈ shapedKinds) :
    t.shape.value.gaps = Shape.gapsFrom 0 (t.members.map fun member => member.shape.value) := by
  cases t with
  | name | any | optional | union => rfl
  | generic subject arguments => exact congrArg (Shape.gapsFrom 0) (value_shapes arguments)
  | tuple entries => exact congrArg (Shape.gapsFrom 0) (value_shapes entries)
  | _ => simp [kind, shapedKinds] at h

/-- A type that is kept leaves the notices to its members. -/
theorem notices_shape_of_shaped {t : TypeExpr} (h : t.kind ∈ shapedKinds) :
    t.shape.notices = t.members.flatMap fun member => member.shape.notices := by
  cases t with
  | name | any | optional => rfl
  | union left right => simp [shape, members]
  | generic subject arguments =>
    simp only [shape, members, Logged.notices_bind, Logged.notices_pure, List.append_nil,
      notices_shapes]
  | tuple entries =>
    simp only [shape, members, Logged.notices_bind, Logged.notices_pure, List.append_nil,
      notices_shapes]
  | _ => simp [kind, shapedKinds] at h

/-- A type of any other kind has no shape, and that is noted. -/
theorem shape_of_not_shaped {t : TypeExpr} (h : t.kind ∉ shapedKinds) :
    t.shape = ⟨[.noShape t.kind], .absent⟩ := by
  cases t with
  | name | any | optional | union | generic | tuple => simp [kind, shapedKinds] at h
  | _ => rfl

theorem sizeOf_lt_of_mem_members {t member : TypeExpr} (h : member ∈ t.members) :
    sizeOf member < sizeOf t := by
  cases t with
  | union left right =>
    rw [union.sizeOf_spec]
    rcases List.mem_pair.mp h with rfl | rfl
    all_goals omega
  | generic subject arguments =>
    have := List.sizeOf_lt_of_mem h
    rw [generic.sizeOf_spec]
    simp only [members] at this
    omega
  | tuple entries =>
    have := List.sizeOf_lt_of_mem h
    rw [tuple.sizeOf_spec]
    simp only [members] at this
    omega
  | _ => cases h

/-- Members that have a notice for each gap have them also one behind the other. -/
theorem forall₂_gapsFrom {ts : List TypeExpr}
    (h : ∀ t ∈ ts, List.Forall₂ t.NotedAt t.shape.value.gaps t.shape.notices) (first : Nat) :
    List.Forall₂
      (fun path notice => ∃ i below, path = (first + i) :: below ∧
        ∃ member, ts[i]? = some member ∧ member.NotedAt below notice)
      (Shape.gapsFrom first (ts.map fun t => t.shape.value))
      (ts.flatMap fun t => t.shape.notices) := by
  induction ts generalizing first with
  | nil => exact .nil
  | cons t ts ih =>
    obtain ⟨hfirst, hothers⟩ := List.forall_mem_cons.mp h
    rw [List.map_cons, Shape.gapsFrom, List.flatMap_cons]
    refine List.rel_append ?_ ?_
    · rw [List.forall₂_map_left_iff]
      refine hfirst.imp ?_
      intro below notice hnoted
      exact ⟨0, below, rfl, t, rfl, hnoted⟩
    · refine (ih hothers (first + 1)).imp ?_
      rintro _ notice ⟨i, below, rfl, member, hmember, hnoted⟩
      refine ⟨i + 1, below, ?_, member, hmember, hnoted⟩
      rw [Nat.add_right_comm, Nat.add_assoc]

/-- There is one notice for each gap of a shape, and it is about the type there. -/
theorem forall₂_gaps_shape (t : TypeExpr) :
    List.Forall₂ t.NotedAt t.shape.value.gaps t.shape.notices := by
  -- a kept kind passes on what its members have; any other is the one gap itself
  by_cases hkind : t.kind ∈ shapedKinds
  · have hmembers : ∀ member ∈ t.members,
        List.Forall₂ member.NotedAt member.shape.value.gaps member.shape.notices := by
      intro member hmember
      have := sizeOf_lt_of_mem_members hmember
      exact forall₂_gaps_shape member
    rw [gaps_shape_of_shaped hkind, notices_shape_of_shaped hkind]
    refine (forall₂_gapsFrom hmembers 0).imp ?_
    rintro _ notice ⟨i, below, rfl, member, hmember, found, hfound, rfl⟩
    refine ⟨found, ?_, rfl⟩
    rw [Nat.zero_add, at?, hmember]
    exact hfound
  · rw [shape_of_not_shaped hkind]
    exact .cons ⟨t, rfl, rfl⟩ .nil
termination_by sizeOf t

/-- An optional root has neither gaps nor notices, and any other root has those of its shape. -/
theorem forall₂_gaps_shapeOf (cs : List Char) (t : TypeExpr) :
    List.Forall₂ t.NotedAt (t.shapeOf cs).value.gaps (t.shapeOf cs).notices := by
  cases t with
  | optional => exact .nil
  | _ => exact forall₂_gaps_shape _

end TypeExpr

/-! ## Texts -/

/-- A text that is read makes the notices of its type and no others. -/
theorem notices_shapeOfText_of_parseChars {text : String} {t : TypeExpr}
    (h : TypeExpr.parseChars (trim text.toList) = .ok t) :
    (shapeOfText (some text)).notices = (t.shapeOf (trim text.toList)).notices := by
  unfold shapeOfText
  split
  · next hblank =>
    rw [Option.getD_some] at hblank
    rw [hblank] at h
    cases h
  · next c cs heq =>
    rw [Option.getD_some] at heq
    rw [heq] at h ⊢
    rw [parseNoting, h]
    exact List.append_nil _

/-- The shape of a text that is read fits its type place by place. It is absent exactly at
the places of the kinds that are not kept, and for each of these, from left to right, there
is one notice, which names the kind there. No other notice is made. -/
theorem shapeOfText_lost (text : String) (t : TypeExpr) (h : TypeExpr.parse text = .ok t) :
    ∃ shape, (shapeOfText (some text)).result = .ok shape ∧
      (∀ path, Option.Rel TypeExpr.Fits (t.at? path) (shape.at? path)) ∧
      (∀ path found, t.at? path = some found →
        (shape.at? path = some .absent ↔ found.kind ∉ TypeExpr.shapedKinds)) ∧
      ∃ paths : List (List Nat), paths.Pairwise (· < ·) ∧
        (∀ path, path ∈ paths ↔ shape.at? path = some .absent) ∧
        List.Forall₂
          (fun path notice => ∃ found, t.at? path = some found ∧ notice = .noShape found.kind)
          paths (shapeOfText (some text)).notices := by
  have hparse : TypeExpr.parseChars (trim text.toList) = .ok t := parseChars_trim h
  have hfits := TypeExpr.rel_fits_shapeOf (trim text.toList) t
  refine ⟨_, result_shapeOfText_of_parseChars hparse, hfits, ?_, _, Shape.pairwise_gaps _,
    Shape.mem_gaps_iff _, ?_⟩
  · intro path found hfound
    have hrel := hfits path
    rw [hfound] at hrel
    cases hat : (t.shapeOf (trim text.toList)).value.at? path with
    | none =>
      rw [hat] at hrel
      cases hrel
    | some shape =>
      rw [hat] at hrel
      cases hrel with
      | some hfit => rw [Option.some_inj, hfit.eq_absent_iff]
  · rw [notices_shapeOfText_of_parseChars hparse]
    exact TypeExpr.forall₂_gaps_shapeOf _ t

/-- A tuple loses its function and the negation in its union. What stands below the function
or below the optional entry is not walked. -/
theorem shapeOfText_lost_tuple :
    let text := "[function(?), (A)=, B<C|!?, *>, []]"
    let t : TypeExpr := .tuple [.function [.unknown], .optional (.parens (.name "A")),
      .generic "B" [.union (.name "C") (.notNullable .unknown), .any], .tuple []]
    TypeExpr.parse text = .ok t ∧
      ∃ shape, (shapeOfText (some text)).result = .ok shape ∧
        shape.at? [0] = some .absent ∧ shape.at? [2, 0, 1] = some .absent ∧
        shape.at? [1] ≠ some .absent ∧
        ∃ paths : List (List Nat), paths.Pairwise (· < ·) ∧ [0] ∈ paths ∧ [2, 0, 1] ∈ paths ∧
          paths.length = 2 ∧
          (shapeOfText (some text)).notices = [.noShape .function, .noShape .notNullable] := by
  intro text t
  have hparse : TypeExpr.parse text = .ok t := by decide +kernel
  have hnotices : (shapeOfText (some text)).notices =
      [.noShape .function, .noShape .notNullable] := by
    decide +kernel
  obtain ⟨shape, hshape, -, habsent, paths, hsorted, hpaths, hnoted⟩ :=
    shapeOfText_lost text t hparse
  have hfunction : shape.at? [0] = some .absent := (habsent [0] _ rfl).mpr (by decide)
  have hnegation : shape.at? [2, 0, 1] = some .absent := (habsent [2, 0, 1] _ rfl).mpr (by decide)
  have hoptional : shape.at? [1] ≠ some .absent := by
    rw [ne_eq, habsent [1] _ rfl]
    decide
  have hlength : paths.length = 2 := by
    rw [hnoted.length_eq, hnotices]
    rfl
  exact ⟨hparse, shape, hshape, hfunction, hnegation, hoptional, paths, hsorted,
    (hpaths [0]).mpr hfunction, (hpaths [2, 0, 1]).mpr hnegation, hlength, hnotices⟩

end DocComment
