import DocComment.Proofs.Writing.Marks

/-!
# Trees that are read again as they were

A tree is steady if reading its text again gives the tree itself
(`reread_eq_iff`). For that every operand must have its marks in the order in
which they are read, the optional ones next to the operand. An empty tuple must
not stand under a question mark.

A type that is not known is written as a question mark itself. If it has question
marks in front of it, the first of them is read as the operand, and the signs
behind that one apply to it from left to right. So inside the outermost question
mark there must be signs only, in an order that is the same backwards, and the
optional marks must stand right outside of it (`settle`).

All canonical trees are steady (`Formed.isSteady`).
-/

namespace DocComment

open Mark

namespace Mark

/-- Whether the optional marks are next to the operand. -/
def tidy (marks : List Mark) : Bool :=
  signs marks ++ optionals marks == marks

/-- The marks of a type that is not known, after its text has been read again. -/
def settle (behind : List Mark) : List Mark → List Mark
  | [] => behind
  | optional :: marks => settle behind marks
  | notNullable :: marks => notNullable :: settle behind marks
  | nullable :: marks => behind ++ nullable :: (signs marks).reverse

end Mark

namespace TypeExpr

mutual

/-- Whether an operand with marks is read again as it is. -/
def steadyUnder (marks : List Mark) : TypeExpr → Bool
  | optional inner => steadyUnder (marks ++ [.optional]) inner
  | nullable inner => steadyUnder (marks ++ [.nullable]) inner
  | notNullable inner => steadyUnder (marks ++ [.notNullable]) inner
  | unknown => settle (optionals marks) marks == marks
  | name _ | string _ | number _ | any | typeOf _ => tidy marks
  | union left right => tidy marks && (steadyUnder [] left && steadyUnder [] right)
  | variadic inner | parens inner => tidy marks && steadyUnder [] inner
  | generic _ arguments => tidy marks && steadyAll arguments
  | tuple entries =>
    tidy marks && (!(entries.isEmpty && marks.contains .nullable) && steadyAll entries)
  | record fields => tidy marks && steadyFields fields
  | function params => tidy marks && steadyAll params
  | functionReturning params returns =>
    tidy marks && (steadyAll params && steadyUnder [] returns)
  | arrow params returns => tidy marks && (steadyFields params && steadyUnder [] returns)

def steadyAll : List TypeExpr → Bool
  | [] => true
  | t :: ts => steadyUnder [] t && steadyAll ts

def steadyField : Field → Bool
  | .bare _ => true
  | .typed _ type => steadyUnder [] type

def steadyFields : List Field → Bool
  | [] => true
  | f :: fs => steadyField f && steadyFields fs

end

/-- Whether the text of a tree is read as the tree. -/
def isSteady (t : TypeExpr) : Bool :=
  steadyUnder [] t

variable {marks behind : List Mark} {t u : TypeExpr}

/-! ## Marks that are read again -/

/-- Marks around an operand that is no operator keep their operand, and stay as
they are if they are tidy. -/
theorem regroup_eq_iff (h : t.asOperator? = none) (ht : t.isMarked = false)
    (hu : u.isMarked = false) : regroup marks t = wrap marks u ↔ tidy marks = true ∧ t = u := by
  rw [regroup, readSigns_of_none h, wrap_inj ht hu, tidy, beq_iff_eq]

theorem readSigns_unknown (behind marks : List Mark) :
    readSigns behind unknown marks = wrap (settle behind marks) unknown := by
  induction marks with
  | nil => rfl
  | cons mark marks ih =>
    cases mark with
    | optional => exact ih
    | notNullable => exact congrArg notNullable ih
    | nullable => exact (wrap_append behind (.nullable :: (signs marks).reverse) unknown).symm

theorem regroup_unknown_eq_iff :
    regroup marks unknown = wrap marks unknown ↔
      (settle (optionals marks) marks == marks) = true := by
  rw [regroup, readSigns_unknown, wrap_inj rfl rfl, beq_iff_eq, and_iff_left rfl]

/-- Without question marks the signs stay as they are. -/
theorem readSigns_of_notMem (h : .nullable ∉ marks) :
    readSigns behind t marks = wrap (signs marks ++ behind) t := by
  induction marks with
  | nil => rfl
  | cons mark marks ih =>
    rcases not_or.mp fun hmem => h (List.mem_cons.mpr hmem) with ⟨hne, hrest⟩
    cases mark with
    | optional => exact ih hrest
    | notNullable => exact congrArg notNullable (ih hrest)
    | nullable => exact absurd rfl hne

/-- Behind a question mark an empty tuple is read as brackets behind a type. -/
theorem readSigns_tuple_of_mem (h : .nullable ∈ marks) :
    ∃ marks' entry, readSigns behind (tuple []) marks = wrap marks' (Grammar.arrayOf entry) := by
  induction marks with
  | nil => exact absurd h List.not_mem_nil
  | cons mark marks ih =>
    cases mark with
    | optional => exact ih (by simpa using h)
    | notNullable =>
      rcases ih (by simpa using h) with ⟨marks', entry, heq⟩
      exact ⟨.notNullable :: marks', entry, congrArg notNullable heq⟩
    | nullable => exact ⟨behind, _, rfl⟩

/-- The empty tuple is read as an operator behind a question mark, and as itself otherwise. -/
theorem regroup_tuple_eq_iff :
    regroup marks (tuple []) = wrap marks (tuple []) ↔
      tidy marks = true ∧ .nullable ∉ marks := by
  by_cases h : Mark.nullable ∈ marks
  · have hread : ∃ marks' entry, readSigns (optionals marks) (tuple []) marks =
        wrap marks' (Grammar.arrayOf entry) := readSigns_tuple_of_mem h
    rcases hread with ⟨marks', entry, heq⟩
    rw [regroup, heq, wrap_inj rfl rfl]
    constructor
    · intro hvalue
      -- what is read then is an array, and no tuple
      rcases hvalue with ⟨-, hgeneric⟩
      exact TypeExpr.noConfusion hgeneric
    · intro hvalue
      rcases hvalue with ⟨-, hnot⟩
      exact absurd h hnot
  · rw [regroup, readSigns_of_notMem h, wrap_inj rfl rfl, tidy, beq_iff_eq, and_iff_left rfl,
      and_iff_left h]

/-! ## Trees that are read again -/

mutual

/-- An operand with marks is read again as it is if and only if it is steady under them. -/
theorem rereadUnder_eq_iff : (t : TypeExpr) → (marks : List Mark) →
    (rereadUnder marks t = wrap marks t ↔ steadyUnder marks t = true)
  | optional inner, marks => by
    have hinner := rereadUnder_eq_iff inner (marks ++ [.optional])
    rwa [wrap_concat] at hinner
  | nullable inner, marks => by
    have hinner := rereadUnder_eq_iff inner (marks ++ [.nullable])
    rwa [wrap_concat] at hinner
  | notNullable inner, marks => by
    have hinner := rereadUnder_eq_iff inner (marks ++ [.notNullable])
    rwa [wrap_concat] at hinner
  -- the types whose text is nothing but operators have cases of their own; all others are steady if
  -- their marks are tidy and their parts are steady
  | unknown, marks => regroup_unknown_eq_iff
  | name _, marks | string _, marks | number _, marks | any, marks | typeOf _, marks => by
    rw [rereadUnder, regroup_eq_iff rfl rfl rfl, steadyUnder, and_iff_left rfl]
  | union left right, marks => by
    have hleft : rereadUnder [] left = left ↔ _ := rereadUnder_eq_iff left []
    have hright : rereadUnder [] right = right ↔ _ := rereadUnder_eq_iff right []
    rw [rereadUnder, regroup_eq_iff rfl rfl rfl, steadyUnder]
    simp [hleft, hright]
  | variadic inner, marks => by
    have hinner : rereadUnder [] inner = inner ↔ _ := rereadUnder_eq_iff inner []
    rw [rereadUnder, regroup_eq_iff rfl rfl rfl, steadyUnder]
    simp [hinner]
  | parens inner, marks => by
    have hinner : rereadUnder [] inner = inner ↔ _ := rereadUnder_eq_iff inner []
    rw [rereadUnder, regroup_eq_iff rfl rfl rfl, steadyUnder]
    simp [hinner]
  | generic _ arguments, marks => by
    have harguments := rereadAll_eq_iff arguments
    rw [rereadUnder, regroup_eq_iff rfl rfl rfl, steadyUnder]
    simp [harguments]
  -- without entries the brackets can become an operator
  | tuple [], marks => by
    rw [rereadUnder, rereadAll, regroup_tuple_eq_iff, steadyUnder]
    simp [steadyAll]
  | tuple (t :: ts), marks => by
    have hentries := rereadAll_eq_iff (t :: ts)
    rw [rereadUnder, regroup_eq_iff rfl rfl rfl, steadyUnder]
    simp [hentries]
  | record fields, marks => by
    have hfields := rereadFields_eq_iff fields
    rw [rereadUnder, regroup_eq_iff rfl rfl rfl, steadyUnder]
    simp [hfields]
  | function params, marks => by
    have hparams := rereadAll_eq_iff params
    rw [rereadUnder, regroup_eq_iff rfl rfl rfl, steadyUnder]
    simp [hparams]
  | functionReturning params returns, marks => by
    have hparams := rereadAll_eq_iff params
    have hreturns : rereadUnder [] returns = returns ↔ _ := rereadUnder_eq_iff returns []
    rw [rereadUnder, regroup_eq_iff rfl rfl rfl, steadyUnder]
    simp [hparams, hreturns]
  | arrow params returns, marks => by
    have hparams := rereadFields_eq_iff params
    have hreturns : rereadUnder [] returns = returns ↔ _ := rereadUnder_eq_iff returns []
    rw [rereadUnder, regroup_eq_iff rfl rfl rfl, steadyUnder]
    simp [hparams, hreturns]

theorem rereadAll_eq_iff : (ts : List TypeExpr) → (rereadAll ts = ts ↔ steadyAll ts = true)
  | [] => by simp [rereadAll, steadyAll]
  | t :: ts => by
    have hfirst : rereadUnder [] t = t ↔ _ := rereadUnder_eq_iff t []
    have hothers := rereadAll_eq_iff ts
    simp [rereadAll, steadyAll, hfirst, hothers]

theorem rereadField_eq_iff : (f : Field) → (rereadField f = f ↔ steadyField f = true)
  | .bare _ => by simp [rereadField, steadyField]
  | .typed _ type => by
    have htype : rereadUnder [] type = type ↔ _ := rereadUnder_eq_iff type []
    simp [rereadField, steadyField, htype]

theorem rereadFields_eq_iff : (fs : List Field) → (rereadFields fs = fs ↔ steadyFields fs = true)
  | [] => by simp [rereadFields, steadyFields]
  | f :: fs => by
    have hfirst := rereadField_eq_iff f
    have hothers := rereadFields_eq_iff fs
    simp [rereadFields, steadyFields, hfirst, hothers]

end

/-- The text of a tree is read as the tree if and only if the tree is steady. -/
theorem reread_eq_iff (t : TypeExpr) : t.reread = t ↔ t.isSteady = true :=
  rereadUnder_eq_iff t []

example : isSteady (nullable (notNullable unknown)) = true := rfl

example : reread (nullable (nullable (notNullable unknown))) =
    nullable (notNullable (nullable unknown)) := rfl

/-! ## Canonical trees -/

/-- Without a question mark the marks settle in the order of writing. -/
theorem settle_of_notMem (h : .nullable ∉ marks) : settle behind marks = signs marks ++ behind := by
  have hread : readSigns behind unknown marks = _ := readSigns_of_notMem h
  rw [readSigns_unknown] at hread
  exact ((wrap_inj rfl rfl).mp hread).1

theorem tidy_of_notMem (h : .optional ∉ marks) : tidy marks = true := by
  have hsigns : signs marks = marks := by
    refine List.filter_eq_self.mpr fun mark hmark => ?_
    exact decide_eq_true fun heq => h (heq ▸ hmark)
  rw [tidy, hsigns, optionals, List.count_eq_zero.mpr h]
  simp

/-- One more optional mark next to the operand leaves the marks tidy. -/
theorem tidy_concat_optional (h : tidy marks = true) : tidy (marks ++ [.optional]) = true := by
  rw [tidy, beq_iff_eq] at h ⊢
  have hsigns : signs (marks ++ [.optional]) = signs marks := by simp [signs]
  have hoptionals : optionals (marks ++ [.optional]) = optionals marks ++ [.optional] := by
    simp [optionals, List.replicate_succ']
  rw [hsigns, hoptionals, ← List.append_assoc, h]

theorem steadyAll_of_forall {ts : List TypeExpr} (h : ∀ t ∈ ts, steadyUnder [] t = true) :
    steadyAll ts = true := by
  induction ts with
  | nil => rfl
  | cons t ts ih =>
    rw [steadyAll, h t List.mem_cons_self, ih fun u hu => h u (List.mem_cons_of_mem t hu)]
    rfl

theorem steadyFields_of_forall {fs : List Field}
    (h : ∀ f ∈ fs, ∀ t, f.type? = some t → steadyUnder [] t = true) : steadyFields fs = true := by
  induction fs with
  | nil => rfl
  | cons f fs ih =>
    have hfirst : steadyField f = true := by
      cases f with
      | bare => rfl
      | typed label type => exact h _ List.mem_cons_self type rfl
    rw [steadyFields, hfirst, ih fun g hg => h g (List.mem_cons_of_mem f hg)]
    rfl

/-- A canonical operand is steady under marks in the order in which they are
written. -/
theorem Formed.steadyUnder {n : Nonterminal} {t : TypeExpr} (h : Formed False n t) :
    ∀ marks, n.Takes marks → tidy marks = true → (.nullable ∈ marks → t.isHollow = false) →
      steadyUnder marks t = true := by
  induction h with
  | name | string | number | any | typeOf => exact fun marks _ htidy _ => htidy
  -- with a question mark in front the type would be hollow
  | unknown =>
    intro marks _ htidy hhollow
    have hnot : Mark.nullable ∉ marks := fun hmem => Bool.noConfusion (hhollow hmem)
    rw [TypeExpr.steadyUnder, settle_of_notMem hnot]
    exact htidy
  | parens _ ih =>
    intro marks _ htidy _
    have hinner := ih [] rfl rfl (by simp)
    simp [TypeExpr.steadyUnder, htidy, hinner]
  | @variadic inner _ ih =>
    intro marks _ htidy _
    have hinner := ih [] List.not_mem_nil rfl (by simp)
    simp [TypeExpr.steadyUnder, htidy, hinner]
  | @tuple entries _ ih =>
    intro marks _ htidy hhollow
    have hentries := steadyAll_of_forall fun t ht => ih t ht [] rfl rfl (by simp)
    have hnot : entries ≠ [] ∨ Mark.nullable ∉ marks := by
      refine or_iff_not_imp_left.mpr fun hempty hmem => ?_
      obtain rfl := not_not.mp hempty
      exact Bool.noConfusion (hhollow hmem)
    simpa [TypeExpr.steadyUnder, htidy, hentries] using hnot
  | record _ _ ih =>
    intro marks _ htidy _
    have hfields := steadyFields_of_forall fun f hf t ht => ih f hf t ht [] rfl rfl (by simp)
    simp [TypeExpr.steadyUnder, htidy, hfields]
  | generic _ _ _ ih | function _ ih =>
    intro marks _ htidy _
    have hlist := steadyAll_of_forall fun t ht => ih t ht [] rfl rfl (by simp)
    simp [TypeExpr.steadyUnder, htidy, hlist]
  | functionReturning _ _ ih ih' =>
    intro marks _ htidy _
    have hparams := steadyAll_of_forall fun t ht => ih t ht [] rfl rfl (by simp)
    have hreturns := ih' [] rfl rfl (by simp)
    simp [TypeExpr.steadyUnder, htidy, hparams, hreturns]
  | arrow _ _ _ ih ih' =>
    intro marks _ htidy _
    have hparams := steadyFields_of_forall fun f hf t ht => ih f hf t ht [] rfl rfl (by simp)
    have hreturns := ih' [] rfl rfl (by simp)
    simp [TypeExpr.steadyUnder, htidy, hparams, hreturns]
  | union _ _ _ ih ih' =>
    intro marks _ htidy _
    have hleft := ih [] List.not_mem_nil rfl (by simp)
    have hright := ih' [] rfl rfl (by simp)
    simp [TypeExpr.steadyUnder, htidy, hleft, hright]
  | plain _ ih | unmarked _ ih => exact fun marks _ => ih marks trivial
  | operand _ ih =>
    intro _ heq htidy hhollow
    subst heq
    exact ih [] List.not_mem_nil htidy hhollow
  | optional _ ih =>
    intro marks _ htidy hhollow
    exact ih _ trivial (tidy_concat_optional htidy) fun hmem => hhollow (by simpa using hmem)
  -- canonical trees have no such signs behind an operand
  | nullableBehind hwide | notNullableBehind hwide => exact hwide.elim
  -- a sign in front takes no optional mark around it
  | nullable hhollow _ ih =>
    intro marks htakes _ _
    have hnot : Mark.optional ∉ marks ++ [.nullable] := by
      simpa [Nonterminal.Takes] using htakes
    exact ih _ hnot (tidy_of_notMem hnot) fun _ => hhollow not_false
  | notNullable _ ih =>
    intro marks htakes _ hhollow
    have hnot : Mark.optional ∉ marks ++ [.notNullable] := by
      simpa [Nonterminal.Takes] using htakes
    exact ih _ hnot (tidy_of_notMem hnot) fun hmem => hhollow (by simpa using hmem)

/-- A canonical tree is steady. -/
theorem Formed.isSteady {t : TypeExpr} (h : Canonical t) : t.isSteady = true :=
  Formed.steadyUnder h [] rfl rfl (by simp)

end TypeExpr

end DocComment
