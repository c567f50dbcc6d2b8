import DocComment.Proofs.Grammar.Levels
import DocComment.Proofs.Grammar.Reading

/-!
# Nesting

The depth of a place is the number of parentheses, square brackets and braces that are open
there. Angle brackets do not count, so unlike the level of a place its depth does not depend on
what `=>` stands for. A derivation ends as deep as it starts and is nowhere less deep in between
(`TokenDerivation.nested`), so an opening sign has one closing sign (`Nested.closing_eq`).

What is read as a type up to some place is not read as a type, a comma and named members up to
that place (`TokenDerivation.not_fields_behind_comma`): the last of the members has a label or
is a name behind a comma, and neither stands in a type at the depth of the type.
-/

namespace DocComment

open Terminal Token

/-! ## Depths -/

namespace Token

/-- How much deeper the places behind a token are. -/
def nesting : Token → Int
  | leftParen | leftBracket | leftBrace => 1
  | rightParen | rightBracket | rightBrace => -1
  | _ => 0

/-- The depth of a place. -/
def depth : List Token → Int
  | [] => 0
  | token :: rest => depth rest - token.nesting

end Token

/-- How much deeper it is behind a terminal. -/
def Terminal.nesting : Terminal → Int
  | leftParen | leftBracket | leftBrace => 1
  | rightParen | rightBracket | rightBrace => -1
  | _ => 0

variable {t : Terminal} {n : Nonterminal} {j k : Nat} {p q r s m : List Token} {token : Token}
  {x y : String}

/-- In front of a place there is one token. -/
theorem token_eq_of_suffix {a b : Token} (h : a :: q <:+ p) (h' : b :: q <:+ p) : a = b :=
  List.head_eq_of_cons_eq (Reading.eq_of_suffix_of_length h h' rfl)

/-- A terminal that is no bracket of the three kinds takes no such brackets. -/
theorem exists_flat_of_read? (h : t.read? p = some (x, q)) (ht : t.nesting = 0) :
    ∃ front, p = front ++ q ∧ ∀ token ∈ front, token.nesting = 0 := by
  by_cases harrow : t = .arrow
  · subst harrow
    obtain rfl := eq_of_read?_arrow h
    exact ⟨[.equals true, .greater], rfl, by simp [Token.nesting]⟩
  by_cases hellipsis : t = .ellipsis
  · subst hellipsis
    obtain ⟨b, c, rfl⟩ := eq_of_read?_ellipsis h
    exact ⟨[.dot true, .dot b, .dot c], rfl, by simp [Token.nesting]⟩
  obtain ⟨token, rfl⟩ := exists_token h hellipsis harrow
  refine ⟨[token], rfl, List.forall_mem_singleton.mpr ?_⟩
  unfold read? at h
  split at h <;> simp_all [Terminal.nesting, Token.nesting]

/-! ## Stretches -/

/-- A stretch ends as deep as it starts and is nowhere less deep in between. -/
structure Nested (p q : List Token) : Prop where
  suffix : q <:+ p
  depth_eq : depth q = depth p
  along : Along (depth p ≤ depth ·) p q

namespace Nested

theorem refl (p : List Token) : Nested p p :=
  ⟨List.suffix_refl p, rfl, .refl p⟩

theorem trans (h : Nested p q) (h' : Nested q r) : Nested p r where
  suffix := h'.suffix.trans h.suffix
  depth_eq := h'.depth_eq.trans h.depth_eq
  along := h.along.trans (h.depth_eq ▸ h'.along) h.suffix

/-- Tokens that do not change the depth are nested. -/
theorem append {front : List Token} (h : ∀ token ∈ front, token.nesting = 0) :
    Nested (front ++ q) q := by
  induction front with
  | nil => exact .refl q
  | cons token front ih =>
    obtain ⟨htoken, hfront⟩ := List.forall_mem_cons.mp h
    have hdepth : depth (token :: (front ++ q)) = depth (front ++ q) := by
      rw [depth, htoken, Int.sub_zero]
    have hrest := ih hfront
    refine ⟨hrest.suffix.trans (List.suffix_cons ..), hrest.depth_eq.trans hdepth.symm, ?_⟩
    exact .cons (Int.le_refl _) (hdepth ▸ hrest.along)

/-- A place in the stretch, or at its end. -/
theorem depth_le (h : Nested p q) (hm : m <:+ p) (hq : q <:+ m) : depth p ≤ depth m := by
  by_cases heq : m = q
  · exact Int.le_of_eq (heq ▸ h.depth_eq.symm)
  · exact h.along m hq hm heq

/-- Behind an opening sign there is one place where it is closed. -/
theorem closing_eq {closing closing' : Token} (h : Nested p (closing :: q))
    (h' : Nested p (closing' :: r)) (hclosing : closing.nesting = -1)
    (hclosing' : closing'.nesting = -1) : closing :: q = closing' :: r := by
  -- the place behind the first of two closing signs is less deep
  have hbefore {a b : Token} {u v : List Token} (hu : Nested p (a :: u)) (hv : Nested p (b :: v))
      (hb : b.nesting = -1) (hlater : a :: u <:+ b :: v) : a :: u = b :: v := by
    rcases List.suffix_cons_iff.mp hlater with heq | hlater
    · exact heq
    · have hle := hu.depth_le ((List.suffix_cons b v).trans hv.suffix) hlater
      have hdepth : depth (b :: v) = depth v - -1 := by
        rw [depth, hb]
      have heq := hv.depth_eq
      omega
  rcases List.suffix_or_suffix_of_suffix h.suffix h'.suffix with hlater | hlater
  · exact hbefore h h' hclosing' hlater
  · exact (hbefore h' h hclosing hlater).symm

end Nested

/-- Between brackets of the three kinds it is deeper. -/
theorem along_pair {o c : Terminal} (hpair : o.Pair c) (ho : o ≠ .less)
    (opening : o.read? p = some (x, q)) (h : Nested q r) (closing : c.read? r = some (y, s)) :
    Nested p s ∧ Along (fun m => m = p ∨ depth p < depth m) p s := by
  -- the tokens of a pair are known, and so is what they do to the depth
  obtain ⟨first, last, rfl, rfl, hfirst, hlast⟩ : ∃ first last, p = first :: q ∧ r = last :: s ∧
      first.nesting = 1 ∧ last.nesting = -1 := by
    cases hpair with
    | angles => exact absurd rfl ho
    | _ => exact ⟨_, _, eq_of_read?_mark rfl opening, eq_of_read?_mark rfl closing, rfl, rfl⟩
  have hp : depth (first :: q) = depth q - 1 := by rw [depth, hfirst]
  have hr : depth (last :: s) = depth s - -1 := by rw [depth, hlast]
  have hq := h.depth_eq
  have hinside : Along (fun m => m = first :: q ∨ depth (first :: q) < depth m) q (last :: s) :=
    h.along.mono fun m hm => .inr (by omega)
  have hlonger : depth (first :: q) < depth (last :: s) := by omega
  have halong := Along.cons (.inl rfl) (hinside.trans (.single (.inr hlonger)) h.suffix)
  refine ⟨⟨?_, by omega, halong.mono fun m hm => ?_⟩, halong⟩
  · exact ((List.suffix_cons last s).trans h.suffix).trans (List.suffix_cons first q)
  · rcases hm with rfl | hm
    · exact Int.le_refl _
    · exact Int.le_of_lt hm

/-- A terminal that does not change the depth is nested. -/
theorem nested_of_read? (h : t.read? p = some (x, q)) (ht : t.nesting = 0) : Nested p q := by
  obtain ⟨front, rfl, hfront⟩ := exists_flat_of_read? h ht
  exact .append hfront

namespace TokenDerivation

/-- A derivation reads brackets in pairs. -/
theorem nested (d : TokenDerivation n k p q) : Nested p q := by
  refine d.rel_of_pairs Nested .refl .trans (fun {t} _ _ _ h hrise => ?_)
    (fun h => nested_of_read? h rfl) (fun h _ => nested_of_read? h rfl)
    (fun {o c} _ _ _ _ _ _ hpair opening h closing => ?_)
  · cases t <;> first | exact nested_of_read? h rfl | cases hrise
  · by_cases ho : o = .less
    · subst ho
      cases hpair
      exact (nested_of_read? opening rfl).trans (h.trans (nested_of_read? closing rfl))
    · exact (along_pair hpair ho opening h closing).1

end TokenDerivation

/-! ## Labels -/

/-- A name with a colon behind it. -/
def Label (m : List Token) : Prop :=
  ∃ x rest, m = .name x :: .colon :: rest

theorem not_label_of_ne (h : ∀ x, token ≠ .name x) : ¬ Label (token :: q) := by
  rintro ⟨x, rest, heq⟩
  exact h x (List.cons.inj heq).1

/-- A nested stretch without labels at its own depth. -/
structure Unlabelled (p q : List Token) : Prop extends Nested p q where
  not_label : Along (fun m => depth m = depth p → ¬ Label m) p q

theorem Unlabelled.refl (p : List Token) : Unlabelled p p :=
  ⟨.refl p, .refl p⟩

theorem Unlabelled.trans (h : Unlabelled p q) (h' : Unlabelled q r) : Unlabelled p r :=
  ⟨h.toNested.trans h'.toNested, h.not_label.trans (h.depth_eq ▸ h'.not_label) h.suffix⟩

/-- A terminal with no colon behind it. -/
theorem unlabelled_of_read? (h : t.read? p = some (x, q)) (ht : t.nesting = 0)
    (hq : q.head? ≠ some .colon) : Unlabelled p q := by
  refine ⟨nested_of_read? h ht, Along.mono ?_ fun _ hm _ => hm⟩
  -- a label is a name, so only a terminal of one token can be one
  by_cases harrow : t = .arrow
  · subst harrow
    obtain rfl := eq_of_read?_arrow h
    exact .cons (not_label_of_ne nofun) (.single (not_label_of_ne nofun))
  by_cases hellipsis : t = .ellipsis
  · subst hellipsis
    obtain ⟨b, c, rfl⟩ := eq_of_read?_ellipsis h
    exact .cons (not_label_of_ne nofun)
      (.cons (not_label_of_ne nofun) (.single (not_label_of_ne nofun)))
  obtain ⟨token, rfl⟩ := exists_token h hellipsis harrow
  refine .single ?_
  rintro ⟨y, rest, heq⟩
  exact hq (congrArg List.head? (List.cons.inj heq).2)

/-- Labels between brackets are deeper. -/
theorem unlabelled_pair {o c : Terminal} (hpair : o.Pair c) (ho : o ≠ .less)
    (opening : o.read? p = some (x, q)) (h : Nested q r) (closing : c.read? r = some (y, s)) :
    Unlabelled p s := by
  obtain ⟨hnested, hdeeper⟩ := along_pair hpair ho opening h closing
  refine ⟨hnested, hdeeper.mono fun m hm heq => ?_⟩
  rcases hm with rfl | hm
  · cases hpair with
    | angles => exact absurd rfl ho
    | _ =>
      obtain rfl := eq_of_read?_mark rfl opening
      exact not_label_of_ne nofun
  · omega

namespace TokenDerivation

/-- No type begins with a colon. -/
theorem head_ne_colon (d : TokenDerivation n k p q) (hn : n ≠ .maybeTypes ∧ n ≠ .maybeFields) :
    p.head? ≠ some .colon := by
  intro hhead
  rcases typeAhead d with h | h | h
  · simp [Token.typeAhead, hhead, opensType] at h
  · exact hn.1 h
  · exact hn.2 h

/-- In front of anything but a colon there are no labels at the depth of a type. -/
theorem unlabelled (d : TokenDerivation n k p q)
    (hn : n ≠ .field ∧ n ≠ .fields ∧ n ≠ .maybeFields) (hq : q.head? ≠ some .colon) :
    Unlabelled p q := by
  have hmark {t : Terminal} {token : Token} {p q x} (ht : t.mark? = some token)
      (h : t.read? p = some (x, q)) (htoken : token ≠ .colon) : p.head? ≠ some .colon := by
    obtain rfl := eq_of_read?_mark ht h
    simpa using htoken
  -- part by part; a name stands in front of a colon only in a field, and fields stand deeper,
  -- between brackets
  induction d with
  | operand _ ih | unmarked _ ih | plain _ ih | oneType _ ih | someTypes _ ih =>
    exact ih (by simp) hq
  | noTypes => exact .refl _
  | name sign | any sign | unknown sign | string sign | number sign =>
    exact unlabelled_of_read? sign rfl hq
  | nullable mark d ih | notNullable mark d ih | variadic mark d ih =>
    exact (unlabelled_of_read? mark rfl (head_ne_colon d (by simp))).trans (ih (by simp) hq)
  | union left bar right ih ih' =>
    have hbar := unlabelled_of_read? bar rfl (head_ne_colon right (by simp))
    exact (ih (by simp) (hmark rfl bar nofun)).trans (hbar.trans (ih' (by simp) hq))
  | moreTypes left comma right ih ih' =>
    have hcomma := unlabelled_of_read? comma rfl (head_ne_colon right (by simp))
    exact (ih (by simp) (hmark rfl comma nofun)).trans (hcomma.trans (ih' (by simp) hq))
  | nullableBehind d mark ih | notNullableBehind d mark ih =>
    exact (ih (by simp) (hmark rfl mark nofun)).trans (unlabelled_of_read? mark rfl hq)
  | optional d mark ih =>
    obtain ⟨b, rfl⟩ := eq_of_read?_equals mark
    exact (ih (by simp) (by simp)).trans (unlabelled_of_read? mark rfl hq)
  | array d opening closing ih =>
    have hbrackets := unlabelled_pair .brackets nofun opening (.refl _) closing
    exact (ih (by simp) (hmark rfl opening nofun)).trans hbrackets
  | tuple opening d closing => exact unlabelled_pair .brackets nofun opening (nested d) closing
  | record opening d closing => exact unlabelled_pair .braces nofun opening (nested d) closing
  | parens opening d closing => exact unlabelled_pair .parens nofun opening (nested d) closing
  | typeOf word value =>
    have hvalue := unlabelled_of_read? value rfl hq
    obtain rfl := eq_of_read?_name value
    exact (unlabelled_of_read? word rfl (by simp)).trans hvalue
  | generic subject opening d closing ih =>
    have hopening := unlabelled_of_read? opening rfl (head_ne_colon d (by simp))
    have hclosing := unlabelled_of_read? closing rfl hq
    have hinside := hopening.trans ((ih (by simp) (hmark rfl closing nofun)).trans hclosing)
    exact (unlabelled_of_read? subject rfl (hmark rfl opening nofun)).trans hinside
  | dottedGeneric subject dot opening d closing ih =>
    have hopening := unlabelled_of_read? opening rfl (head_ne_colon d (by simp))
    have hclosing := unlabelled_of_read? closing rfl hq
    have hinside := hopening.trans ((ih (by simp) (hmark rfl closing nofun)).trans hclosing)
    have hdot := unlabelled_of_read? dot rfl (hmark rfl opening nofun)
    obtain ⟨b, rfl⟩ := eq_of_read?_dot dot
    exact (unlabelled_of_read? subject rfl (by simp)).trans (hdot.trans hinside)
  | function word opening d closing =>
    have hparams := unlabelled_pair .parens nofun opening (nested d) closing
    exact (unlabelled_of_read? word rfl (hmark rfl opening nofun)).trans hparams
  | functionReturning word opening d closing colon e _ ih =>
    have hparams := unlabelled_pair .parens nofun opening (nested d) closing
    have hcolon := unlabelled_of_read? colon rfl (head_ne_colon e (by simp))
    have hword := unlabelled_of_read? word rfl (hmark rfl opening nofun)
    exact hword.trans (hparams.trans (hcolon.trans (ih (by simp) hq)))
  | arrow opening d closing sign e _ ih =>
    have hparams := unlabelled_pair .parens nofun opening (nested d) closing
    have hsign := unlabelled_of_read? sign rfl (head_ne_colon e (by simp))
    exact hparams.trans (hsign.trans (ih (by simp) hq))
  | bareField | typedField | oneField | moreFields | noFields | someFields => simp at hn

/-- No type ends in a comma and a name. -/
theorem not_comma_name (d : TokenDerivation n k p q)
    (hn : n = .type ∨ n = .prefixed ∨ n = .suffixed ∨ n = .primary) :
    ¬ .comma :: .name x :: q <:+ p := by
  -- what ends in another token does not end in a name
  have hlast {token : Token} {p q : List Token} (h : token :: q <:+ p)
      (htoken : ∀ x, token ≠ .name x) : ¬ .comma :: .name x :: q <:+ p := fun h' =>
    htoken x (token_eq_of_suffix h ((List.suffix_cons ..).trans h'))
  -- what ends in a type with another token in front of it does not end in a comma and a name
  have hbehind {token : Token} {n k} {p q r : List Token} (d : TokenDerivation n k q r)
      (hn : n ≠ .maybeTypes ∧ n ≠ .maybeFields) (hq : token :: q <:+ p) (htoken : token ≠ .comma)
      (h : ¬ .comma :: .name x :: r <:+ q) : ¬ .comma :: .name x :: r <:+ p := by
    intro h'
    rcases List.suffix_or_suffix_of_suffix h' ((List.suffix_cons ..).trans hq) with hs | hs
    · exact h hs
    rcases List.suffix_cons_iff.mp hs with rfl | hs
    · exact h (List.suffix_refl _)
    rcases List.suffix_cons_iff.mp hs with rfl | hs
    · exact htoken (token_eq_of_suffix hq h')
    · exact absurd (length_lt d hn.1 hn.2) (Nat.not_lt.mpr hs.length_le)
  induction d with
  | operand _ ih | unmarked _ ih | plain _ ih => exact ih (by simp)
  | union left bar right _ ih =>
    obtain rfl := eq_of_read?_mark rfl bar
    exact hbehind right (by simp) (suffix left) nofun (ih (by simp))
  | arrow opening params closing sign returns _ ih =>
    obtain rfl := eq_of_read?_arrow sign
    have hsign := ((List.suffix_cons ..).trans (suffix_of_read? closing)).trans
      ((suffix params).trans (suffix_of_read? opening))
    exact hbehind returns (by simp) hsign nofun (ih (by simp))
  | nullable mark d ih | notNullable mark d ih =>
    obtain rfl := eq_of_read?_mark rfl mark
    exact hbehind d (by simp) (List.suffix_refl _) nofun (ih (by simp))
  | variadic mark d ih =>
    obtain ⟨b, c, rfl⟩ := eq_of_read?_ellipsis mark
    exact hbehind d (by simp) ((List.suffix_cons ..).trans (List.suffix_cons ..)) nofun
      (ih (by simp))
  | optional d mark =>
    obtain ⟨b, rfl⟩ := eq_of_read?_equals mark
    exact hlast (suffix d) nofun
  | array d opening closing =>
    obtain rfl := eq_of_read?_mark rfl closing
    exact hlast ((suffix_of_read? opening).trans (suffix d)) nofun
  | nullableBehind d mark | notNullableBehind d mark =>
    obtain rfl := eq_of_read?_mark rfl mark
    exact hlast (suffix d) nofun
  | name word =>
    obtain rfl := eq_of_read?_name word
    exact fun h => absurd h.length_le (by simp)
  | typeOf word value =>
    obtain rfl := eq_of_read?_name value
    obtain rfl := eq_of_read?_typeOf word
    intro h
    cases h.eq_of_length rfl
  | any mark | unknown mark =>
    obtain rfl := eq_of_read?_mark rfl mark
    exact hlast (List.suffix_refl _) nofun
  | string literal =>
    obtain rfl := eq_of_read?_string literal
    exact hlast (List.suffix_refl _) nofun
  | number literal =>
    obtain rfl := eq_of_read?_number literal
    exact hlast (List.suffix_refl _) nofun
  | generic subject opening d closing =>
    obtain rfl := eq_of_read?_mark rfl closing
    have hinside := (suffix d).trans (suffix_of_read? opening)
    exact hlast (hinside.trans (suffix_of_read? subject)) nofun
  | dottedGeneric subject dot opening d closing =>
    obtain rfl := eq_of_read?_mark rfl closing
    have hinside := (suffix d).trans (suffix_of_read? opening)
    exact hlast (hinside.trans ((suffix_of_read? dot).trans (suffix_of_read? subject))) nofun
  | tuple opening d closing | record opening d closing | parens opening d closing =>
    obtain rfl := eq_of_read?_mark rfl closing
    exact hlast ((suffix d).trans (suffix_of_read? opening)) nofun
  | function word opening d closing =>
    obtain rfl := eq_of_read?_mark rfl closing
    have hinside := (suffix d).trans (suffix_of_read? opening)
    exact hlast (hinside.trans (suffix_of_read? word)) nofun
  | functionReturning word opening d closing colon e _ ih =>
    obtain rfl := eq_of_read?_mark rfl colon
    have hcolon := ((suffix_of_read? closing).trans (suffix d)).trans
      ((suffix_of_read? opening).trans (suffix_of_read? word))
    exact hbehind e (by simp) hcolon nofun (ih (by simp))
  | _ => simp at hn

/-- Named members that end where a type ends do not begin with a label inside the type. -/
theorem not_label_of_fields (d : TokenDerivation .type j p q) (hq : q.head? ≠ some .colon)
    (f : TokenDerivation .fields k r q) (hr : r <:+ p) : ¬ Label r := by
  have hd := unlabelled d (by simp) hq
  have hdepth := (nested f).depth_eq.symm.trans hd.depth_eq
  exact hd.not_label r (suffix f) hr (start_ne f nofun nofun) hdepth

/-- A type is not a type, a comma and named members. -/
theorem not_fields_behind_comma (d : TokenDerivation .type j p q) (hq : q.head? ≠ some .colon)
    (f : TokenDerivation n k r q) (hn : n = .fields) (hr : .comma :: r <:+ p) : False := by
  -- the first field of all that has a type is a label behind a comma
  induction f with
  | oneField only =>
    cases only with
    | bareField label =>
      obtain rfl := eq_of_read?_name label
      exact not_comma_name d (.inl rfl) hr
    | typedField label colon type =>
      refine not_label_of_fields d hq (.oneField (.typedField label colon type))
        ((List.suffix_cons ..).trans hr) ?_
      obtain rfl := eq_of_read?_name label
      obtain rfl := eq_of_read?_mark rfl colon
      exact ⟨_, _, rfl⟩
  | moreFields first comma others _ ih =>
    cases first with
    | bareField label =>
      obtain rfl := eq_of_read?_name label
      obtain rfl := eq_of_read?_mark rfl comma
      exact ih d hq rfl (((List.suffix_cons ..).trans (List.suffix_cons ..)).trans hr)
    | typedField label colon type =>
      refine not_label_of_fields d hq (.moreFields (.typedField label colon type) comma others)
        ((List.suffix_cons ..).trans hr) ?_
      obtain rfl := eq_of_read?_name label
      obtain rfl := eq_of_read?_mark rfl colon
      exact ⟨_, _, rfl⟩
  | _ => cases hn

/-- Behind a label there is one named member up to where a type ends. -/
theorem not_moreFields (d : TokenDerivation .type j p q) (hq : q.head? ≠ some .colon) :
    ¬ Nonempty (TokenDerivation .fields 1 (.name x :: .colon :: p) q) := by
  rintro ⟨f⟩
  cases f with
  | moreFields first comma others =>
    obtain rfl := eq_of_read?_mark rfl comma
    cases first with
    | bareField label => cases eq_of_read?_name label
    | typedField label colon type =>
      cases eq_of_read?_name label
      cases eq_of_read?_mark rfl colon
      exact not_fields_behind_comma d hq others rfl (suffix type)

end TokenDerivation

end DocComment
