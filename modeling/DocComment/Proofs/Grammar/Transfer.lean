import DocComment.Proofs.Grammar.Derivation
import Mathlib.Data.List.Forall2

/-!
# From one kind of place to another

A derivation reads the same at other places if each of its terminals does
(`Mirrors.exists_derivation`). The places that a derivation passes are all in front of the one
where it ends, so its terminals need only be followed up to there. If the terminals of both
kinds of places follow each other, a preferred derivation stays preferred
(`Mirrors.exists_preferred`).
-/

namespace DocComment

open DocComment.Derivation

variable {P Q : Type}

/-- Terminals that are read one behind the other, with their texts. -/
inductive Signs (reads : Terminal → P → String → P → Prop) :
    List (Terminal × String) → P → P → Prop
  | nil {p : P} : Signs reads [] p p
  | cons {t : Terminal} {x : String} {p q r : P} {path : List (Terminal × String)}
    (sign : reads t p x q) (behind : Signs reads path q r) : Signs reads ((t, x) :: path) p r

/-- The same alternative of the same nonterminal, between related places. -/
structure Occurrence.Matches (rel : P → Q → Prop) (o : Occurrence P) (o' : Occurrence Q) :
    Prop where
  nonterminal : o'.nonterminal = o.nonterminal
  alternative : o'.alternative = o.alternative
  start : rel o.start o'.start
  stop : rel o.stop o'.stop

/-- Terminals that end inside a region are read at related places in the same way, and lead
to related places. -/
structure Mirrors (reads : Terminal → P → String → P → Prop)
    (reads' : Terminal → Q → String → Q → Prop) (inside : P → Prop) (rel : P → Q → Prop) :
    Prop where
  inside_of_reads : ∀ {t p x q}, reads t p x q → inside q → inside p
  step : ∀ {t p x q p'}, reads t p x q → inside q → rel p p' →
    ∃ q', reads' t p' x q' ∧ rel q q'

/-- What corresponds to an element of one list is an element of the other one. -/
theorem exists_mem_of_forall₂ {R : P → Q → Prop} {front : List P} {back : List Q}
    (h : List.Forall₂ R front back) {b : Q} (hb : b ∈ back) : ∃ a ∈ front, R a b := by
  induction h with
  | nil => cases hb
  | cons hab _ ih =>
    rcases List.mem_cons.mp hb with rfl | hb
    · exact ⟨_, List.mem_cons_self, hab⟩
    · obtain ⟨a, ha, hrel⟩ := ih hb
      exact ⟨a, List.mem_cons_of_mem _ ha, hrel⟩

namespace Mirrors

variable {reads : Terminal → P → String → P → Prop} {reads' : Terminal → Q → String → Q → Prop}
  {inside : P → Prop} {inside' : Q → Prop} {rel : P → Q → Prop} {n : Nonterminal} {k : Nat}
  {p q : P}

/-- A derivation that ends inside the region starts there. -/
theorem inside_of_derivation (h : Mirrors reads reads' inside rel) (d : Derivation reads n k p q) :
    inside q → inside p :=
  d.rel_of_reads (fun p q => inside q → inside p) (fun _ hp => hp) (fun h h' hr => h (h' hr))
    h.inside_of_reads

/-- A derivation is followed if it has an equal at all places that its start is related to. -/
def Follows (reads' : Terminal → Q → String → Q → Prop) (rel : P → Q → Prop)
    (d : Derivation reads n k p q) : Prop :=
  ∀ p', rel p p' → ∃ q', rel q q' ∧ ∃ e : Derivation reads' n k p' q',
    e.tree = d.tree ∧ List.Forall₂ (Occurrence.Matches rel) d.occurrences e.occurrences

/-! ## Steps -/

section

variable (h : Mirrors reads reads' inside rel) {path : List (Terminal × String)}

include h

/-- Signs that end inside the region start there. -/
theorem inside_of_signs (signs : Signs reads path p q) (hq : inside q) : inside p := by
  induction signs with
  | nil => exact hq
  | cons sign _ ih => exact h.inside_of_reads sign (ih hq)

/-- Signs that end inside the region can be read at related places. -/
theorem exists_signs (signs : Signs reads path p q) (hq : inside q) :
    ∀ p', rel p p' → ∃ q', Signs reads' path p' q' ∧ rel q q' := by
  induction signs with
  | nil => exact fun p' hp => ⟨p', .nil, hp⟩
  | cons sign behind ih =>
    intro p' hp
    obtain ⟨_, sign', hsign⟩ := h.step sign (h.inside_of_signs behind hq) hp
    obtain ⟨q', behind', hq'⟩ := ih hq _ hsign
    exact ⟨q', .cons sign' behind', hq'⟩

/-- A derivation without parts is followed. -/
theorem follows_leaf {d : Derivation reads n k p q} (signs : Signs reads path p q) (hq : inside q)
    (hd : d.occurrences = [d.root])
    (make : ∀ {p' q'}, Signs reads' path p' q' →
      ∃ e : Derivation reads' n k p' q', e.tree = d.tree ∧ e.occurrences = [e.root]) :
    Follows reads' rel d := by
  intro p' hp
  obtain ⟨q', signs', hq'⟩ := h.exists_signs signs hq p' hp
  obtain ⟨e, htree, heo⟩ := make signs'
  refine ⟨q', hq', e, htree, ?_⟩
  rw [hd, heo]
  exact .cons ⟨rfl, rfl, hp, hq'⟩ .nil

/-- A derivation with one part is followed if its part is. -/
theorem follows_part {m : Nonterminal} {i : Nat} {r s : P} {behind : List (Terminal × String)}
    {d : Derivation reads n k p s} {c : Derivation reads m i q r} (front : Signs reads path p q)
    (back : Signs reads behind r s) (hs : inside s) (hc : inside r → Follows reads' rel c)
    (hd : d.occurrences = d.root :: c.occurrences)
    (make : ∀ {p' q' r' s'}, Signs reads' path p' q' → ∀ e : Derivation reads' m i q' r',
      e.tree = c.tree → Signs reads' behind r' s' → ∃ e' : Derivation reads' n k p' s',
        e'.tree = d.tree ∧ e'.occurrences = e'.root :: e.occurrences) :
    Follows reads' rel d := by
  intro p' hp
  have hr := h.inside_of_signs back hs
  obtain ⟨_, front', hq'⟩ := h.exists_signs front (h.inside_of_derivation c hr) p' hp
  -- the part starts where the signs in front of it lead, and the signs behind it where it ends
  obtain ⟨_, hr', e, htree, heo⟩ := hc hr _ hq'
  obtain ⟨s', back', hs'⟩ := h.exists_signs back hs _ hr'
  obtain ⟨e', htree', heo'⟩ := make front' e htree back'
  refine ⟨s', hs', e', htree', ?_⟩
  rw [hd, heo']
  exact .cons ⟨rfl, rfl, hp, hs'⟩ heo

/-- A derivation with two parts is followed if its parts are. -/
theorem follows_parts {l m : Nonterminal} {i j : Nat} {r s u : P}
    {between : List (Terminal × String)} {d : Derivation reads n k p u}
    {b : Derivation reads l i q r} {c : Derivation reads m j s u} (front : Signs reads path p q)
    (middle : Signs reads between r s) (hu : inside u) (hb : inside r → Follows reads' rel b)
    (hc : inside u → Follows reads' rel c)
    (hd : d.occurrences = d.root :: b.occurrences ++ c.occurrences)
    (make : ∀ {p' q' r' s' u'}, Signs reads' path p' q' → ∀ e : Derivation reads' l i q' r',
      e.tree = b.tree → Signs reads' between r' s' → ∀ f : Derivation reads' m j s' u',
      f.tree = c.tree → ∃ e' : Derivation reads' n k p' u',
        e'.tree = d.tree ∧ e'.occurrences = e'.root :: e.occurrences ++ f.occurrences) :
    Follows reads' rel d := by
  intro p' hp
  have hr := h.inside_of_signs middle (h.inside_of_derivation c hu)
  obtain ⟨_, front', hq'⟩ := h.exists_signs front (h.inside_of_derivation b hr) p' hp
  obtain ⟨_, hr', e, htree, heo⟩ := hb hr _ hq'
  obtain ⟨_, middle', hs'⟩ := h.exists_signs middle (h.inside_of_derivation c hu) _ hr'
  obtain ⟨u', hu', f, htree', hfo⟩ := hc hu _ hs'
  obtain ⟨e', htree'', heo'⟩ := make front' e htree middle' f htree'
  refine ⟨u', hu', e', htree'', ?_⟩
  rw [hd, heo']
  exact List.rel_append (.cons ⟨rfl, rfl, hp, hu'⟩ heo) hfo

end

/-- If the terminals can be read at related places, then so can a derivation. -/
theorem exists_derivation (h : Mirrors reads reads' inside rel) (d : Derivation reads n k p q)
    (hq : inside q) : ∀ p', rel p p' → ∃ q', rel q q' ∧ ∃ e : Derivation reads' n k p' q',
      e.tree = d.tree ∧ List.Forall₂ (Occurrence.Matches rel) d.occurrences e.occurrences := by
  change Follows reads' rel d
  -- each constructor names its signs, and puts itself together again from the followed parts
  induction d with
  | operand d ih =>
    exact h.follows_part .nil .nil hq ih rfl fun
      | .nil, e, he, .nil => ⟨.operand e, he, rfl⟩
  | union left bar right ih ih' =>
    exact h.follows_parts .nil (.cons bar .nil) hq ih ih' rfl fun
      | .nil, e, he, .cons bar .nil, f, hf =>
        ⟨.union e bar f, congrArg₂ TypeExpr.union he hf, rfl⟩
  | arrow opening params closing sign returns ih ih' =>
    exact h.follows_parts (.cons opening .nil) (.cons closing (.cons sign .nil)) hq ih ih' rfl fun
      | .cons opening .nil, e, he, .cons closing (.cons sign .nil), f, hf =>
        ⟨.arrow opening e closing sign f, congrArg₂ TypeExpr.arrow he hf, rfl⟩
  | unmarked d ih =>
    exact h.follows_part .nil .nil hq ih rfl fun
      | .nil, e, he, .nil => ⟨.unmarked e, he, rfl⟩
  | nullable mark d ih =>
    exact h.follows_part (.cons mark .nil) .nil hq ih rfl fun
      | .cons mark .nil, e, he, .nil => ⟨.nullable mark e, congrArg TypeExpr.nullable he, rfl⟩
  | notNullable mark d ih =>
    exact h.follows_part (.cons mark .nil) .nil hq ih rfl fun
      | .cons mark .nil, e, he, .nil => ⟨.notNullable mark e, congrArg TypeExpr.notNullable he, rfl⟩
  | variadic mark d ih =>
    exact h.follows_part (.cons mark .nil) .nil hq ih rfl fun
      | .cons mark .nil, e, he, .nil => ⟨.variadic mark e, congrArg TypeExpr.variadic he, rfl⟩
  | plain d ih =>
    exact h.follows_part .nil .nil hq ih rfl fun
      | .nil, e, he, .nil => ⟨.plain e, he, rfl⟩
  | optional d mark ih =>
    exact h.follows_part .nil (.cons mark .nil) hq ih rfl fun
      | .nil, e, he, .cons mark .nil => ⟨.optional e mark, congrArg TypeExpr.optional he, rfl⟩
  | array d opening closing ih =>
    exact h.follows_part .nil (.cons opening (.cons closing .nil)) hq ih rfl fun
      | .nil, e, he, .cons opening (.cons closing .nil) =>
        ⟨.array e opening closing, congrArg (TypeExpr.generic "Array" [·]) he, rfl⟩
  | nullableBehind d mark ih =>
    exact h.follows_part .nil (.cons mark .nil) hq ih rfl fun
      | .nil, e, he, .cons mark .nil => ⟨.nullableBehind e mark, congrArg TypeExpr.nullable he, rfl⟩
  | notNullableBehind d mark ih =>
    exact h.follows_part .nil (.cons mark .nil) hq ih rfl fun
      | .nil, e, he, .cons mark .nil =>
        ⟨.notNullableBehind e mark, congrArg TypeExpr.notNullable he, rfl⟩
  | name word =>
    exact h.follows_leaf (.cons word .nil) hq rfl fun
      | .cons word .nil => ⟨.name word, rfl, rfl⟩
  | generic subject opening arguments closing ih =>
    exact h.follows_part (.cons subject (.cons opening .nil)) (.cons closing .nil) hq ih rfl fun
      | .cons subject (.cons opening .nil), e, he, .cons closing .nil =>
        ⟨.generic subject opening e closing, congrArg (TypeExpr.generic _) he, rfl⟩
  | dottedGeneric subject dot opening arguments closing ih =>
    exact h.follows_part (.cons subject (.cons dot (.cons opening .nil))) (.cons closing .nil)
      hq ih rfl fun
      | .cons subject (.cons dot (.cons opening .nil)), e, he, .cons closing .nil =>
        ⟨.dottedGeneric subject dot opening e closing, congrArg (TypeExpr.generic _) he, rfl⟩
  | tuple opening entries closing ih =>
    exact h.follows_part (.cons opening .nil) (.cons closing .nil) hq ih rfl fun
      | .cons opening .nil, e, he, .cons closing .nil =>
        ⟨.tuple opening e closing, congrArg TypeExpr.tuple he, rfl⟩
  | record opening fields closing ih =>
    exact h.follows_part (.cons opening .nil) (.cons closing .nil) hq ih rfl fun
      | .cons opening .nil, e, he, .cons closing .nil =>
        ⟨.record opening e closing, congrArg TypeExpr.record he, rfl⟩
  | function word opening params closing ih =>
    exact h.follows_part (.cons word (.cons opening .nil)) (.cons closing .nil) hq ih rfl fun
      | .cons word (.cons opening .nil), e, he, .cons closing .nil =>
        ⟨.function word opening e closing, congrArg TypeExpr.function he, rfl⟩
  | functionReturning word opening params closing colon returns ih ih' =>
    exact h.follows_parts (.cons word (.cons opening .nil)) (.cons closing (.cons colon .nil))
      hq ih ih' rfl fun
      | .cons word (.cons opening .nil), e, he, .cons closing (.cons colon .nil), f, hf =>
        ⟨.functionReturning word opening e closing colon f,
          congrArg₂ TypeExpr.functionReturning he hf, rfl⟩
  | typeOf word value =>
    exact h.follows_leaf (.cons word (.cons value .nil)) hq rfl fun
      | .cons word (.cons value .nil) => ⟨.typeOf word value, rfl, rfl⟩
  | parens opening inner closing ih =>
    exact h.follows_part (.cons opening .nil) (.cons closing .nil) hq ih rfl fun
      | .cons opening .nil, e, he, .cons closing .nil =>
        ⟨.parens opening e closing, congrArg TypeExpr.parens he, rfl⟩
  | any mark =>
    exact h.follows_leaf (.cons mark .nil) hq rfl fun
      | .cons mark .nil => ⟨.any mark, rfl, rfl⟩
  | unknown mark =>
    exact h.follows_leaf (.cons mark .nil) hq rfl fun
      | .cons mark .nil => ⟨.unknown mark, rfl, rfl⟩
  | string literal =>
    exact h.follows_leaf (.cons literal .nil) hq rfl fun
      | .cons literal .nil => ⟨.string literal, rfl, rfl⟩
  | number literal =>
    exact h.follows_leaf (.cons literal .nil) hq rfl fun
      | .cons literal .nil => ⟨.number literal, rfl, rfl⟩
  | oneType only ih =>
    exact h.follows_part .nil .nil hq ih rfl fun
      | .nil, e, he, .nil => ⟨.oneType e, congrArg ([·]) he, rfl⟩
  | moreTypes first comma others ih ih' =>
    exact h.follows_parts .nil (.cons comma .nil) hq ih ih' rfl fun
      | .nil, e, he, .cons comma .nil, f, hf =>
        ⟨.moreTypes e comma f, congrArg₂ List.cons he hf, rfl⟩
  | noTypes =>
    exact h.follows_leaf .nil hq rfl fun
      | .nil => ⟨.noTypes, rfl, rfl⟩
  | someTypes types ih =>
    exact h.follows_part .nil .nil hq ih rfl fun
      | .nil, e, he, .nil => ⟨.someTypes e, he, rfl⟩
  | bareField label =>
    exact h.follows_leaf (.cons label .nil) hq rfl fun
      | .cons label .nil => ⟨.bareField label, rfl, rfl⟩
  | typedField label colon type ih =>
    exact h.follows_part (.cons label (.cons colon .nil)) .nil hq ih rfl fun
      | .cons label (.cons colon .nil), e, he, .nil =>
        ⟨.typedField label colon e, congrArg (Field.typed _) he, rfl⟩
  | oneField only ih =>
    exact h.follows_part .nil .nil hq ih rfl fun
      | .nil, e, he, .nil => ⟨.oneField e, congrArg ([·]) he, rfl⟩
  | moreFields first comma others ih ih' =>
    exact h.follows_parts .nil (.cons comma .nil) hq ih ih' rfl fun
      | .nil, e, he, .cons comma .nil, f, hf =>
        ⟨.moreFields e comma f, congrArg₂ List.cons he hf, rfl⟩
  | noFields =>
    exact h.follows_leaf .nil hq rfl fun
      | .nil => ⟨.noFields, rfl, rfl⟩
  | someFields fields ih =>
    exact h.follows_part .nil .nil hq ih rfl fun
      | .nil, e, he, .nil => ⟨.someFields e, he, rfl⟩

/-- Where the terminals of both kinds of places follow each other, a preferred derivation is
one at the other places too. -/
theorem exists_preferred (h : Mirrors reads reads' inside rel)
    (h' : Mirrors reads' reads inside' fun p' p => rel p p')
    (hinside : ∀ {q q'}, rel q q' → inside' q')
    (hunique : ∀ {q r q'}, rel q q' → rel r q' → q = r) (d : Derivation reads n k p q)
    (hd : d.Preferred) (hq : inside q) {p' : Q} (hp : rel p p') :
    ∃ q', rel q q' ∧ ∃ e : Derivation reads' n k p' q', e.tree = d.tree ∧ e.Preferred := by
  obtain ⟨q', hq', e, htree, hmatches⟩ := h.exists_derivation d hq p' hp
  refine ⟨q', hq', e, htree, fun o' ho' hlayered j hj hread => ?_⟩
  obtain ⟨other⟩ := hread
  obtain ⟨o, ho, hmatch⟩ := exists_mem_of_forall₂ hmatches ho'
  -- an earlier alternative at the other places would be one here
  obtain ⟨stop, hstop, other', -⟩ :=
    h'.exists_derivation other (hinside hmatch.stop) o.start hmatch.start
  rw [hmatch.nonterminal, hunique hstop hmatch.stop] at other'
  exact hd o ho (hmatch.nonterminal ▸ hlayered) j (hmatch.alternative ▸ hj) ⟨other'⟩

end Mirrors

end DocComment
