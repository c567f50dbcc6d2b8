import DocComment.Proofs.Grammar.Texts

/-!
# Trees in layers

Which trees the layers of the grammar can build. Prefix operators stand outside
suffix operators in a canonical tree, and nothing stands under a mark that could
be read as an operator behind the mark. A tree that was read may also have the
marks `?` and `!` under `=`, since they can be written behind an operand.

The texts of names and literals are those of the terminals, a container has an
argument, and no operand in front of a bar ends in the result of a function type.
-/

namespace DocComment

namespace Field

def label : Field → String
  | bare name | typed name _ => name

def type? : Field → Option TypeExpr
  | bare _ => none
  | typed _ type => some type

end Field

namespace TypeExpr

/-- Whether a type is not known or has no entries, perhaps with operators around
it. Behind a question mark its text is nothing but operators. -/
def isHollow : TypeExpr → Bool
  | unknown | tuple [] => true
  | optional inner | nullable inner | notNullable inner => isHollow inner
  | _ => false

/-- The trees of a layer: the canonical ones, or in a wide sense all that can be
read. -/
inductive Formed (wide : Prop) : Nonterminal → TypeExpr → Prop
  -- primaries
  | name {text} (htext : text.toList ∈ nameLanguage) : Formed wide .primary (.name text)
  | string {text} (htext : text.toList ∈ stringLanguage) : Formed wide .primary (.string text)
  | number {text} (htext : text.toList ∈ numberLanguage) : Formed wide .primary (.number text)
  | any : Formed wide .primary .any
  | unknown : Formed wide .primary .unknown
  | typeOf {value} (hvalue : value.toList ∈ nameLanguage) : Formed wide .primary (.typeOf value)
  | parens {inner} (h : Formed wide .type inner) : Formed wide .primary (.parens inner)
  | tuple {entries} (h : ∀ t ∈ entries, Formed wide .type t) :
      Formed wide .primary (.tuple entries)
  | record {fields} (hlabels : ∀ f ∈ fields, f.label.toList ∈ nameLanguage)
      (htypes : ∀ f ∈ fields, ∀ t, f.type? = some t → Formed wide .type t) :
      Formed wide .primary (.record fields)
  | generic {subject arguments} (hsubject : subject.toList ∈ nameLanguage)
      (hne : arguments ≠ []) (h : ∀ t ∈ arguments, Formed wide .type t) :
      Formed wide .primary (.generic subject arguments)
  | function {params} (h : ∀ t ∈ params, Formed wide .type t) :
      Formed wide .primary (.function params)
  -- operators behind
  | plain {t} (h : Formed wide .primary t) : Formed wide .suffixed t
  | optional {t} (h : Formed wide .suffixed t) : Formed wide .suffixed (.optional t)
  | nullableBehind {t} (hwide : wide) (h : Formed wide .suffixed t) :
      Formed wide .suffixed (.nullable t)
  | notNullableBehind {t} (hwide : wide) (h : Formed wide .suffixed t) :
      Formed wide .suffixed (.notNullable t)
  -- operators in front
  | unmarked {t} (h : Formed wide .suffixed t) : Formed wide .prefixed t
  | functionReturning {params returns} (hparams : ∀ t ∈ params, Formed wide .type t)
      (hreturns : Formed wide .type returns) :
      Formed wide .prefixed (.functionReturning params returns)
  | nullable {t} (hhollow : ¬ wide → t.isHollow = false) (h : Formed wide .prefixed t) :
      Formed wide .prefixed (.nullable t)
  | notNullable {t} (h : Formed wide .prefixed t) : Formed wide .prefixed (.notNullable t)
  | variadic {t} (h : Formed wide .prefixed t) : Formed wide .prefixed (.variadic t)
  -- unions and arrows
  | operand {t} (h : Formed wide .prefixed t) : Formed wide .type t
  | union {left right} (hleft : Formed wide .prefixed left)
      (hresult : left.endsInResult = false) (hright : Formed wide .type right) :
      Formed wide .type (.union left right)
  | arrow {params returns} (hlabels : ∀ f ∈ params, f.label.toList ∈ nameLanguage)
      (htypes : ∀ f ∈ params, ∀ t, f.type? = some t → Formed wide .type t)
      (hreturns : Formed wide .type returns) : Formed wide .type (.arrow params returns)

/-- The trees that are written as they are read. -/
abbrev Canonical (t : TypeExpr) : Prop :=
  Formed False .type t

variable {wide : Prop} {n : Nonterminal} {t : TypeExpr}

/-- A canonical tree can be read. -/
theorem Formed.widen (h : Formed wide n t) : Formed True n t := by
  induction h with
  | name htext => exact .name htext
  | string htext => exact .string htext
  | number htext => exact .number htext
  | any => exact .any
  | unknown => exact .unknown
  | typeOf hvalue => exact .typeOf hvalue
  | parens _ ih => exact .parens ih
  | tuple _ ih => exact .tuple ih
  | record hlabels _ ih => exact .record hlabels ih
  | generic hsubject hne _ ih => exact .generic hsubject hne ih
  | function _ ih => exact .function ih
  | plain _ ih => exact .plain ih
  | optional _ ih => exact .optional ih
  | nullableBehind _ _ ih => exact .nullableBehind trivial ih
  | notNullableBehind _ _ ih => exact .notNullableBehind trivial ih
  | unmarked _ ih => exact .unmarked ih
  | functionReturning _ _ ihp ihr => exact .functionReturning ihp ihr
  | nullable _ _ ih => exact .nullable (fun h => absurd trivial h) ih
  | notNullable _ ih => exact .notNullable ih
  | variadic _ ih => exact .variadic ih
  | operand _ ih => exact .operand ih
  | union _ hresult _ ihl ihr => exact .union ihl hresult ihr
  | arrow hlabels _ _ ihp ihr => exact .arrow hlabels ihp ihr

end TypeExpr

/-! ## What derivations build -/

open Token TypeExpr DocComment.Derivation

/-- What a nonterminal can build. Operators are put behind operands that do not
end in the result of a function type. -/
def Nonterminal.Builds : (n : Nonterminal) → n.Value → Prop
  | type, t => Formed True .type t
  | prefixed, t => Formed True .prefixed t
  | suffixed, t => Formed True .prefixed t ∧ (t.endsInResult = false → Formed True .suffixed t)
  | primary, t => Formed True .prefixed t ∧ (t.endsInResult = false → Formed True .primary t)
  | types, ts => ts ≠ [] ∧ ∀ t ∈ ts, Formed True .type t
  | maybeTypes, ts => ∀ t ∈ ts, Formed True .type t
  | field, f => f.label.toList ∈ nameLanguage ∧ ∀ t, f.type? = some t → Formed True .type t
  | fields, fs | maybeFields, fs => (∀ f ∈ fs, f.label.toList ∈ nameLanguage) ∧
      ∀ f ∈ fs, ∀ t, f.type? = some t → Formed True .type t

variable {n : Nonterminal} {k : Nat} {p q : List Char} {x : String} {t : Terminal}

/-- A terminal reads a text of its language. -/
theorem mem_language_of_readsText (h : t.ReadsText p x q) : x.toList ∈ t.language := by
  rcases h with ⟨_, text, -, -, rfl, hlongest⟩
  rw [String.toList_ofList]
  exact hlongest.mem

/-- A primary is an operand. -/
theorem builds_primary {t : TypeExpr} (h : Formed True .primary t) :
    Nonterminal.Builds .primary t :=
  ⟨.unmarked (.plain h), fun _ => h⟩

/-- An operand with an operator behind it. -/
theorem builds_suffixed {t : TypeExpr} (h : Formed True .suffixed t) :
    Nonterminal.Builds .suffixed t :=
  ⟨.unmarked h, fun _ => h⟩

/-- A preferred derivation builds a tree of its layer. -/
theorem builds_tree (d : TextDerivation n k p q) (h : d.Preferred) : n.Builds d.tree := by
  induction d with
  | operand d ih =>
    rcases (preferred_of_child rfl).mp h with ⟨-, hd⟩
    exact .operand (ih hd)
  | union left bar right ihl ihr =>
    -- a result would have taken the bar
    rcases (preferred_of_children rfl).mp h with ⟨hroot, hl, hr⟩
    have hresult := hroot.sparesResults.bar rfl rfl left bar right
    exact .union (ihl hl) hresult (ihr hr)
  | arrow opening params closing sign returns ihp ihr =>
    rcases (preferred_of_children rfl).mp h with ⟨-, hp, hr⟩
    exact .arrow (ihp hp).1 (ihp hp).2 (ihr hr)
  | unmarked d ih =>
    rcases (preferred_of_child rfl).mp h with ⟨-, hd⟩
    exact (ih hd).1
  | nullable mark d ih =>
    rcases (preferred_of_child rfl).mp h with ⟨-, hd⟩
    exact .nullable (fun h => absurd trivial h) (ih hd)
  | notNullable mark d ih =>
    rcases (preferred_of_child rfl).mp h with ⟨-, hd⟩
    exact .notNullable (ih hd)
  | variadic mark d ih =>
    rcases (preferred_of_child rfl).mp h with ⟨-, hd⟩
    exact .variadic (ih hd)
  | plain d ih =>
    rcases (preferred_of_child rfl).mp h with ⟨-, hd⟩
    exact ⟨(ih hd).1, fun hresult => .plain ((ih hd).2 hresult)⟩
  | optional d mark ih =>
    -- a result would have taken the operator
    rcases (preferred_of_child rfl).mp h with ⟨hroot, hd⟩
    have hresult := hroot.sparesResults.operator rfl (Nat.succ_pos _) d (extends_optional mark)
    exact builds_suffixed (.optional ((ih hd).2 hresult))
  | array d opening closing ih =>
    -- an array is a container, whatever its operand ends in
    rcases (preferred_of_child rfl).mp h with ⟨-, hd⟩
    have hsubject : ("Array" : String).toList ∈ nameLanguage :=
      (longest_name (show isNameStart 'A' = true from rfl) ['r', 'r', 'a', 'y']).mem
    have hinner : ∀ t ∈ [d.tree], Formed True .type t :=
      List.forall_mem_singleton.mpr (.operand (ih hd).1)
    exact builds_suffixed (.plain (.generic hsubject (List.cons_ne_nil _ _) hinner))
  | nullableBehind d mark ih =>
    rcases (preferred_of_child rfl).mp h with ⟨hroot, hd⟩
    have hresult := hroot.sparesResults.operator rfl (Nat.succ_pos _) d (extends_nullable mark)
    exact builds_suffixed (.nullableBehind trivial ((ih hd).2 hresult))
  | notNullableBehind d mark ih =>
    rcases (preferred_of_child rfl).mp h with ⟨hroot, hd⟩
    have hresult := hroot.sparesResults.operator rfl (Nat.succ_pos _) d (extends_notNullable mark)
    exact builds_suffixed (.notNullableBehind trivial ((ih hd).2 hresult))
  | name word => exact builds_primary (.name (mem_language_of_readsText word))
  | string literal => exact builds_primary (.string (mem_language_of_readsText literal))
  | number literal => exact builds_primary (.number (mem_language_of_readsText literal))
  | any mark => exact builds_primary .any
  | unknown mark => exact builds_primary .unknown
  | typeOf word value => exact builds_primary (.typeOf (mem_language_of_readsText value))
  | generic subject opening d closing ih | dottedGeneric subject _ opening d closing ih =>
    rcases (preferred_of_child rfl).mp h with ⟨-, hd⟩
    exact builds_primary (.generic (mem_language_of_readsText subject) (ih hd).1 (ih hd).2)
  | tuple opening d closing ih =>
    rcases (preferred_of_child rfl).mp h with ⟨-, hd⟩
    exact builds_primary (.tuple (ih hd))
  | record opening d closing ih =>
    rcases (preferred_of_child rfl).mp h with ⟨-, hd⟩
    exact builds_primary (.record (ih hd).1 (ih hd).2)
  | function word opening d closing ih =>
    rcases (preferred_of_child rfl).mp h with ⟨-, hd⟩
    exact builds_primary (.function (ih hd))
  | functionReturning word opening d closing colon e ihp ihr =>
    rcases (preferred_of_children rfl).mp h with ⟨-, hp, hr⟩
    refine ⟨.functionReturning (ihp hp) (ihr hr), fun hresult => ?_⟩
    exact Bool.noConfusion (show true = false from hresult)
  | parens opening d closing ih =>
    rcases (preferred_of_child rfl).mp h with ⟨-, hd⟩
    exact builds_primary (.parens (ih hd))
  | oneType d ih =>
    rcases (preferred_of_child rfl).mp h with ⟨-, hd⟩
    exact ⟨List.cons_ne_nil _ _, List.forall_mem_singleton.mpr (ih hd)⟩
  | moreTypes d comma e ih ih' =>
    rcases (preferred_of_children rfl).mp h with ⟨-, hd, he⟩
    exact ⟨List.cons_ne_nil _ _, List.forall_mem_cons.mpr ⟨ih hd, (ih' he).2⟩⟩
  | noTypes => exact List.forall_mem_nil _
  | someTypes d ih =>
    rcases (preferred_of_child rfl).mp h with ⟨-, hd⟩
    exact (ih hd).2
  | bareField label =>
    refine ⟨mem_language_of_readsText label, fun t ht => ?_⟩
    exact absurd (show none = some t from ht) (Option.some_ne_none t).symm
  | typedField label colon d ih =>
    rcases (preferred_of_child rfl).mp h with ⟨-, hd⟩
    refine ⟨mem_language_of_readsText label, fun t ht => ?_⟩
    obtain rfl : d.tree = t := Option.some.inj ht
    exact ih hd
  | oneField d ih =>
    rcases (preferred_of_child rfl).mp h with ⟨-, hd⟩
    exact ⟨List.forall_mem_singleton.mpr (ih hd).1, List.forall_mem_singleton.mpr (ih hd).2⟩
  | moreFields d comma e ih ih' =>
    rcases (preferred_of_children rfl).mp h with ⟨-, hd, he⟩
    exact ⟨List.forall_mem_cons.mpr ⟨(ih hd).1, (ih' he).1⟩,
      List.forall_mem_cons.mpr ⟨(ih hd).2, (ih' he).2⟩⟩
  | noFields => exact ⟨List.forall_mem_nil _, List.forall_mem_nil _⟩
  | someFields d ih =>
    rcases (preferred_of_child rfl).mp h with ⟨-, hd⟩
    exact ih hd

end DocComment
