import DocComment.Node.Render
import DocComment.Proofs.Parsing
import DocComment.Proofs.Writing.Determined
import DocComment.Proofs.Writing.Steady

/-!
# Rendering

What is read from the text of a tree, given that the tree is canonical or was
read itself:

* `parse_render_canonical`: a canonical tree is read back from its text.
* `parse_render_iff_steady`: the text of a tree that was read is accepted again,
  and it is read as the same tree if and only if the tree is steady.

Not all trees that are read are steady. The marks `?` and `!` may stand behind
an operand, but they are always written in front of it, where they can be taken
for something else.
-/

namespace DocComment

open Text Token TypeExpr DocComment.Derivation

/-! ## Rendering nodes -/

namespace Node

mutual

/-- The node of a tree is written as the tree. -/
theorem chars_toNode : (t : TypeExpr) → t.toNode.chars = .ok t.chars
  | .name _ | .string _ | .number _ | .any | .unknown | .typeOf _ => rfl
  -- each kind is written in the same order on both sides, part by part
  | .union left right => by
    have hleft := chars_toNode left
    have hright := chars_toNode right
    simp only [toNode, Node.chars, charsOfPart, hleft, hright]
    rfl
  | .optional inner | .nullable inner | .notNullable inner | .variadic inner | .parens inner => by
    have hinner := chars_toNode inner
    simp only [toNode, Node.chars, charsOfPart, hinner]
    rfl
  | .generic _ arguments => by
    have harguments := charsOfAll_toNodes arguments
    simp only [toNode, Node.chars, harguments]
    rfl
  | .tuple entries => by
    have hentries := charsOfAll_toNodes entries
    simp only [toNode, Node.chars, hentries]
    rfl
  | .record fields => by
    have hfields := charsOfAll_fieldNodes (.inl rfl) fields
    simp only [toNode, Node.chars, hfields]
    rfl
  | .function params => by
    have hparams := charsOfAll_toNodes params
    simp only [toNode, Node.chars, hparams]
    rfl
  | .functionReturning params returns => by
    have hparams := charsOfAll_toNodes params
    have hreturns := chars_toNode returns
    simp only [toNode, Node.chars, hparams, hreturns]
    rfl
  | .arrow params returns => by
    have hparams := charsOfAll_fieldNodes (.inr rfl) params
    have hreturns := chars_toNode returns
    simp only [toNode, Node.chars, charsOfPart, hparams, hreturns]
    rfl

theorem charsOfAll_toNodes : (ts : List TypeExpr) →
    Node.charsOfAll (toNodes ts) = .ok (TypeExpr.charsOfAll ts)
  | [] => rfl
  | t :: ts => by
    have hfirst := chars_toNode t
    have hothers := charsOfAll_toNodes ts
    simp only [toNodes, Node.charsOfAll, hfirst, hothers]
    rfl

/-- The node of a field is written as the field, with or without its type. -/
theorem chars_fieldNode {kind : Kind} (h : kind = .recordField ∨ kind = .parameter) :
    (f : Field) → (fieldNode kind f).chars = .ok (charsOfField f)
  | .bare _ => by rcases h with rfl | rfl <;> rfl
  | .typed _ type => by
    have htype := chars_toNode type
    rcases h with rfl | rfl
    · simp only [fieldNode, Node.chars, htype]
      rfl
    · simp only [fieldNode, Node.chars, htype]
      rfl

theorem charsOfAll_fieldNodes {kind : Kind} (h : kind = .recordField ∨ kind = .parameter) :
    (fs : List Field) → Node.charsOfAll (fieldNodes kind fs) = .ok (charsOfFields fs)
  | [] => rfl
  | f :: fs => by
    have hfirst := chars_fieldNode h f
    have hothers := charsOfAll_fieldNodes h fs
    simp only [fieldNodes, Node.charsOfAll, hfirst, hothers]
    rfl

end

theorem render_toNode (t : TypeExpr) : t.toNode.render = .ok t.render := by
  rw [Node.render, chars_toNode]
  rfl

end Node

/-! ## Reading rendered trees -/

namespace TypeExpr

variable {t : TypeExpr}

/-- The tree of a text that is accepted is one that the layers can build. -/
theorem formed_of_parse {text : String} (h : parse text = .ok t) : Formed True .type t := by
  rcases exists_preferred_of_parseChars h with ⟨k, d, hd, rfl⟩
  rcases exists_wholeDerivation d hd with ⟨w, htree, hpreferred⟩
  rw [← htree]
  exact builds_tree w.derivation hpreferred

/-- A tree that is read is built in the layers of the grammar. -/
theorem formed_of_parseChars {cs : List Char} (h : parseChars cs = .ok t) :
    Formed True .type t := by
  have hparse : parse (String.ofList cs) = .ok t := by rw [parse, String.toList_ofList, h]
  exact formed_of_parse hparse

/-- What is read from the text of a tree. -/
theorem parse_render (h : Formed True .type t) : parse t.render = .ok t.reread := by
  have htokens : tokensOf t.chars = t.tokens [] := by
    have hchars := h.tokensOf_chars [] rfl
    rwa [List.append_nil] at hchars
  have hdetermined := h.determined [] rfl
  rw [← htokens] at hdetermined
  rw [parse, render, String.toList_ofList]
  rcases parseChars_cases t.chars with ⟨k, d, hd, hok⟩ | ⟨hnone, -⟩
  · exact hok.trans (congrArg Except.ok (hdetermined k d hd))
  · rcases h.readable [] rfl with ⟨k, hspans⟩
    rw [htokens] at hnone
    exact absurd hspans (hnone k)

end TypeExpr

/-- A canonical tree is read back from the text of its node. -/
theorem parse_render_canonical (t : TypeExpr) (h : t.Canonical) :
    ∃ text, t.toNode.render = .ok text ∧ TypeExpr.parse text = .ok t := by
  have hread := parse_render h.widen
  rw [(reread_eq_iff t).mpr h.isSteady] at hread
  exact ⟨t.render, Node.render_toNode t, hread⟩

/-- An optional last argument is written right in front of the closing sign. -/
theorem parse_render_canonical_argument :
    ∃ text, (TypeExpr.generic "A" [.optional (.name "B")]).toNode.render = .ok text ∧
      TypeExpr.parse text = .ok (.generic "A" [.optional (.name "B")]) := by
  have hname {c : Char} (hc : isNameStart c = true) : [c] ∈ nameLanguage := (longest_name hc []).mem
  have hargument : Formed False .type (.optional (.name "B")) :=
    .operand (.unmarked (.optional (.plain (.name (hname (c := 'B') rfl)))))
  refine parse_render_canonical (.generic "A" [.optional (.name "B")]) ?_
  refine .operand (.unmarked (.plain (.generic (hname (c := 'A') rfl) (List.cons_ne_nil _ _) ?_)))
  exact List.forall_mem_singleton.mpr hargument

/-- The text of a tree that was read is accepted again. It is read as the same
tree if and only if the tree is steady. -/
theorem parse_render_iff_steady (text : String) (t : TypeExpr) (h : TypeExpr.parse text = .ok t) :
    ∃ rendered again, t.toNode.render = .ok rendered ∧ TypeExpr.parse rendered = .ok again ∧
      (again = t ↔ t.isSteady = true) := by
  have hformed := formed_of_parse h
  have hagain := parse_render hformed
  exact ⟨t.render, t.reread, Node.render_toNode t, hagain, reread_eq_iff t⟩

/-- An optional type that can be null is read again the other way round. -/
theorem parse_render_iff_steady_optional :
    TypeExpr.parse "A?=" = .ok (.optional (.nullable (.name "A"))) ∧
      ∃ rendered again, (TypeExpr.optional (.nullable (.name "A"))).toNode.render = .ok rendered ∧
        TypeExpr.parse rendered = .ok again ∧
        (again = .optional (.nullable (.name "A")) ↔
          (TypeExpr.optional (.nullable (.name "A"))).isSteady = true) :=
  ⟨rfl, parse_render_iff_steady "A?=" _ rfl⟩

/-- Not every tree that is read is read back: an empty tuple with a question mark
behind it is written with the question mark in front of it, which is read as an
array. -/
theorem not_parse_render :
    ¬ ∀ text t, TypeExpr.parse text = .ok t →
      ∃ rendered, t.toNode.render = .ok rendered ∧ TypeExpr.parse rendered = .ok t := by
  intro h
  rcases h "[]?" (.nullable (.tuple [])) rfl with ⟨rendered, hrendered, hagain⟩
  obtain rfl : "?[]" = rendered := Except.ok.inj hrendered
  have hread : TypeExpr.parse "?[]" = .ok (.generic "Array" [.unknown]) := rfl
  exact TypeExpr.noConfusion (Except.ok.inj (hread.symm.trans hagain))

end DocComment
