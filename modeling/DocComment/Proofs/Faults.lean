import DocComment.Node.Shape
import Mathlib.Logic.Relation

/-!
# Faults of nodes

A node that another program builds may be one that cannot be written. Which nodes those
are can be read off the node: each kind is written from certain parts (`Node.parts`), and
a node is `Node.Writable` if its kind is known, all those parts are there, and they are
writable in turn. The parts are written in their order, so that the first one that is
missing or not writable decides the fault (`Node.Blamed`).

The shape of a node leaves most of the node alone. It follows the branches of unions,
tuples and generics (`Node.branches`) and writes nothing but the operand of an optional
node, and this is all that can make it fail (`Node.render_and_shapeOf_error_iff`).
-/

namespace DocComment

/-! ## Traversals that may fail -/

section

variable {ε α β : Type}

/-- A traversal succeeds if each element does. -/
theorem exists_mapM_ok_iff {f : α → Except ε β} {as : List α} :
    (∃ bs, as.mapM f = .ok bs) ↔ ∀ a ∈ as, ∃ b, f a = .ok b := by
  induction as with
  | nil => exact ⟨fun _ => nofun, fun _ => ⟨[], rfl⟩⟩
  | cons a as ih =>
    rw [List.mapM_cons, List.forall_mem_cons, ← ih]
    constructor
    · rintro ⟨bs, hbs⟩
      cases ha : f a with
      | error fault =>
        rw [ha] at hbs
        cases hbs
      | ok b =>
        cases has : as.mapM f with
        | error fault =>
          rw [ha, has] at hbs
          cases hbs
        | ok others => exact ⟨⟨b, rfl⟩, others, rfl⟩
    · rintro ⟨⟨b, hb⟩, bs, hbs⟩
      rw [hb, hbs]
      exact ⟨b :: bs, rfl⟩

/-- A traversal fails as the first element does that fails. -/
theorem mapM_eq_error_iff {f : α → Except ε β} {as : List α} {fault : ε} :
    as.mapM f = .error fault ↔
      ∃ front a rest, as = front ++ a :: rest ∧ (∀ earlier ∈ front, ∃ b, f earlier = .ok b) ∧
        f a = .error fault := by
  constructor
  · intro h
    induction as with
    | nil => cases h
    | cons a as ih =>
      rw [List.mapM_cons] at h
      -- the first element fails, or the fault comes from the others
      cases ha : f a with
      | error first =>
        rw [ha] at h
        cases h
        exact ⟨[], a, as, rfl, nofun, ha⟩
      | ok b =>
        have hrest : as.mapM f = .error fault := by
          cases has : as.mapM f with
          | error later =>
            rw [ha, has] at h
            exact h
          | ok others =>
            rw [ha, has] at h
            cases h
        obtain ⟨front, later, rest, rfl, hfront, hlater⟩ := ih hrest
        exact ⟨a :: front, later, rest, rfl, List.forall_mem_cons.mpr ⟨⟨b, ha⟩, hfront⟩, hlater⟩
  · rintro ⟨front, a, rest, rfl, hfront, ha⟩
    obtain ⟨bs, hbs⟩ := exists_mapM_ok_iff.mpr hfront
    rw [List.mapM_append, List.mapM_cons, hbs, ha]
    rfl

/-- A sequence fails at its first step, or at its second behind a first that succeeds. -/
theorem exists_bind_error_iff {x : Except ε α} {f : α → Except ε β} :
    (∃ fault, x.bind f = .error fault) ↔
      (∃ fault, x = .error fault) ∨ ∃ a, x = .ok a ∧ ∃ fault, f a = .error fault := by
  cases x with
  | error fault =>
    constructor
    · intro _
      exact .inl ⟨fault, rfl⟩
    · intro _
      exact ⟨fault, rfl⟩
  | ok a =>
    constructor
    · intro h
      exact .inr ⟨a, rfl, h⟩
    · rintro (⟨fault, h⟩ | ⟨a, h, hfault⟩)
      · cases h
      · cases h
        exact hfault

end

namespace Node

/-! ## Writing -/

/-- The parts that a node of its kind is written from, in the order of writing. One that
has to be there may be missing. -/
def parts : Node → List (Option Node)
  | ⟨kind, _, left, right, subject, value, returns, objects, entries, fields, params⟩ =>
    match kind with
    | .union => [left, right]
    | .optional | .nullable | .notNullable | .variadic | .parens => [value]
    | .generic => objects.map some ++ [subject]
    | .tuple => entries.map some
    | .record => fields.map some
    | .recordField | .parameter => value.toList.map some
    | .function => params.map some ++ returns.toList.map some
    | .arrow => params.map some ++ [returns]
    | _ => []

/-- A node whose kind is known and whose parts are there and writable. -/
inductive Writable : Node → Prop where
  | intro {node : Node} (hkind : ∀ label, node.kind ≠ .other label)
      (hpresent : none ∉ node.parts) (hparts : ∀ part, some part ∈ node.parts → Writable part) :
      Writable node

/-- The fault of a node is that of its kind or of the first part that is missing or not
writable. -/
inductive Blamed : Node → NodeFault → Prop where
  | unknown {node : Node} {label} (hkind : node.kind = .other label) :
      Blamed node (.unsupported node.kind)
  | missing {node : Node} {front : List Node} {rest}
      (hparts : node.parts = front.map some ++ none :: rest)
      (hfront : ∀ part ∈ front, Writable part) : Blamed node .missingPart
  | part {node part : Node} {front : List Node} {rest fault}
      (hparts : node.parts = front.map some ++ some part :: rest)
      (hfront : ∀ part ∈ front, Writable part) (hpart : Blamed part fault) : Blamed node fault

theorem charsOfAll_eq_mapM (nodes : List Node) :
    charsOfAll nodes = (nodes.map some).mapM charsOfPart := by
  induction nodes with
  | nil => rfl
  | cons node nodes ih => rw [charsOfAll, ih, List.map_cons, List.mapM_cons, charsOfPart]

/-- The parts of a node are smaller than the node, so that facts about both can be proved
by induction. -/
theorem sizeOf_lt_of_mem_parts {node part : Node} (h : some part ∈ node.parts) :
    sizeOf part < sizeOf node := by
  obtain ⟨kind, name, left, right, subject, value, returns, objects, entries, fields, params⟩ :=
    node
  have hsome (found : Option Node) (h : some part = found) : sizeOf part < sizeOf found := by
    rw [← h]
    simp
  have hlist (nodes : List Node) (h : some part ∈ nodes.map some) :
      sizeOf part < sizeOf nodes := by
    obtain ⟨node, hnode, heq⟩ := List.mem_map.mp h
    cases heq
    exact List.sizeOf_lt_of_mem hnode
  have hoption (found : Option Node) (h : some part ∈ found.toList.map some) :
      sizeOf part < sizeOf found := by
    cases found with
    | none => cases h
    | some node => exact hsome _ (List.mem_singleton.mp h)
  -- each kind has its parts in its own slots, and each slot is smaller than the node
  rw [Node.mk.sizeOf_spec]
  cases kind <;>
    simp only [parts, List.mem_append, List.mem_cons, List.not_mem_nil, or_false] at h
  case union =>
    rcases h with h | h
    all_goals
      have := hsome _ h
      omega
  case optional | nullable | notNullable | variadic | parens =>
    have := hsome _ h
    omega
  case tuple | record =>
    have := hlist _ h
    omega
  case recordField | parameter =>
    have := hoption _ h
    omega
  case generic | arrow =>
    rcases h with h | h
    · have := hlist _ h
      omega
    · have := hsome _ h
      omega
  case function =>
    rcases h with h | h
    · have := hlist _ h
      omega
    · have := hoption _ h
      omega

/-- A node of a known kind is a layout of its parts, which are written one after another. -/
theorem exists_layout {node : Node} (hkind : ∀ label, node.kind ≠ .other label) :
    ∃ layout, node.chars = (node.parts.mapM charsOfPart).map layout := by
  obtain ⟨kind, name, left, right, subject, value, returns, objects, entries, fields, params⟩ :=
    node
  have hmarked (mark : List Char → List Char) :
      (do return mark (← charsOfPart value)) =
        ([value].mapM charsOfPart).map fun css => mark (css.getD 0 []) := by
    rw [List.mapM_cons, List.mapM_nil]
    cases charsOfPart value <;> rfl
  have hlist (nodes : List Node) (bracket : List (List Char) → List Char) :
      (do return bracket (← charsOfAll nodes)) =
        ((nodes.map some).mapM charsOfPart).map bracket := by
    rw [charsOfAll_eq_mapM]
    cases (nodes.map some).mapM charsOfPart <;> rfl
  have hbehind (nodes : List Node) (last : Option Node)
      (join : List (List Char) → List Char → List Char) :
      (do
        let earlier ← charsOfAll nodes
        let final ← charsOfPart last
        return join earlier final) =
        ((nodes.map some ++ [last]).mapM charsOfPart).map
          fun css => join css.dropLast (css.getLastD []) := by
    rw [charsOfAll_eq_mapM, List.mapM_append, List.mapM_cons, List.mapM_nil]
    cases (nodes.map some).mapM charsOfPart with
    | error => rfl
    | ok earlier =>
      cases charsOfPart last with
      | error => rfl
      | ok final =>
        refine congrArg Except.ok ?_
        change _ = join (earlier ++ [final]).dropLast ((earlier ++ [final]).getLastD [])
        rw [List.dropLast_concat, List.getLastD_concat]
  cases kind with
  | name | string | number | any | unknown | typeOf => exact ⟨fun _ => _, rfl⟩
  | other label => exact absurd rfl (hkind label)
  | union =>
    refine ⟨fun css => Notation.union (css.getD 0 []) (css.getD 1 []), ?_⟩
    simp only [chars, parts, List.mapM_cons, List.mapM_nil]
    cases charsOfPart left with
    | error => rfl
    | ok => cases charsOfPart right <;> rfl
  | optional | nullable | notNullable | variadic | parens => exact ⟨_, hmarked _⟩
  | tuple => exact ⟨_, hlist entries _⟩
  | record => exact ⟨_, hlist fields _⟩
  | generic => exact ⟨_, hbehind objects subject fun css cs => Notation.generic cs css⟩
  | arrow => exact ⟨_, hbehind params returns Notation.arrow⟩
  | recordField | parameter =>
    cases value with
    | none => exact ⟨fun _ => _, rfl⟩
    | some type => exact ⟨_, hmarked (Notation.typed (nameChars name))⟩
  | function =>
    cases returns with
    | none =>
      -- Nothing stands behind the parameters, so that they are all of the parts.
      refine ⟨Notation.function, ?_⟩
      change _ = ((params.map some ++ []).mapM charsOfPart).map Notation.function
      rw [List.append_nil]
      exact hlist params Notation.function
    | some type =>
      exact ⟨_, hbehind params (some type) fun css cs => Notation.typed (Notation.function css) cs⟩

/-! ## Which nodes can be written -/

variable {node : Node} {fault : NodeFault}

/-- A writable node is written. -/
theorem Writable.exists_chars (h : Writable node) : ∃ cs, node.chars = .ok cs := by
  induction h with
  | @intro node hkind hpresent hparts ih =>
    obtain ⟨layout, hlayout⟩ := exists_layout hkind
    have hall : ∀ part ∈ node.parts, ∃ cs, charsOfPart part = .ok cs := by
      intro part hpart
      cases part with
      | none => exact absurd hpart hpresent
      | some part => exact ih part hpart
    obtain ⟨css, hcss⟩ := exists_mapM_ok_iff.mpr hall
    refine ⟨layout css, ?_⟩
    rw [hlayout, hcss]
    rfl

/-- Nodes of an unknown kind have no parts. -/
theorem known_of_parts_ne_nil (h : node.parts ≠ []) : ∀ label, node.kind ≠ .other label := by
  obtain ⟨kind, name, left, right, subject, value, returns, objects, entries, fields, params⟩ :=
    node
  rintro label rfl
  exact h rfl

/-- The first part that cannot be written decides the fault. -/
theorem chars_eq_error_of_parts {front : List Node} {part : Option Node} {rest}
    (hparts : node.parts = front.map some ++ part :: rest) (hfront : ∀ part ∈ front, Writable part)
    (hpart : charsOfPart part = .error fault) : node.chars = .error fault := by
  have hne : node.parts ≠ [] := by
    rw [hparts]
    exact List.append_ne_nil_of_right_ne_nil _ (List.cons_ne_nil _ _)
  have hearlier : ∀ earlier ∈ front.map some, ∃ cs, charsOfPart earlier = .ok cs :=
    List.forall_mem_map.mpr fun earlier hmem => (hfront earlier hmem).exists_chars
  have hall : node.parts.mapM charsOfPart = .error fault :=
    mapM_eq_error_iff.mpr ⟨_, part, rest, hparts, hearlier, hpart⟩
  obtain ⟨layout, hlayout⟩ := exists_layout (known_of_parts_ne_nil hne)
  rw [hlayout, hall]
  rfl

/-- Writing fails as the blame says. -/
theorem Blamed.chars_eq_error (h : Blamed node fault) : node.chars = .error fault := by
  induction h with
  | @unknown node label hkind =>
    obtain ⟨kind, name, left, right, subject, value, returns, objects, entries, fields, params⟩ :=
      node
    cases hkind
    rfl
  | missing hparts hfront => exact chars_eq_error_of_parts hparts hfront rfl
  | part hparts hfront hpart ih => exact chars_eq_error_of_parts hparts hfront ih

/-- Parts are all there and writable, or there is a first one that is not. -/
theorem writable_or_first (parts : List (Option Node)) :
    (none ∉ parts ∧ ∀ part, some part ∈ parts → Writable part) ∨
      ∃ (front : List Node) (part : Option Node) (rest : List (Option Node)),
        parts = front.map some ++ part :: rest ∧ (∀ part ∈ front, Writable part) ∧
          ∀ found, part = some found → ¬ Writable found := by
  induction parts with
  | nil => exact .inl ⟨nofun, nofun⟩
  | cons part parts ih =>
    -- the first part is to blame, or it can be written and the others decide
    by_cases hpart : ∃ found, part = some found ∧ Writable found
    · obtain ⟨found, rfl, hfound⟩ := hpart
      rcases ih with ⟨hpresent, hparts⟩ | ⟨front, later, rest, rfl, hfront, hlater⟩
      · left
        constructor
        · simpa using hpresent
        · intro other hother
          rcases List.mem_cons.mp hother with heq | hother
          · cases heq
            exact hfound
          · exact hparts other hother
      · exact .inr ⟨found :: front, later, rest, rfl,
          List.forall_mem_cons.mpr ⟨hfound, hfront⟩, hlater⟩
    · right
      refine ⟨[], part, parts, rfl, nofun, ?_⟩
      intro found heq hfound
      exact hpart ⟨found, heq, hfound⟩

/-- Each node can be written or is to blame. -/
theorem writable_or_blamed (node : Node) : Writable node ∨ ∃ fault, Blamed node fault := by
  by_cases hkind : ∃ label, node.kind = .other label
  · obtain ⟨label, hlabel⟩ := hkind
    exact .inr ⟨_, .unknown hlabel⟩
  rcases writable_or_first node.parts with
    ⟨hpresent, hparts⟩ | ⟨front, part, rest, hparts, hfront, hpart⟩
  · exact .inl ⟨fun label hlabel => hkind ⟨label, hlabel⟩, hpresent, hparts⟩
  · right
    -- the first part that cannot be written is missing, or has something to blame below it
    cases part with
    | none => exact ⟨_, .missing hparts hfront⟩
    | some part =>
      have hmem : some part ∈ node.parts := by
        rw [hparts]
        exact List.mem_append_right _ List.mem_cons_self
      have := sizeOf_lt_of_mem_parts hmem
      rcases writable_or_blamed part with hwritable | ⟨fault, hfault⟩
      · exact absurd hwritable (hpart part rfl)
      · exact ⟨fault, .part hparts hfront hfault⟩
termination_by sizeOf node

/-- A node is written if and only if it is writable. -/
theorem exists_render_iff : (∃ text, node.render = .ok text) ↔ Writable node := by
  rw [render]
  constructor
  · rintro ⟨text, htext⟩
    rcases writable_or_blamed node with hwritable | ⟨fault, hfault⟩
    · exact hwritable
    · rw [hfault.chars_eq_error] at htext
      cases htext
  · intro hwritable
    obtain ⟨cs, hcs⟩ := hwritable.exists_chars
    rw [hcs]
    exact ⟨String.ofList cs, rfl⟩

/-- A node fails with a fault if and only if it is blamed for it. -/
theorem render_eq_error_iff : node.render = .error fault ↔ Blamed node fault := by
  constructor
  · intro h
    rcases writable_or_blamed node with hwritable | ⟨other, hother⟩
    · obtain ⟨text, htext⟩ := exists_render_iff.mpr hwritable
      rw [htext] at h
      cases h
    · rw [render, hother.chars_eq_error] at h
      cases h
      exact hother
  · intro h
    rw [render, h.chars_eq_error]
    rfl

theorem exists_render_error_iff : (∃ fault, node.render = .error fault) ↔ ¬ Writable node := by
  rw [← exists_render_iff]
  cases node.render with
  | ok text => simp
  | error fault => simp

/-! ## Shapes -/

/-- The nodes that the shape of a node follows. The generic form does not follow its
arguments if its subject has no name. -/
def branches : Node → List Node
  | ⟨kind, _, left, right, subject, _, _, objects, entries, _, _⟩ =>
    match kind with
    | .union => left.toList ++ right.toList
    | .generic => if (subject.bind (·.name)).isSome then objects else []
    | .tuple => entries
    | _ => []

/-- The shape of one node follows the other one next. -/
def Descends (node branch : Node) : Prop := branch ∈ node.branches

/-- A branch is one of the parts, except for parts that only the shape leaves alone. -/
theorem Descends.sizeOf_lt {branch : Node} (h : Descends node branch) :
    sizeOf branch < sizeOf node := by
  have hparts : some branch ∈ node.parts := by
    obtain ⟨kind, name, left, right, subject, value, returns, objects, entries, fields, params⟩ :=
      node
    unfold Descends at h
    cases kind with
    | union =>
      simpa [branches, parts, eq_comm] using h
    | generic =>
      simp only [branches] at h
      split at h
      · exact List.mem_append_left _ (List.mem_map_of_mem h)
      · cases h
    | tuple => exact List.mem_map_of_mem h
    | _ => cases h
  exact sizeOf_lt_of_mem_parts hparts

/-- A node that the shape has to write and cannot: the operand of an optional node. -/
def Stuck (node : Node) : Prop :=
  node.kind = .optional ∧ ∃ operand, node.value = some operand ∧ ¬ Writable operand

/-- The shapes of several nodes fail if that of one of them does. -/
theorem exists_shapes_error_iff {nodes : List Node} :
    (∃ fault, (shapes nodes).result = .error fault) ↔
      ∃ node ∈ nodes, ∃ fault, node.shape.result = .error fault := by
  induction nodes with
  | nil => simp [shapes]
  | cons node nodes ih =>
    rw [shapes, Checked.result_bind, exists_bind_error_iff]
    cases hnode : node.shape.result with
    | error fault => simp [hnode]
    | ok first => simp [hnode, exists_bind_error_iff, ih]

/-- The shape of a node fails at the node itself or at one that it follows next. -/
theorem exists_shape_error_step : (∃ fault, node.shape.result = .error fault) ↔
    Stuck node ∨ ∃ branch, Descends node branch ∧ ∃ fault, branch.shape.result = .error fault := by
  obtain ⟨kind, name, left, right, subject, value, returns, objects, entries, fields, params⟩ :=
    node
  cases kind with
  | optional =>
    cases value with
    | none => simp [shape, Stuck, Descends, branches]
    | some operand =>
      have hrender : (MonadExcept.ofExcept operand.render : Checked NodeFault String).result =
          operand.render := by
        cases operand.render <;> rfl
      simp [shape, Stuck, Descends, branches, hrender, exists_bind_error_iff,
        exists_render_error_iff]
  | union =>
    have hpart (part : Option Node) : (∃ fault, (shapeOfPart part).result = .error fault) ↔
        ∃ branch ∈ part.toList, ∃ fault, branch.shape.result = .error fault := by
      cases part <;> simp [shapeOfPart]
    -- only an optional node can be stuck
    have hstuck : ¬ Stuck ⟨.union, name, left, right, subject, value, returns, objects, entries,
        fields, params⟩ := by
      intro hstuck
      cases hstuck.1
    rw [shape, Checked.result_bind, exists_bind_error_iff, or_iff_right hstuck]
    simp only [Descends, branches, List.mem_append, or_and_right, exists_or, ← hpart]
    cases (shapeOfPart left).result with
    | error fault => simp
    | ok first => simp [exists_bind_error_iff]
  | generic =>
    have hstuck : ¬ Stuck ⟨.generic, name, left, right, subject, value, returns, objects, entries,
        fields, params⟩ := by
      intro hstuck
      cases hstuck.1
    rw [or_iff_right hstuck]
    cases hname : subject.bind (·.name) with
    | none => simp [shape, hname, Descends, branches]
    | some container =>
      simp [shape, hname, Descends, branches, exists_bind_error_iff, ← exists_shapes_error_iff]
  | tuple =>
    have hstuck : ¬ Stuck ⟨.tuple, name, left, right, subject, value, returns, objects, entries,
        fields, params⟩ := by
      intro hstuck
      cases hstuck.1
    rw [or_iff_right hstuck]
    simp [shape, Descends, branches, exists_bind_error_iff, ← exists_shapes_error_iff]
  | name | any => simp [shape, Stuck, Descends, branches]
  | _ =>
    have hresult (kind : Kind) : (noShape kind).result = .ok .absent := rfl
    simp [shape, hresult, Stuck, Descends, branches]

/-- A failure is followed down to where it comes from. -/
theorem exists_stuck_of_shape_error (node : Node)
    (h : ∃ fault, node.shape.result = .error fault) :
    ∃ met, Relation.ReflTransGen Descends node met ∧ Stuck met := by
  rcases exists_shape_error_step.mp h with hstuck | ⟨branch, hbranch, hfails⟩
  · exact ⟨node, .refl, hstuck⟩
  · have := hbranch.sizeOf_lt
    obtain ⟨met, hmet, hstuck⟩ := exists_stuck_of_shape_error branch hfails
    exact ⟨met, .head hbranch hmet, hstuck⟩
termination_by sizeOf node

/-- The shape of a node fails if a stuck node is reached along the branches. -/
theorem exists_shape_error_iff : (∃ fault, node.shape.result = .error fault) ↔
    ∃ met, Relation.ReflTransGen Descends node met ∧ Stuck met := by
  constructor
  · exact exists_stuck_of_shape_error node
  · rintro ⟨met, hmet, hstuck⟩
    induction hmet using Relation.ReflTransGen.head_induction_on with
    | refl => exact exists_shape_error_step.mpr (.inl hstuck)
    | head hbranch _ ih => exact exists_shape_error_step.mpr (.inr ⟨_, hbranch, ih⟩)

/-- With a text, an optional node is not written and has no branches. Any other node has the
shape that it has without a text. -/
theorem exists_shapeOf_error_iff {source : Option String} :
    (∃ fault, (shapeOf source (some node)).result = .error fault) ↔
      ∃ met, (met = node ∧ source = none ∨ Relation.TransGen Descends node met) ∧ Stuck met := by
  -- the text stands for the name of an optional node, which is then not written
  by_cases hkept : node.kind = .optional ∧ source ≠ none
  · obtain ⟨hkind, hsource⟩ := hkept
    obtain ⟨text, rfl⟩ := Option.ne_none_iff_exists'.mp hsource
    have hbranch : ∀ branch, ¬ Descends node branch := by
      obtain ⟨kind, name, left, right, subject, value, returns, objects, entries, fields, params⟩ :=
        node
      cases hkind
      intro branch hbranch
      cases hbranch
    constructor
    · rintro ⟨fault, hfault⟩
      simp [shapeOf, hkind] at hfault
    · rintro ⟨met, ⟨-, hsource⟩ | hmet, -⟩
      · cases hsource
      · obtain ⟨branch, hfirst, -⟩ := Relation.TransGen.head'_iff.mp hmet
        exact absurd hfirst (hbranch branch)
  · have hshape : shapeOf source (some node) = node.shape := by
      simp only [shapeOf]
      split
      · next text hkind => exact absurd ⟨hkind, Option.some_ne_none text⟩ hkept
      · rfl
    rw [hshape, exists_shape_error_iff]
    constructor
    · rintro ⟨met, hmet, hstuck⟩
      refine ⟨met, ?_, hstuck⟩
      rcases Relation.reflTransGen_iff_eq_or_transGen.mp hmet with rfl | hmet
      · have hsource : source = none :=
          Decidable.of_not_not fun hsource => hkept ⟨hstuck.1, hsource⟩
        exact .inl ⟨rfl, hsource⟩
      · exact .inr hmet
    · rintro ⟨met, ⟨rfl, -⟩ | hmet, hstuck⟩
      · exact ⟨met, .refl, hstuck⟩
      · exact ⟨met, hmet.to_reflTransGen, hstuck⟩

/-- A node is written if and only if it is writable, and fails with the fault that it is
blamed for. Its shape fails if and only if it follows branches to an optional node whose
operand is there and not writable; the node itself does not count if it comes with a
text. -/
theorem render_and_shapeOf_error_iff (node : Node) :
    ((∃ text, node.render = .ok text) ↔ Writable node) ∧
      (∀ fault, node.render = .error fault ↔ Blamed node fault) ∧
      ∀ source, (∃ fault, (shapeOf source (some node)).result = .error fault) ↔
        ∃ met operand, (met = node ∧ source = none ∨ Relation.TransGen Descends node met) ∧
          met.kind = .optional ∧ met.value = some operand ∧ ¬ Writable operand := by
  refine ⟨exists_render_iff, fun fault => render_eq_error_iff, ?_⟩
  intro source
  rw [exists_shapeOf_error_iff]
  constructor
  · rintro ⟨met, hmet, hkind, operand, hvalue, hoperand⟩
    exact ⟨met, operand, hmet, hkind, hvalue, hoperand⟩
  · rintro ⟨met, operand, hmet, hkind, hvalue, hoperand⟩
    exact ⟨met, hmet, hkind, operand, hvalue, hoperand⟩

/-- An argument of an unknown kind is found before the missing container in front of it. -/
example : ({ kind := .generic, objects := [{ kind := .other "X" }] } : Node).render =
    .error (.unsupported (.other "X")) := rfl

end Node

end DocComment
