import DocComment.TypeExpr.Reading

/-!
# What readings list

A reading in order has its ways sorted, the longest first, and each ends at a
different place behind the start. Alternatives and sequences of rules keep this
order. Of two alternatives, the second only contributes the ways that end where
the first has none (`mem_orElse`).

`Reading.Spec` says of a reading in order what its ways have in common and where
a way must end. There is one rule for each way to combine readings, so the
specification of a rule of the grammar is put together as the rule itself is.
-/

namespace DocComment

namespace Reading

variable {α β : Type} {tokens rest : List Token}

/-! ## Merging ways -/

/-- The ways end at different places, the longest first. -/
def Sorted (ways : List (α × List Token)) : Prop :=
  ways.Pairwise fun a b => a.2.length < b.2.length

@[simp] theorem merge_nil_left (ways : List (α × List Token)) : merge [] ways = ways := rfl

@[simp] theorem merge_nil_right (ways : List (α × List Token)) : merge ways [] = ways := by
  induction ways with
  | nil => rfl
  | cons way ways ih => simp [merge, mergeWay, ih]

theorem merge_cons_cons (way other : α × List Token) (ways others : List (α × List Token)) :
    merge (way :: ways) (other :: others) =
      if other.2.length < way.2.length then other :: merge (way :: ways) others
      else if other.2.length = way.2.length then way :: merge ways others
      else way :: merge ways (other :: others) := rfl

/-- Every way of a merge is a way of one of the two alternatives. -/
theorem mem_of_mem_merge {way : α × List Token} {ways others : List (α × List Token)}
    (h : way ∈ merge ways others) : way ∈ ways ∨ way ∈ others := by
  -- along both lists, as merging goes
  induction ways generalizing others with
  | nil => exact .inr h
  | cons first ways ih =>
    induction others with
    | nil => exact .inl (by simpa using h)
    | cons other others ihOthers =>
      rw [merge_cons_cons] at h
      split at h
      · rcases List.mem_cons.mp h with rfl | h
        · simp
        · rcases ihOthers h with h | h <;> simp [h]
      · split at h
        all_goals
          rcases List.mem_cons.mp h with rfl | h
          · simp
          · rcases ih h with h | h
            · simp [h]
            · simp_all

/-- A preferred way is kept. -/
theorem mem_merge_of_mem {way : α × List Token} {ways : List (α × List Token)}
    (h : way ∈ ways) (others : List (α × List Token)) : way ∈ merge ways others := by
  induction ways generalizing others with
  | nil => cases h
  | cons first ways ih =>
    induction others with
    | nil => simpa using h
    | cons other others ihOthers =>
      -- whatever is taken first, the way is it or is still to come
      rw [merge_cons_cons]
      split
      · exact List.mem_cons_of_mem _ ihOthers
      · split
        all_goals
          rcases List.mem_cons.mp h with rfl | h
          · exact List.mem_cons_self
          · exact List.mem_cons_of_mem _ (ih h _)

/-- A single way is put behind longer ones. -/
theorem merge_singleton {way : α × List Token} {others : List (α × List Token)}
    (h : ∀ other ∈ others, other.2.length < way.2.length) :
    merge [way] others = others ++ [way] := by
  induction others with
  | nil => rfl
  | cons other others ih =>
    obtain ⟨hother, hothers⟩ := List.forall_mem_cons.mp h
    rw [merge_cons_cons, if_pos hother, ih hothers, List.cons_append]

/-- Merging keeps the order. -/
theorem sorted_merge {ways others : List (α × List Token)} (hw : Sorted ways)
    (ho : Sorted others) : Sorted (merge ways others) := by
  induction ways generalizing others with
  | nil => exact ho
  | cons way ways ih =>
    rcases List.pairwise_cons.mp hw with ⟨hway, hways⟩
    induction others with
    | nil => simpa using hw
    | cons other others ihOthers =>
      rcases List.pairwise_cons.mp ho with ⟨hother, hothers⟩
      rw [merge_cons_cons]
      split
      · -- the other way is longer than all preferred ways
        refine List.pairwise_cons.mpr ⟨fun w h => ?_, ihOthers hothers⟩
        rcases mem_of_mem_merge h with h | h
        · rcases List.mem_cons.mp h with rfl | h
          · assumption
          · have := hway w h
            omega
        · exact hother w h
      · split
        · refine List.pairwise_cons.mpr ⟨fun w h => ?_, ih hways hothers⟩
          rcases mem_of_mem_merge h with h | h
          · exact hway w h
          · have := hother w h
            omega
        · refine List.pairwise_cons.mpr ⟨fun w h => ?_, ih hways ho⟩
          rcases mem_of_mem_merge h with h | h
          · exact hway w h
          · rcases List.mem_cons.mp h with rfl | h
            · omega
            · have := hother w h
              omega

/-- A merge has the preferred ways, and those of the others that end where no
preferred way ends. -/
theorem mem_merge {way : α × List Token} {ways others : List (α × List Token)} (hw : Sorted ways)
    (ho : Sorted others) :
    way ∈ merge ways others ↔
      way ∈ ways ∨ (way ∈ others ∧ ∀ w ∈ ways, w.2.length ≠ way.2.length) := by
  induction ways generalizing others with
  | nil => simp
  | cons first ways ih =>
    rcases List.pairwise_cons.mp hw with ⟨hfirst, hways⟩
    induction others with
    | nil => simp
    | cons other others ihOthers =>
      rcases List.pairwise_cons.mp ho with ⟨hother, hothers⟩
      rw [merge_cons_cons]
      split
      · -- the other way ends where no preferred way does
        rw [List.mem_cons, ihOthers hothers]
        grind
      · split
        · -- both ways end at one place, and the other way is dropped
          rw [List.mem_cons, ih hways hothers]
          grind
        · rw [List.mem_cons, ih hways ho]
          grind

/-- At each place at most one way ends. -/
theorem Sorted.unique {ways : List (α × List Token)} {value value' : α} (h : Sorted ways)
    (hvalue : (value, rest) ∈ ways) (hvalue' : (value', rest) ∈ ways) : value = value' := by
  induction ways with
  | nil => cases hvalue
  | cons way ways ih =>
    obtain ⟨hway, hways⟩ := List.pairwise_cons.mp h
    rcases List.mem_cons.mp hvalue with rfl | hlater
    · rcases List.mem_cons.mp hvalue' with heq | hlater'
      · exact (Prod.mk.inj heq).1.symm
      · exact absurd (hway _ hlater') (Nat.lt_irrefl _)
    · rcases List.mem_cons.mp hvalue' with rfl | hlater'
      · exact absurd (hway _ hlater) (Nat.lt_irrefl _)
      · exact ih hways hlater hlater'

/-! ## Readings in order -/

/-- The ways are sorted, and each ends behind the start. -/
structure Ordered (reading : Reading α) (tokens : List Token) : Prop where
  sorted : Sorted reading.ways
  suffix : ∀ {value rest}, (value, rest) ∈ reading.ways → rest <:+ tokens

def Ends (reading : Reading α) (rest : List Token) : Prop :=
  ∃ value, (value, rest) ∈ reading.ways

/-- Places behind the same start are told apart by the number of tokens left. -/
theorem eq_of_suffix_of_length {a b : List Token} (ha : a <:+ tokens) (hb : b <:+ tokens)
    (h : a.length = b.length) : a = b := by
  rcases List.suffix_or_suffix_of_suffix ha hb with hab | hba
  · exact hab.eq_of_length h
  · exact (hba.eq_of_length h.symm).symm

/-- The places where a reading ends are told apart by the number of tokens left. -/
theorem Ordered.mem_ends_iff {reading : Reading α} (h : reading.Ordered tokens)
    (hrest : rest <:+ tokens) : rest.length ∈ reading.ends ↔ reading.Ends rest := by
  constructor
  · intro hmem
    obtain ⟨⟨value, rest'⟩, hway, hlength⟩ := List.mem_map.mp hmem
    obtain rfl := eq_of_suffix_of_length (h.suffix hway) hrest hlength
    exact ⟨value, hway⟩
  · rintro ⟨value, hway⟩
    exact List.mem_map.mpr ⟨_, hway, rfl⟩

theorem ordered_none : (none : Reading α).Ordered tokens :=
  ⟨List.Pairwise.nil, by simp [none]⟩

/-- Alternatives in order are merged in order. -/
theorem ordered_orElse {first second : Reading α} (hf : first.Ordered tokens)
    (hs : second.Ordered tokens) : (first.orElse second).Ordered tokens := by
  refine ⟨sorted_merge hf.sorted hs.sorted, fun h => ?_⟩
  rcases mem_of_mem_merge h with h | h
  · exact hf.suffix h
  · exact hs.suffix h

/-- The second alternative only counts where the first does not end. -/
theorem mem_orElse {first second : Reading α} {value : α} (hf : first.Ordered tokens)
    (hs : second.Ordered tokens) :
    (value, rest) ∈ (first.orElse second).ways ↔
      (value, rest) ∈ first.ways ∨ ((value, rest) ∈ second.ways ∧ ¬ first.Ends rest) := by
  refine (mem_merge hf.sorted hs.sorted).trans (or_congr_right (and_congr_right fun h => ?_))
  constructor
  · intro hne hread
    rcases hread with ⟨other, hother⟩
    exact hne _ hother rfl
  · intro hne w hw hlength
    have heq := eq_of_suffix_of_length (hf.suffix hw) (hs.suffix h) hlength
    exact hne ⟨w.1, heq ▸ hw⟩

/-- A merge ends where one of the two does. -/
theorem ends_orElse {first second : Reading α} (hf : first.Ordered tokens)
    (hs : second.Ordered tokens) :
    (first.orElse second).Ends rest ↔ first.Ends rest ∨ second.Ends rest := by
  constructor
  · intro hread
    rcases hread with ⟨value, h⟩
    rcases mem_of_mem_merge h with h | h
    · exact .inl ⟨value, h⟩
    · exact .inr ⟨value, h⟩
  · intro h
    by_cases hfirst : first.Ends rest
    · rcases hfirst with ⟨value, hv⟩
      exact ⟨value, (mem_orElse hf hs).mpr (.inl hv)⟩
    · rcases h.resolve_left hfirst with ⟨value, hv⟩
      exact ⟨value, (mem_orElse hf hs).mpr (.inr ⟨hv, hfirst⟩)⟩

theorem ordered_follow {next : α → List Token → Reading β} {ways : List (α × List Token)}
    (h : ∀ value mid, (value, mid) ∈ ways → (next value mid).Ordered tokens) :
    (follow next ways).Ordered tokens := by
  induction ways with
  | nil => exact ordered_none
  | cons way ways ih =>
    exact ordered_orElse (h _ _ (by simp)) (ih fun value mid hw => h value mid (by simp [hw]))

/-- Every way of what follows goes on behind one of the ways. -/
theorem mem_of_mem_follow {next : α → List Token → Reading β} {ways : List (α × List Token)}
    {value : β} (h : (value, rest) ∈ (follow next ways).ways) :
    ∃ first mid, (first, mid) ∈ ways ∧ (value, rest) ∈ (next first mid).ways := by
  induction ways with
  | nil => simp [follow, none] at h
  | cons way ways ih =>
    rcases mem_of_mem_merge h with h | h
    · exact ⟨way.1, way.2, by simp, h⟩
    · rcases ih h with ⟨first, mid, hmem, h⟩
      exact ⟨first, mid, by simp [hmem], h⟩

/-- What goes on behind one of the ways ends where that does. -/
theorem ends_follow {next : α → List Token → Reading β} {ways : List (α × List Token)}
    {first : α} {mid : List Token}
    (h : ∀ value mid, (value, mid) ∈ ways → (next value mid).Ordered tokens)
    (hmem : (first, mid) ∈ ways) (hends : (next first mid).Ends rest) :
    (follow next ways).Ends rest := by
  induction ways with
  | nil => simp at hmem
  | cons way ways ih =>
    have hways : ∀ value mid, (value, mid) ∈ ways → (next value mid).Ordered tokens :=
      fun value mid hw => h value mid (by simp [hw])
    refine (ends_orElse (h _ _ (by simp)) (ordered_follow hways)).mpr ?_
    rcases List.mem_cons.mp hmem with rfl | hmem
    · exact .inl hends
    · exact .inr (ih hways hmem)

/-- What goes on behind some ways ends where the first of them that gets there ends. -/
theorem mem_follow_iff {next : α → List Token → Reading β} {ways : List (α × List Token)}
    {value : β} (h : ∀ first mid, (first, mid) ∈ ways → (next first mid).Ordered tokens) :
    (value, rest) ∈ (follow next ways).ways ↔
      ∃ front first mid back, ways = front ++ (first, mid) :: back ∧
        (value, rest) ∈ (next first mid).ways ∧
          ∀ way ∈ front, ¬ (next way.1 way.2).Ends rest := by
  induction ways with
  | nil =>
    refine iff_of_false (by simp [follow, Reading.none]) ?_
    rintro ⟨front, first, mid, back, heq, -⟩
    simp at heq
  | cons way ways ih =>
    have hways : ∀ first mid, (first, mid) ∈ ways → (next first mid).Ordered tokens :=
      fun first mid hmem => h first mid (List.mem_cons_of_mem way hmem)
    -- the first way goes on there, or it does not and a later one does
    rw [follow, mem_orElse (h _ _ List.mem_cons_self) (ordered_follow hways), ih hways]
    constructor
    · rintro (hway | ⟨⟨front, first, mid, back, rfl, hmem, hfront⟩, hends⟩)
      · exact ⟨[], way.1, way.2, ways, rfl, hway, nofun⟩
      · exact ⟨way :: front, first, mid, back, rfl, hmem, List.forall_mem_cons.mpr ⟨hends, hfront⟩⟩
    · rintro ⟨_ | ⟨other, front⟩, first, mid, back, heq, hmem, hfront⟩
      · obtain ⟨rfl, -⟩ := List.cons.inj heq
        exact .inl hmem
      · obtain ⟨rfl, rfl⟩ := List.cons.inj heq
        obtain ⟨hends, hfront⟩ := List.forall_mem_cons.mp hfront
        exact .inr ⟨⟨front, first, mid, back, rfl, hmem, hfront⟩, hends⟩

/-! ## Specifications -/

/-- The reading is in order, all its ways are sound, and it has a way to every
place where there has to be one. -/
structure Spec (reading : Reading α) (tokens : List Token) (Sound : α → List Token → Prop)
    (Complete : List Token → Prop) : Prop where
  ordered : reading.Ordered tokens
  sound : ∀ {value rest}, (value, rest) ∈ reading.ways → Sound value rest
  complete : ∀ {rest}, Complete rest → reading.Ends rest

/-- A specification can be said in other words. -/
theorem Spec.mono {reading : Reading α} {S S' : α → List Token → Prop}
    {C C' : List Token → Prop} (h : reading.Spec tokens S C)
    (hsound : ∀ value rest, rest <:+ tokens → S value rest → S' value rest)
    (hcomplete : ∀ rest, C' rest → C rest) : reading.Spec tokens S' C' :=
  ⟨h.ordered, fun hmem => hsound _ _ (h.ordered.suffix hmem) (h.sound hmem),
    fun hrest => h.complete (hcomplete _ hrest)⟩

/-- Only the ways count. -/
theorem Spec.of_ways {reading reading' : Reading α} {S : α → List Token → Prop}
    {C : List Token → Prop} (h : reading'.Spec tokens S C) (hways : reading.ways = reading'.ways) :
    reading.Spec tokens S C := by
  refine ⟨⟨hways ▸ h.ordered.sorted, fun hmem => ?_⟩, fun hmem => ?_, fun hrest => ?_⟩
  · exact h.ordered.suffix (hways ▸ hmem)
  · exact h.sound (hways ▸ hmem)
  · rcases h.complete hrest with ⟨value, hmem⟩
    exact ⟨value, hways ▸ hmem⟩

/-- A reading at a later place, seen from an earlier one. -/
theorem Spec.of_suffix {reading : Reading α} {S : α → List Token → Prop} {C : List Token → Prop}
    (h : reading.Spec rest S C) (hrest : rest <:+ tokens) : reading.Spec tokens S C :=
  ⟨⟨h.ordered.sorted, fun hmem => (h.ordered.suffix hmem).trans hrest⟩, h.sound, h.complete⟩

theorem spec_done (value : α) (tokens : List Token) :
    (done value tokens).Spec tokens (fun v rest => v = value ∧ rest = tokens)
      (fun rest => rest = tokens) where
  ordered := ⟨by simp [done, Sorted], by simp [done]⟩
  sound := by simp [done]
  complete := by
    intro rest heq
    subst heq
    exact ⟨value, by simp [done]⟩

/-- Alternatives together are sound and complete as each of them is. -/
theorem spec_orElse {first second : Reading α} {S S' : α → List Token → Prop}
    {C C' : List Token → Prop} (hf : first.Spec tokens S C) (hs : second.Spec tokens S' C') :
    (first.orElse second).Spec tokens (fun value rest => S value rest ∨ S' value rest)
      (fun rest => C rest ∨ C' rest) where
  ordered := ordered_orElse hf.ordered hs.ordered
  sound h := (mem_of_mem_merge h).imp (fun h => hf.sound h) (fun h => hs.sound h)
  complete h := (ends_orElse hf.ordered hs.ordered).mpr
    (h.imp (fun h => hf.complete h) (fun h => hs.complete h))

end Reading

namespace Rule

open Reading

variable {α β : Type} {tokens rest : List Token}

theorem spec_pure (value : α) (tokens : List Token) :
    ((pure value : Rule α) tokens).Spec tokens (fun v rest => v = value ∧ rest = tokens)
      (fun rest => rest = tokens) :=
  spec_done value tokens

/-- A terminal has one way or none. -/
theorem spec_terminal (t : Terminal) (tokens : List Token)
    (hsuffix : ∀ text rest, t.read? tokens = some (text, rest) → rest <:+ tokens) :
    (terminal t tokens).Spec tokens (fun text rest => t.read? tokens = some (text, rest))
      (fun rest => ∃ text, t.read? tokens = some (text, rest)) where
  ordered := by
    refine ⟨?_, fun h => ?_⟩
    · cases h : t.read? tokens <;> simp [terminal, h, Sorted]
    · exact hsuffix _ _ (by simpa [terminal] using h)
  sound h := by simpa [terminal] using h
  complete := by
    intro rest hread
    rcases hread with ⟨text, h⟩
    exact ⟨text, by simp [terminal, h]⟩

/-- What is read behind a rule is read behind one of its ways. -/
theorem exists_of_mem_bind {rule : Rule α} {next : α → Rule β} {value : β}
    (h : (value, rest) ∈ ((rule >>= next) tokens).ways) :
    ∃ first mid, (first, mid) ∈ (rule tokens).ways ∧ (value, rest) ∈ (next first mid).ways :=
  mem_of_mem_follow h

/-- A way behind a terminal is a way from where the terminal ends. -/
theorem exists_of_mem_terminal_bind {t : Terminal} {next : String → Rule β} {value : β}
    (h : (value, rest) ∈ ((terminal t >>= next) tokens).ways) :
    ∃ x mid, t.read? tokens = some (x, mid) ∧ (value, rest) ∈ (next x mid).ways := by
  obtain ⟨x, mid, hread, hnext⟩ := exists_of_mem_bind h
  exact ⟨x, mid, by simpa [terminal] using hread, hnext⟩

/-- A way of several alternatives is a way of one of them. -/
theorem exists_of_mem_firstOf {rules : List (Rule α)} {way : α × List Token}
    (h : way ∈ (firstOf rules tokens).ways) : ∃ rule ∈ rules, way ∈ (rule tokens).ways := by
  induction rules with
  | nil => cases h
  | cons rule rules ih =>
    rcases mem_of_mem_merge h with h | h
    · exact ⟨rule, List.mem_cons_self, h⟩
    · obtain ⟨other, hother, h⟩ := ih h
      exact ⟨other, List.mem_cons_of_mem _ hother, h⟩

/-- One reading behind another. Whichever way of the first is taken, the second
has to be able to go on. -/
theorem spec_andThen {first : Reading α} {next : α → List Token → Reading β}
    {S : α → List Token → Prop} {C : List Token → Prop}
    {S' : α → List Token → β → List Token → Prop} {C' : α → List Token → List Token → Prop}
    (hfirst : first.Spec tokens S C)
    (hnext : ∀ value mid, mid <:+ tokens → S value mid →
      (next value mid).Spec mid (S' value mid) (C' value mid)) :
    (first.andThen next).Spec tokens
      (fun v rest => ∃ value mid, mid <:+ tokens ∧ S value mid ∧ S' value mid v rest)
      (fun rest => ∃ mid, C mid ∧ ∀ value, S value mid → C' value mid rest) := by
  -- each way of the first reading is sound, so the second one goes on behind it
  have hspec : ∀ value mid, (value, mid) ∈ first.ways →
      (next value mid).Spec mid (S' value mid) (C' value mid) := fun value mid h =>
    hnext value mid (hfirst.ordered.suffix h) (hfirst.sound h)
  have hordered : ∀ value mid, (value, mid) ∈ first.ways →
      (next value mid).Ordered tokens := fun value mid h =>
    ⟨(hspec value mid h).ordered.sorted, fun hrest =>
      ((hspec value mid h).ordered.suffix hrest).trans (hfirst.ordered.suffix h)⟩
  have hfollow := ordered_follow hordered
  refine ⟨⟨hfollow.sorted, hfollow.suffix⟩, fun h => ?_, ?_⟩
  · rcases mem_of_mem_follow h with ⟨value, mid, hmem, h⟩
    exact ⟨value, mid, hfirst.ordered.suffix hmem, hfirst.sound hmem,
      (hspec value mid hmem).sound h⟩
  · intro rest hread
    rcases hread with ⟨mid, hmid, hrest⟩
    rcases hfirst.complete hmid with ⟨value, hmem⟩
    exact ends_follow hordered hmem
      ((hspec value mid hmem).complete (hrest value (hfirst.sound hmem)))

theorem ordered_firstOf {rules : List (Rule α)}
    (h : ∀ rule ∈ rules, (rule tokens).Ordered tokens) :
    (firstOf rules tokens).Ordered tokens := by
  induction rules with
  | nil => exact ordered_none
  | cons rule rules ih =>
    exact ordered_orElse (h rule (by simp)) (ih fun r hr => h r (by simp [hr]))

/-- A way of several alternatives belongs to the first one that ends there. -/
theorem mem_firstOf {rules : List (Rule α)} {value : α}
    (h : ∀ rule ∈ rules, (rule tokens).Ordered tokens)
    (hmem : (value, rest) ∈ (firstOf rules tokens).ways) :
    ∃ (j : Nat) (hj : j < rules.length), (value, rest) ∈ (rules[j] tokens).ways ∧
      ∀ (i : Nat) (hi : i < j), ¬ (rules[i] tokens).Ends rest := by
  induction rules with
  | nil => simp [firstOf, Reading.none] at hmem
  | cons rule rules ih =>
    have hrules : ∀ r ∈ rules, (r tokens).Ordered tokens := fun r hr => h r (by simp [hr])
    rcases (mem_orElse (h rule (by simp)) (ordered_firstOf hrules)).mp hmem with
      hmem | ⟨hmem, hends⟩
    · exact ⟨0, by simp, hmem, fun i hi => absurd hi (Nat.not_lt_zero i)⟩
    · rcases ih hrules hmem with ⟨j, hj, hmem, hfirst⟩
      refine ⟨j + 1, by simpa using hj, by simpa using hmem, fun i hi => ?_⟩
      cases i with
      | zero => simpa using hends
      | succ i => simpa using hfirst i (by omega)

/-- Several alternatives end wherever one of them does. -/
theorem ends_firstOf {rules : List (Rule α)} {j : Nat}
    (h : ∀ rule ∈ rules, (rule tokens).Ordered tokens) (hj : j < rules.length)
    (hends : (rules[j] tokens).Ends rest) : (firstOf rules tokens).Ends rest := by
  induction rules generalizing j with
  | nil => simp at hj
  | cons rule rules ih =>
    have hrules : ∀ r ∈ rules, (r tokens).Ordered tokens := fun r hr => h r (by simp [hr])
    refine (ends_orElse (h rule (by simp)) (ordered_firstOf hrules)).mpr ?_
    cases j with
    | zero => exact .inl hends
    | succ j => exact .inr (ih hrules (by simpa using hj) (by simpa using hends))

end Rule

end DocComment
