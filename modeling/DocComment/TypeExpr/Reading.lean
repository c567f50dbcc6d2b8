import DocComment.TypeExpr.Terminal

/-!
# Readings

An ambiguous grammar can read the same tokens in several ways. A reading of a
rule at one place lists its ways: what was read, and which tokens are left. It
also records how far any attempt got, failed attempts included, since that is
where a rejected text is blamed.

Ways that end at the same place compete, and only the first of them is kept. So
the order in which alternatives are combined is their order of preference, and a
reading has at most one way for each place; the longest way comes first.
-/

namespace DocComment

/-- The furthest place where terminals were tried, as the number of tokens left
there, and the terminals tried. -/
structure Reach where
  left : Nat
  tried : List Terminal

namespace Reach

/-- The further one of two; at the same place both sets of terminals count. -/
def further (a b : Reach) : Reach :=
  if a.left < b.left then a
  else if b.left < a.left then b
  else ⟨a.left, a.tried ++ b.tried.filter (!a.tried.contains ·)⟩

/-- The further one of two, where there may be none. -/
def join : Option Reach → Option Reach → Option Reach
  | none, b => b
  | a, none => a
  | some a, some b => some (a.further b)

end Reach

/-- The ways to read something at one place, and how far they were tried. -/
structure Reading (α : Type) where
  ways : List (α × List Token)
  reach : Option Reach

namespace Reading

variable {α β : Type}

/-! ## Competing ways -/

/-- A preferred way put into the ways of another alternative. The ways that are
longer than it stay in front of it, and one that ends where it ends is dropped.
The other preferred ways are all shorter; `mergeRest` puts them into what is
left. -/
def mergeWay (way : α × List Token) (mergeRest : List (α × List Token) → List (α × List Token)) :
    List (α × List Token) → List (α × List Token)
  | [] => way :: mergeRest []
  | other :: others =>
    if other.2.length < way.2.length then other :: mergeWay way mergeRest others
    else if other.2.length = way.2.length then way :: mergeRest others
    else way :: mergeRest (other :: others)

/-- The ways of two alternatives; of two ways that end at the same place the one
of the first alternative is kept. -/
def merge : List (α × List Token) → List (α × List Token) → List (α × List Token)
  | [], others => others
  | way :: ways, others => mergeWay way (merge ways) others

/-! ## Combining readings -/

def none : Reading α := ⟨[], .none⟩

/-- The one way that takes no token. -/
def done (value : α) (tokens : List Token) : Reading α := ⟨[(value, tokens)], .none⟩

/-- Terminals that were tried in vain. -/
def tried (terminals : List Terminal) (tokens : List Token) : Reading α :=
  ⟨[], some ⟨tokens.length, terminals⟩⟩

/-- The ways of two readings at the same place, the preferred ones first. -/
def orElse (first second : Reading α) : Reading α :=
  ⟨merge first.ways second.ways, Reach.join first.reach second.reach⟩

/-- The ways to go on behind some ways. The longer of them are preferred. -/
def follow (next : α → List Token → Reading β) : List (α × List Token) → Reading β
  | [] => none
  | (value, rest) :: ways => orElse (next value rest) (follow next ways)

/-- One reading and then another one behind each of its ways. -/
def andThen (reading : Reading α) (next : α → List Token → Reading β) : Reading β :=
  let following := follow next reading.ways
  ⟨following.ways, Reach.join reading.reach following.reach⟩

/-- The places where the ways end, as numbers of tokens left. -/
def ends (reading : Reading α) : List Nat :=
  reading.ways.map fun way => way.2.length

end Reading

/-! ## Rules -/

/-- A rule of the grammar gives a reading at every place. -/
def Rule (α : Type) : Type :=
  List Token → Reading α

namespace Rule

instance : Monad Rule where
  pure value := Reading.done value
  bind rule next := fun tokens => (rule tokens).andThen next

def terminal (t : Terminal) : Rule String := fun tokens =>
  ⟨(t.read? tokens).toList, some ⟨tokens.length, [t]⟩⟩

/-- The alternatives of a rule, the preferred ones first. -/
def firstOf {α : Type} : List (Rule α) → Rule α
  | [] => fun _ => Reading.none
  | rule :: rules => fun tokens => (rule tokens).orElse (firstOf rules tokens)

end Rule

end DocComment
