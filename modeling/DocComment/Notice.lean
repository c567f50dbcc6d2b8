import DocComment.Kind
import DocComment.TypeExpr.Parse

/-!
# Notices

While a comment is read, things worth knowing are noted down: tags that were
kept without their type, type forms that carry no information, rejected type
expressions. A notice has a level, the area that it comes from, and a text.

A computation that makes notices returns them beside its result (`Logged`), so
that they survive a failure.
-/

namespace DocComment

open Text

/-- How much a notice matters. -/
inductive Level where
  | debug
  | info
  | warning
deriving DecidableEq

/-- Whether notices of a level are shown when the threshold is another one. -/
def Level.passes : Level → Level → Bool
  | _, .debug => true
  | .debug, .info => false
  | _, .info => true
  | .warning, .warning => true
  | _, .warning => false

/-- The part of the library that makes a notice. -/
inductive Area where
  | typeSyntax
  | tags
  | shapes
  | records
  | command
deriving DecidableEq

/-- Something worth knowing about a run. -/
inductive Notice where
  /-- A text is not a type expression. -/
  | rejectedType (fault : SyntaxFault)
  /-- The braces of a tag's type are never closed. -/
  | openBraces (keyword source : String)
  /-- A type form carries no information. -/
  | noShape (kind : Kind)
  /-- A comment has several return tags. -/
  | extraReturns (count : Nat)
  /-- A command line is refused. -/
  | refusedArguments (arguments : List String)
  /-- An input file does not exist. -/
  | missingInput (path : String)
  /-- An input file cannot be read. -/
  | unreadableInput (path cause : String)
  /-- A comment holds a malformed type expression. -/
  | malformedType (expression : String)
  /-- A comment was read. -/
  | commentRead (params : Nat) (returns : Bool)
  /-- An output file cannot be written. -/
  | unwritableOutput (path cause : String)
deriving DecidableEq

namespace Notice

def level : Notice → Level
  | rejectedType .. | noShape .. | extraReturns .. => .debug
  | commentRead .. => .info
  | _ => .warning

/-- Where the notice comes from. -/
def area : Notice → Area
  | rejectedType .. => .typeSyntax
  | openBraces .. => .tags
  | noShape .. => .shapes
  | extraReturns .. => .records
  | _ => .command

/-- A truth value as a capitalised word. -/
def yesNo : Bool → String
  | true => "True"
  | false => "False"

def message : Notice → String
  | rejectedType fault =>
    "Type expression rejected (expression=" ++ quoted fault.expression ++ " error=" ++
      fault.reason ++ ")"
  | openBraces keyword source =>
    "Unterminated type braces; keeping tag without a type (tag=" ++ keyword ++ " source=" ++
      quoted source ++ ")"
  | noShape kind => "Unsupported type node; no type information (kind=" ++ kind.label ++ ")"
  | extraReturns count =>
    "Multiple return tags; using the first (count=" ++ toString count ++ ")"
  | refusedArguments arguments =>
    "Argument parsing failed (argv=" ++ quotedList arguments ++ ")"
  | missingInput path => "Path does not exist (path=" ++ path ++ ")"
  | unreadableInput path cause =>
    "Failed to read input (path=" ++ path ++ " error=" ++ cause ++ ")"
  | malformedType expression =>
    "Malformed type expression (expression=" ++ quoted expression ++ ")"
  | commentRead params returns =>
    "Comment normalized (params=" ++ toString params ++ " returns=" ++ yesNo returns ++ ")"
  | unwritableOutput path cause =>
    "Failed to write JSON output file (output_path=" ++ path ++ " error=" ++ cause ++ ")"

end Notice

/-! ## Computations with notices -/

/-- A result and the notices made on the way to it, in order. -/
structure Logged (α : Type) where
  notices : List Notice
  value : α

namespace Logged

instance : Monad Logged where
  pure value := ⟨[], value⟩
  bind logged next :=
    let later := next logged.value
    ⟨logged.notices ++ later.notices, later.value⟩

def note (notice : Notice) : Logged Unit := ⟨[notice], ()⟩

@[simp] theorem notices_pure {α : Type} (a : α) : (pure a : Logged α).notices = [] := rfl

@[simp] theorem value_pure {α : Type} (a : α) : (pure a : Logged α).value = a := rfl

@[simp] theorem notices_bind {α β : Type} (x : Logged α) (f : α → Logged β) :
    (x >>= f).notices = x.notices ++ (f x.value).notices := rfl

@[simp] theorem value_bind {α β : Type} (x : Logged α) (f : α → Logged β) :
    (x >>= f).value = (f x.value).value := rfl

/-- A result without notices is a pure one. -/
theorem eq_pure_iff {α : Type} {x : Logged α} {a : α} :
    x = pure a ↔ x.notices = [] ∧ x.value = a := by
  constructor
  · rintro rfl
    exact ⟨rfl, rfl⟩
  · obtain ⟨notices, value⟩ := x
    rintro ⟨rfl, rfl⟩
    rfl

end Logged

/-- A computation that makes notices and may end in a fault. The notices made
before the fault are kept. -/
abbrev Checked (ε α : Type) : Type :=
  ExceptT ε Logged α

namespace Checked

variable {ε α : Type}

def notices (checked : Checked ε α) : List Notice :=
  (checked.run).notices

def result (checked : Checked ε α) : Except ε α :=
  (checked.run).value

@[simp] theorem result_pure (a : α) : (pure a : Checked ε α).result = .ok a := rfl

/-- A computation goes on if the one before it did not end in a fault. -/
@[simp] theorem result_bind {β : Type} (x : Checked ε α) (f : α → Checked ε β) :
    (x >>= f).result = x.result.bind fun a => (f a).result := by
  obtain ⟨notices, value⟩ := x
  cases value with
  | ok a => rfl
  | error fault => rfl

end Checked

end DocComment
