import DocComment.Command.Options
import DocComment.Files.Tree
import DocComment.Json
import DocComment.Record
import DocComment.Table

/-!
# Running the command

A run reads its options, then the comment, makes the record, and delivers it to
the screen or to a file. Each stage can end the run; a run that ends early shows
and writes nothing but a complaint.

Runs share the files, the console, and the threshold for notices: `--verbose`
lowers it for all runs that follow.
-/

namespace DocComment

open Text

/-- How a run ends before its result is delivered. -/
inductive Failure where
  /-- It is reported: by a notice and by a complaint. -/
  | reported (notice : Notice) (complaint : String)
  /-- A path cannot even be looked up. -/
  | badPath (fault : FileFault)
  /-- A path holds a null character. -/
  | nullInPath

/-- Where a result goes. -/
inductive Delivery where
  | screen (text : List Char)
  | file (path : String) (text : List Char)

namespace Command

/-! ## Stages -/

def refused (arguments : List String) : Failure :=
  .reported (.refusedArguments arguments) ""

def missing (path : Path) : Failure :=
  .reported (.missingInput path.text) ("Path does not exist: " ++ path.text ++ "\n")

def unreadable (path : Path) (cause : String) : Failure :=
  .reported (.unreadableInput path.text cause) ("Failed to read input: " ++ path.text ++ "\n")

def malformed (fault : SyntaxFault) : Failure :=
  .reported (.malformedType fault.expression)
    ("Malformed type expression: " ++ fault.expression ++ "\n")

def unwritable (path cause : String) : Failure :=
  .reported (.unwritableOutput path cause) ("Failed to write JSON output file: " ++ path ++ "\n")

/-- The comment that an input file holds: its bytes as text with line feeds for
all newlines. -/
def commentOfBytes (path : Path) (bytes : List UInt8) : Except Failure String :=
  match decodeUtf8 bytes with
  | .ok cs => .ok (String.ofList (unifyNewlines cs))
  | .error fault => .error (unreadable path fault.message)

/-- Where a comment comes from. An empty path stands for the standard input. -/
inductive Source where
  | given (comment : String)
  | file (path : String)
  | standardInput

def sourceOf (options : Options) : Source :=
  match options.text, Tag.filled options.input with
  | some comment, _ => .given comment
  | none, some path => .file path
  | none, none => .standardInput

/-- What the options do with a record. An empty path stands for the screen, where
emoji codes are replaced. -/
def deliveryOf (console : Console) (options : Options) (record : Record) : Delivery :=
  match options.format, Tag.filled options.output with
  | .table, _ => .screen (record.tableChars console)
  | .json, none => .screen (replaceEmoji console.emoji record.jsonChars ++ ['\n'])
  | .json, some path => .file path record.jsonChars

/-- The delivery of the record of a comment. -/
def interpret (console : Console) (options : Options) (comment : String) :
    Checked Failure Delivery := do
  let record ← (Record.ofComment comment).adapt malformed
  Logged.note (.commentRead record.params.length record.returns.isSome)
  return deliveryOf console options record

/-! ## Stages on files -/

def readComment (files : FileTree) (path : Path) : Except Failure String :=
  -- no file has such a name
  if path.text.contains '\x00' then .error (missing path)
  else match files.exists? path with
    | .error fault => .error (.badPath fault)
    | .ok false => .error (missing path)
    | .ok true =>
      match files.read path with
      | .error fault => .error (unreadable path fault.message)
      | .ok bytes => commentOfBytes path bytes

def comment (files : FileTree) (stdin : String) : Source → Except Failure String
  | .given comment => .ok comment
  | .file path => readComment files (Path.ofString path)
  | .standardInput => .ok stdin

/-- What the screen shows after a delivery, and the files. -/
def deliver (files : FileTree) : Delivery → Except Failure (List Char) × FileTree
  | .screen text => (.ok text, files)
  | .file path text =>
    if path.contains '\x00' then (.error .nullInPath, files)
    else
      let (outcome, files) :=
        (FileChange.writeDeep (Path.ofString path) (encodeUtf8 text)).apply files
      match outcome with
      | .ok () => (.ok [], files)
      | .error fault => (.error (unwritable path fault.message), files)

/-! ## Runs -/

/-- What runs share. -/
structure Session extends Console where
  files : FileTree
  threshold : Level := .warning

structure Reply where
  code : Nat
  output : String
  complaint : String
  notices : List Notice

/-- The code of a run that delivered its result. -/
def successCode : Nat := 0

/-- The code of a run that ended early. -/
def failureCode : Nat := 2

/-- The notices of a list that pass a threshold. -/
def shown (threshold : Level) (notices : List Notice) : List Notice :=
  notices.filter (·.level.passes threshold)

/-- The stages behind the options: what the screen shows, and the files. -/
def carryOut (session : Session) (stdin : String) (options : Options) :
    Logged (Except Failure (List Char) × FileTree) := do
  match comment session.files stdin (sourceOf options) with
  | .error failure => return (.error failure, session.files)
  | .ok comment =>
    match ← (interpret session.toConsole options comment).run with
    | .error failure => return (.error failure, session.files)
    | .ok delivery => return deliver session.files delivery

/-- The threshold behind the options. -/
def thresholdOf (options : Options) (threshold : Level) : Level :=
  if options.verbose then .debug else threshold

/-- The reply to a run that ended early, after some notices. -/
def complain (threshold : Level) (notices : List Notice) : Failure → Except Failure Reply
  | .reported notice complaint =>
    .ok
      { code := failureCode, output := "", complaint
        notices := shown threshold (notices ++ [notice]) }
  | crash => .error crash

/-- One run: its reply and what the next run starts with. Only a path that cannot
be looked up leaves a run without a reply. -/
def run (session : Session) (arguments : List String) (stdin : String) :
    Except Failure (Reply × Session) :=
  match Options.parse arguments with
  | none => do
    let reply ← complain session.threshold [] (refused arguments)
    return (reply, session)
  | some options =>
    let threshold := thresholdOf options session.threshold
    -- the threshold is lowered even if the run ends early
    let outcome := carryOut session stdin options
    let session := { session with files := outcome.value.2, threshold }
    match outcome.value.1 with
    | .error failure => do
      let reply ← complain threshold outcome.notices failure
      return (reply, session)
    | .ok output =>
      let reply : Reply :=
        { code := successCode, output := String.ofList output, complaint := ""
          notices := shown threshold outcome.notices }
      .ok (reply, session)

end Command

end DocComment
