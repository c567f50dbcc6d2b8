import DocComment.Command.Run

/-!
# The program

The command on the files and streams of the machine. Everything that is decided
is decided by the stages of `DocComment.Command`; here bytes are moved.
-/

namespace DocComment.Program

open Command

/-- Everything that is left on a stream. -/
partial def readAll (stream : IO.FS.Stream) (front : ByteArray) : IO ByteArray := do
  let bytes ← stream.read 65536
  if bytes.isEmpty then return front else readAll stream (front ++ bytes)

def readFile (path : Path) : IO (Except Failure String) := do
  try
    let bytes ← IO.FS.readBinFile path.text
    return commentOfBytes path bytes.toList
  catch error =>
    match error with
    | .noFileOrDirectory .. => return .error (missing path)
    | _ => return .error (unreadable path (toString error))

def readSource : Source → IO (Except Failure String)
  | .given comment => return .ok comment
  | .file path => readFile (Path.ofString path)
  | .standardInput => do
    let bytes ← readAll (← IO.getStdin) .empty
    return commentOfBytes (Path.ofString "-") bytes.toList

/-- A result is brought to where it goes. -/
def bring : Delivery → IO (Except Failure Unit)
  | .screen text => do
    IO.print (String.ofList text)
    return .ok ()
  | .file path text => do
    try
      IO.FS.createDirAll (Path.ofString path).parent.text
      IO.FS.writeFile path (String.ofList text)
      return .ok ()
    catch error => return .error (unwritable path (toString error))

/-- The stages behind the options, and their notices. -/
def perform (options : Options) : IO (Logged (Except Failure Unit)) := do
  match ← readSource (sourceOf options) with
  | .error failure => return ⟨[], .error failure⟩
  | .ok comment =>
    let outcome := (interpret {} options comment).run
    match outcome.value with
    | .error failure => return ⟨outcome.notices, .error failure⟩
    | .ok delivery => return ⟨outcome.notices, ← bring delivery⟩

/-- Notices that pass a threshold are shown on the error stream. -/
def report (threshold : Level) (notices : List Notice) : IO Unit :=
  (shown threshold notices).forM fun notice => IO.eprintln notice.message

/-- The code of an ended run, after its complaint. -/
def finish (threshold : Level) : Except Failure Unit → IO UInt32
  | .ok () => return successCode.toUInt32
  | .error (.reported notice complaint) => do
    report threshold [notice]
    IO.eprint complaint
    return failureCode.toUInt32
  | .error _ => return failureCode.toUInt32

end DocComment.Program

open DocComment in
def main (arguments : List String) : IO UInt32 := do
  match Options.parse arguments with
  | none => Program.finish .info (.error (Command.refused arguments))
  | some options =>
    let threshold := Command.thresholdOf options .info
    let outcome ← Program.perform options
    Program.report threshold outcome.notices
    Program.finish threshold outcome.value
