import DocComment.Files.Path
import DocComment.Text.Quoted
import DocComment.Text.Utf8

/-!
# Files

A tree of directories and files, one of whose directories is the working
directory. Paths are followed name by name: a double dot leads to the directory
above, and only directories can be passed through. Directories and files are
found by their location, the names from the root of the tree on.

The tree holds plain directories and plain files only, and whoever follows a path
may read and write all of them. It knows of no permissions, links, special files
or limits of space; nothing else changes it meanwhile, and a write that has begun
always completes. What is proved of operations that fail is about the causes
below and no others.
-/

namespace DocComment

open Text

/-- What can stand at a location. -/
inductive Entry where
  | directory
  | file (bytes : List UInt8)
deriving DecidableEq

inductive FileCause where
  | notFound
  | fileExists
  | notDirectory
  | isDirectory
  | nameTooLong
deriving DecidableEq

/-- A failed operation and the path that it was tried on. -/
structure FileFault where
  cause : FileCause
  path : String
deriving DecidableEq

def FileCause.message : FileCause → String
  | notFound => "[Errno 2] No such file or directory"
  | fileExists => "[Errno 17] File exists"
  | notDirectory => "[Errno 20] Not a directory"
  | isDirectory => "[Errno 21] Is a directory"
  | nameTooLong => "[Errno 36] File name too long"

def FileFault.message (fault : FileFault) : String :=
  fault.cause.message ++ ": " ++ quoted fault.path

/-- Directories and files. -/
structure FileTree where
  /-- The location of the working directory. -/
  here : List String
  entries : List (List String × Entry)

namespace FileTree

/-- What stands at a location. The root is always a directory. -/
def entry? (tree : FileTree) (location : List String) : Option Entry :=
  if location.isEmpty then some .directory else tree.entries.lookup location

/-- The tree with another entry at a location. -/
def put (tree : FileTree) (location : List String) (entry : Entry) : FileTree :=
  { tree with entries := (location, entry) :: tree.entries.filter (·.1 != location) }

/-! ## Following paths -/

/-- Where a path leads. -/
inductive Place where
  | directory (location : List String)
  | file (location : List String) (bytes : List UInt8)
  /-- Nothing is there, in a directory that is. -/
  | vacant (location : List String)

/-- The longest name, in bytes. -/
def maxName : Nat := 255

/-- The longest path, in bytes. -/
def maxPath : Nat := 4095

def byteLength (s : String) : Nat :=
  (encodeUtf8 s.toList).length

/-- Where some names lead, from a directory on. -/
def walk (tree : FileTree) (directory : List String) : List String → Except FileCause Place
  | [] => .ok (.directory directory)
  | name :: names =>
    let location := if name = ".." then directory.dropLast else directory ++ [name]
    if maxName < byteLength name then .error .nameTooLong
    else match tree.entry? location with
      | some .directory => walk tree location names
      | some (.file bytes) =>
        if names.isEmpty then .ok (.file location bytes) else .error .notDirectory
      | none => if names.isEmpty then .ok (.vacant location) else .error .notFound

def follow (tree : FileTree) (path : Path) : Except FileCause Place :=
  if maxPath < byteLength path.text then .error .nameTooLong
  else tree.walk (if path.root.isEmpty then tree.here else []) path.names

def isDirectory (tree : FileTree) (path : Path) : Bool :=
  match tree.follow path with
  | .ok (.directory _) => true
  | _ => false

/-! ## Operations -/

/-- Whether a path leads to something. A path that is too long to be followed is
a fault, not an answer. -/
def exists? (tree : FileTree) (path : Path) : Except FileFault Bool :=
  match tree.follow path with
  | .ok (.vacant _) => .ok false
  | .ok _ => .ok true
  | .error .nameTooLong => .error ⟨.nameTooLong, path.text⟩
  | .error _ => .ok false

def read (tree : FileTree) (path : Path) : Except FileFault (List UInt8) :=
  match tree.follow path with
  | .ok (.file _ bytes) => .ok bytes
  | .ok (.directory _) => .error ⟨.isDirectory, path.text⟩
  | .ok (.vacant _) => .error ⟨.notFound, path.text⟩
  | .error cause => .error ⟨cause, path.text⟩

end FileTree

/-- A change of the files. What has been changed before a fault stays changed. -/
abbrev FileChange : Type :=
  ExceptT FileFault (StateM FileTree) Unit

namespace FileChange

open FileTree

/-- The files after a change, and the fault that ended it. -/
def apply (change : FileChange) (tree : FileTree) : Except FileFault Unit × FileTree :=
  (ExceptT.run change).run tree

def write (path : Path) (bytes : List UInt8) : FileChange := do
  match (← get).follow path with
  | .ok (.file location _) | .ok (.vacant location) => modify (·.put location (.file bytes))
  | .ok (.directory _) => throw ⟨.isDirectory, path.text⟩
  | .error cause => throw ⟨cause, path.text⟩

def makeDirectory (path : Path) : FileChange := do
  match (← get).follow path with
  | .ok (.vacant location) => modify (·.put location .directory)
  | .ok _ => throw ⟨.fileExists, path.text⟩
  | .error cause => throw ⟨cause, path.text⟩

/-- A directory is made unless it is there. -/
def ensureDirectory (path : Path) : FileChange := do
  if !(← get).isDirectory path then makeDirectory path

/-- A directory is made unless it is there, and before it every directory on the
way to it. The names of its path are given last one first. -/
def ensureDirectories (root : String) : List String → FileChange
  | [] => ensureDirectory ⟨root, []⟩
  | name :: names => do
    let path : Path := ⟨root, (name :: names).reverse⟩
    match (← get).follow path with
    | .error .notFound =>
      ensureDirectories root names
      ensureDirectory path
    | _ => ensureDirectory path

/-- A file gets the given bytes, and the directories on the way to it are made. -/
def writeDeep (path : Path) (bytes : List UInt8) : FileChange := do
  ensureDirectories path.root path.parent.names.reverse
  write path bytes

end FileChange

namespace FileTree

/-! ## The working directory -/

/-- A tree with an empty working directory. -/
def fresh : FileTree :=
  { here := ["tmp", "work"]
    entries := [(["tmp"], .directory), (["tmp", "work"], .directory)] }

/-- The files below the working directory, with their paths from there. -/
def files (tree : FileTree) : List (String × List UInt8) :=
  tree.entries.filterMap fun
    | (location, .file bytes) =>
      if tree.here.isPrefixOf location then
        some ("/".intercalate (location.drop tree.here.length), bytes)
      else none
    | (_, .directory) => none

/-- The files below the working directory whose content is not the one that an
earlier tree has for them. -/
def changedFiles (tree earlier : FileTree) : List (String × List UInt8) :=
  tree.files.filter fun file => earlier.files.lookup file.1 != some file.2

end FileTree

end DocComment
