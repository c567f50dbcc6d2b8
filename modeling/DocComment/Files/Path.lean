import DocComment.Text.Lines

/-!
# Paths

A path is a root and a list of names. Empty names and single dots are dropped
when a path is read; double dots stay, because what they lead to depends on the
files. Two slashes at the start are a root of their own, three or more are one.
-/

namespace DocComment

open Text

/-- A path to a file or a directory. -/
structure Path where
  /-- Nothing for a relative path, otherwise one slash or two. -/
  root : String
  names : List String
deriving DecidableEq

namespace Path

/-- The root at the start of a path. -/
def rootOf : List Char → String
  | '/' :: '/' :: '/' :: _ => "/"
  | '/' :: '/' :: _ => "//"
  | '/' :: _ => "/"
  | _ => ""

/-- The path that a text writes. -/
def ofString (s : String) : Path :=
  { root := rootOf s.toList
    names := ((splitAt '/' s.toList).map String.ofList).filter fun name =>
      name != "" && name != "." }

/-- The text of a path; a path without names is the directory itself. -/
def text (path : Path) : String :=
  if path.names.isEmpty && path.root.isEmpty then "."
  else path.root ++ "/".intercalate path.names

/-- The directory that holds what the path leads to. -/
def parent (path : Path) : Path :=
  { path with names := path.names.dropLast }

end Path

end DocComment
