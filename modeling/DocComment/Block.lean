import DocComment.Tag

/-!
# Blocks

A block runs from `/**` to the next `*/`. Its lines lose their indentation and
one leading star. A line that begins with `@` opens a tag, and the lines up to
the next such line belong to it; the lines before the first tag are the
description of the block.
-/

namespace DocComment

open Text

/-- One documentation block. -/
structure Block where
  description : String := ""
  tags : List Tag := []
deriving DecidableEq

/-! ## Blocks of a text -/

mutual

/-- The bodies of the blocks of a text, in order. -/
def blockBodies : List Char → List (List Char)
  | '/' :: '*' :: '*' :: cs =>
    match openBody cs with
    | none => []
    | some (body, later) => body :: later
  | _ :: cs => blockBodies cs
  | [] => []

/-- The body of a block that has been opened, and the bodies of later blocks, if
the block is closed. -/
def openBody : List Char → Option (List Char × List (List Char))
  | '*' :: '/' :: cs => some ([], blockBodies cs)
  | c :: cs => (openBody cs).map fun found => (c :: found.1, found.2)
  | [] => none

end

/-! ## Lines of a block -/

/-- A line of a block without its decoration. -/
def undecorate (line : List Char) : List Char :=
  match trim line with
  | '*' :: cs => trim cs
  | cs => cs

def undecoratedLines (body : List Char) : List (List Char) :=
  (splitLines body).map undecorate

/-- The lines of the description, and those of each tag. -/
def sections : List (List Char) → List (List Char) × List TagLines
  | [] => ([], [])
  | line :: lines =>
    let (head, tags) := sections lines
    if ['@'].isPrefixOf line then ([], ⟨line, head⟩ :: tags) else (line :: head, tags)

/-! ## Reading blocks -/

namespace Block

def tagsOf : List TagLines → Logged (List Tag)
  | [] => pure []
  | lines :: rest => do
    let tag ← readTag lines
    let tags ← tagsOf rest
    return tag :: tags

def ofBody (body : List Char) : Logged Block := do
  let (head, groups) := sections (undecoratedLines body)
  let tags ← tagsOf groups
  return { description := String.ofList (trim (joinLines head)), tags }

def ofBodies : List (List Char) → Logged (List Block)
  | [] => pure []
  | body :: bodies => do
    let block ← ofBody body
    let blocks ← ofBodies bodies
    return block :: blocks

/-- The blocks of a text. -/
def allIn (text : String) : Logged (List Block) :=
  ofBodies (blockBodies text.toList)

/-- The tags of the first block of a text. -/
def firstTagsIn (text : String) : Logged (List Tag) := do
  let blocks ← allIn text
  return (blocks.head?.map (·.tags)).getD []

end Block

end DocComment
