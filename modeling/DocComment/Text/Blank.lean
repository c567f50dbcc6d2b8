/-!
# Blank characters

The blank characters separate words and are trimmed from both ends of every
field. Besides the ASCII ones they are the next-line control, the space
separators and the two separators of lines and paragraphs.
-/

namespace DocComment.Text

/-- Whether a character is blank. -/
def isBlank (c : Char) : Bool :=
  let n := c.toNat
  (0x09 ≤ n && n ≤ 0x0d) || (0x1c ≤ n && n ≤ 0x20) || n == 0x85 || n == 0xa0 || n == 0x1680 ||
    (0x2000 ≤ n && n ≤ 0x200a) || n == 0x2028 || n == 0x2029 || n == 0x202f || n == 0x205f ||
    n == 0x3000

/-! ## Trimming -/

def trimStart (cs : List Char) : List Char :=
  cs.dropWhile isBlank

def trimEnd : List Char → List Char
  | [] => []
  | c :: cs =>
    match trimEnd cs with
    | [] => if isBlank c then [] else [c]
    | d :: ds => c :: d :: ds

/-- The text without blanks at either end. -/
def trim (cs : List Char) : List Char :=
  trimEnd (trimStart cs)

@[simp] theorem trim_nil : trim [] = [] := rfl

/-- The leading characters up to the first blank, and what follows them. -/
def firstWord (cs : List Char) : List Char × List Char :=
  (cs.takeWhile (!isBlank ·), cs.dropWhile (!isBlank ·))

def isAllBlank (cs : List Char) : Bool :=
  cs.all isBlank

/-! ## Removing a marker -/

/-- The text behind a leading marker; the text itself if the marker is not
there. -/
def dropMarker (marker cs : List Char) : List Char :=
  if marker.isPrefixOf cs then cs.drop marker.length else cs

/-- The text before one trailing character; the text itself if it ends
otherwise. -/
def dropFinal (final : Char) : List Char → List Char
  | [] => []
  | [c] => if c = final then [] else [c]
  | c :: d :: cs => c :: dropFinal final (d :: cs)

end DocComment.Text
