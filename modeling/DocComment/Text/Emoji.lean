import DocComment.Text.Blank

/-!
# Emoji codes

An emoji code is a name between two colons, without blanks. A known code is
shown as its emoji, and `-emoji` or `-text` behind the name picks one of the two
presentations. Unknown codes stay as they are, and a colon that has been read as
the end of a code begins no other one.
-/

namespace DocComment.Text

/-- The emoji that a console knows by name. -/
structure EmojiTable where
  /-- The emoji of a name, as the name is written. -/
  find? : List Char → Option (List Char)
  /-- No emoji is plain ASCII. -/
  foreign {name emoji : List Char} : find? name = some emoji → ∃ c ∈ emoji, 0x7f < c.toNat

/-- A console that knows one emoji. Case does not matter. -/
def EmojiTable.smile : EmojiTable where
  find? name := if name.map Char.toLower = "smile".toList then some ['😄'] else none
  foreign h := by
    split at h
    · exact Option.some.inj h ▸ ⟨'😄', List.mem_cons_self, by decide⟩
    · cases h

variable (table : EmojiTable)

/-- A name without one of the two endings that pick a presentation, and the
variation selector of that presentation. -/
def emojiVariant (code : List Char) : List Char × List Char :=
  if "-emoji".toList.isSuffixOf code then (code.take (code.length - 6), ['\ufe0f'])
  else if "-text".toList.isSuffixOf code then (code.take (code.length - 5), ['\ufe0e'])
  else (code, [])

/-- The emoji of a code, given without its colons. -/
def emojiOf? (code : List Char) : Option (List Char) :=
  let (name, selector) := emojiVariant code
  (table.find? name).map (· ++ selector)

/-- The code behind an opening colon, if it is closed. -/
def emojiCode? (cs : List Char) : Option (List Char) :=
  let code := cs.takeWhile fun c => !isBlank c && c != ':'
  if [':'].isPrefixOf (cs.drop code.length) then some code else none

/-- The text with its emoji codes replaced, of which the first `skip` characters
belong to a code that has been dealt with. -/
def replaceEmojiFrom : Nat → List Char → List Char
  | _, [] => []
  | skip + 1, _ :: cs => replaceEmojiFrom skip cs
  | 0, c :: cs =>
    match if c = ':' then emojiCode? cs else none with
    | none => c :: replaceEmojiFrom 0 cs
    | some code =>
      (emojiOf? table code).getD (':' :: code ++ [':']) ++ replaceEmojiFrom (code.length + 1) cs

def replaceEmoji (cs : List Char) : List Char :=
  replaceEmojiFrom table 0 cs

end DocComment.Text
