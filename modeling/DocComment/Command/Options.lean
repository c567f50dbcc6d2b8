import DocComment.Text.Classes

/-!
# Command line options

The one command is `parse`. Its input comes from `--text`, from a file named by
`--input`, or from the standard input; `--format`, `--output` and `--verbose`
say what to do with the record. An option may be shortened as long as no other
one begins the same way, and its value is either the next word or stands behind
an equals sign. Of a repeated option the last value counts.

A word that begins with a hyphen is a value only if it cannot be an option: a
hyphen alone, a negative number, or a word with a space in it.
-/

namespace DocComment

open Text

inductive Format where
  | table
  | json
deriving DecidableEq

/-- What a command line asks for. -/
structure Options where
  input : Option String := none
  text : Option String := none
  format : Format := .table
  output : Option String := none
  verbose : Bool := false
deriving DecidableEq

/-- The options of the command. -/
inductive OptionName where
  | help
  | input
  | text
  | format
  | output
  | verbose
deriving DecidableEq

namespace OptionName

def all : List OptionName := [help, input, text, format, output, verbose]

def spelling : OptionName → String
  | help => "--help"
  | input => "--input"
  | text => "--text"
  | format => "--format"
  | output => "--output"
  | verbose => "--verbose"

end OptionName

/-! ## Words -/

/-- What a word of a command line is. -/
inductive ArgumentWord where
  | value
  /-- An option and the value that stands behind its equals sign. -/
  | option (name : OptionName) (attached : Option String)
  /-- An option that does not exist or could be several ones. -/
  | unknown
deriving DecidableEq

namespace ArgumentWord

/-- A decimal number without a sign: digits, or a point with digits behind it and
perhaps before it. -/
def isDecimal (cs : List Char) : Bool :=
  match cs.dropWhile isDecimalDigit with
  | [] => !cs.isEmpty
  | '.' :: part => !part.isEmpty && part.all isDecimalDigit
  | _ => false

/-- A negative number; a line feed may follow it. -/
def isNegative (cs : List Char) : Bool :=
  match cs with
  | '-' :: number =>
    isDecimal number || (number.getLast? == some '\n' && isDecimal number.dropLast)
  | _ => false

/-- The part of a word before its first equals sign, and the part behind it. -/
def splitAttached (cs : List Char) : List Char × Option String :=
  match cs.dropWhile (· != '=') with
  | [] => (cs, none)
  | _ :: behind => (cs.takeWhile (· != '='), some (String.ofList behind))

/-- The options that a word before an equals sign may stand for: the one that it
spells in full, or else all that it begins. -/
def candidates (written : List Char) : List OptionName :=
  match OptionName.all.find? (·.spelling.toList == written) with
  | some name => [name]
  | none => OptionName.all.filter (written.isPrefixOf ·.spelling.toList)

/-- What a word is that begins with a hyphen and is no option. -/
def other (cs : List Char) : ArgumentWord :=
  if isNegative cs || cs.contains ' ' then value else unknown

def read (word : String) : ArgumentWord :=
  match word.toList with
  | '-' :: '-' :: cs =>
    let (written, attached) := splitAttached ('-' :: '-' :: cs)
    if cs.isEmpty then unknown
    else match candidates written with
      | [] => other ('-' :: '-' :: cs)
      | [name] => option name attached
      | _ => unknown
  -- the only short option; what follows the letter does not matter
  | '-' :: 'h' :: _ => option .help none
  | ['-'] => value
  | '-' :: cs => other ('-' :: cs)
  | _ => value

end ArgumentWord

/-! ## Command lines -/

namespace Options

/-- The options with a value for one of them. -/
def set (options : Options) : OptionName → String → Option Options
  | .input, value => some { options with input := some value }
  | .text, value => some { options with text := some value }
  | .output, value => some { options with output := some value }
  | .format, "table" => some { options with format := .table }
  | .format, "json" => some { options with format := .json }
  | _, _ => none

/-- The options that some words set, on top of others. -/
def readFrom (options : Options) : List String → Option Options
  | [] => some options
  | word :: words =>
    match ArgumentWord.read word with
    | .option .verbose none => readFrom { options with verbose := true } words
    | .option name (some value) => do readFrom (← options.set name value) words
    | .option name none =>
      -- the value is the next word; none suits `help`
      match words with
      | value :: words =>
        if ArgumentWord.read value = .value then do readFrom (← options.set name value) words
        else none
      | [] => none
    | _ => none

/-- What a command line asks for, if it is well formed. Two inputs are one too
many. -/
def parse : List String → Option Options
  | "parse" :: words => do
    let options ← readFrom {} words
    if options.input.isSome && options.text.isSome then none else some options
  | _ => none

end Options

end DocComment
