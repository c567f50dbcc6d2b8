import DocComment.Text.Lines

/-!
# Notation

How each form of a type expression is written, given the texts of its parts.
There is one spelling for each form: a comma and a space between items, no space
around a bar, and brackets behind a type written as a container with arguments.
-/

namespace DocComment.Notation

open Text

/-- Items between an opening and a closing sign. -/
def bracketed (opening closing : Char) (items : List (List Char)) : List Char :=
  opening :: joinWith [',', ' '] items ++ [closing]

/-- One of two types. -/
def union (left right : List Char) : List Char :=
  left ++ '|' :: right

/-- An operand with a sign in front. -/
def marked (sign : List Char) (operand : List Char) : List Char :=
  sign ++ operand

def optional (operand : List Char) : List Char :=
  operand ++ ['=']

/-- Any number of operands. -/
def variadic (operand : List Char) : List Char :=
  marked ['.', '.', '.'] operand

def generic (subject : List Char) (arguments : List (List Char)) : List Char :=
  subject ++ bracketed '<' '>' arguments

/-- A function type that names no result. -/
def function (params : List (List Char)) : List Char :=
  ['f', 'u', 'n', 'c', 't', 'i', 'o', 'n'] ++ bracketed '(' ')' params

/-- Something and, behind a colon, its type. -/
def typed (subject type : List Char) : List Char :=
  subject ++ ':' :: ' ' :: type

def arrow (params : List (List Char)) (returns : List Char) : List Char :=
  bracketed '(' ')' params ++ ' ' :: '=' :: '>' :: ' ' :: returns

def typeOf (name : List Char) : List Char :=
  ['t', 'y', 'p', 'e', 'o', 'f', ' '] ++ name

end DocComment.Notation
