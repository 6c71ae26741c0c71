import Mustache.Json.Basic
import Mustache.Value.Text

/-!
# Writing JSON

Documents are written over several lines, two spaces for each level; what is empty stays on one
line.
All characters are written as they are but quotes, backslashes and controls.
-/

namespace Mustache.Json

/-- Numbers are set out as in the text of a value; those that are not finite have words. -/
def numberLayout : Decimal.Layout :=
  { Value.numberLayout with notANumber := "NaN", infinity := "Infinity" }

/-- How a character stands in a string. -/
def escapeChar (c : Char) : List Char :=
  if c = '"' || c = '\\' then ['\\', c]
  else if c = '\n' then ['\\', 'n']
  else if c = '\r' then ['\\', 'r']
  else if c = '\t' then ['\\', 't']
  else if c.toNat = 0x0C then ['\\', 'f']
  else if c.toNat = 0x08 then ['\\', 'b']
  else if c.toNat < 0x20 then '\\' :: 'u' :: Text.hex 4 c.toNat
  else [c]

/-- A string between quotes. -/
def printString (s : String) : List Char := '"' :: s.toList.flatMap escapeChar ++ ['"']

/-- The start of a line at a level. -/
def newLine (level : Nat) : List Char := '\n' :: List.replicate (2 * level) ' '

/-- Some texts on lines of their own, between two brackets. -/
def bracketed (opening closing : Char) (level : Nat) : List (List Char) → List Char
  | [] => [opening, closing]
  | texts =>
    let separator := ',' :: newLine (level + 1)
    opening :: newLine (level + 1) ++ separator.intercalate texts ++ newLine level ++ [closing]

mutual

/-- Writes a document at a level. -/
def printAt (level : Nat) : Json → List Char
  | null => ['n', 'u', 'l', 'l']
  | bool true => ['t', 'r', 'u', 'e']
  | bool false => ['f', 'a', 'l', 's', 'e']
  | int n => (Value.intText n).toList
  | float x => (numberLayout.render x).toList
  | str s => printString s
  | arr items => bracketed '[' ']' level (printItems (level + 1) items)
  | obj members => bracketed '{' '}' level (printMembers (level + 1) members)

/-- Writes the items of an array. -/
def printItems (level : Nat) : List Json → List (List Char)
  | [] => []
  | j :: js => printAt level j :: printItems level js

/-- Writes the members of an object. -/
def printMembers (level : Nat) : List (String × Json) → List (List Char)
  | [] => []
  | m :: ms => printMember level m :: printMembers level ms

/-- Writes a member of an object. -/
def printMember (level : Nat) : String × Json → List Char
  | (name, j) => printString name ++ ':' :: ' ' :: printAt level j

end

/-- Writes a document. -/
def print (j : Json) : String := String.ofList (printAt 0 j)

end Mustache.Json
