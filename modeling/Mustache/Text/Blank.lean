/-!
# Blank characters

The characters that count as whitespace in templates, and the words of a text, which are what is
left between them. Only `'\n'` ends a line; every other blank character is mere space.
-/

namespace Mustache.Text

/-- Blank code points: the line and tab controls, the information separators, and the space
characters of Unicode. -/
def isBlank (c : Char) : Bool :=
  let n := c.toNat
  (0x09 ≤ n && n ≤ 0x0D) || (0x1C ≤ n && n ≤ 0x20) || n == 0x85 || n == 0xA0 || n == 0x1680 ||
    (0x2000 ≤ n && n ≤ 0x200A) || n == 0x2028 || n == 0x2029 || n == 0x202F || n == 0x205F ||
    n == 0x3000

theorem isBlank_newline : isBlank '\n' = true := rfl

/-- How many blank characters a text starts with. -/
def blankRun (s : List Char) : Nat := (s.takeWhile isBlank).length

/-- The words of a text: its longest runs of characters that are not blank. -/
def words : List Char → List (List Char)
  | [] => []
  | c :: r =>
    if isBlank c then words r
    else match r, words r with
      | d :: _, w :: ws => if isBlank d then [c] :: w :: ws else (c :: w) :: ws
      | _, ws => [c] :: ws

end Mustache.Text
