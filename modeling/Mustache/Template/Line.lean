import Mustache.Template.Token

/-!
# Standalone lines

A line that has structural tags and shows nothing is written for the template's author only: its
blank characters, the line end among them, are dropped, so that it leaves no empty line behind.
Lines are lines of tokens: only a line feed in a text ends one, and the last may have no end.

`sweep` does so in one pass. It keeps the tokens read so far, notes where the blank texts of the
current line stand among them, and takes those out again when the line ends and turns out to be
standalone. `strip` says the same line by line: it cuts the tokens into lines and strips each.
-/

namespace Mustache.Template

/-! ## In one pass -/

/-- The tokens that were read and not taken out, and what is known of the current line. -/
structure Sweep where
  tokens : Array Token
  /-- Where the blank texts of the line stand among the tokens, the last one first. -/
  blanks : List Nat
  /-- Whether the line has a structural tag. -/
  structural : Bool
  /-- Whether the line shows something. -/
  visible : Bool

namespace Sweep

/-- Before anything was read. -/
def start : Sweep := ⟨#[], [], false, false⟩

/-- Ends the current line: if it is standalone, its blank texts are taken out, the last one first,
so that the places of the others stay right. -/
def endLine (s : Sweep) : Sweep where
  tokens :=
    if s.structural && !s.visible then s.blanks.foldl (·.eraseIdxIfInBounds ·) s.tokens
    else s.tokens
  blanks := []
  structural := false
  visible := false

/-- Reads a token without ending the line. -/
def note (s : Sweep) (t : Token) : Sweep where
  tokens := s.tokens.push t
  blanks := if t.isBlank then s.tokens.size :: s.blanks else s.blanks
  structural := s.structural || t.kind.isStructural
  visible := s.visible || t.isVisible

/-- Reads a token. -/
def add (s : Sweep) (t : Token) : Sweep := if t.endsLine then (s.note t).endLine else s.note t

end Sweep

/-- The tokens without the blank texts of standalone lines; the last line ends with the tokens. -/
def sweep (tokens : List Token) : List Token :=
  (tokens.foldl Sweep.add Sweep.start).endLine.tokens.toList

/-! ## Line by line -/

/-- The lines of a list of tokens, each with its end. -/
def lines : List Token → List (List Token)
  | [] => []
  | t :: ts =>
    if t.endsLine then [t] :: lines ts
    else match lines ts with
      | [] => [[t]]
      | line :: rest => (t :: line) :: rest

/-- Whether a line has structural tags and shows nothing. -/
def isStandalone (line : List Token) : Bool :=
  line.any (·.kind.isStructural) && !line.any (·.isVisible)

/-- A line without its blank texts, if it is standalone. -/
def stripLine (line : List Token) : List Token :=
  if isStandalone line then line.filter (!·.isBlank) else line

/-- The tokens without the blank texts of standalone lines. -/
def strip (tokens : List Token) : List Token := (lines tokens).flatMap stripLine

theorem flatten_lines (tokens : List Token) : (lines tokens).flatten = tokens := by
  induction tokens with
  | nil => rfl
  | cons t ts ih =>
    rw [lines]
    split
    · simp [ih]
    · split
      · next h => simp_all
      · next h => rw [h] at ih; simp_all

/-- Stripping only drops tokens. -/
theorem strip_sublist (tokens : List Token) : (strip tokens).Sublist tokens := by
  have line (l : List Token) : (stripLine l).Sublist l := by
    rw [stripLine]
    split
    · exact List.filter_sublist
    · exact List.Sublist.refl l
  have all (ls : List (List Token)) : (ls.flatMap stripLine).Sublist ls.flatten := by
    induction ls with
    | nil => exact List.Sublist.refl []
    | cons l ls ih =>
      rw [List.flatMap_cons, List.flatten_cons]
      exact (line l).append ih
  have h := all (lines tokens)
  rwa [flatten_lines] at h

end Mustache.Template
