/-!
# HTML escaping

Text that is put into a page has six characters replaced by entities, each on its own: what one
replacement writes is never looked at again. Hence `escapeHtml_append`: escaping goes piece by
piece.
-/

namespace Mustache.Text

/-- The entity that stands for a character, where it has one. -/
def entity? : Char → Option String
  | '&' => some "&amp;"
  | '<' => some "&lt;"
  | '>' => some "&gt;"
  | '"' => some "&quot;"
  | '\'' => some "&#39;"
  | '/' => some "&#x2F;"
  | _ => none

/-- A character as it stands in a page. -/
def htmlChar (c : Char) : List Char := ((entity? c).map String.toList).getD [c]

/-- A text as it stands in a page. -/
def escapeHtml (s : String) : String := String.ofList (s.toList.flatMap htmlChar)

theorem escapeHtml_append (s t : String) : escapeHtml (s ++ t) = escapeHtml s ++ escapeHtml t := by
  simp [escapeHtml]

end Mustache.Text
