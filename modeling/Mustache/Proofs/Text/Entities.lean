import Mathlib.Data.List.Basic
import Mathlib.Tactic.Common
import Mustache.Text.Html

/-!
# Escaping for HTML, and back

Escaping gives each character its entity on its own. It comes to the same if the characters that
have an entity are replaced one after another, each in the whole text, as long as the ampersand is
the first: it is the only one of them that stands in entities, so what one replacement writes is
left alone by those after it (`replaceInTurn_eq_flatMap`).

What is escaped can be read back. Each ampersand in it starts an entity, and no entity is the
beginning of another one, so there is only one way to take the text apart again (`unescapeHtml`).

Main statement: `escapeHtml_reversible`.
-/

namespace Mustache.Text

/-! ## Markup -/

/-- The characters that markup is made of. -/
def isMarkup (c : Char) : Bool := c == '<' || c == '>' || c == '"' || c == '\'' || c == '/'

/-- A text has no character of markup in it. -/
def IsUnmarked (s : String) : Prop := ∀ c ∈ s.toList, isMarkup c = false

instance (s : String) : Decidable (IsUnmarked s) :=
  List.decidableBAll (fun c => isMarkup c = false) s.toList

theorem isUnmarked_empty : IsUnmarked "" := by simp [IsUnmarked]

theorem IsUnmarked.append {s t : String} (hs : IsUnmarked s) (ht : IsUnmarked t) :
    IsUnmarked (s ++ t) := by
  intro c hc
  rw [String.toList_append, List.mem_append] at hc
  exact hc.elim (hs c) (ht c)

/-- A character of markup has an entity. -/
theorem isMarkup_of_entity?_eq_none {c : Char} (h : entity? c = none) : isMarkup c = false := by
  rw [Bool.eq_false_iff]
  intro hc
  simp only [isMarkup, Bool.or_eq_true, beq_iff_eq] at hc
  rcases hc with (((rfl | rfl) | rfl) | rfl) | rfl <;> cases h

/-- No entity has a character of markup in it. -/
theorem isUnmarked_of_entity?_eq_some {c : Char} {e : String} (h : entity? c = some e) :
    IsUnmarked e := by
  unfold entity? at h
  split at h <;> cases h <;> decide +kernel

theorem isMarkup_htmlChar (c : Char) : ∀ b ∈ htmlChar c, isMarkup b = false := by
  rw [htmlChar]
  cases he : entity? c with
  | none =>
    intro b hb
    obtain rfl := List.mem_singleton.1 hb
    exact isMarkup_of_entity?_eq_none he
  | some e => exact isUnmarked_of_entity?_eq_some he

/-- **What is escaped has no markup in it.** -/
theorem isUnmarked_escapeHtml (s : String) : IsUnmarked (escapeHtml s) := by
  intro c hc
  rw [escapeHtml, String.toList_ofList, List.mem_flatMap] at hc
  obtain ⟨b, -, hb⟩ := hc
  exact isMarkup_htmlChar b c hb

/-! ## One character after another -/

/-- The characters that have an entity, each with its entity. -/
def entities : List (Char × String) :=
  [('&', "&amp;"), ('<', "&lt;"), ('>', "&gt;"), ('"', "&quot;"), ('\'', "&#39;"), ('/', "&#x2F;")]

theorem lookup_entities (c : Char) : entities.lookup c = entity? c := by
  unfold entity?
  split
  case h_7 h₁ h₂ h₃ h₄ h₅ h₆ =>
    simp [entities, List.lookup_cons, beq_eq_false_iff_ne.2 h₁, beq_eq_false_iff_ne.2 h₂,
      beq_eq_false_iff_ne.2 h₃, beq_eq_false_iff_ne.2 h₄, beq_eq_false_iff_ne.2 h₅,
      beq_eq_false_iff_ne.2 h₆]
  all_goals rfl

/-- The rest of a text with every occurrence of a word replaced, from left to right. Its first
`inWord` characters belong to the occurrence that was met last. -/
def replaceFrom (word substitute : List Char) : Nat → List Char → List Char
  | _, [] => []
  | inWord + 1, _ :: r => replaceFrom word substitute inWord r
  | 0, c :: r =>
    if word.isPrefixOf (c :: r) then
      substitute ++ replaceFrom word substitute (word.length - 1) r
    else c :: replaceFrom word substitute 0 r

/-- The text with every occurrence of a word replaced. -/
def replace (word substitute s : List Char) : List Char := replaceFrom word substitute 0 s

/-- The text with some characters replaced, the first of them in the whole text, then the next
one. -/
def replaceInTurn (table : List (Char × String)) (s : List Char) : List Char :=
  table.foldl (fun s entry => replace [entry.1] entry.2.toList s) s

/-- The text that stands for a character by a table: that of its entry, or the character itself. -/
def substituteOf (table : List (Char × String)) (c : Char) : List Char :=
  ((table.lookup c).map String.toList).getD [c]

/-- A word of one character is replaced wherever the character stands. -/
theorem replace_singleton (c : Char) (substitute s : List Char) :
    replace [c] substitute s = s.flatMap fun b => if b = c then substitute else [b] := by
  rw [replace]
  induction s with
  | nil => rfl
  | cons b r ih =>
    rw [replaceFrom, List.flatMap_cons]
    by_cases h : b = c
    · rw [if_pos h, if_pos (by simp [h])]
      exact congrArg (substitute ++ ·) ih
    · rw [if_neg h, if_neg (by simpa using Ne.symm h), ih]
      rfl

/-- Characters that are not in a table stand for themselves. -/
theorem flatMap_substituteOf {table : List (Char × String)} {s : List Char}
    (h : ∀ entry ∈ table, entry.1 ∉ s) : s.flatMap (substituteOf table) = s := by
  have hself : ∀ c ∈ s, substituteOf table c = [c] := by
    intro c hc
    have hnone : table.lookup c = none := by
      rw [List.lookup_eq_none_iff]
      intro entry hentry
      rw [bne_iff_ne]
      rintro rfl
      exact h entry hentry hc
    rw [substituteOf, hnone]
    rfl
  rw [List.flatMap_def, List.map_congr_left hself, ← List.flatMap_def, List.flatMap_singleton']

/-- **Replacing one after another is replacing all at once,** if no character stands in what another
one was replaced by before. -/
theorem replaceInTurn_eq_flatMap {table : List (Char × String)}
    (h : table.Pairwise fun entry later => later.1 ∉ entry.2.toList) (s : List Char) :
    replaceInTurn table s = s.flatMap (substituteOf table) := by
  induction table generalizing s with
  | nil => exact (flatMap_substituteOf (by simp)).symm
  | cons entry table ih =>
    obtain ⟨hentry, htable⟩ := List.pairwise_cons.1 h
    have hstep (c : Char) :
        (if c = entry.1 then entry.2.toList else [c]).flatMap (substituteOf table) =
          substituteOf (entry :: table) c := by
      by_cases hc : c = entry.1
      · rw [if_pos hc, flatMap_substituteOf hentry, substituteOf, hc, List.lookup_cons_self]
        rfl
      · rw [if_neg hc, List.flatMap_singleton, substituteOf, substituteOf, List.lookup_cons,
          beq_eq_false_iff_ne.2 hc]
    calc replaceInTurn (entry :: table) s
        = replaceInTurn table (replace [entry.1] entry.2.toList s) := rfl
      _ = (replace [entry.1] entry.2.toList s).flatMap (substituteOf table) := ih htable _
      _ = s.flatMap (substituteOf (entry :: table)) := by
        rw [replace_singleton, List.flatMap_assoc]
        simp only [hstep]

-- With the ampersand last, the entity that was written first is taken for text.
example : replaceInTurn [('<', "&lt;"), ('&', "&amp;")] ['<'] = "&amp;lt;".toList := by
  decide +kernel

/-! ## Reading back -/

/-- The rest of a text with every entity replaced by its character, from left to right. Its first
`inEntity` characters belong to the entity that was met last. -/
def unescapeFrom : Nat → List Char → List Char
  | _, [] => []
  | inEntity + 1, _ :: r => unescapeFrom inEntity r
  | 0, c :: r =>
    match entities.find? fun entry => entry.2.toList.isPrefixOf (c :: r) with
    | some entry => entry.1 :: unescapeFrom (entry.2.length - 1) r
    | none => c :: unescapeFrom 0 r

/-- The text with every entity replaced by its character. -/
def unescapeHtml (s : String) : String := String.ofList (unescapeFrom 0 s.toList)

/-- A character with an entity is an ampersand, or one of markup. -/
theorem htmlChar_cases (c : Char) :
    (c ≠ '&' ∧ htmlChar c = [c]) ∨
      ∃ entry ∈ entities, entry.1 = c ∧ htmlChar c = entry.2.toList := by
  cases he : entity? c with
  | none =>
    refine .inl ⟨?_, by rw [htmlChar, he]; rfl⟩
    rintro rfl
    cases he
  | some e =>
    have hmem : (c, e) ∈ entities := by
      rw [← lookup_entities, List.lookup_eq_some_iff] at he
      obtain ⟨before, after, heq, -⟩ := he
      simp [heq]
    exact .inr ⟨(c, e), hmem, rfl, by rw [htmlChar, he]; rfl⟩

/-- An entity starts with an ampersand and has no other one. -/
theorem exists_eq_cons_of_mem_entities {entry : Char × String} (h : entry ∈ entities) :
    ∃ r, entry.2.toList = '&' :: r ∧ '&' ∉ r := by
  have hall : ∀ entry ∈ entities,
      entry.2.toList.head? = some '&' ∧ '&' ∉ entry.2.toList.tail := by decide +kernel
  obtain ⟨hhead, htail⟩ := hall entry h
  exact ⟨_, List.eq_cons_of_mem_head? hhead, htail⟩

/-- Only what starts with an ampersand is an entity. -/
theorem find?_entities_of_ne {c : Char} (hc : c ≠ '&') (r : List Char) :
    (entities.find? fun entry => entry.2.toList.isPrefixOf (c :: r)) = none := by
  rw [List.find?_eq_none]
  intro entry hentry hprefix
  obtain ⟨t, ht, -⟩ := exists_eq_cons_of_mem_entities hentry
  rw [ht, List.isPrefixOf_iff_prefix, List.cons_prefix_cons] at hprefix
  exact hc hprefix.1.symm

/-- No entity is the beginning of another one, so a text starts with one at most. -/
theorem find?_entities_append {entry : Char × String} (h : entry ∈ entities) (r : List Char) :
    (entities.find? fun other => other.2.toList.isPrefixOf (entry.2.toList ++ r)) = some entry := by
  have hall : ∀ entry ∈ entities, ∀ other ∈ entities,
      other.2.toList <+: entry.2.toList ∨ entry.2.toList <+: other.2.toList → other = entry := by
    decide +kernel
  have hhere : entry.2.toList <+: entry.2.toList ++ r := List.prefix_append _ r
  cases hfind : entities.find? fun other => other.2.toList.isPrefixOf (entry.2.toList ++ r) with
  | none =>
    rw [List.find?_eq_none] at hfind
    exact absurd (List.isPrefixOf_iff_prefix.2 hhere) (hfind entry h)
  | some other =>
    have hother : other.2.toList <+: entry.2.toList ++ r := by simpa using List.find?_some hfind
    have hmem := List.mem_of_find?_eq_some hfind
    rw [hall entry h other hmem (List.prefix_or_prefix_of_prefix hother hhere)]

theorem unescapeFrom_skip (r s : List Char) :
    unescapeFrom r.length (r ++ s) = unescapeFrom 0 s := by
  induction r with
  | nil => rfl
  | cons c r ih => exact ih

theorem unescapeFrom_htmlChar (c : Char) (r : List Char) :
    unescapeFrom 0 (htmlChar c ++ r) = c :: unescapeFrom 0 r := by
  rcases htmlChar_cases c with ⟨hc, hself⟩ | ⟨entry, hmem, rfl, hentity⟩
  · rw [hself, List.singleton_append, unescapeFrom, find?_entities_of_ne hc]
  · obtain ⟨t, ht, -⟩ := exists_eq_cons_of_mem_entities hmem
    have hfind := find?_entities_append hmem r
    have hlength : entry.2.length - 1 = t.length := by
      rw [← String.length_toList, ht]
      rfl
    rw [ht, List.cons_append] at hfind
    rw [hentity, ht, List.cons_append, unescapeFrom, hfind]
    simp only [hlength, unescapeFrom_skip]

/-- **What is escaped can be read back.** -/
theorem unescapeHtml_escapeHtml (s : String) : unescapeHtml (escapeHtml s) = s := by
  have hlist (cs : List Char) : unescapeFrom 0 (cs.flatMap htmlChar) = cs := by
    induction cs with
    | nil => rfl
    | cons c r ih => rw [List.flatMap_cons, unescapeFrom_htmlChar, ih]
  rw [unescapeHtml, escapeHtml, String.toList_ofList, hlist, String.ofList_toList]

/-- A part of a text that starts with a character does not start where the character is not. -/
theorem suffix_of_suffix_append {c : Char} {r s after : List Char} (hr : c ∉ r)
    (h : c :: after <:+ r ++ s) : c :: after <:+ s := by
  induction r with
  | nil => exact h
  | cons b r ih =>
    obtain ⟨hb, hr⟩ := List.ne_and_not_mem_of_not_mem_cons hr
    rw [List.cons_append, List.suffix_cons_iff] at h
    rcases h with h | h
    · exact absurd (List.cons.inj h).1 hb
    · exact ih hr h

/-- Each ampersand in what is escaped starts an entity. -/
theorem exists_entity_of_suffix {cs after : List Char} (h : '&' :: after <:+ cs.flatMap htmlChar) :
    ∃ entry ∈ entities, entry.2.toList <+: '&' :: after := by
  induction cs with
  | nil => simp at h
  | cons c r ih =>
    rw [List.flatMap_cons] at h
    rcases htmlChar_cases c with ⟨hc, hself⟩ | ⟨entry, hmem, -, hentity⟩
    · rw [hself] at h
      exact ih (suffix_of_suffix_append (by simpa using Ne.symm hc) h)
    · obtain ⟨t, ht, hnone⟩ := exists_eq_cons_of_mem_entities hmem
      rw [hentity, ht, List.cons_append, List.suffix_cons_iff] at h
      rcases h with h | h
      · refine ⟨entry, hmem, ?_⟩
        rw [h, ht]
        exact List.prefix_append ('&' :: t) _
      · exact ih (suffix_of_suffix_append hnone h)

/-- **Escaping for HTML is one substitution, and can be undone.** Replacing the six characters one
after another in the whole text comes to replacing each on its own, so escaping goes piece by piece.
What is escaped has no markup in it, and no ampersand but those that start an entity; reading the
entities from left to right gives the text back, so no two texts are escaped alike. -/
theorem escapeHtml_reversible (s : String) :
    String.ofList (replaceInTurn entities s.toList) = escapeHtml s ∧
      (escapeHtml s).toList = s.toList.flatMap (substituteOf entities) ∧
      (∀ t, escapeHtml (s ++ t) = escapeHtml s ++ escapeHtml t) ∧
      IsUnmarked (escapeHtml s) ∧
      (∀ after, '&' :: after <:+ (escapeHtml s).toList →
        ∃ entry ∈ entities, entry.2.toList <+: '&' :: after) ∧
      unescapeHtml (escapeHtml s) = s ∧
      ∀ t, escapeHtml s = escapeHtml t → s = t := by
  have hpairwise : entities.Pairwise fun entry later => later.1 ∉ entry.2.toList := by
    decide +kernel
  have hchar : substituteOf entities = htmlChar :=
    funext fun c => by rw [substituteOf, htmlChar, lookup_entities]
  have htext : (escapeHtml s).toList = s.toList.flatMap htmlChar := by
    rw [escapeHtml, String.toList_ofList]
  refine ⟨?_, ?_, fun t => escapeHtml_append s t, isUnmarked_escapeHtml s, fun after h => ?_,
    unescapeHtml_escapeHtml s, fun t h => ?_⟩
  · rw [replaceInTurn_eq_flatMap hpairwise, hchar, escapeHtml]
  · rw [htext, hchar]
  · rw [htext] at h
    exact exists_entity_of_suffix h
  · rw [← unescapeHtml_escapeHtml s, h, unescapeHtml_escapeHtml t]

end Mustache.Text
