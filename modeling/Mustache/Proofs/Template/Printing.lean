import Mathlib.Data.List.Chain
import Mustache.Proofs.Template.Mark
import Mustache.Proofs.Template.Offsets

/-!
# Parsing undoes printing

A template is written as texts and tags. Here is shown that parsing gives back what was written, if
the delimiters cannot be mistaken for anything else and no line is stripped.

**Idea.** A text is passed over character by character (`Free`), and a tag is read as it was
written. What was written therefore tiles the template (`tiles_print`), nothing is dropped from it
(`strip_eq_self`), and joining the characters gives back the texts (`squash_piecesFrom`).

Main statement: `parse_print`.
-/

namespace Mustache

open Text

namespace Template

open Node (Nested)

/-! ## Templates as they are written -/

/-- A part of a template: a text that is not empty, or a tag. -/
inductive Part
  | text (s : List Char) (ne_nil : s ≠ [])
  | mark (m : Mark)

namespace Part

/-- Whether a part is a text. -/
def isText : Part → Bool
  | text _ _ => true
  | mark _ => false

/-- The text of a text, the value of a tag. -/
def content : Part → List Char
  | text s _ => s
  | mark m => m.value

/-- How a part is written. -/
def print (d : Delimiters) : Part → List Char
  | text s _ => s
  | mark m => m.print d

/-- The token that is meant, at the offset `p`. -/
def token (d : Delimiters) (p : Nat) : Part → Token
  | text s _ => ⟨.text, String.ofList s, p, p + s.length⟩
  | mark m => (m.tag d).token p

end Part

/-- The text of a template. -/
def print (d : Delimiters) (parts : List Part) : List Char := parts.flatMap (Part.print d)

/-- The tokens that are meant, from the offset `p` on. -/
def tokensFrom (d : Delimiters) : Nat → List Part → List Token
  | _, [] => []
  | p, part :: parts => part.token d p :: tokensFrom d (p + (part.print d).length) parts

/-- A token for each character of a text, from the offset `p` on. -/
def charTokens : Nat → List Char → List Token
  | _, [] => []
  | p, c :: s => Token.ofChar c p :: charTokens (p + 1) s

theorem length_charTokens (p : Nat) (s : List Char) : (charTokens p s).length = s.length := by
  induction s generalizing p with
  | nil => rfl
  | cons c s ih => rw [charTokens, List.length_cons, ih, List.length_cons]

/-- The tokens that are meant, with a token for each character of the texts. -/
def piecesFrom (d : Delimiters) : Nat → List Part → List Token
  | _, [] => []
  | p, .text s _ :: parts => charTokens p s ++ piecesFrom d (p + s.length) parts
  | p, .mark m :: parts => (m.tag d).token p :: piecesFrom d (p + (m.print d).length) parts

/-- The delimiters cannot be mistaken for anything else: either they are braces, and no text has two
opening braces in a row or one at its end, or their characters stand nowhere in the texts and values
and mean nothing in tags. -/
def Clear (d : Delimiters) (parts : List Part) : Prop :=
  (d = .braces ∧ ∀ part ∈ parts, part.isText = true →
    ¬ ['{', '{'] <:+: part.content ∧ part.content.getLast? ≠ some '{') ∨
  ∀ c ∈ d.opening ++ d.closing, isBlank c = false ∧ c ∉ sigils ∧ c ≠ '}' ∧
    ∀ part ∈ parts, c ∉ part.content

/-- A template that can be read back: no two texts are neighbours, the delimiters are clear, and on
each line with a structural tag there is something to show. -/
structure Printable (d : Delimiters) (parts : List Part) : Prop where
  isChain : parts.IsChain fun x y => ¬ (x.isText = true ∧ y.isText = true)
  clear : Clear d parts
  shown : ∀ line ∈ lines (piecesFrom d 0 parts), (∃ t ∈ line, t.kind.isStructural = true) →
    ∃ t ∈ line, t.isVisible = true

/-! ### Scanning -/

/-- The opening delimiter starts nowhere in a text, whatever follows the text. -/
def Free (d : Delimiters) (s : List Char) : Prop :=
  ∀ t rest, t <:+ s → t ≠ [] → ¬ d.opening <+: t ++ rest

theorem Clear.free {d : Delimiters} {parts : List Part} (h : Clear d parts) {s : List Char}
    {hs : s ≠ []} (hmem : Part.text s hs ∈ parts) : Free d s := by
  intro t rest hsuf hne hpre
  rcases h with ⟨rfl, h⟩ | h
  · obtain ⟨htwo, hlast⟩ := h _ hmem rfl
    change ['{', '{'] <+: t ++ rest at hpre
    match t, hne with
    | [c], _ =>
      have hc : c = '{' := by
        obtain ⟨u, hu⟩ := hpre
        simp only [List.cons_append, List.cons.injEq] at hu
        exact hu.1.symm
      refine hlast ?_
      obtain ⟨u, rfl⟩ := hsuf
      simp [Part.content, hc]
    | c :: e :: t, _ =>
      obtain ⟨u, hu⟩ := hpre
      simp only [List.cons_append, List.nil_append, List.cons.injEq] at hu
      obtain ⟨rfl, rfl, -⟩ := hu
      exact htwo (List.IsInfix.trans ⟨[], t, rfl⟩ hsuf.isInfix)
  · obtain ⟨c, r, rfl⟩ := List.exists_cons_of_ne_nil hne
    obtain ⟨e, w, hw⟩ := List.exists_cons_of_ne_nil d.opening_ne_nil
    obtain ⟨u, hu⟩ := hpre
    rw [hw, List.cons_append, List.cons_append, List.cons.injEq] at hu
    have hc := (h c (by rw [hw, hu.1]; simp)).2.2.2 _ hmem
    exact hc (hsuf.mem List.mem_cons_self)

theorem Clear.ends {d : Delimiters} {parts : List Part} (h : Clear d parts) {m : Mark}
    (hmem : Part.mark m ∈ parts) : d.Ends m.value := by
  intro c hc
  rcases h with ⟨rfl, -⟩ | h
  · cases hc
    exact ⟨rfl, by decide, m.no_brace⟩
  · obtain ⟨hb, hs, -, hv⟩ := h c (List.mem_append_right _ (List.mem_of_mem_head? hc))
    exact ⟨hb, hs, hv _ hmem⟩

theorem Free.tiles {d : Delimiters} {s rest : List Char} {p : Nat} {ts : List Token}
    (h : Free d s) (hts : Tiles d rest (p + s.length) ts) :
    Tiles d (s ++ rest) p (charTokens p s ++ ts) := by
  induction s generalizing p with
  | nil => exact hts
  | cons c s ih =>
    refine .text (h (c :: s) rest List.suffix_rfl (by simp)) (ih ?_ ?_)
    · exact fun t rest ht => h t rest (ht.trans (List.suffix_cons c s))
    · rwa [Nat.add_assoc, Nat.add_comm 1 s.length]

/-- What was written tiles the template. -/
theorem tiles_print {d : Delimiters} {parts : List Part}
    (hfree : ∀ s hs, Part.text s hs ∈ parts → Free d s)
    (hends : ∀ m, Part.mark m ∈ parts → d.Ends m.value) (p : Nat) :
    Tiles d (print d parts) p (piecesFrom d p parts) := by
  induction parts generalizing p with
  | nil => exact .nil d p
  | cons part parts ih =>
    have ih := ih (fun s hs h => hfree s hs (List.mem_cons_of_mem _ h))
      (fun m h => hends m (List.mem_cons_of_mem _ h))
    cases part with
    | text s hs => exact (hfree s hs List.mem_cons_self).tiles (ih _)
    | mark m =>
      have hread := m.read?_print (hends m List.mem_cons_self) (print d parts)
      refine .tag ?_ hread (Mark.delimiters_tag m d) ?_
      · show d.opening <+: m.print d ++ print d parts
        rw [Mark.print_append]
        exact List.prefix_append _ _
      · show Tiles d ((m.print d ++ print d parts).drop (m.print d).length) _ _
        rw [List.drop_left]
        exact ih _

/-! ### Stripping, joining, nesting -/

/-- Where every line that is ordered shows something too, nothing is stripped. -/
theorem strip_eq_self {ts : List Token}
    (h : ∀ line ∈ lines ts, (∃ t ∈ line, t.kind.isStructural = true) →
      ∃ t ∈ line, t.isVisible = true) : strip ts = ts := by
  have hline : ∀ line ∈ lines ts, stripLine line = line := by
    intro line hl
    refine stripLine_of_not_standalone ?_
    rw [isStandalone, Bool.and_eq_false_iff, Bool.not_eq_false', List.any_eq_true]
    by_cases hs : line.any (·.kind.isStructural) = true
    · exact Or.inr (h line hl (List.any_eq_true.1 hs))
    · exact Or.inl (Bool.not_eq_true _ ▸ hs)
  have hmap : (lines ts).map stripLine = lines ts := by
    rw [List.map_congr_left hline, List.map_id']
  rw [strip, List.flatMap_def, hmap, flatten_lines]

theorem joinHead_of_separate {t : Token} {ts : List Token}
    (h : ∀ u ∈ ts.head?, Separate t u) : joinHead t ts = t :: ts := by
  cases ts with
  | nil => rfl
  | cons u us => exact if_neg (h u rfl)

theorem squash_charTokens {s : List Char} (hs : s ≠ []) (p : Nat) {ts : List Token}
    (hts : ∀ u ∈ (squash ts).head?, u.kind ≠ .text) :
    squash (charTokens p s ++ ts) = ⟨.text, String.ofList s, p, p + s.length⟩ :: squash ts := by
  induction s generalizing p with
  | nil => exact absurd rfl hs
  | cons c s ih =>
    rw [charTokens, List.cons_append, squash_cons]
    by_cases hs : s = []
    · subst hs
      exact joinHead_of_separate fun u hu h => hts u hu h.2
    · rw [ih hs (p + 1), joinHead, if_pos ⟨rfl, rfl⟩]
      have hvalue : String.singleton c ++ String.ofList s = String.ofList (c :: s) := by
        apply String.toList_inj.1
        simp
      simp only [Token.ofChar, hvalue, List.length_cons]
      rw [show p + 1 + s.length = p + (s.length + 1) by omega]

theorem Part.kind_token (d : Delimiters) (p : Nat) (part : Part) :
    (part.token d p).kind = .text ↔ part.isText = true := by
  cases part with
  | text s hs => exact ⟨fun _ => rfl, fun _ => rfl⟩
  | mark m =>
    refine ⟨fun h => absurd h (Token.Kind.ofSigil_ne_text m.sigil), fun h => ?_⟩
    cases h

/-- Joining the characters gives back the texts. -/
theorem squash_piecesFrom {d : Delimiters} {parts : List Part}
    (h : parts.IsChain fun x y => ¬ (x.isText = true ∧ y.isText = true)) (p : Nat) :
    squash (piecesFrom d p parts) = tokensFrom d p parts := by
  induction parts generalizing p with
  | nil => rfl
  | cons part parts ih =>
    obtain ⟨hhead, hrest⟩ := List.isChain_cons.1 h
    have ih := ih hrest
    have hsep (q : Nat) (hpart : part.isText = true) :
        ∀ u ∈ (squash (piecesFrom d q parts)).head?, u.kind ≠ .text := by
      intro u hu hk
      rw [ih] at hu
      cases parts with
      | nil => cases hu
      | cons next parts =>
        cases hu
        exact hhead next rfl ⟨hpart, (next.kind_token d q).1 hk⟩
    cases part with
    | text s hs =>
      rw [piecesFrom, squash_charTokens hs p (hsep _ rfl), ih]
      rfl
    | mark m =>
      rw [piecesFrom, squash_cons, ih, joinHead_of_separate]
      · rfl
      · exact fun u _ h => Token.Kind.ofSigil_ne_text m.sigil h.1

/-- **Parsing undoes printing.** Whatever the blank characters in the tags and the delimiters are,
the tree of what was written is the tree that was meant. -/
theorem parse_print {d : Delimiters} {parts : List Part} {ns : List Node}
    (hp : Printable d parts) (hn : Nested (tokensFrom d 0 parts) ns) :
    parse d (String.ofList (print d parts)) = .ok ns := by
  have htiles : Tiles d (String.ofList (print d parts)).toList 0 (piecesFrom d 0 parts) := by
    rw [String.toList_ofList]
    exact tiles_print (fun _ _ h => hp.clear.free h) (fun _ h => hp.clear.ends h) 0
  have hpieces : pieces d (String.ofList (print d parts)) = .ok (piecesFrom d 0 parts) :=
    pieces_eq_ok_iff_strip.2 ⟨_, htiles, strip_eq_self hp.shown⟩
  have htokens : tokens d (String.ofList (print d parts)) = .ok (tokensFrom d 0 parts) := by
    rw [tokens, hpieces]
    exact congrArg Except.ok (squash_piecesFrom hp.isChain 0)
  rw [parse, htokens]
  exact Node.nest_eq_ok_iff.2 hn

theorem parse_print_section :
    parse .braces (String.ofList (print .braces
      [.mark ⟨some '#', ['a'], [' '], ['\n'], [], by rintro c ⟨⟩; decide, by rintro c ⟨⟩; rfl,
          by rintro c ⟨⟩; rfl, by decide, by simp, by simp [isBlank], by simp [isBlank], by simp⟩,
        .text ['b', '{', ' '] (by decide),
        .mark ⟨some '{', ['c'], ['\n'], [], [' '], by rintro c ⟨⟩; decide, by rintro c ⟨⟩; rfl,
          by rintro c ⟨⟩; rfl, by decide, by simp, by simp [isBlank], by simp, by simp [isBlank]⟩,
        .mark ⟨some '/', ['a'], [], [], [' '], by rintro c ⟨⟩; decide, by rintro c ⟨⟩; rfl,
          by rintro c ⟨⟩; rfl, by decide, by simp, by simp, by simp, by simp [isBlank]⟩])) = .ok
      [.block ⟨.sectionTag, "a", 0, 8⟩
        [.leaf ⟨.text, "b\x7b ", 8, 11⟩, .leaf ⟨.unescapedTag, "c", 11, 20⟩] 20] :=
  parse_print ⟨by decide, Or.inl ⟨rfl, by decide⟩, by decide⟩ (Node.nest_eq_ok_iff.1 rfl)

end Template

end Mustache
