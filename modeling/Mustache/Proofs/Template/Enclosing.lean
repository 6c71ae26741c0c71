import Mustache.Proofs.Template.Append
import Mustache.Proofs.Template.Faults

/-!
# A template inside a section

A template that can be read may be put between the two tags of a section. If it leaves the
delimiters as they are, the section holds what the template held: the same tags, nested in the same
way. Blank texts at its ends may be dropped that were not dropped before, or the other way round.

**Idea.** What is read of the template does not change with the closing tag behind it, except where
a text at its end is taken for the start of a delimiter. That text is then a single brace, since the
delimiters in force there are the common ones; with the closing tag it makes a tag without an end
(`read?_brace_marked`). So the whole cannot be read, or it is scanned part by part
(`Tiles.scan_append_or`).

Main statement: `parse_enclosed`.
-/

namespace Mustache

open Text

/-- Tags can hold a name: it does not start with a blank character, and where it is written in a tag
the end of the tag is not found before the end of the name. -/
structure Delimiters.Carries (d : Delimiters) (name : List Char) : Prop where
  solid : Solid name
  offset : d.stop.offset (name ++ d.closing) = name.length

namespace Delimiters.Carries

variable {d : Delimiters} {name : List Char}

theorem finds (h : d.Carries name) (hclosing : Solid d.closing) (rest : List Char) :
    d.stop.Finds (name ++ (d.closing ++ rest)) name.length d.closing.length := by
  have hhere : d.stop.length? ((name ++ d.closing).drop (d.stop.offset (name ++ d.closing))) =
      some d.closing.length := by
    rw [h.offset, List.drop_left]
    have := @Pattern.length?_blanksThen d.closing [] [] (by simp) hclosing d.closing_ne_nil
    rwa [List.nil_append, List.append_nil, List.length_nil, Nat.zero_add] at this
  have hfinds := Pattern.finds_of_length? hhere
  rw [h.offset] at hfinds
  rw [← List.append_assoc]
  exact hfinds.append hclosing d.closing_ne_nil rest

end Delimiters.Carries

namespace Tag

variable {name : List Char}

/-- A tag between braces, with a sigil and a name. -/
def marked (sigil : Char) (name : List Char) : List Char :=
  ['{', '{'] ++ (sigil :: (name ++ ['}', '}']))

theorem length_marked (sigil : Char) (name : List Char) :
    (marked sigil name).length = name.length + 5 := by
  simp [marked]

theorem begins_marked {d : Delimiters} (hname : d.Carries name) (hclosing : Solid d.closing)
    {sigil : Char} (hs : sigil ∈ sigils) (rest : List Char) :
    Begins d (d.opening ++ (sigil :: (name ++ (d.closing ++ rest)))) (some sigil)
      (name ++ (d.closing ++ rest)) := by
  have hsolid : Solid (name ++ (d.closing ++ rest)) := by
    intro c hc
    by_cases hne : name = []
    · rw [hne, List.nil_append, List.head?_append_of_ne_nil _ d.closing_ne_nil] at hc
      exact hclosing c hc
    · rw [List.head?_append_of_ne_nil _ hne] at hc
      exact hname.solid c hc
  have := @Begins.signed d [] [] (name ++ (d.closing ++ rest)) sigil (by simp) hs (by simp) hsolid
  simpa using this

/-- A tag that holds a name is read as it was written. -/
theorem read?_marked (hname : Delimiters.braces.Carries name) {sigil : Char}
    (hs : sigil ∈ sigils) (hplain : signs .braces (some sigil) = none) (rest : List Char) :
    Tag.read? .braces (marked sigil name ++ rest) =
      some ⟨Token.Kind.ofSigil (some sigil), name, (marked sigil name).length⟩ := by
  have hsolid : Solid Delimiters.braces.closing := by
    rintro c ⟨⟩
    rfl
  have htext : marked sigil name ++ rest = Delimiters.braces.opening ++
      (sigil :: (name ++ (Delimiters.braces.closing ++ rest))) := by
    simp [marked, Delimiters.braces]
  have hbegins := begins_marked hname hsolid hs rest
  rw [← htext] at hbegins
  obtain ⟨hsigil, hbody⟩ := hbegins.lead
  have hlead : (lead .braces (marked sigil name ++ rest)).2 = 3 := by
    have hlength := congrArg List.length hbody
    rw [List.length_drop, List.length_append, List.length_append, List.length_append, length_marked,
      show Delimiters.braces.closing.length = 2 from rfl] at hlength
    omega
  refine read?_eq_some_iff.2 ⟨name.length, name.length + 2, ?_, ?_⟩
  · rw [hsigil, hbody]
    exact .plain hplain (hname.finds hsolid rest)
  · rw [hsigil, hbody, hlead, List.take_left]
    rw [length_marked]
    congr 1
    omega

/-- With one brace more in front of it, a closing tag has no end: it would have to end with three
braces. -/
theorem read?_brace_marked (hname : Delimiters.braces.Carries name) :
    Tag.read? .braces ('{' :: marked '/' name) = none := by
  have hsolid : Solid Delimiters.braces.closing := by
    rintro c ⟨⟩
    rfl
  have ho : Delimiters.braces.opening <+: '{' :: marked '/' name :=
    ⟨'{' :: '/' :: (name ++ ['}', '}']), rfl⟩
  rw [read?_eq_none_iff ho]
  refine ⟨some '{', '/' :: (name ++ ['}', '}']), ?_, ?_⟩
  · exact @Begins.signed .braces [] [] ('/' :: (name ++ ['}', '}'])) '{' (by simp) (by decide)
      (by simp) (by rintro c ⟨⟩; rfl)
  · rintro ⟨front, back, htext⟩
    -- The closing delimiter would be found before the end of the name.
    cases front with
    | nil => cases htext
    | cons c front =>
      rw [List.cons_append, List.cons_append, List.cons.injEq] at htext
      replace htext : front ++ ['}', '}', '}'] ++ back = name ++ ['}', '}'] := htext.2
      have hlength := congrArg List.length htext
      simp only [List.length_append, List.length_cons, List.length_nil] at hlength
      have hnone := (hname.finds hsolid []).before front.length (by omega)
      have hfound : (Delimiters.braces.stop.length?
          ((name ++ ['}', '}']).drop front.length)).isSome := by
        refine Pattern.isSome_blanksThenLength?.2 ⟨[], by simp, ?_⟩
        rw [← htext, List.append_assoc, List.drop_left]
        exact ⟨'}' :: back, rfl⟩
      change Delimiters.braces.stop.length? ((name ++ ['}', '}']).drop front.length) = none at hnone
      rw [hnone] at hfound
      cases hfound

end Tag

namespace Template

open Node (Nested)

/-! ## Scanning -/

variable {d : Delimiters} {s : List Char} {p : Nat} {us : List Token} {name : List Char}

/-- Where there is no place for a delimiter, there is no tag. -/
theorem Tiles.kind_of_short (h : Tiles d s p us) (hs : s.length < d.opening.length) :
    ∀ t ∈ us, t.kind = .text := by
  induction h with
  | nil => simp
  | text _ _ ih =>
    rw [List.length_cons] at hs
    exact List.forall_mem_cons.2 ⟨rfl, ih (by omega)⟩
  | tag ho => exact absurd ho.length_le (by omega)

/-- Where a delimiter reaches beyond a template, no tag can stand behind it to set other ones. So if
braces are in force at the end, the delimiter is one of theirs, and half of it is in what follows.
-/
theorem Tiles.scan_reaching {c : Char} {r rest : List Char} (h : Tiles d r (p + 1) us)
    (hforce : inForce d us = .ok .braces) (hrest : Tag.read? .braces ('{' :: rest) = none)
    (hc : ¬ d.opening <+: c :: r) (ho : d.opening <+: c :: (r ++ rest)) :
    ∃ x, scan d p 0 (c :: (r ++ rest)) = .error x := by
  have hshort : (c :: r).length < d.opening.length := by
    by_contra hlong
    exact hc (List.prefix_of_prefix_length_le ho (List.prefix_append (c :: r) rest) (by omega))
  rw [List.length_cons] at hshort
  have htexts := h.kind_of_short (by omega)
  rw [inForce_eq_self (fun t ht => by simp [htexts t ht]), Except.ok.injEq] at hforce
  subst hforce
  obtain rfl : r = [] := List.length_eq_zero_iff.1 (by
    change r.length + 1 < 2 at hshort
    omega)
  obtain ⟨w, hw⟩ := ho
  obtain ⟨rfl, -⟩ := List.cons.inj hw
  exact ⟨_, scan_unclosed ⟨w, hw⟩ hrest p⟩

/-- **A template that leaves braces in force is scanned by itself,** whatever follows it, and what
follows is scanned after it; unless a brace at its end begins a tag with what follows, which has no
end then. -/
theorem Tiles.scan_append_or (h : Tiles d s p us) (hd : d.Unspaced)
    (hforce : inForce d us = .ok .braces) {rest : List Char}
    (hrest : Tag.read? .braces ('{' :: rest) = none) :
    scan d p 0 (s ++ rest) = (scan .braces (p + s.length) 0 rest).map (us ++ ·) ∨
      ∃ x, scan d p 0 (s ++ rest) = .error x := by
  induction h with
  | nil d p =>
    obtain rfl : d = .braces := Except.ok.inj hforce
    refine .inl ?_
    show scan .braces p 0 rest = Except.map id (scan .braces p 0 rest)
    rw [Except.map_id]
    rfl
  | @text d c r p us hc htiles ih =>
    have htext : (Token.ofChar c p).delimiters d = .ok d :=
      delimiters_of_not_delimiterTag (by simp [Token.ofChar]) d
    rw [inForce_cons htext] at hforce
    by_cases ho : d.opening <+: c :: (r ++ rest)
    · exact .inr (htiles.scan_reaching hforce hrest hc ho)
    · rw [List.cons_append, scan_text ho, List.length_cons,
        show p + (r.length + 1) = p + 1 + r.length by omega]
      rcases ih hd hforce with hscan | ⟨x, hx⟩
      · refine .inl ?_
        rw [hscan]
        cases scan .braces (p + 1 + r.length) 0 rest <;> rfl
      · exact .inr ⟨x, by rw [hx]; rfl⟩
  | @tag d d' s p tag us ho hread hdel _ ih =>
    have hle := (Tag.read?_spec ho hread).2.1
    rw [inForce_cons (by rwa [Tag.delimiters_token])] at hforce
    rw [scan_tag_append hd ho hread hdel]
    rcases ih (Tag.unspaced_delimiters hd hdel) hforce with hscan | ⟨x, hx⟩
    · refine .inl ?_
      rw [hscan, List.length_drop,
        show p + tag.length + (s.length - tag.length) = p + s.length by omega]
      cases scan .braces (p + s.length) 0 rest <;> rfl
    · exact .inr ⟨x, by rw [hx]; rfl⟩

/-! ## Stripping and joining -/

theorem DropsTexts.cons_of_tag {t : Token} {ts ws : List Token} (h : DropsTexts (t :: ts) ws)
    (ht : t.kind ≠ .text) : ∃ vs, ws = t :: vs ∧ DropsTexts ts vs := by
  cases h with
  | keep _ hts => exact ⟨_, rfl, hts⟩
  | drop hk => exact absurd hk ht

theorem DropsTexts.concat_of_tag {t : Token} {ts ws : List Token} (h : DropsTexts (ts ++ [t]) ws)
    (ht : t.kind ≠ .text) : ∃ vs, ws = vs ++ [t] ∧ DropsTexts ts vs := by
  induction ts generalizing ws with
  | nil =>
    obtain ⟨vs, rfl, hvs⟩ := h.cons_of_tag ht
    cases hvs
    exact ⟨[], rfl, .nil⟩
  | cons u ts ih =>
    cases h with
    | keep _ hts =>
      obtain ⟨vs, rfl, hvs⟩ := ih hts
      exact ⟨u :: vs, rfl, .keep u hvs⟩
    | drop hk hts =>
      obtain ⟨vs, rfl, hvs⟩ := ih hts
      exact ⟨vs, rfl, .drop hk hvs⟩

theorem squash_cons_of_tag {t : Token} (ht : t.kind ≠ .text) (ts : List Token) :
    squash (t :: ts) = t :: squash ts := by
  rw [squash_cons]
  cases squash ts with
  | nil => rfl
  | cons u us => exact if_neg fun h => ht h.1

theorem squash_concat_of_tag {t : Token} (ht : t.kind ≠ .text) (ts : List Token) :
    squash (ts ++ [t]) = squash ts ++ [t] := by
  induction ts with
  | nil => exact squash_cons_of_tag ht []
  | cons u ts ih =>
    rw [List.cons_append, squash_cons, squash_cons, ih]
    cases squash ts with
    | nil => exact if_neg fun h => ht h.2
    | cons v vs =>
      rw [List.cons_append, joinHead, joinHead]
      split <;> rfl

/-! ## Nesting -/

/-- Between two tags that fit, tokens nest into one section if their own tags do. What it holds has
the same tags. -/
theorem exists_nest_enclosed {t c : Token} {us vs ts : List Token} {ms : List Node} {k : Nat}
    (ht : t.kind.opensSection = true) (hc : c.kind = .closeTag) (hvalue : c.value = t.value)
    (hms : Nested (squash us) ms) (hvs : Token.tags vs = (Token.tags us).map (Token.shift k))
    (hts : DropsTexts (t :: (vs ++ [c])) ts) :
    ∃ children, Nested (squash ts) [.block t children c.start] ∧
      Node.tags children = Node.shiftAll k (Node.tags ms) := by
  have htext : t.kind ≠ .text := fun h => by simp [h, Token.Kind.opensSection] at ht
  obtain ⟨rest, rfl, hrest⟩ := hts.cons_of_tag htext
  obtain ⟨ws, rfl, hws⟩ := hrest.concat_of_tag (by simp [hc])
  rw [squash_cons_of_tag htext, squash_concat_of_tag (by simp [hc])]
  have htags : Nested (Token.tags us) (Node.tags ms) := by
    rw [← tags_squash]
    exact hms.tags
  have hshift : Nested ((Token.tags us).map (Token.shift k))
      (Node.shiftAll k (Node.tags ms)) := by
    rw [← Node.nest_eq_ok_iff] at htags ⊢
    rw [Node.nest_shift, htags]
    rfl
  have hsame : Token.tags (squash ws) = (Token.tags us).map (Token.shift k) :=
    (tags_squash ws).trans (hws.tags_eq.trans hvs)
  obtain ⟨children, hchildren, heq⟩ := Node.exists_nested_of_tags hshift hsame
  have := Nested.block ht hchildren hc hvalue .nil
  exact ⟨children, by simpa using this, heq⟩

/-! ## Templates -/

/-- A section of a name that holds a template. -/
def enclosed (name body : String) : String :=
  "\x7b\x7b#" ++ name ++ "\x7d\x7d" ++ body ++ "\x7b\x7b/" ++ name ++ "\x7d\x7d"

theorem toList_enclosed (name body : String) :
    (enclosed name body).toList =
      Tag.marked '#' name.toList ++ (body.toList ++ Tag.marked '/' name.toList) := by
  simp [enclosed, Tag.marked]

/-- The tags of a section of a name, around a template that leaves the delimiters as they are, are
scanned as they were written, unless the scan fails. -/
theorem scan_enclosed {name s : List Char} {us : List Token}
    (hname : Delimiters.braces.Carries name) (hus : Tiles .braces s 0 us)
    (hforce : inForce .braces us = .ok .braces) :
    let k := (Tag.marked '#' name).length
    let n := (Tag.marked '/' name).length
    scan .braces 0 0 (Tag.marked '#' name ++ (s ++ Tag.marked '/' name)) =
        .ok (Tag.token ⟨.sectionTag, name, k⟩ 0 :: (us.map (Token.shift k) ++
          [Tag.token ⟨.closeTag, name, n⟩ (s.length + k)])) ∨
      ∃ x, scan .braces 0 0 (Tag.marked '#' name ++ (s ++ Tag.marked '/' name)) = .error x := by
  intro k n
  have hopens (sigil : Char) (rest : List Char) :
      Delimiters.braces.opening <+: Tag.marked sigil name ++ rest := ⟨_, rfl⟩
  have hopening : scan .braces 0 0 (Tag.marked '#' name ++ (s ++ Tag.marked '/' name)) =
      (scan .braces (0 + k) 0 (s ++ Tag.marked '/' name)).map
        (Tag.token ⟨.sectionTag, name, k⟩ 0 :: ·) := by
    rw [scan_tag (hopens '#' _) (Tag.read?_marked hname (by decide) rfl _), List.drop_left]
    rfl
  have hclosing (q : Nat) : scan .braces q 0 (Tag.marked '/' name) =
      .ok [Tag.token ⟨.closeTag, name, n⟩ q] := by
    rw [← List.append_nil (Tag.marked '/' name),
      scan_tag (hopens '/' []) (Tag.read?_marked hname (by decide) rfl []), List.drop_left]
    show Except.map _ (scan .braces (q + n) 0 []) = _
    rw [scan]
    rfl
  rw [hopening, scan_shift]
  rcases hus.scan_append_or (by decide) hforce (Tag.read?_brace_marked hname) with
    hscan | ⟨x, hx⟩
  · refine .inl ?_
    rw [hscan, hclosing, Nat.zero_add]
    simp [Except.map, Except.mapError, Tag.token_shift]
  · exact .inr ⟨x.shift k, by rw [hx]; rfl⟩

/-- **A template inside a section.** If it leaves the delimiters as they are, either the section
cannot be read, or it is read as one that holds what the template does; the texts may differ. -/
theorem parse_enclosed {name body : String} {ms : List Node}
    (hname : Delimiters.braces.Carries name.toList) (hbody : parse .braces body = .ok ms)
    (hforce : inForce .braces ((Node.preorder ms).map Node.token) = .ok .braces) :
    (∃ t children close, parse .braces (enclosed name body) = .ok [.block t children close] ∧
      t.kind = .sectionTag ∧ t.value = name ∧
      ∃ k, Node.tags children = Node.shiftAll k (Node.tags ms)) ∨
    ∃ x, parse .braces (enclosed name body) = .error x := by
  obtain ⟨us, hus, hms⟩ := parse_eq_ok_iff.1 hbody
  rw [hms.map_token_preorder, inForce_squash (tags_strip us)] at hforce
  rw [parse_eq, toList_enclosed]
  set k := (Tag.marked '#' name.toList).length
  let t : Token := Tag.token ⟨.sectionTag, name.toList, k⟩ 0
  let c : Token := Tag.token ⟨.closeTag, name.toList, (Tag.marked '/' name.toList).length⟩
    (body.toList.length + k)
  have hvs : Token.tags (us.map (Token.shift k)) = (Token.tags (strip us)).map (Token.shift k) := by
    rw [tags_strip]
    simp [Token.tags, List.filter_map, Function.comp_def]
  rcases scan_enclosed hname hus hforce with hscan | ⟨x, hx⟩
  · obtain ⟨children, hchildren, htags⟩ := exists_nest_enclosed (t := t) (c := c) rfl rfl rfl hms
      hvs (dropsTexts_strip _)
    rw [hscan]
    exact .inl ⟨t, children, c.start, Node.nest_eq_ok_iff.2 hchildren, rfl, String.ofList_toList,
      k, htags⟩
  · exact .inr ⟨x, by rw [hx]; rfl⟩

end Template

end Mustache
