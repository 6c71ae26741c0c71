import Mustache.Proofs.Text.Words
import Mustache.Proofs.Template.Locality
import Mustache.Proofs.Template.Order
import Mustache.Proofs.Template.Shift

/-!
# Templates end to end

A template that consists of whole lines may be put before any other. The two are then read one after
the other: the second with the delimiters that the first one leaves in force.

**Idea.** Nothing reaches over a line end. A delimiter without blank characters cannot start before
it and end behind it, and a tag that ends before it is read from its own characters
(`Tiles.scan_append`). The line that it ends is standalone or not by itself
(`strip_append_of_last`). At the seam two texts may meet, which then become one (`splice`); and
since all sections of the first template are closed there, its tree stays as it is and the second
one's follows it (`nest_splice`).

Main statement: `parse_append`.
-/

namespace Mustache

/-! ## Delimiters without blank characters -/

/-- No character of the delimiters is blank. -/
def Delimiters.Unspaced (d : Delimiters) : Prop :=
  ∀ c ∈ d.opening ++ d.closing, Text.isBlank c = false

instance (d : Delimiters) : Decidable d.Unspaced :=
  List.decidableBAll (fun c => Text.isBlank c = false) (d.opening ++ d.closing)

theorem Delimiters.mem_words_of_mem_wordItems {s : List Char} {w : String}
    (h : .str w ∈ wordItems s) (hne : w.toList ≠ []) : w.toList ∈ Text.words s := by
  rw [wordItems] at h
  split at h
  · rw [List.mem_singleton, Value.str.injEq] at h
    subst h
    exact absurd rfl hne
  · obtain ⟨v, hv, hvw⟩ := List.mem_map.1 h
    rw [Value.str.injEq] at hvw
    rw [← hvw]
    simpa using hv

/-- Delimiters that are named by a text are words of it. -/
theorem Delimiters.unspaced_of_ofText {s : List Char} {d : Delimiters} (h : ofText s = .ok d) :
    d.Unspaced := by
  rw [ofText, ofItems.eq_def] at h
  split at h
  · next opening closing hitems =>
    split at h
    · next hne =>
      cases h
      have hopening : opening.toList ∈ Text.words s :=
        mem_words_of_mem_wordItems (by simp [hitems]) hne.1
      have hclosing : closing.toList ∈ Text.words s :=
        mem_words_of_mem_wordItems (by simp [hitems]) hne.2.1
      intro c hc
      rcases List.mem_append.1 hc with hc | hc
      · exact (Text.isWord_of_mem_words hopening).solid c hc
      · exact (Text.isWord_of_mem_words hclosing).solid c hc
    · cases h
  · cases h

theorem Tag.unspaced_delimiters {tag : Tag} {d e : Delimiters} (hd : d.Unspaced)
    (h : tag.delimiters d = .ok e) : e.Unspaced := by
  rw [Tag.delimiters] at h
  split at h
  · exact Delimiters.unspaced_of_ofText h
  · cases h
    exact hd

namespace Template

/-! ## Scanning whole lines -/

/-- The text is made up of whole lines: it is empty or ends with a line feed. -/
def WholeLines (s : List Char) : Prop := s = [] ∨ s.getLast? = some '\n'

instance (s : List Char) : Decidable (WholeLines s) :=
  inferInstanceAs (Decidable (s = [] ∨ s.getLast? = some '\n'))

theorem WholeLines.drop {s : List Char} (h : WholeLines s) (n : Nat) : WholeLines (s.drop n) := by
  rcases h with rfl | h
  · exact .inl List.drop_nil
  · by_cases hn : s.length ≤ n
    · exact .inl (List.drop_eq_nil_of_le hn)
    · exact .inr (by rw [List.getLast?_drop, if_neg hn, h])

/-- No delimiter reaches over the end of a line. -/
theorem not_prefix_append {d : Delimiters} (hd : d.Unspaced) {s : List Char} (hne : s ≠ [])
    (hs : WholeLines s) (h : ¬ d.opening <+: s) (rest : List Char) :
    ¬ d.opening <+: s ++ rest := by
  intro hp
  by_cases hlen : d.opening.length ≤ s.length
  · exact h (List.prefix_of_prefix_length_le hp (List.prefix_append s rest) hlen)
  · have hsub : s <+: d.opening :=
      List.prefix_of_prefix_length_le (List.prefix_append s rest) hp (by omega)
    have hmem : '\n' ∈ s := List.mem_of_getLast? (hs.resolve_left hne)
    have := hd '\n' (List.mem_append_left _ (hsub.subset hmem))
    rw [Text.isBlank_newline] at this
    cases this

/-- A tag that starts a text is read there whatever is put behind the text. -/
theorem scan_tag_append {d d' : Delimiters} {s : List Char} {tag : Tag} (hd : d.Unspaced)
    (ho : d.opening <+: s) (hread : Tag.read? d s = some tag) (hdel : tag.delimiters d = .ok d')
    (p : Nat) (rest : List Char) :
    scan d p 0 (s ++ rest) =
      (scan d' (p + tag.length) 0 (s.drop tag.length ++ rest)).map (tag.token p :: ·) := by
  have hle := (Tag.read?_spec ho hread).2.1
  have hsolid : Solid d.closing := fun c hc =>
    hd c (List.mem_append_right _ (List.mem_of_mem_head? hc))
  rw [scan_tag (ho.trans (List.prefix_append s rest)) (Tag.read?_append ho hsolid hread rest),
    hdel, List.drop_append_of_le_length hle]
  rfl

/-- **Whole lines are scanned by themselves,** whatever follows them; what follows them is scanned
with the delimiters that they leave in force. -/
theorem Tiles.scan_append {d : Delimiters} {s : List Char} {p : Nat} {us : List Token}
    (h : Tiles d s p us) (hd : d.Unspaced) (hs : WholeLines s) :
    ∃ e, inForce d us = .ok e ∧ ∀ rest,
      scan d p 0 (s ++ rest) = (scan e (p + s.length) 0 rest).map (us ++ ·) := by
  induction h with
  | nil d p =>
    refine ⟨d, rfl, fun rest => ?_⟩
    show scan d p 0 rest = Except.map id (scan d p 0 rest)
    rw [Except.map_id]
    rfl
  | @text d c r p us hc _ ih =>
    obtain ⟨e, he, hscan⟩ := ih hd (hs.drop 1)
    have htext : (Token.ofChar c p).delimiters d = .ok d :=
      delimiters_of_not_delimiterTag (by simp [Token.ofChar]) d
    refine ⟨e, by rw [inForce_cons htext, he], fun rest => ?_⟩
    have hnot := not_prefix_append hd (List.cons_ne_nil c r) hs hc rest
    rw [List.cons_append] at hnot ⊢
    rw [scan_text hnot, hscan rest, List.length_cons,
      show p + 1 + r.length = p + (r.length + 1) by omega]
    cases scan e (p + (r.length + 1)) 0 rest <;> rfl
  | @tag d d' s p tag us ho hread hdel _ ih =>
    have hd' := Tag.unspaced_delimiters hd hdel
    obtain ⟨e, he, hscan⟩ := ih hd' (hs.drop _)
    have hle := (Tag.read?_spec ho hread).2.1
    refine ⟨e, ?_, fun rest => ?_⟩
    · rw [inForce_cons (by rwa [Tag.delimiters_token]), he]
    · rw [scan_tag_append hd ho hread hdel, hscan rest, List.length_drop,
        show p + tag.length + (s.length - tag.length) = p + s.length by omega]
      cases scan e (p + s.length) 0 rest <;> rfl

/-- The last token of whole lines ends a line: a tag does not end with a blank character. -/
theorem Tiles.endsLine_of_last {d : Delimiters} {s : List Char} {p : Nat} {us : List Token}
    (h : Tiles d s p us) (hd : d.Unspaced) (hs : WholeLines s) :
    ∀ t ∈ us.getLast?, t.endsLine = true := by
  induction h with
  | nil => simp
  | @text d c r p us _ htiles ih =>
    cases us with
    | nil =>
      have hr : r = [] := by
        cases htiles
        rfl
      subst hr
      obtain rfl : c = '\n' := by simpa [WholeLines] using hs
      simp [Token.ofChar, Token.endsLine]
    | cons u us => simpa [List.getLast?_cons] using ih hd (hs.drop 1)
  | @tag d d' s p tag us ho hread hdel htiles ih =>
    cases us with
    | cons u us =>
      simpa [List.getLast?_cons] using ih (Tag.unspaced_delimiters hd hdel) (hs.drop _)
    | nil =>
      have hr : s.drop tag.length = [] := by
        generalize s.drop tag.length = r at htiles
        cases htiles
        rfl
      have hclosing := (Tag.read?_spec ho hread).2.2
      rw [List.take_of_length_le (List.drop_eq_nil_iff.1 hr)] at hclosing
      obtain ⟨front, rfl⟩ := hclosing
      have hlast : d.closing.getLast? = some '\n' := by
        rcases hs with hs | hs
        · exact absurd (List.append_eq_nil_iff.1 hs).2 d.closing_ne_nil
        · rwa [List.getLast?_append_of_ne_nil _ d.closing_ne_nil] at hs
      have := hd '\n' (List.mem_append_right _ (List.mem_of_getLast? hlast))
      rw [Text.isBlank_newline] at this
      cases this

/-! ## The seam -/

/-- Lines are stripped one by one, so whole lines are stripped by themselves. -/
theorem strip_append_of_last {ts : List Token} (h : ∀ t ∈ ts.getLast?, t.endsLine = true)
    (us : List Token) : strip (ts ++ us) = strip ts ++ strip us := by
  induction ts using line_induction with
  | last line ho =>
    cases hlast : line.getLast? with
    | none =>
      rw [List.getLast?_eq_none_iff] at hlast
      subst hlast
      rfl
    | some t =>
      have := h t hlast
      rw [ho t (List.mem_of_getLast? hlast)] at this
      cases this
  | line line t ts ho ht ih =>
    have hts : ∀ u ∈ ts.getLast?, u.endsLine = true := by
      intro u hu
      refine h u ?_
      rw [Option.mem_def] at hu
      simp [List.getLast?_append, List.getLast?_cons, hu]
    rw [List.append_assoc, List.cons_append, strip_append ho ht, strip_append ho ht, ih hts,
      List.append_assoc]

/-- Joined tokens and what follows them: where two texts meet, they become one. -/
def splice : List Token → List Token → List Token
  | [], us => us
  | [t], us => joinHead t us
  | t :: t' :: ts, us => t :: splice (t' :: ts) us

theorem exists_splice_cons (t : Token) (ts us : List Token) :
    ∃ v vs, splice (t :: ts) us = v :: vs ∧ v.kind = t.kind := by
  match ts, us with
  | [], [] => exact ⟨t, [], rfl, rfl⟩
  | [], u :: us =>
    rw [splice, joinHead]
    split
    · exact ⟨_, us, rfl, rfl⟩
    · exact ⟨t, u :: us, rfl, rfl⟩
  | t' :: ts, us => exact ⟨t, splice (t' :: ts) us, rfl, rfl⟩

theorem splice_joinHead (t : Token) (ts us : List Token) :
    splice (joinHead t ts) us = joinHead t (splice ts us) := by
  cases ts with
  | nil => rfl
  | cons u ts =>
    by_cases h : t.kind = .text ∧ u.kind = .text
    · match ts, us with
      | [], [] => simp [splice, joinHead, h]
      | [], v :: us =>
        by_cases hv : v.kind = .text <;> simp [splice, joinHead, h, hv, String.append_assoc]
      | u' :: ts, us => simp [splice, joinHead, h]
    · obtain ⟨v, vs, hv, hk⟩ := exists_splice_cons u ts us
      rw [joinHead, if_neg h, splice, hv, joinHead, hk, if_neg h]

theorem squash_append (ts us : List Token) :
    squash (ts ++ us) = splice (squash ts) (squash us) := by
  induction ts with
  | nil => rfl
  | cons t ts ih => rw [List.cons_append, squash_cons, squash_cons, ih, splice_joinHead]

theorem splice_cons_of_tag {t : Token} (h : t.kind ≠ .text) (ts us : List Token) :
    splice (t :: ts) us = t :: splice ts us := by
  cases ts with
  | nil => cases us <;> simp [splice, joinHead, h]
  | cons u ts => rfl

theorem splice_append_of_ne_nil (ts : List Token) {us : List Token} (h : us ≠ [])
    (vs : List Token) : splice (ts ++ us) vs = ts ++ splice us vs := by
  induction ts with
  | nil => rfl
  | cons t ts ih =>
    obtain ⟨v, vs, hv⟩ := List.exists_cons_of_ne_nil (List.append_ne_nil_of_right_ne_nil ts h)
    rw [List.cons_append, hv, splice, ← hv, ih, List.cons_append]

end Template

namespace Node

open Template

/-- Two trees of templates, one after the other: a text at the end of the first and a text at the
start of the second become one. -/
def join : List Node → List Node → List Node
  | [], ms => ms
  | [leaf t], leaf u :: ms =>
    if t.kind = .text ∧ u.kind = .text then
      leaf { t with value := t.value ++ u.value, stop := u.stop } :: ms
    else leaf t :: leaf u :: ms
  | n :: ns, ms => n :: join ns ms

/-- What was read of a template, with further nodes before all of it. -/
def Open.onto (base : List Node) : List Node → List Open → List Node × List Open
  | done, [] => (done ++ base, [])
  | done, o :: outer =>
    (done, ⟨o.tag, (onto base o.before outer).1⟩ :: (onto base o.before outer).2)

theorem Open.onto_cons (base : List Node) (x : Node) (done : List Node) (around : List Open) :
    onto base (x :: done) around = (x :: (onto base done around).1, (onto base done around).2) := by
  cases around <;> rfl

/-- Nodes that were read before take no part in the rest of the read. -/
theorem nestFrom_onto (base done : List Node) (around : List Open) (ts : List Token) :
    nestFrom (Open.onto base done around).1 (Open.onto base done around).2 ts =
      (nestFrom done around ts).map (base.reverse ++ ·) := by
  induction ts generalizing done around with
  | nil =>
    cases around with
    | nil => simp [Open.onto, nestFrom, Except.map]
    | cons o outer => rfl
  | cons t ts ih =>
    by_cases ho : t.kind.opensSection = true
    · rw [nestFrom_open ho, nestFrom_open ho, ← ih]
      rfl
    · rw [Bool.not_eq_true] at ho
      by_cases hc : t.kind = .closeTag
      · cases around with
        | nil =>
          rw [nestFrom_unopened hc]
          exact nestFrom_unopened hc _ _
        | cons o outer =>
          by_cases hv : t.value = o.tag.value
          · rw [nestFrom_close hc hv, ← ih, Open.onto_cons]
            exact nestFrom_close (o := ⟨o.tag, (Open.onto base o.before outer).1⟩) hc hv _ _ _
          · rw [nestFrom_mismatch hc hv]
            exact nestFrom_mismatch (o := ⟨o.tag, (Open.onto base o.before outer).1⟩) hc hv _ _ _
      · rw [nestFrom_leaf ho hc, nestFrom_leaf ho hc, ← ih, Open.onto_cons]

/-- Nested tokens stand for their tree also with other tokens behind them. -/
theorem Nested.nest_append {ts : List Token} {ns : List Node} (h : Nested ts ns)
    (us : List Token) : nest (ts ++ us) = (nest us).map (ns ++ ·) := by
  have := nestFrom_onto ns.reverse [] [] us
  rw [Open.onto, List.reverse_reverse] at this
  rw [nest, h.nestFrom_append, List.append_nil]
  exact this

theorem Nested.eq_nil {ns : List Node} (h : Nested [] ns) : ns = [] := by
  cases h
  rfl

theorem Nested.ne_nil {t : Token} {ts : List Token} {ns : List Node} (h : Nested (t :: ts) ns) :
    ns ≠ [] := by
  rintro rfl
  cases h

theorem join_cons_of_ne_nil {ns : List Node} (h : ns ≠ []) (x : Node) (ms : List Node) :
    join (x :: ns) ms = x :: join ns ms := by
  obtain ⟨n, ns, rfl⟩ := List.exists_cons_of_ne_nil h
  cases x <;> rfl

theorem join_block (t : Token) (children : List Node) (close : Nat) (ns ms : List Node) :
    join (block t children close :: ns) ms = block t children close :: join ns ms := by
  rw [join.eq_def]

/-- A text or a tag that stands alone, and the tokens of a tree behind it. -/
theorem nest_joinHead {t : Token} (ho : t.kind.opensSection = false) (hc : t.kind ≠ .closeTag)
    (us : List Token) : nest (joinHead t us) = (nest us).map (join [leaf t]) := by
  have hleaf {u : Token} (ho : u.kind.opensSection = false) (hc : u.kind ≠ .closeTag)
      (us : List Token) : nest (u :: us) = (nest us).map (leaf u :: ·) :=
    (Nested.leaf ho hc .nil).nest_append us
  have hjoin {ms : List Node}
      (h : ∀ u, ms.head? = some (leaf u) → ¬ (t.kind = .text ∧ u.kind = .text)) :
      join [leaf t] ms = leaf t :: ms := by
    match ms with
    | [] => rfl
    | block u children close :: ms => rfl
    | leaf u :: ms => rw [join, if_neg (h u rfl)]
  cases us with
  | nil => exact hleaf ho hc []
  | cons u us =>
    rw [joinHead]
    split
    · next h =>
      have huo : u.kind.opensSection = false := by rw [h.2]; rfl
      have huc : u.kind ≠ .closeTag := by simp [h.2]
      rw [hleaf huo huc, hleaf (u := ⟨t.kind, t.value ++ u.value, t.start, u.stop⟩) ho hc]
      cases nest us with
      | error e => rfl
      | ok ms => simp [Except.map, join, h]
    · next h =>
      rw [hleaf ho hc]
      cases hn : nest (u :: us) with
      | error e => rfl
      | ok ms =>
        refine congrArg Except.ok (hjoin fun v hv => ?_).symm
        obtain ⟨ms, rfl⟩ : ∃ ms', ms = leaf v :: ms' := by
          cases ms with
          | nil => cases hv
          | cons m ms => cases hv; exact ⟨ms, rfl⟩
        have hu := head?_of_nested (nest_eq_ok_iff.1 hn)
        cases hu
        exact h

/-- **A tree, and the tokens of another behind its own,** stand for both trees, one after the
other. -/
theorem nest_splice {ts : List Token} {ns : List Node} (h : Nested ts ns) (us : List Token) :
    nest (splice ts us) = (nest us).map (join ns) := by
  induction h with
  | nil =>
    show nest us = (nest us).map fun ms => ms
    cases nest us <;> rfl
  | @leaf t ts ns ho hc hn ih =>
    cases ts with
    | nil =>
      obtain rfl := hn.eq_nil
      exact nest_joinHead ho hc us
    | cons u ts =>
      have := (Nested.leaf ho hc .nil).nest_append (splice (u :: ts) us)
      rw [splice, show t :: splice (u :: ts) us = [t] ++ splice (u :: ts) us from rfl, this, ih]
      cases nest us with
      | error e => rfl
      | ok ms => exact congrArg Except.ok (join_cons_of_ne_nil hn.ne_nil _ ms).symm
  | @block t c vs ts children ns ho hvs hc hv _ _ ih =>
    have hone : Nested (t :: vs ++ [c]) [block t children c.start] := .block ho hvs hc hv .nil
    rw [splice_append_of_ne_nil _ (List.cons_ne_nil c ts), splice_cons_of_tag (by simp [hc]),
      show t :: vs ++ c :: splice ts us = (t :: vs ++ [c]) ++ splice ts us by simp,
      hone.nest_append, ih]
    cases nest us with
    | error e => rfl
    | ok ms => exact congrArg Except.ok (join_block t children c.start ns ms).symm

end Node

namespace Template

/-- **Templates may be put end to end at line ends.** If the first consists of whole lines and has a
tree, the second is read with the delimiters that the last tag of the first to set them left in
force. The tree of both is the tree of the first and then that of the second, whose offsets go on
from the first; and a fault is the fault of the second. -/
theorem parse_append {d : Delimiters} (hd : d.Unspaced) {front : String}
    (hfront : WholeLines front.toList) {ns : List Node} (h : parse d front = .ok ns)
    (back : String) :
    ∃ e, inForce d ((Node.preorder ns).map Node.token) = .ok e ∧
      parse d (front ++ back) =
        ((parse e back).map fun ms => Node.join ns (Node.shiftAll front.length ms)).mapError
          (·.shift front.length) := by
  obtain ⟨us, hus, hnest⟩ := parse_eq_ok_iff.1 h
  obtain ⟨e, he, hscan⟩ := hus.scan_append hd hfront
  refine ⟨e, ?_, ?_⟩
  · rw [hnest.map_token_preorder, inForce_squash (tags_strip us), he]
  · have hback := hscan back.toList
    rw [Nat.zero_add, ← Nat.zero_add front.toList.length, scan_shift] at hback
    rw [parse_eq, parse_eq, String.toList_append, hback]
    cases scan e 0 0 back.toList with
    | error f => rfl
    | ok vs =>
      show Node.nest (squash (strip (us ++ vs.map (Token.shift _)))) = _
      rw [strip_append_of_last (hus.endsLine_of_last hd hfront), squash_append, strip_shift,
        squash_shift, Node.nest_splice hnest, Node.nest_shift]
      show _ = Except.mapError _ (Except.map _ (Node.nest (squash (strip vs))))
      cases Node.nest (squash (strip vs)) <;> rfl

theorem parse_append_delimiterSwitch :
    ∃ e, inForce .braces ((Node.preorder
        [.block ⟨.sectionTag, "a", 0, 6⟩ [.leaf ⟨.delimiterTag, "<% %>", 7, 18⟩,
          .leaf ⟨.text, "x\n", 18, 20⟩] 20, .leaf ⟨.text, "y\n", 26, 28⟩]).map Node.token) = .ok e ∧
      parse .braces ("\x7b\x7b#a\x7d\x7d\n\x7b\x7b=<% %>=\x7d\x7dx\n<%/a%>y\n" ++ " <%b%>") =
        ((parse e " <%b%>").map fun ms => Node.join
          [.block ⟨.sectionTag, "a", 0, 6⟩ [.leaf ⟨.delimiterTag, "<% %>", 7, 18⟩,
            .leaf ⟨.text, "x\n", 18, 20⟩] 20, .leaf ⟨.text, "y\n", 26, 28⟩]
          (Node.shiftAll 28 ms)).mapError (·.shift 28) :=
  parse_append (by decide) (by decide +kernel) (by with_unfolding_all rfl) " <%b%>"

end Template

end Mustache
