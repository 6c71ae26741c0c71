import Mustache.Proofs.Template.Locality
import Mustache.Proofs.Template.Order
import Mustache.Proofs.Template.Shift
import Mustache.Render.Node

/-!
# The source of a section

A section remembers where its tags stand, and what is between them can be read again. With the
delimiters in force behind the opening tag it gives what the section holds: the same tags, the same
nesting, and all offsets counted from the end of the opening tag. The texts are the same too if no
blank text was dropped there, either time; the lines at both ends of the section may have been
standalone in the one reading and not in the other.

**Idea.** A cut of the tree at a section is a cut of its tokens at the two tags. Undoing the joining
(`squash_eq_append_cons`) and the stripping (`itemsAt_eq_append_cons`) takes the cut back to the
tokens that tile the template, and tiles can be cut anywhere (`Tiles.split`): a tag that stands in
front of a cut was read from what is in front of it.

Main statement: `parse_source`.
-/

namespace Mustache

namespace Template

/-! ## Cutting tokens -/

/-- Joining leaves tags alone, so what is joined can be cut at a tag. -/
theorem squash_eq_append_cons {us ts ts' : List Token} {t : Token} (ht : t.kind ≠ .text)
    (h : squash us = ts ++ t :: ts') :
    ∃ vs vs', us = vs ++ t :: vs' ∧ squash vs = ts ∧ squash vs' = ts' := by
  induction us generalizing ts with
  | nil => simp [squash, runs] at h
  | cons u us ih =>
    rw [squash_cons] at h
    cases hs : squash us with
    | nil =>
      rw [hs, joinHead] at h
      cases ts with
      | nil =>
        cases h
        exact ⟨[], us, rfl, rfl, hs⟩
      | cons x ts => simp at h
    | cons v vs =>
      rw [hs, joinHead] at h
      split at h
      · next hk =>
        -- The text in front is one with the one after it, so it is no place for the tag.
        cases ts with
        | nil =>
          cases h
          exact absurd hk.1 ht
        | cons x ts =>
          obtain ⟨rfl, hvs⟩ := List.cons.inj h
          have hcut : squash us = (v :: ts) ++ t :: ts' := hs.trans (congrArg (v :: ·) hvs)
          obtain ⟨ws, ws', rfl, hws, hws'⟩ := ih hcut
          refine ⟨u :: ws, ws', rfl, ?_, hws'⟩
          rw [squash_cons, hws]
          exact if_pos hk
      · next hk =>
        cases ts with
        | nil =>
          cases h
          exact ⟨[], us, rfl, rfl, hs⟩
        | cons x ts =>
          obtain ⟨rfl, hvs⟩ := List.cons.inj h
          obtain ⟨ws, ws', rfl, hws, hws'⟩ := ih (hs.trans hvs)
          refine ⟨u :: ws, ws', rfl, ?_, hws'⟩
          rw [squash_cons, hws]
          cases ts with
          | nil => rfl
          | cons y ts =>
            obtain ⟨rfl, -⟩ := List.cons.inj hvs
            exact if_neg hk

section Items

variable {α : Type}

theorem getElem?_middle (front : List α) (x : α) {mid : List α} (back : List α) {i : Nat}
    (hi : i < mid.length) :
    (front ++ x :: (mid ++ back))[front.length + 1 + i]? = mid[i]? := by
  rw [List.getElem?_append_right (by omega), show front.length + 1 + i - front.length = i + 1
    by omega, List.getElem?_cons_succ, List.getElem?_append_left hi]

variable {p : Nat → Prop} [DecidablePred p]

theorem itemsAt_cons (a : α) (l : List α) :
    itemsAt p (a :: l) =
      (if p 0 then [a] else []) ++ itemsAt (fun i => p (i + 1)) l := by
  have := itemsAt_append p [a] l
  rw [List.singleton_append] at this
  rw [this]
  congr 1
  · by_cases h : p 0 <;> simp [itemsAt, h]
  · exact itemsAt_congr (fun i => by rw [List.length_singleton, Nat.add_comm]) l

theorem itemsAt_eq_self {l : List α} (h : ∀ i < l.length, p i) : itemsAt p l = l := by
  rw [itemsAt_eq_filter (q := fun _ => true) fun i hi => iff_of_true (h i hi) rfl]
  exact List.filter_eq_self.2 fun _ _ => rfl

/-- A cut of the items that pass a test is a cut of all items. -/
theorem itemsAt_eq_append_cons {l m m' : List α} {a : α} (h : itemsAt p l = m ++ a :: m') :
    ∃ k k', l = k ++ a :: k' ∧ itemsAt p k = m ∧
      itemsAt (fun i => p (k.length + 1 + i)) k' = m' := by
  induction l generalizing p m with
  | nil => simp [itemsAt] at h
  | cons b l ih =>
    rw [itemsAt_cons] at h
    by_cases hp : p 0
    · rw [if_pos hp, List.singleton_append] at h
      cases m with
      | nil =>
        cases h
        exact ⟨[], l, rfl, rfl, itemsAt_congr (fun i => by simp [Nat.add_comm]) l⟩
      | cons b' m =>
        obtain ⟨rfl, hm⟩ := List.cons.inj h
        obtain ⟨k, k', rfl, hk, hk'⟩ := ih hm
        refine ⟨b :: k, k', rfl, by simp [itemsAt_cons, hp, hk], ?_⟩
        rw [← hk']
        exact itemsAt_congr (fun i => by simp [Nat.add_right_comm]) k'
    · rw [if_neg hp, List.nil_append] at h
      obtain ⟨k, k', rfl, hk, hk'⟩ := ih h
      refine ⟨b :: k, k', rfl, by simp [itemsAt_cons, hp, hk], ?_⟩
      rw [← hk']
      exact itemsAt_congr (fun i => by simp [Nat.add_right_comm]) k'

end Items

/-- Items that are left out without a tag among them leave the tags as they are. -/
theorem tags_itemsAt {p : Nat → Prop} [DecidablePred p] {us : List Token}
    (h : ∀ i t, us[i]? = some t → ¬ p i → t.kind = .text) :
    Token.tags (itemsAt p us) = Token.tags us := by
  induction us generalizing p with
  | nil => rfl
  | cons u us ih =>
    have hrest := ih (p := fun i => p (i + 1)) fun i t hi hp => h (i + 1) t hi hp
    have hcons (ts : List Token) : Token.tags (u :: ts) = Token.tags [u] ++ Token.tags ts :=
      List.filter_append [u] ts
    rw [itemsAt_cons, hcons, ← hrest]
    by_cases hp : p 0
    · rw [if_pos hp]
      exact hcons _
    · rw [if_neg hp]
      have hk := h 0 u rfl hp
      simp [Token.tags, hk]

/-! ## Cutting templates -/

/-- Where a template is cut between two of its tokens, each part is tiled by its own. -/
theorem Tiles.split {d : Delimiters} {s : List Char} {p : Nat} {us vs : List Token}
    (h : Tiles d s p (us ++ vs)) :
    ∃ e front back, s = front ++ back ∧ inForce d us = .ok e ∧ Tiles d front p us ∧
      Tiles e back (p + front.length) vs := by
  induction us generalizing d s p with
  | nil => exact ⟨d, [], s, rfl, rfl, .nil d p, h⟩
  | cons u us ih =>
    cases h with
    | @text _ c r _ _ hc hts =>
      obtain ⟨e, front, back, rfl, he, hfront, hback⟩ := ih hts
      have htext : (Token.ofChar c p).delimiters d = .ok d :=
        delimiters_of_not_delimiterTag (by simp [Token.ofChar]) d
      refine ⟨e, c :: front, back, rfl, by rwa [inForce_cons htext], .text ?_ hfront, ?_⟩
      · exact fun ho => hc (ho.trans (List.prefix_append (c :: front) back))
      · rwa [List.length_cons, show p + (front.length + 1) = p + 1 + front.length by omega]
    | @tag _ d' _ _ tag _ ho hread hdel hts =>
      obtain ⟨e, front, back, hs, he, hfront, hback⟩ := ih hts
      obtain ⟨hspan, hle, -⟩ := Tag.read?_spec ho hread
      have hlen : (s.take tag.length).length = tag.length := List.length_take_of_le hle
      have hcut : s = s.take tag.length ++ front ++ back := by
        rw [List.append_assoc, ← hs, List.take_append_drop]
      -- What stands in front of the cut has the whole tag.
      have ho' : d.opening <+: s.take tag.length ++ front :=
        (List.prefix_take_iff.2 ⟨ho, by omega⟩).trans (List.prefix_append _ front)
      have hread' : Tag.read? d (s.take tag.length ++ front) = some tag := by
        rw [hcut] at hread
        exact Tag.read?_of_append ho' hread (by rw [List.length_append, hlen]; omega)
      refine ⟨e, s.take tag.length ++ front, back, hcut, ?_, .tag ho' hread' hdel ?_, ?_⟩
      · rwa [inForce_cons (by rwa [Tag.delimiters_token])]
      · rwa [List.drop_left' hlen]
      · rwa [List.length_append, hlen, ← Nat.add_assoc]

/-- Behind a tag that sets no delimiters, the template goes on with the same ones. -/
theorem Tiles.of_tag {d : Delimiters} {s : List Char} {p : Nat} {t : Token} {ts : List Token}
    (h : Tiles d s p (t :: ts)) (hk : t.kind ≠ .text) (hd : t.kind ≠ .delimiterTag) :
    ∃ r, s.drop (t.stop - p) = r ∧ p ≤ t.stop ∧ Tiles d r t.stop ts := by
  cases h with
  | text => exact absurd rfl hk
  | @tag _ d' _ _ tag _ ho hread hdel hts =>
    rw [← Tag.delimiters_token tag p, delimiters_of_not_delimiterTag hd, Except.ok.injEq] at hdel
    subst hdel
    refine ⟨_, rfl, Nat.le_add_right p tag.length, ?_⟩
    rwa [show (tag.token p).stop - p = tag.length from Nat.add_sub_cancel_left p tag.length]

/-! ## Sections -/

/-- The character at an offset of a template is dropped: it is a blank text on a standalone line. -/
def DropsAt (d : Delimiters) (template : String) (i : Nat) : Prop :=
  ∃ us k t, scan d 0 0 template.toList = .ok us ∧ us[k]? = some t ∧ t.start = i ∧ Dropped us k

theorem strip_eq_self_of_not_dropsAt {d : Delimiters} {template : String} {us : List Token}
    (hus : Tiles d template.toList 0 us) (h : ∀ i, ¬ DropsAt d template i) : strip us = us := by
  rw [strip_eq_itemsAt]
  refine itemsAt_eq_self fun k hk hdropped => h us[k].start ?_
  exact ⟨us, k, us[k], hus.scan_eq, List.getElem?_eq_getElem hk, rfl, hdropped⟩

end Template

namespace Node

mutual

theorem within_shift (n : Nat) : ∀ x : Node, within (x.shift n) = (within x).map (shift n)
  | leaf t => rfl
  | block t children close => by
    rw [shift, within, within, preorder_shiftAll n children, List.map_cons, shift]

theorem preorder_shiftAll (n : Nat) :
    ∀ ns : List Node, preorder (shiftAll n ns) = (preorder ns).map (shift n)
  | [] => rfl
  | x :: xs => by
    rw [shiftAll, preorder, preorder, within_shift n x, preorder_shiftAll n xs, List.map_append]

end

/-- Tokens further back that nest do so into nodes further back. -/
theorem Nested.of_shift {n : Nat} {ts : List Token} {ns : List Node}
    (h : Nested (ts.map (Token.shift n)) ns) : ∃ ms, Nested ts ms ∧ ns = shiftAll n ms := by
  rw [← nest_eq_ok_iff, nest_shift] at h
  cases hm : nest ts with
  | error e => rw [hm] at h; cases h
  | ok ms =>
    rw [hm] at h
    cases h
    exact ⟨ms, nest_eq_ok_iff.1 hm, rfl⟩

end Node

namespace Template

open Node (Nested)

theorem TagAt.add_two_le {s : List Char} {d : Delimiters} {t : Token} (h : TagAt s d t) :
    t.start + 2 ≤ t.stop := by
  have ho : d.opening <+: s.drop t.start := h.opening.trans (List.take_prefix _ _)
  have hspan : d.opening.length + d.closing.length ≤ t.stop - t.start :=
    (Tag.read?_spec ho h.read).1
  have hopening := List.length_pos_iff.2 d.opening_ne_nil
  have hclosing := List.length_pos_iff.2 d.closing_ne_nil
  omega

/-- Where a token can stand: none is empty, none reaches beyond the end, and a tag has at least a
character for each of its delimiters. -/
theorem Placed.bounds {s : List Char} {d : Delimiters} {a : Nat} {ts : List Token}
    (h : Placed s d a ts) : ∀ t ∈ ts, t.start < t.stop ∧ t.stop ≤ s.length ∧
      (t.kind ≠ .text → t.start + 2 ≤ t.stop) := by
  induction h with
  | nil => simp
  | text hk _ ht _ ih =>
    exact List.forall_mem_cons.2 ⟨⟨ht.start_lt, ht.stop_le, absurd hk⟩, ih⟩
  | tag _ _ ht _ _ ih =>
    exact List.forall_mem_cons.2 ⟨⟨ht.start_lt, ht.stop_le, fun _ => ht.add_two_le⟩, ih⟩

theorem kind_of_dropped {us : List Token} {i : Nat} (h : Dropped us i) {t : Token}
    (ht : us[i]? = some t) : t.kind = .text := by
  obtain ⟨u, hu, hk, -⟩ := h.1
  rw [ht, Option.mem_some] at hu
  rw [hu, hk]

/-- Where there are only tags, nothing is dropped. -/
theorem not_dropsAt_of_tags {d : Delimiters} {template : String} {us : List Token}
    (h : scan d 0 0 template.toList = .ok us) (htags : ∀ t ∈ us, t.kind ≠ .text) (i : Nat) :
    ¬ DropsAt d template i := by
  rintro ⟨us', k, t, hus, ht, -, hdropped⟩
  obtain rfl : us = us' := Except.ok.inj (h.symm.trans hus)
  exact htags t (List.mem_of_getElem? ht) (kind_of_dropped hdropped ht)

/-- A section at any depth, down at the tokens that tile the template: between the tokens of its two
tags stand those that tile its source, and its children are nested from what is left of these. -/
theorem exists_tiles_of_section {d : Delimiters} {template : String} {ns : List Node}
    (h : parse d template = .ok ns) {before after children : List Node} {t : Token} {close : Nat}
    (hcut : Node.preorder ns = before ++ .block t children close :: after) :
    ∃ e us front vs c back, Tiles d template.toList 0 us ∧
      us = front ++ t :: (vs.map (Token.shift t.stop) ++ c :: back) ∧
      t.kind.opensSection = true ∧ c.start = close ∧
      inForce d (before.map Node.token ++ [t]) = .ok e ∧
      Tiles e (Render.source template t.stop close).toList 0 vs ∧
      Nested (squash (itemsAt (fun i => ¬ Dropped us (front.length + 1 + i))
        (vs.map (Token.shift t.stop)))) children := by
  obtain ⟨us, hus, hnest⟩ := parse_eq_ok_iff.1 h
  -- The cut is taken back from the tree to the joined tokens, the stripped ones and all of them.
  obtain ⟨ts, inner, c, back, hsquash, hinner, hopen, hclose, rfl, hbefore⟩ :=
    hnest.of_preorder hcut
  have htext : t.kind ≠ .text := fun ht => by simp [ht, Token.Kind.opensSection] at hopen
  have hsetter : t.kind ≠ .delimiterTag := fun ht => by simp [ht, Token.Kind.opensSection] at hopen
  rw [List.append_assoc, List.cons_append] at hsquash
  obtain ⟨ws, ws', hstrip, rfl, hws'⟩ := squash_eq_append_cons htext hsquash
  obtain ⟨mid, back', rfl, rfl, -⟩ := squash_eq_append_cons (by simp [hclose]) hws'
  rw [strip_eq_itemsAt] at hstrip
  obtain ⟨u₁, rest, hu, hu₁, hrest⟩ := itemsAt_eq_append_cons hstrip
  obtain ⟨u₂, u₃, rfl, rfl, -⟩ := itemsAt_eq_append_cons hrest
  have htiles := hus
  rw [hu] at htiles
  obtain ⟨e, s₁, r, hr, he, -, htiles⟩ := htiles.split
  rw [Nat.zero_add] at htiles
  obtain ⟨r', hr', hle, htiles⟩ := htiles.of_tag htext hsetter
  obtain ⟨e', s₂, s₃, rfl, -, hmid, hback⟩ := htiles.split
  have hstart : c.start = t.stop + s₂.length := hback.head_start rfl
  have hsource : (Render.source template t.stop c.start).toList = s₂ := by
    have hdrop : template.toList.drop t.stop = s₂ ++ s₃ := by
      rw [hr, ← hr', List.drop_append, List.drop_eq_nil_of_le hle, List.nil_append]
    rw [Render.source, String.toList_ofList, hdrop, hstart, Nat.add_sub_cancel_left, List.take_left]
  rw [← Nat.zero_add t.stop] at hmid
  obtain ⟨vs, hvs, rfl⟩ := tiles_shift_iff.1 hmid
  refine ⟨e, us, u₁, vs, c, u₃, hus, hu, hopen, rfl, ?_, by rwa [hsource], hinner⟩
  have htags : Token.tags ws = Token.tags u₁ := by
    rw [← hu₁]
    refine tags_itemsAt fun i u hi hdropped => kind_of_dropped (not_not.1 hdropped) ?_
    rw [hu, List.getElem?_append_left (List.getElem?_eq_some_iff.1 hi).1, hi]
  rw [hbefore, inForce_append (by rw [inForce_squash htags, he]), inForce_singleton,
    delimiters_of_not_delimiterTag hsetter]

section Source

variable {d : Delimiters} {template : String} {ns before after children : List Node} {t : Token}
  {close : Nat}

/-- The source of a section can be read, and has the section's tags. Tags take no notice of what is
dropped. -/
theorem exists_parse_source (h : parse d template = .ok ns)
    (hcut : Node.preorder ns = before ++ .block t children close :: after) :
    ∃ e ms, inForce d (before.map Node.token ++ [t]) = .ok e ∧
      parse e (Render.source template t.stop close) = .ok ms ∧
      Node.tags children = Node.shiftAll t.stop (Node.tags ms) := by
  obtain ⟨e, us, front, vs, c, back, -, hu, -, rfl, he, hvs, hchildren⟩ :=
    exists_tiles_of_section h hcut
  have hkeep : Token.tags (itemsAt (fun i => ¬ Dropped us (front.length + 1 + i))
      (vs.map (Token.shift t.stop))) = (Token.tags vs).map (Token.shift t.stop) := by
    have htexts (i : Nat) (u : Token) (hi : (vs.map (Token.shift t.stop))[i]? = some u)
        (hdropped : ¬ ¬ Dropped us (front.length + 1 + i)) : u.kind = .text := by
      refine kind_of_dropped (not_not.1 hdropped) ?_
      rw [hu, getElem?_middle front t _ (List.getElem?_eq_some_iff.1 hi).1, hi]
    rw [tags_itemsAt htexts]
    simp [Token.tags, List.filter_map, Function.comp_def]
  have htags : Nested ((Token.tags vs).map (Token.shift t.stop)) (Node.tags children) := by
    rw [← hkeep, ← tags_squash]
    exact hchildren.tags
  obtain ⟨ks, hks, hshift⟩ := htags.of_shift
  obtain ⟨ms, hms, rfl⟩ := Node.exists_nested_of_tags hks
    ((tags_squash (strip vs)).trans (tags_strip vs))
  exact ⟨e, ms, he, parse_eq_ok_iff.2 ⟨vs, hvs, hms⟩, hshift⟩

/-- Where nothing is dropped, the children were nested from all the tokens of the source. -/
theorem children_eq_of_not_dropsAt (h : parse d template = .ok ns)
    (hcut : Node.preorder ns = before ++ .block t children close :: after) {e : Delimiters}
    (he : inForce d (before.map Node.token ++ [t]) = .ok e) {ms : List Node}
    (hms : parse e (Render.source template t.stop close) = .ok ms)
    (hdrop : ∀ i, t.stop ≤ i → i < close → ¬ DropsAt d template i)
    (hdrop' : ∀ i, ¬ DropsAt e (Render.source template t.stop close) i) :
    children = Node.shiftAll t.stop ms := by
  obtain ⟨e', us, front, vs, c, back, hus, hu, -, rfl, he', hvs, hchildren⟩ :=
    exists_tiles_of_section h hcut
  obtain rfl : e = e' := Except.ok.inj (he.symm.trans he')
  have hall : itemsAt (fun i => ¬ Dropped us (front.length + 1 + i))
      (vs.map (Token.shift t.stop)) = vs.map (Token.shift t.stop) := by
    refine itemsAt_eq_self fun i hi hdropped => ?_
    have hget := getElem?_middle front t (c :: back) hi
    rw [← hu, List.getElem?_eq_getElem hi] at hget
    have hmem := List.getElem_mem hi
    generalize (vs.map (Token.shift t.stop))[i] = u at hget hmem
    obtain ⟨v, -, rfl⟩ := List.mem_map.1 hmem
    have hbound : (v.shift t.stop).start < c.start := by
      have hplaced := hus.placed List.drop_zero
      refine (hplaced.bounds _ (by simp only [hu, List.mem_append, List.mem_cons, hmem, or_true,
        true_or])).1.trans_le ?_
      have hpairwise := hplaced.pairwise
      rw [hu, List.pairwise_append, List.pairwise_cons, List.pairwise_append] at hpairwise
      exact hpairwise.2.1.2.2.2 _ hmem c List.mem_cons_self
    exact hdrop _ (Nat.le_add_left _ _) hbound
      ⟨us, front.length + 1 + i, _, hus.scan_eq, hget, rfl, hdropped⟩
  rw [hall, squash_shift] at hchildren
  obtain ⟨ms', hms', rfl⟩ := hchildren.of_shift
  have hread : parse e (Render.source template t.stop c.start) = .ok ms' :=
    parse_eq_ok_iff.2 ⟨vs, hvs, by rwa [strip_eq_self_of_not_dropsAt hvs hdrop']⟩
  rw [Except.ok.inj (hread.symm.trans hms)]

/-- Where there are only tags, nothing is dropped in the source of a section either. -/
theorem not_dropsAt_source_of_tags (h : parse d template = .ok ns)
    (hcut : Node.preorder ns = before ++ .block t children close :: after) {e : Delimiters}
    (he : inForce d (before.map Node.token ++ [t]) = .ok e) {us : List Token}
    (hscan : scan d 0 0 template.toList = .ok us) (htags : ∀ u ∈ us, u.kind ≠ .text) (i : Nat) :
    ¬ DropsAt e (Render.source template t.stop close) i := by
  obtain ⟨e', us', front, vs, c, back, hus, hu, -, rfl, he', hvs, -⟩ :=
    exists_tiles_of_section h hcut
  obtain rfl : e = e' := Except.ok.inj (he.symm.trans he')
  obtain rfl : us = us' := Except.ok.inj (hscan.symm.trans hus.scan_eq)
  refine not_dropsAt_of_tags hvs.scan_eq (fun v hv => ?_) i
  have hmem : v.shift t.stop ∈ us := by
    rw [hu]
    simp [List.mem_map_of_mem hv]
  have hkind := htags _ hmem
  rwa [Token.shift_kind] at hkind

/-- A section's token is that of an opening tag, and between this and the closing tag stands what
the section holds. -/
theorem section_bounds (h : parse d template = .ok ns)
    (hmem : .block t children close ∈ Node.preorder ns) :
    t.kind.opensSection = true ∧ 2 ≤ t.stop ∧ t.stop ≤ close ∧ close < template.length := by
  obtain ⟨before, after, hcut⟩ := List.append_of_mem hmem
  obtain ⟨e, us, front, vs, c, back, hus, hu, hopen, rfl, -⟩ := exists_tiles_of_section h hcut
  have hplaced := hus.placed List.drop_zero
  have ht := (hplaced.bounds t (by simp [hu])).2.2 fun hk => by
    simp [hk, Token.Kind.opensSection] at hopen
  obtain ⟨hlt, hle, -⟩ := hplaced.bounds c (by simp [hu])
  have hpairwise := hplaced.pairwise
  rw [hu, List.pairwise_append, List.pairwise_cons] at hpairwise
  have htc := hpairwise.2.1.1 c (by simp)
  rw [String.length_toList] at hle
  exact ⟨hopen, by omega, htc, by omega⟩

/-- A section stands in a text: its opening tag, then what it holds, and then, where the section
says, the closing tag of the same name. -/
def SectionAt (s : List Char) (t : Token) (children : List Node) (close : Nat) : Prop :=
  ∃ d e us b c, TagAt s d t ∧ Laid s d t.stop children us e b ∧ b ≤ close ∧
    TagAt s e c ∧ c.kind = .closeTag ∧ c.value = t.value ∧ c.start = close

theorem Laid.sectionAt {s : List Char} {d e : Delimiters} {a b : Nat} {ms : List Node}
    {us : List Token} (h : Laid s d a ms us e b)
    (hmem : .block t children close ∈ Node.preorder ms) : SectionAt s t children close := by
  induction h with
  | nil => cases hmem
  | text _ _ _ _ _ ih | tag _ _ _ _ _ _ _ ih =>
    refine ih ?_
    simpa [Node.preorder, Node.within] using hmem
  | block _ _ htag hinner hb hclose hkind hname _ ih ih' =>
    rw [Node.preorder, Node.within, List.cons_append, List.mem_cons, List.mem_append] at hmem
    rcases hmem with heq | hin | hrest
    · cases heq
      exact ⟨_, _, _, _, _, htag, hinner, hb, hclose, hkind, hname, rfl⟩
    · exact ih hin
    · exact ih' hrest

/-- A section at any depth stands in the template. -/
theorem sectionAt_of_parse (h : parse d template = .ok ns)
    (hmem : .block t children close ∈ Node.preorder ns) :
    SectionAt template.toList t children close := by
  obtain ⟨us, hus, hnest⟩ := parse_eq_ok_iff.1 h
  have hplaced : Placed template.toList d 0 (strip us) :=
    (hus.placed List.drop_zero).dropsTexts (dropsTexts_strip us)
  obtain ⟨hsquash, -⟩ := squash_placed hplaced (isChain_strip hus.isChain)
  rw [← List.append_nil (squash (strip us))] at hsquash
  obtain ⟨e, b, hlaid, -⟩ := laid_of_nested hnest hsquash (isChain_squash (strip us))
  exact hlaid.sectionAt hmem

/-- **The source of a section is what the section holds.** Read with the delimiters in force behind
its opening tag, it has the section's tags, counted from the end of that tag; and if neither the
template nor the source drops a blank text there, it has the section's texts as well. -/
theorem parse_source (h : parse d template = .ok ns)
    (hcut : Node.preorder ns = before ++ .block t children close :: after) :
    ∃ e ms, inForce d (before.map Node.token ++ [t]) = .ok e ∧
      parse e (Render.source template t.stop close) = .ok ms ∧
      Node.tags children = Node.shiftAll t.stop (Node.tags ms) ∧
      ((∀ i, t.stop ≤ i → i < close → ¬ DropsAt d template i) →
        (∀ i, ¬ DropsAt e (Render.source template t.stop close) i) →
          children = Node.shiftAll t.stop ms) := by
  obtain ⟨e, ms, he, hms, htags⟩ := exists_parse_source h hcut
  exact ⟨e, ms, he, hms, htags, children_eq_of_not_dropsAt h hcut he hms⟩

end Source

/-- The source of a part of a template's part. -/
theorem source_source {template : String} {i j k l : Nat} (h : l + i ≤ j) :
    Render.source (Render.source template i j) k l = Render.source template (k + i) (l + i) := by
  rw [Render.source, Render.source, Render.source, String.toList_ofList, List.drop_take,
    List.take_take, List.drop_drop]
  congr 2
  · omega
  · rw [Nat.add_comm]

theorem parse_source_nested :
    ∃ e ms, inForce .braces ([⟨.delimiterTag, "<% %>", 0, 11⟩, ⟨.sectionTag, "a", 11, 17⟩,
        ⟨.text, " ", 17, 18⟩, ⟨.sectionTag, "a", 18, 24⟩]) = .ok e ∧
      parse e (Render.source "\x7b\x7b=<% %>=\x7d\x7d<%#a%> <%#a%>x<%/a%><%/a%>" 24 25) = .ok ms ∧
      Node.tags [.leaf ⟨.text, "x", 24, 25⟩] = Node.shiftAll 24 (Node.tags ms) ∧
      ((∀ i, 24 ≤ i → i < 25 → ¬ DropsAt .braces
          "\x7b\x7b=<% %>=\x7d\x7d<%#a%> <%#a%>x<%/a%><%/a%>" i) →
        (∀ i, ¬ DropsAt e
          (Render.source "\x7b\x7b=<% %>=\x7d\x7d<%#a%> <%#a%>x<%/a%><%/a%>" 24 25) i) →
          [.leaf ⟨.text, "x", 24, 25⟩] = Node.shiftAll 24 ms) := by
  have h : parse .braces "\x7b\x7b=<% %>=\x7d\x7d<%#a%> <%#a%>x<%/a%><%/a%>" =
      .ok [.leaf ⟨.delimiterTag, "<% %>", 0, 11⟩, .block ⟨.sectionTag, "a", 11, 17⟩
        [.leaf ⟨.text, " ", 17, 18⟩,
          .block ⟨.sectionTag, "a", 18, 24⟩ [.leaf ⟨.text, "x", 24, 25⟩] 25] 31] := by
    with_unfolding_all rfl
  have hcut : Node.preorder [.leaf ⟨.delimiterTag, "<% %>", 0, 11⟩,
      .block ⟨.sectionTag, "a", 11, 17⟩ [.leaf ⟨.text, " ", 17, 18⟩,
        .block ⟨.sectionTag, "a", 18, 24⟩ [.leaf ⟨.text, "x", 24, 25⟩] 25] 31] =
      [.leaf ⟨.delimiterTag, "<% %>", 0, 11⟩, .block ⟨.sectionTag, "a", 11, 17⟩
        [.leaf ⟨.text, " ", 17, 18⟩,
          .block ⟨.sectionTag, "a", 18, 24⟩ [.leaf ⟨.text, "x", 24, 25⟩] 25] 31,
        .leaf ⟨.text, " ", 17, 18⟩] ++
      .block ⟨.sectionTag, "a", 18, 24⟩ [.leaf ⟨.text, "x", 24, 25⟩] 25 ::
        [.leaf ⟨.text, "x", 24, 25⟩] := rfl
  exact parse_source h hcut

end Template

end Mustache
