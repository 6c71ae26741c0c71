import Mustache.Proofs.Template.Mark

/-!
# What a tag depends on

A tag is read from its own characters. Where a text is cut behind a tag, the tag is read from the
first part as it is read from the whole; and what is put behind a text changes none of its tags, if
the closing delimiter does not start with a blank character.

**Idea.** A tag is a lead (its opening delimiter, its sigil and the blank characters around them)
and the first matches of one or two patterns after it (`Closes`). A run of blank characters that
ends inside a text ends there whatever follows. A first match that lies inside a text is the first
one in any longer text (`Finds.of_append`, `Finds.append`): an earlier one would have to reach
beyond the text, and so its blank characters would pass over the first character of the word.

Main statements: `Tag.read?_of_append` and `Tag.read?_append`.
-/

namespace Mustache

open Text

/-! ## Runs of blank characters -/

/-- A run of blank characters that ends inside the first part of a text ends where it does in that
part alone. -/
theorem blankRun_append_of_lt {s rest : List Char}
    (h : min (blankRun (s ++ rest)) (blankRun s) < s.length) :
    blankRun (s ++ rest) = blankRun s := by
  rw [blankRun, blankRun, List.takeWhile_append] at *
  split at h
  · next hall => simp [hall] at h
  · next hall => rw [if_neg hall]

namespace Pattern

variable {word s rest : List Char}

/-! ## Matches of a word after blank characters -/

theorem isSome_blanksThenLength? :
    (blanksThenLength? word s).isSome ↔
      ∃ w : List Char, (∀ c ∈ w, isBlank c = true) ∧ w ++ word <+: s := by
  constructor
  · intro h
    obtain ⟨n, hn⟩ := Option.isSome_iff_exists.1 h
    obtain ⟨w, hw, hp, -⟩ := blanksThenLength?_eq_some hn
    exact ⟨w, hw, hp⟩
  · rintro ⟨w, hw, hp⟩
    induction w generalizing s with
    | nil =>
      have here : wordLength? word s = some word.length := wordLength?_eq_some.2 ⟨hp, rfl⟩
      cases s with
      | nil => rw [blanksThenLength?, here]; rfl
      | cons c r =>
        rw [blanksThenLength?, here]
        split
        · simp
        · rfl
    | cons b w ih =>
      obtain ⟨hb, hw⟩ := List.forall_mem_cons.1 hw
      obtain ⟨t, rfl⟩ := hp
      obtain ⟨n, hn⟩ := Option.isSome_iff_exists.1 (ih hw (List.prefix_append _ t))
      rw [List.cons_append, List.cons_append, blanksThenLength?, if_pos hb, hn]
      rfl

/-- Where there is no match in a text, there is none in its first part. -/
theorem length?_eq_none_of_append (h : (blanksThen word).length? (s ++ rest) = none) :
    (blanksThen word).length? s = none := by
  rw [← Option.not_isSome_iff_eq_none] at h ⊢
  intro hs
  obtain ⟨w, hw, hp⟩ := isSome_blanksThenLength?.1 hs
  exact h (isSome_blanksThenLength?.2 ⟨w, hw, hp.trans (List.prefix_append s rest)⟩)

/-- A match that lies inside the first part of a text is the match in that part alone. -/
theorem length?_of_append {n : Nat} (h : (blanksThen word).length? (s ++ rest) = some n)
    (hn : n ≤ s.length) : (blanksThen word).length? s = some n := by
  have here {t : List Char} {m : Nat} (ht : wordLength? word (t ++ rest) = some m)
      (hm : m ≤ t.length) : wordLength? word t = some m := by
    obtain ⟨hp, rfl⟩ := wordLength?_eq_some.1 ht
    exact wordLength?_eq_some.2
      ⟨List.prefix_of_prefix_length_le hp (List.prefix_append t rest) hm, rfl⟩
  change blanksThenLength? word (s ++ rest) = some n at h
  show blanksThenLength? word s = some n
  induction s generalizing n with
  | nil =>
    obtain rfl : n = 0 := by simpa using hn
    have hword : word = [] := List.length_eq_zero_iff.1 (Nat.le_zero.1 (blanksThenLength?_le h).1)
    exact wordLength?_eq_some.2 ⟨by simp [hword], by simp [hword]⟩
  | cons c r ih =>
    rw [List.cons_append, blanksThenLength?] at h
    rw [blanksThenLength?]
    split at h
    · next hc =>
      rw [if_pos hc]
      rcases Option.or_eq_some_iff.1 h with h | ⟨hnone, h⟩
      · obtain ⟨m, hm, rfl⟩ := Option.map_eq_some_iff.1 h
        rw [ih (by simpa using hn) hm]
        rfl
      · rw [Option.map_eq_none_iff] at hnone
        have hnone' : blanksThenLength? word r = none := length?_eq_none_of_append hnone
        rw [hnone', here (t := c :: r) h hn]
        rfl
    · next hc =>
      rw [if_neg hc]
      exact here (t := c :: r) h hn

/-- Nothing that follows makes a match longer, if the word does not start with a blank character. -/
theorem length?_append (hword : Solid word) (hne : word ≠ []) {n : Nat}
    (h : (blanksThen word).length? s = some n) (rest : List Char) :
    (blanksThen word).length? (s ++ rest) = some n := by
  obtain ⟨w, hw, ⟨t, rfl⟩, rfl⟩ := blanksThenLength?_eq_some h
  rw [List.append_assoc, List.append_assoc]
  exact length?_blanksThen hw hword hne

/-! ## First matches -/

/-- The first match of a pattern stands at the offset `k` and has the length `n`. -/
structure Finds (p : Pattern) (s : List Char) (k n : Nat) : Prop where
  here : p.length? (s.drop k) = some n
  before : ∀ j < k, p.length? (s.drop j) = none

theorem Finds.offset {p : Pattern} {k n : Nat} (h : p.Finds s k n) : p.offset s = k :=
  offset_eq_of_first (by rw [h.here]; rfl) h.before

theorem finds_of_length? {p : Pattern} {n : Nat} (h : p.length? (s.drop (p.offset s)) = some n) :
    p.Finds s (p.offset s) n := by
  refine ⟨h, fun j hj => ?_⟩
  rw [Pattern.offset] at h hj
  cases hf : p.find? s with
  | none => exact find?_none hf j
  | some k =>
    rw [hf] at hj
    exact (find?_some hf).2.2 j hj

/-- A word is first found behind a value that does not end with a blank character and does not have
the word's first character, with the blank characters that stand in front of the word. -/
theorem finds_blanksThen {w value : List Char} (hw : ∀ c ∈ w, isBlank c = true)
    (hword : Solid word) (hne : word ≠ []) (hlast : ∀ c ∈ value.getLast?, isBlank c = false)
    (hfree : ∀ c ∈ word.head?, c ∉ value) :
    (blanksThen word).Finds (value ++ (w ++ (word ++ rest))) value.length
      (w.length + word.length) where
  here := by rw [List.drop_left, length?_blanksThen hw hword hne]
  before _ hj := length?_blanksThen_value hne hlast hfree hj

/-- A search that comes to no match comes to the end. -/
theorem offset_of_length?_eq_none {p : Pattern} (h : p.length? (s.drop (p.offset s)) = none) :
    p.offset s = s.length := by
  rw [Pattern.offset] at h ⊢
  cases hf : p.find? s with
  | none => rfl
  | some k =>
    have hsome := (find?_some hf).2.1
    rw [hf, Option.getD_some] at h
    rw [h] at hsome
    cases hsome

theorem length?_nil (hne : word ≠ []) : (blanksThen word).length? [] = none := by
  show wordLength? word [] = none
  rw [Option.eq_none_iff_forall_ne_some]
  intro n hn
  exact hne (List.prefix_nil.1 (wordLength?_eq_some.1 hn).1)

/-- A first match is followed by nothing less than itself. -/
theorem Finds.add_le {k n : Nat} (hne : word ≠ []) (h : (blanksThen word).Finds s k n) :
    k + n ≤ s.length := by
  have hlen := length?_le h.here
  rw [List.length_drop] at hlen
  by_cases hk : k ≤ s.length
  · omega
  · have hnone := h.here
    rw [List.drop_eq_nil_of_le (by omega), length?_nil hne] at hnone
    cases hnone

theorem Finds.of_append {k n : Nat} (h : (blanksThen word).Finds (s ++ rest) k n)
    (hle : k + n ≤ s.length) : (blanksThen word).Finds s k n where
  here := by
    have := h.here
    rw [List.drop_append_of_le_length (by omega)] at this
    exact length?_of_append this (by rw [List.length_drop]; omega)
  before j hj := by
    have := h.before j hj
    rw [List.drop_append_of_le_length (by omega)] at this
    exact length?_eq_none_of_append this

theorem Finds.append (hword : Solid word) (hne : word ≠ []) {k n : Nat}
    (h : (blanksThen word).Finds s k n) (rest : List Char) :
    (blanksThen word).Finds (s ++ rest) k n := by
  have hle := h.add_le hne
  refine ⟨?_, fun j hj => ?_⟩
  · rw [List.drop_append_of_le_length (by omega)]
    exact length?_append hword hne h.here rest
  rw [List.drop_append_of_le_length (by omega), ← Option.not_isSome_iff_eq_none]
  intro hs
  -- A match at `j` has its word no later than the one at `k`, and so lies inside the text too.
  obtain ⟨w', hw', hp'⟩ := isSome_blanksThenLength?.1 hs
  obtain ⟨w, hw, hp, rfl⟩ := blanksThenLength?_eq_some h.here
  obtain ⟨c, tail, rfl⟩ := List.exists_cons_of_ne_nil hne
  have hword' : j + w'.length ≤ k + w.length := by
    by_contra hlt
    have hc : (s.drop j ++ rest)[k + w.length - j]? = some c := by
      obtain ⟨u, hu⟩ := hp
      rw [List.getElem?_append_left (by simp at hle ⊢; omega), List.getElem?_drop,
        show j + (k + w.length - j) = k + w.length by omega, ← List.getElem?_drop, ← hu,
        List.append_assoc, List.getElem?_append_right (Nat.le_refl _)]
      simp
    obtain ⟨u, hu⟩ := hp'
    rw [← hu, List.append_assoc, List.getElem?_append_left (by omega)] at hc
    have hblank := hw' c (List.mem_of_getElem? hc)
    rw [hword c rfl] at hblank
    cases hblank
  have hprefix : w' ++ c :: tail <+: s.drop j := by
    refine List.prefix_of_prefix_length_le hp' (List.prefix_append _ rest) ?_
    rw [List.length_append, List.length_drop]
    omega
  have hnone := h.before j hj
  rw [← Option.not_isSome_iff_eq_none] at hnone
  exact hnone (isSome_blanksThenLength?.2 ⟨w', hw', hprefix⟩)

end Pattern

/-! ## The parts of a tag -/

namespace Tag

variable {d : Delimiters} {s rest : List Char} {sigil : Option Char}

/-- The sigil of the tag at the start of a text, and the offset of its value. -/
def lead (d : Delimiters) (s : List Char) : Option Char × Nat :=
  let opening := d.start.width s
  let (sigil, body) := splitSigil (s.drop opening)
  (sigil, opening + sigil.toList.length + blankRun body)

/-- For the sigils that are closed by a sign: the word that ends the value, and the sign. -/
def signs (d : Delimiters) : Option Char → Option (List Char × List Char)
  | some '=' => some (['='], ['='])
  | some '{' => some ('}' :: d.closing, ['}'])
  | _ => none

/-- `Closes d sigil s e n`: of the tag whose value starts the text `s`, the value ends at the offset
`e` and the tag itself at `n`. -/
inductive Closes (d : Delimiters) (sigil : Option Char) (s : List Char) : Nat → Nat → Prop
  | plain {e n : Nat} : signs d sigil = none → d.stop.Finds s e n → Closes d sigil s e (e + n)
  | signed {value sign : List Char} {e l m k n : Nat} : signs d sigil = some (value, sign) →
      (Pattern.blanksThen value).Finds s e l →
      (Pattern.blanksThen sign).length? (s.drop e) = some m →
      d.stop.Finds (s.drop (e + m)) k n → Closes d sigil s e (e + m + k + n)

theorem read?_eq (d : Delimiters) (s : List Char) :
    Tag.read? d s =
      let value := s.drop (lead d s).2
      let (e, stop) := valueSpan d (lead d s).1 value
      (d.stop.length? (value.drop stop)).map fun n =>
        ⟨Token.Kind.ofSigil (lead d s).1, value.take e, (lead d s).2 + stop + n⟩ := by
  have hbody : (splitSigil (s.drop (d.start.width s))).2 =
      s.drop (d.start.width s + (splitSigil (s.drop (d.start.width s))).1.toList.length) := by
    have := congrArg (List.drop (splitSigil (s.drop (d.start.width s))).1.toList.length)
      (splitSigil_eq (s.drop (d.start.width s)))
    simpa using this
  simp only [Tag.read?, lead, hbody, List.drop_drop]

theorem valueSpan_of_plain (h : signs d sigil = none) :
    valueSpan d sigil s = (d.stop.offset s, d.stop.offset s) := by
  unfold valueSpan
  split
  · cases h
  · cases h
  · rfl

theorem valueSpan_of_signed {value sign : List Char} (h : signs d sigil = some (value, sign)) :
    valueSpan d sigil s =
      let n := (Pattern.blanksThen value).offset s
      let m := n + (Pattern.blanksThen sign).width (s.drop n)
      (n, m + d.stop.offset (s.drop m)) := by
  unfold signs at h
  split at h <;> cases h <;> rfl

/-- The word that ends a value starts with the sign, and there is not more of it than the closing
delimiter after it. -/
theorem signs_spec {value sign : List Char} (h : signs d sigil = some (value, sign)) :
    ∃ t, value = sign ++ t ∧ t.length ≤ d.closing.length ∧ sign ≠ [] ∧ Solid sign := by
  unfold signs at h
  split at h
  · cases h
    exact ⟨[], rfl, Nat.zero_le _, by simp, by simp [Solid, isBlank]⟩
  · cases h
    exact ⟨d.closing, rfl, Nat.le_refl _, by simp, by simp [Solid, isBlank]⟩
  · cases h

/-- Where a word is found whose beginning is the sign, the sign is found too. -/
theorem length?_sign {sign t : List Char} (hne : sign ≠ []) (hsolid : Solid sign) {e l : Nat}
    (h : (Pattern.blanksThen (sign ++ t)).length? (s.drop e) = some l) :
    ∃ m, (Pattern.blanksThen sign).length? (s.drop e) = some m ∧ l = m + t.length := by
  obtain ⟨w, hw, ⟨u, hu⟩, rfl⟩ := Pattern.blanksThenLength?_eq_some h
  refine ⟨w.length + sign.length, ?_, by rw [List.length_append]; omega⟩
  rw [← hu, List.append_assoc, List.append_assoc]
  exact Pattern.length?_blanksThen hw hsolid hne

theorem closes_iff {e n : Nat} :
    Closes d sigil s e n ↔ ∃ stop m, valueSpan d sigil s = (e, stop) ∧
      d.stop.length? (s.drop stop) = some m ∧ n = stop + m := by
  constructor
  · intro h
    cases h with
    | @plain e n hs hf =>
      exact ⟨e, n, by rw [valueSpan_of_plain hs, hf.offset], hf.here, rfl⟩
    | @signed value sign e l m k n hs hv hm hf =>
      refine ⟨e + m + k, n, ?_, ?_, rfl⟩
      · rw [valueSpan_of_signed hs]
        simp only [hv.offset, Pattern.width, hm, Option.getD_some, hf.offset]
      · rw [← List.drop_drop]
        exact hf.here
  · rintro ⟨stop, m, hspan, hm, rfl⟩
    cases hs : signs d sigil with
    | none =>
      rw [valueSpan_of_plain hs, Prod.mk.injEq] at hspan
      obtain ⟨rfl, rfl⟩ := hspan
      exact .plain hs (Pattern.finds_of_length? hm)
    | some p =>
      obtain ⟨value, sign⟩ := p
      obtain ⟨t, rfl, -, hne, hsolid⟩ := signs_spec hs
      rw [valueSpan_of_signed hs, Prod.mk.injEq] at hspan
      obtain ⟨rfl, rfl⟩ := hspan
      set e := (Pattern.blanksThen (sign ++ t)).offset s with he
      rw [← List.drop_drop] at hm
      have hf := Pattern.finds_of_length? hm
      cases hv : (Pattern.blanksThen (sign ++ t)).length? (s.drop e) with
      | some l =>
        obtain ⟨q, hq, -⟩ := length?_sign hne hsolid hv
        simp only [Pattern.width, hq, Option.getD_some] at hf ⊢
        exact .signed hs (Pattern.finds_of_length? hv) hq hf
      | none =>
        -- Where the value has no end, nothing is left in which the tag could end.
        have hend : e = s.length := Pattern.offset_of_length?_eq_none hv
        have hnil : (s.drop (e + (Pattern.blanksThen sign).width (s.drop e))) = [] :=
          List.drop_eq_nil_of_le (by omega)
        rw [hnil, List.drop_nil] at hm
        rw [show d.stop.length? [] = none from Pattern.length?_nil d.closing_ne_nil] at hm
        cases hm

/-- A tag is its lead and what closes it. -/
theorem read?_eq_some_iff {tag : Tag} :
    Tag.read? d s = some tag ↔ ∃ e n, Closes d (lead d s).1 (s.drop (lead d s).2) e n ∧
      tag = ⟨Token.Kind.ofSigil (lead d s).1, (s.drop (lead d s).2).take e,
        (lead d s).2 + n⟩ := by
  rw [read?_eq]
  simp only [Option.map_eq_some_iff, closes_iff]
  rcases hspan : valueSpan d (lead d s).1 (s.drop (lead d s).2) with ⟨e, stop⟩
  constructor
  · rintro ⟨m, hm, rfl⟩
    exact ⟨e, stop + m, ⟨stop, m, rfl, hm, rfl⟩, by rw [Nat.add_assoc]⟩
  · rintro ⟨e', n, ⟨stop', m, heq, hm, rfl⟩, rfl⟩
    obtain ⟨rfl, rfl⟩ := Prod.mk.inj heq
    exact ⟨m, hm, by rw [Nat.add_assoc]⟩

theorem Closes.lt {e n : Nat} (h : Closes d sigil s e n) : e < n ∧ n ≤ s.length := by
  have hpos := List.length_pos_iff.2 d.closing_ne_nil
  cases h with
  | plain _ hf =>
    have := (Pattern.blanksThenLength?_le hf.here).1
    exact ⟨by omega, hf.add_le d.closing_ne_nil⟩
  | signed _ _ _ hf =>
    have := (Pattern.blanksThenLength?_le hf.here).1
    have hle := hf.add_le d.closing_ne_nil
    rw [List.length_drop] at hle
    exact ⟨by omega, by omega⟩

theorem Closes.of_append {e n : Nat} (h : Closes d sigil (s ++ rest) e n) (hn : n ≤ s.length) :
    Closes d sigil s e n := by
  cases h with
  | plain hs hf => exact .plain hs (hf.of_append hn)
  | @signed value sign e l m k n hs hv hm hf =>
    obtain ⟨t, rfl, ht, hne, hsolid⟩ := signs_spec hs
    have hclosing := (Pattern.blanksThenLength?_le hf.here).1
    obtain ⟨q, hq, rfl⟩ := length?_sign hne hsolid hv.here
    rw [hm, Option.some.injEq] at hq
    subst hq
    rw [List.drop_append_of_le_length (by omega)] at hm hf
    refine .signed hs (hv.of_append (by omega)) ?_ (hf.of_append ?_)
    · exact Pattern.length?_of_append hm (by rw [List.length_drop]; omega)
    · rw [List.length_drop]
      omega

theorem Closes.append (hclosing : Solid d.closing) {e n : Nat} (h : Closes d sigil s e n)
    (rest : List Char) : Closes d sigil (s ++ rest) e n := by
  have hn := h.lt.2
  cases h with
  | plain hs hf => exact .plain hs (hf.append hclosing d.closing_ne_nil rest)
  | @signed value sign e l m k n hs hv hm hf =>
    obtain ⟨t, rfl, -, hne, hsolid⟩ := signs_spec hs
    have hvalue : Solid (sign ++ t) := by
      intro c hc
      rw [List.head?_append_of_ne_nil _ hne] at hc
      exact hsolid c hc
    refine .signed hs (hv.append hvalue (by simp [hne]) rest) ?_ ?_
    · rw [List.drop_append_of_le_length (by omega)]
      exact Pattern.length?_append hsolid hne hm rest
    · rw [List.drop_append_of_le_length (by omega)]
      exact hf.append hclosing d.closing_ne_nil rest

theorem splitSigil_append (hne : s ≠ []) (rest : List Char) :
    splitSigil (s ++ rest) = ((splitSigil s).1, (splitSigil s).2 ++ rest) := by
  obtain ⟨c, r, rfl⟩ := List.exists_cons_of_ne_nil hne
  rw [List.cons_append, splitSigil, splitSigil]
  split <;> rfl

/-- A lead that ends inside the first part of a text is that of this part alone. -/
theorem lead_append (ho : d.opening <+: s)
    (h : min (lead d (s ++ rest)).2 (lead d s).2 < s.length) :
    lead d (s ++ rest) = lead d s := by
  have hopening := ho.length_le
  have hwidth : d.start.width s = d.opening.length + blankRun (s.drop d.opening.length) :=
    Pattern.width_thenBlanks ho
  have hwidth' : d.start.width (s ++ rest) =
      d.opening.length + blankRun (s.drop d.opening.length ++ rest) := by
    rw [← List.drop_append_of_le_length hopening]
    exact Pattern.width_thenBlanks (ho.trans (List.prefix_append s rest))
  -- Neither run of blank characters reaches the end of the text, since a lead ends behind both.
  have hle (t : List Char) : d.start.width t ≤ (lead d t).2 := by
    simp only [lead]
    omega
  have hstart : d.start.width (s ++ rest) = d.start.width s := by
    have h₁ := hle s
    have h₂ := hle (s ++ rest)
    rw [hwidth', hwidth, blankRun_append_of_lt]
    rw [List.length_drop]
    omega
  have hlt : d.start.width s < s.length := by
    have h₁ := hle s
    have h₂ := hle (s ++ rest)
    omega
  have hsplit : splitSigil ((s ++ rest).drop (d.start.width s)) =
      ((splitSigil (s.drop (d.start.width s))).1,
        (splitSigil (s.drop (d.start.width s))).2 ++ rest) := by
    rw [List.drop_append_of_le_length (Nat.le_of_lt hlt), splitSigil_append (by simpa using hlt)]
  have hlength := congrArg List.length (splitSigil_eq (s.drop (d.start.width s)))
  rw [List.length_append, List.length_drop] at hlength
  simp only [lead, hstart, hsplit] at h ⊢
  rw [blankRun_append_of_lt (by omega)]

/-- **A tag that ends inside the first part of a text** is read from this part alone. -/
theorem read?_of_append {tag : Tag} (ho : d.opening <+: s)
    (h : Tag.read? d (s ++ rest) = some tag) (hle : tag.length ≤ s.length) :
    Tag.read? d s = some tag := by
  obtain ⟨e, n, hc, rfl⟩ := read?_eq_some_iff.1 h
  change (lead d (s ++ rest)).2 + n ≤ s.length at hle
  have hlt := hc.lt.1
  have hlead : lead d (s ++ rest) = lead d s := lead_append ho (by omega)
  have hdrop : (s ++ rest).drop (lead d s).2 = s.drop (lead d s).2 ++ rest :=
    List.drop_append_of_le_length (by rw [hlead] at hle; omega)
  rw [hlead] at hle
  rw [hlead, hdrop] at hc
  have hc' := hc.of_append (by rw [List.length_drop]; omega)
  have hn := hc'.lt.2
  rw [hlead, hdrop, List.take_append_of_le_length (by omega)]
  exact read?_eq_some_iff.2 ⟨e, n, hc', rfl⟩

/-- **A tag is read as it is, whatever follows the text,** if the closing delimiter does not start
with a blank character. -/
theorem read?_append {tag : Tag} (ho : d.opening <+: s) (hclosing : Solid d.closing)
    (h : Tag.read? d s = some tag) (rest : List Char) : Tag.read? d (s ++ rest) = some tag := by
  obtain ⟨e, n, hc, rfl⟩ := read?_eq_some_iff.1 h
  have hlt := hc.lt
  rw [List.length_drop] at hlt
  have hlead : lead d (s ++ rest) = lead d s := lead_append ho (by omega)
  have hdrop : (s ++ rest).drop (lead d s).2 = s.drop (lead d s).2 ++ rest :=
    List.drop_append_of_le_length (by omega)
  refine read?_eq_some_iff.2 ⟨e, n, ?_, ?_⟩
  · rw [hlead, hdrop]
    exact hc.append hclosing rest
  · rw [hlead, hdrop, List.take_append_of_le_length (by rw [List.length_drop]; omega)]

end Tag

end Mustache
