import Mathlib.Tactic.Common
import Mustache.Template.Parse

/-!
# Templates tiled by tokens

`scan` goes through a template character by character and counts down the characters of the tag
that it read last. `Tiles` says what comes out of this without the count: at every place there
stands either the opening delimiter and a tag, or a character of text, and the next token starts
where this one stops.

Main statements: `scan_eq_ok_iff` (a scan succeeds with exactly the tokens that tile the template)
and `Tag.read?_spec` (a tag starts with the opening and ends with the closing delimiter).
-/

namespace Mustache

open Text

/-! ## Matches of a word after blank characters -/

namespace Pattern

/-- A match of a word after blank characters is a run of them and the word. -/
theorem blanksThenLength?_eq_some {word s : List Char} {n : Nat}
    (h : blanksThenLength? word s = some n) :
    ∃ w : List Char, (∀ c ∈ w, isBlank c = true) ∧ w ++ word <+: s ∧
      n = w.length + word.length := by
  have here {t : List Char} {m : Nat} (ht : wordLength? word t = some m) :
      ∃ w : List Char, (∀ c ∈ w, isBlank c = true) ∧ w ++ word <+: t ∧
        m = w.length + word.length := by
    obtain ⟨hp, rfl⟩ := wordLength?_eq_some.1 ht
    exact ⟨[], by simp, by simpa using hp, by simp⟩
  induction s generalizing n with
  | nil => exact here h
  | cons c r ih =>
    rw [blanksThenLength?] at h
    split at h
    · next hc =>
      rcases Option.or_eq_some_iff.1 h with h | ⟨-, h⟩
      · obtain ⟨m, hm, rfl⟩ := Option.map_eq_some_iff.1 h
        obtain ⟨w, hw, hp, rfl⟩ := ih hm
        refine ⟨c :: w, ?_, by simpa using hp, by simp; omega⟩
        intro b hb
        rcases List.mem_cons.1 hb with rfl | hb
        · exact hc
        · exact hw b hb
      · exact here h
    · exact here h

/-- After the word itself there may be blank characters. -/
theorem width_thenBlanks {word s : List Char} (h : word <+: s) :
    (thenBlanks word).width s = word.length + blankRun (s.drop word.length) := by
  rw [width, length?, wordLength?_eq_some.2 ⟨h, rfl⟩]
  rfl

end Pattern

/-! ## Single tags -/

theorem splitSigil_eq (s : List Char) :
    (splitSigil s).1.toList ++ (splitSigil s).2 = s := by
  cases s with
  | nil => rfl
  | cons c r =>
    rw [splitSigil]
    split <;> rfl

/-- A tag lies inside the text, starts with the opening delimiter and ends with the closing one,
which do not overlap. -/
theorem Tag.read?_spec {d : Delimiters} {s : List Char} {tag : Tag} (ho : d.opening <+: s)
    (h : Tag.read? d s = some tag) :
    d.opening.length + d.closing.length ≤ tag.length ∧ tag.length ≤ s.length ∧
      d.closing <:+ s.take tag.length := by
  simp only [Tag.read?, Option.map_eq_some_iff] at h
  obtain ⟨n, hn, rfl⟩ := h
  set a := d.start.width s
  have ha : d.opening.length ≤ a := by
    show _ ≤ (Pattern.thenBlanks d.opening).width s
    rw [Pattern.width_thenBlanks ho]
    omega
  set sigil := (splitSigil (s.drop a)).1
  set body := (splitSigil (s.drop a)).2
  set blanks := blankRun body
  set stop := (valueSpan d sigil (body.drop blanks)).2
  set total := a + sigil.toList.length + blanks + stop
  -- All that stands before the closing delimiter is passed over at once.
  have hbody : body = s.drop (a + sigil.toList.length) := by
    have := congrArg (List.drop sigil.toList.length) (splitSigil_eq (s.drop a))
    simpa [sigil, body] using this
  have hrest : (body.drop blanks).drop stop = s.drop total := by
    rw [hbody, List.drop_drop, List.drop_drop]
    congr 1
    omega
  rw [hrest] at hn
  obtain ⟨w, -, hp, rfl⟩ := Pattern.blanksThenLength?_eq_some hn
  have hlen := hp.length_le
  have hpos : 0 < d.closing.length := List.length_pos_iff.2 d.closing_ne_nil
  rw [List.length_append, List.length_drop] at hlen
  refine ⟨by simp only; omega, by simp only; omega, ?_⟩
  have htake : s.take (total + (w.length + d.closing.length)) =
      s.take total ++ (w ++ d.closing) := by
    obtain ⟨t, ht⟩ := hp
    rw [List.take_add, ← ht, ← List.length_append, List.take_left]
  show d.closing <:+ s.take (total + (w.length + d.closing.length))
  rw [htake, ← List.append_assoc]
  exact List.suffix_append _ _

theorem Tag.length_pos {d : Delimiters} {s : List Char} {tag : Tag} (ho : d.opening <+: s)
    (h : Tag.read? d s = some tag) : 0 < tag.length := by
  have := (Tag.read?_spec ho h).1
  have := List.length_pos_iff.2 d.opening_ne_nil
  omega

/-! ## Whole templates -/

namespace Template

/-- `Tiles d s p ts`: the tokens `ts` make up the text `s`, which starts at the offset `p`, where
the delimiters `d` are in force. A tag stands wherever the opening delimiter does; all else is text,
one token for each character. -/
inductive Tiles : Delimiters → List Char → Nat → List Token → Prop
  | nil (d : Delimiters) (p : Nat) : Tiles d [] p []
  | text {d : Delimiters} {c : Char} {r : List Char} {p : Nat} {ts : List Token} :
      ¬ d.opening <+: c :: r → Tiles d r (p + 1) ts → Tiles d (c :: r) p (Token.ofChar c p :: ts)
  | tag {d d' : Delimiters} {s : List Char} {p : Nat} {tag : Tag} {ts : List Token} :
      d.opening <+: s → Tag.read? d s = some tag → tag.delimiters d = .ok d' →
      Tiles d' (s.drop tag.length) (p + tag.length) ts → Tiles d s p (tag.token p :: ts)

theorem not_prefix_nil (d : Delimiters) : ¬ d.opening <+: [] :=
  fun h => d.opening_ne_nil (List.prefix_nil.1 h)

/-- One step of a scan where no tag starts. -/
theorem scan_text {d : Delimiters} {c : Char} {r : List Char} (h : ¬ d.opening <+: c :: r)
    (p : Nat) :
    scan d p 0 (c :: r) = (scan d (p + 1) 0 r).map (Token.ofChar c p :: ·) := by
  rw [scan, if_neg (mt List.isPrefixOf_iff_prefix.1 h)]
  cases scan d (p + 1) 0 r <;> rfl

/-- One step of a scan where a tag starts: the whole tag is passed over. -/
theorem scan_tag {d : Delimiters} {s : List Char} {tag : Tag} (ho : d.opening <+: s)
    (h : Tag.read? d s = some tag) (p : Nat) :
    scan d p 0 s = tag.delimiters d >>= fun d' =>
      (scan d' (p + tag.length) 0 (s.drop tag.length)).map (tag.token p :: ·) := by
  cases s with
  | nil => exact absurd ho (not_prefix_nil d)
  | cons c r =>
    have hpos := Tag.length_pos ho h
    have hle := (Tag.read?_spec ho h).2.1
    rw [scan, if_pos (List.isPrefixOf_iff_prefix.2 ho), h]
    refine congrArg (tag.delimiters d >>= ·) (funext fun d' => ?_)
    rw [scan_skip d' (p + 1) (tag.length - 1) r (by simp at hle; omega)]
    obtain ⟨n, hn⟩ := Nat.exists_eq_succ_of_ne_zero (Nat.pos_iff_ne_zero.1 hpos)
    simp only [hn, Nat.succ_eq_add_one, Nat.add_sub_cancel, List.drop_succ_cons]
    rw [show p + 1 + n = p + (n + 1) by omega]
    cases scan d' (p + (n + 1)) 0 (r.drop n) <;> rfl

/-- One step of a scan where a tag starts that has no end. -/
theorem scan_unclosed {d : Delimiters} {s : List Char} (ho : d.opening <+: s)
    (h : Tag.read? d s = none) (p : Nat) :
    scan d p 0 s = .error (.unclosedTag (p + s.length)) := by
  cases s with
  | nil => exact absurd ho (not_prefix_nil d)
  | cons c r => rw [scan, if_pos (List.isPrefixOf_iff_prefix.2 ho), h]

theorem Tiles.scan_eq {d : Delimiters} {s : List Char} {p : Nat} {ts : List Token}
    (h : Tiles d s p ts) : scan d p 0 s = .ok ts := by
  induction h with
  | nil => rw [scan]
  | text hc _ ih =>
    rw [scan_text hc, ih]
    rfl
  | tag ho hr hd _ ih =>
    rw [scan_tag ho hr, hd]
    show Except.map _ (scan _ _ 0 _) = _
    rw [ih]
    rfl

theorem tiles_of_scan {d : Delimiters} {s : List Char} {p : Nat} {ts : List Token}
    (h : scan d p 0 s = .ok ts) : Tiles d s p ts := by
  -- The induction is on the length, since a tag takes away more than one character.
  induction hn : s.length using Nat.strongRecOn generalizing d s p ts with
  | _ n ih =>
    subst hn
    by_cases ho : d.opening <+: s
    · cases hr : Tag.read? d s with
      | none =>
        rw [scan_unclosed ho hr] at h
        cases h
      | some tag =>
        have hpos := Tag.length_pos ho hr
        have hle := (Tag.read?_spec ho hr).2.1
        rw [scan_tag ho hr] at h
        cases hd : tag.delimiters d with
        | error e => rw [hd] at h; cases h
        | ok d' =>
          rw [hd] at h
          change Except.map _ (scan d' _ 0 _) = _ at h
          cases hs : scan d' (p + tag.length) 0 (s.drop tag.length) with
          | error e => rw [hs] at h; cases h
          | ok us =>
            rw [hs] at h
            cases h
            exact .tag ho hr hd (ih _ (by rw [List.length_drop]; omega) hs rfl)
    · cases s with
      | nil =>
        rw [scan] at h
        cases h
        exact .nil d p
      | cons c r =>
        rw [scan_text ho] at h
        cases hs : scan d (p + 1) 0 r with
        | error e => rw [hs] at h; cases h
        | ok us =>
          rw [hs] at h
          cases h
          exact .text ho (ih _ (by simp) hs rfl)

/-- There are no more tokens than characters. -/
theorem Tiles.length_le {d : Delimiters} {s : List Char} {p : Nat} {ts : List Token}
    (h : Tiles d s p ts) : ts.length ≤ s.length := by
  induction h with
  | nil => exact Nat.le_refl 0
  | text _ _ ih => exact Nat.succ_le_succ ih
  | tag ho hread _ _ ih =>
    have hpos := Tag.length_pos ho hread
    have hle := (Tag.read?_spec ho hread).2.1
    rw [List.length_drop] at ih
    rw [List.length_cons]
    omega

/-- **A scan succeeds with exactly the tokens that tile the template.** -/
theorem scan_eq_ok_iff {d : Delimiters} {s : List Char} {p : Nat} {ts : List Token} :
    scan d p 0 s = .ok ts ↔ Tiles d s p ts :=
  ⟨tiles_of_scan, Tiles.scan_eq⟩

end Template

end Mustache
