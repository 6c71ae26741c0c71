import Mustache.Proofs.Template.Tiling

/-!
# Which blanks are dropped

`sweep` notes where the blank texts of the current line stand and takes them out when the line
ends. Here is shown which tokens are left in the end, by their places among all tokens of the
template.

**Idea.** While a line is being read, the tokens are those kept of the lines before it, followed by
the line as it is. Whatever is read after them, taking out the places that were noted turns the line
into its tokens that are not blank (`Sweep.Holds`). So a line that ends leaves behind what
`stripLine` leaves of it, and the sweep of all tokens is `strip` (`sweep_eq_strip`). Two places are
on one line if no line end stands between them, and a first line can be split off from all that
follows.

Main statements: `sweep_eq_strip` and `pieces_eq_ok_iff`.
-/

namespace Mustache.Template

/-! ## Lines -/

theorem lines_of_open {line : List Token} (h : ∀ t ∈ line, t.endsLine = false) (hne : line ≠ []) :
    lines line = [line] := by
  induction line with
  | nil => exact absurd rfl hne
  | cons t ts ih =>
    obtain ⟨ht, hts⟩ := List.forall_mem_cons.1 h
    rw [lines, if_neg (by simp [ht])]
    cases ts with
    | nil => rfl
    | cons u us => rw [ih hts (by simp)]

theorem lines_append {line : List Token} (h : ∀ t ∈ line, t.endsLine = false) {t : Token}
    (ht : t.endsLine = true) (ts : List Token) :
    lines (line ++ t :: ts) = (line ++ [t]) :: lines ts := by
  induction line with
  | nil => simp [lines, ht]
  | cons u us ih =>
    obtain ⟨hu, hus⟩ := List.forall_mem_cons.1 h
    rw [List.cons_append, lines, if_neg (by simp [hu]), ih hus]
    rfl

theorem strip_of_open {line : List Token} (h : ∀ t ∈ line, t.endsLine = false) :
    strip line = stripLine line := by
  by_cases hne : line = []
  · subst hne; rfl
  · simp [strip, lines_of_open h hne]

theorem strip_append {line : List Token} (h : ∀ t ∈ line, t.endsLine = false) {t : Token}
    (ht : t.endsLine = true) (ts : List Token) :
    strip (line ++ t :: ts) = stripLine (line ++ [t]) ++ strip ts := by
  simp [strip, lines_append h ht]

/-- Induction line by line: what holds of an open line, and of a line that ends if it holds of all
that follows, holds of all tokens. -/
theorem line_induction {P : List Token → Prop}
    (last : ∀ line, (∀ t ∈ line, t.endsLine = false) → P line)
    (line : ∀ line t ts, (∀ t ∈ line, t.endsLine = false) → t.endsLine = true → P ts →
      P (line ++ t :: ts)) (ts : List Token) : P ts := by
  -- The tokens are gone through with the open line before them as an accumulator.
  suffices h : ∀ acc : List Token, (∀ t ∈ acc, t.endsLine = false) → P (acc ++ ts) from
    h [] (by simp)
  induction ts with
  | nil => exact fun acc ho => by simpa using last acc ho
  | cons t ts ih =>
    intro acc ho
    by_cases ht : t.endsLine = true
    · exact line acc t ts ho ht (by simpa using ih [] (by simp))
    · have := ih (acc ++ [t]) (by
        intro u hu
        rcases List.mem_append.1 hu with hu | hu
        · exact ho u hu
        · rw [List.mem_singleton.1 hu]; simpa using ht)
      simpa using this

/-! ## The sweep of a line -/

namespace Sweep

/-- The tokens `done` were kept of the lines before, and `line` is what was read of the current
one: it is all there, its flags are up to date, and taking out the places noted leaves its tokens
that are not blank, whatever follows. -/
structure Holds (s : Sweep) (done line : List Token) : Prop where
  tokens : s.tokens.toList = done ++ line
  structural : s.structural = line.any (·.kind.isStructural)
  visible : s.visible = line.any (·.isVisible)
  blanks : ∀ later : List Token, s.blanks.foldl (·.eraseIdx ·) (done ++ line ++ later) =
    done ++ line.filter (!·.isBlank) ++ later

theorem holds_start : start.Holds [] [] := ⟨rfl, rfl, rfl, fun _ => rfl⟩

theorem toList_foldl_eraseIdx (places : List Nat) (ts : Array Token) :
    (places.foldl (·.eraseIdxIfInBounds ·) ts).toList = places.foldl (·.eraseIdx ·) ts.toList := by
  induction places generalizing ts with
  | nil => rfl
  | cons i is ih => rw [List.foldl_cons, List.foldl_cons, ih, Array.toList_eraseIdxIfInBounds]

theorem size_endLine_le (s : Sweep) : s.endLine.tokens.size ≤ s.tokens.size := by
  have herase (places : List Nat) (ts : List Token) :
      (places.foldl (·.eraseIdx ·) ts).length ≤ ts.length := by
    induction places generalizing ts with
    | nil => exact Nat.le_refl _
    | cons i places ih => exact Nat.le_trans (ih _) (List.length_eraseIdx_le ts i)
  rw [endLine]
  split
  · rw [← Array.length_toList, toList_foldl_eraseIdx, ← Array.length_toList]
    exact herase _ _
  · exact Nat.le_refl _

theorem size_add_le (s : Sweep) (t : Token) : (s.add t).tokens.size ≤ s.tokens.size + 1 := by
  have hnote : (s.note t).tokens.size = s.tokens.size + 1 := Array.size_push t
  rw [add, ← hnote]
  split
  · exact size_endLine_le _
  · exact Nat.le_refl _

/-- No more tokens are kept than are read. -/
theorem size_foldl_add_le (s : Sweep) (ts : List Token) :
    (ts.foldl add s).tokens.size ≤ s.tokens.size + ts.length := by
  induction ts generalizing s with
  | nil => exact Nat.le_refl _
  | cons t ts ih =>
    have hfirst := s.size_add_le t
    have hrest := ih (s.add t)
    rw [List.foldl_cons, List.length_cons]
    omega

theorem Holds.note {s : Sweep} {done line : List Token} (h : s.Holds done line) (t : Token) :
    (s.note t).Holds done (line ++ [t]) where
  tokens := by simp [Sweep.note, h.tokens]
  structural := by simp [Sweep.note, h.structural]
  visible := by simp [Sweep.note, h.visible]
  blanks := by
    intro later
    by_cases ht : t.isBlank = true
    · have hsize : s.tokens.size = (done ++ line).length := by
        rw [← h.tokens, Array.length_toList]
      -- The token is the last that was read, so its place is the first to be taken out.
      have herase : (done ++ (line ++ [t]) ++ later).eraseIdx (done ++ line).length =
          done ++ line ++ later := by
        rw [← List.append_assoc, List.append_assoc (done ++ line),
          List.eraseIdx_append_of_length_le (Nat.le_refl _)]
        simp
      simp only [Sweep.note, ht, if_true, List.foldl_cons, hsize, herase, h.blanks later]
      simp [ht]
    · have := h.blanks ([t] ++ later)
      simp only [Sweep.note, ht, Bool.false_eq_true, if_false]
      rw [show done ++ (line ++ [t]) ++ later = done ++ line ++ ([t] ++ later) by simp, this]
      simp [ht]

theorem Holds.endLine {s : Sweep} {done line : List Token} (h : s.Holds done line) :
    s.endLine.Holds (done ++ stripLine line) [] := by
  refine ⟨?_, rfl, rfl, fun later => by simp [Sweep.endLine]⟩
  have hflags : (s.structural && !s.visible) = isStandalone line := by
    rw [h.structural, h.visible, isStandalone]
  have herased := h.blanks []
  simp only [List.append_nil] at herased ⊢
  simp only [Sweep.endLine, hflags, stripLine]
  split
  · rw [toList_foldl_eraseIdx, h.tokens, herased]
  · exact h.tokens

theorem Holds.foldl_open {s : Sweep} {done line : List Token} (h : s.Holds done line)
    {ts : List Token} (ho : ∀ t ∈ ts, t.endsLine = false) :
    (ts.foldl add s).Holds done (line ++ ts) := by
  induction ts generalizing s line with
  | nil => simpa using h
  | cons t ts ih =>
    obtain ⟨ht, hts⟩ := List.forall_mem_cons.1 ho
    have hadd : s.add t = s.note t := by rw [add, if_neg (by simp [ht])]
    have := ih (h.note t) hts
    rw [List.foldl_cons, hadd]
    simpa using this

end Sweep

/-- **One pass is line by line.** Taking out the noted places at each line end leaves of every line
what stripping it leaves. -/
theorem sweep_eq_strip (ts : List Token) : sweep ts = strip ts := by
  suffices h : ∀ (s : Sweep) (done : List Token), s.Holds done [] →
      (ts.foldl Sweep.add s).endLine.tokens.toList = done ++ strip ts by
    simpa [sweep] using h Sweep.start [] Sweep.holds_start
  induction ts using line_induction with
  | last line ho =>
    intro s done h
    rw [(h.foldl_open ho).endLine.tokens, strip_of_open ho]
    simp
  | line line t ts ho ht ih =>
    intro s done h
    have hline := ((h.foldl_open ho).note t).endLine
    have hadd (s : Sweep) : s.add t = (s.note t).endLine := by rw [Sweep.add, if_pos ht]
    rw [List.foldl_append, List.foldl_cons, hadd, ih _ _ hline, strip_append ho ht]
    simp

/-! ## Places -/

/-- Two places are on one line if no line end stands from the first of them on and before the
second. -/
def SameLine (ts : List Token) (i j : Nat) : Prop :=
  ∀ k < max i j, min i j ≤ k → ∀ t ∈ ts[k]?, t.endsLine = false

instance (ts : List Token) (i j : Nat) : Decidable (SameLine ts i j) := by
  unfold SameLine; infer_instance

/-- The token at a place is dropped: it is a blank text, its line has a tag that orders the
template, and on its line there is neither a variable nor a text that is not blank. -/
def Dropped (ts : List Token) (i : Nat) : Prop :=
  (∃ t ∈ ts[i]?, t.kind = .text ∧ t.isBlank = true) ∧
    (∃ j < ts.length, SameLine ts i j ∧ ∃ t ∈ ts[j]?, t.kind ∈ [.sectionTag, .invertedTag,
      .closeTag, .partialTag, .delimiterTag, .commentTag]) ∧
    ∀ j < ts.length, SameLine ts i j → ∀ t ∈ ts[j]?, t.kind ≠ .nameTag ∧
      t.kind ≠ .unescapedTag ∧ (t.kind = .text → t.isBlank = true)

instance (ts : List Token) (i : Nat) : Decidable (Dropped ts i) := by
  unfold Dropped; infer_instance

theorem SameLine.symm {ts : List Token} {i j : Nat} (h : SameLine ts i j) : SameLine ts j i := by
  rwa [SameLine, Nat.max_comm, Nat.min_comm] at h

/-! ### The first line and what follows it -/

section FirstLine

variable {row rest : List Token}

/-- Places on an open line are on one line, also where a line end follows them. -/
theorem sameLine_within (ho : ∀ k t, k + 1 < row.length → row[k]? = some t → t.endsLine = false)
    {i j : Nat} (hi : i < row.length) (hj : j < row.length) : SameLine (row ++ rest) i j := by
  intro k hk _ t ht
  rw [List.getElem?_append_left (by omega)] at ht
  exact ho k t (by omega) ht

/-- A place on a line that ends and one after it are not on one line. -/
theorem not_sameLine_across {t : Token} (hlast : row.getLast? = some t)
    (ht : t.endsLine = true) {i j : Nat} (hi : i < row.length) (hj : row.length ≤ j) :
    ¬ SameLine (row ++ rest) i j := by
  intro h
  have hend : (row ++ rest)[row.length - 1]? = some t := by
    rw [List.getElem?_append_left (by omega), ← List.getLast?_eq_getElem?, hlast]
  have := h (row.length - 1) (by omega) (by omega) t hend
  simp [ht] at this

theorem sameLine_shift {i j : Nat} :
    SameLine (row ++ rest) (row.length + i) (row.length + j) ↔ SameLine rest i j := by
  have hget (k : Nat) : (row ++ rest)[row.length + k]? = rest[k]? := by
    rw [List.getElem?_append_right (by omega), Nat.add_sub_cancel_left]
  constructor
  · intro h k hk hk' t ht
    exact h (row.length + k) (by omega) (by omega) t (by rw [hget]; exact ht)
  · intro h k hk hk' t ht
    obtain ⟨m, rfl⟩ := Nat.exists_eq_add_of_le (show row.length ≤ k by omega)
    rw [hget] at ht
    exact h m (by omega) (by omega) t ht

theorem isStructural_iff (k : Token.Kind) : k.isStructural = true ↔ k ∈ [.sectionTag,
    .invertedTag, .closeTag, .partialTag, .delimiterTag, .commentTag] := by
  cases k <;> decide

theorem isVisible_eq_false_iff (t : Token) : t.isVisible = false ↔ t.kind ≠ .nameTag ∧
    t.kind ≠ .unescapedTag ∧ (t.kind = .text → t.isBlank = true) := by
  obtain ⟨kind, value, start, stop⟩ := t
  cases kind <;> simp [Token.isVisible, Token.isBlank, Token.Kind.isStructural]

/-- On a first line, the blank texts are dropped if the line is standalone. -/
theorem dropped_first_iff
    (ho : ∀ k t, k + 1 < row.length → row[k]? = some t → t.endsLine = false)
    (hend : rest = [] ∨ ∃ t, row.getLast? = some t ∧ t.endsLine = true) {i : Nat}
    (hi : i < row.length) :
    Dropped (row ++ rest) i ↔ row[i].isBlank = true ∧ isStandalone row = true := by
  have hget {j : Nat} (hj : j < row.length) : (row ++ rest)[j]? = some row[j] := by
    rw [List.getElem?_append_left hj, List.getElem?_eq_getElem hj]
  -- The line of the place is the first line and nothing else.
  have hline {j : Nat} (hj : j < (row ++ rest).length) (hs : SameLine (row ++ rest) i j) :
      j < row.length := by
    rcases hend with rfl | ⟨t, hlast, ht⟩
    · simpa using hj
    · exact Nat.lt_of_not_le fun hle => not_sameLine_across hlast ht hi hle hs
  have hblank : (∃ t ∈ (row ++ rest)[i]?, t.kind = .text ∧ t.isBlank = true) ↔
      row[i].isBlank = true := by
    simp only [hget hi, Option.mem_def, Option.some.injEq, exists_eq_left']
    exact ⟨And.right, fun h => ⟨by simpa using (Bool.and_eq_true_iff.1 h).1, h⟩⟩
  rw [Dropped, hblank, isStandalone, Bool.and_eq_true, List.any_eq_true, Bool.not_eq_true',
    List.any_eq_false]
  refine and_congr_right fun _ => and_congr ?_ ?_
  · constructor
    · rintro ⟨j, hj, hs, t, ht, hk⟩
      have hj' := hline hj hs
      rw [hget hj', Option.mem_def, Option.some.injEq] at ht
      exact ⟨row[j], List.getElem_mem hj', (isStructural_iff _).2 (ht ▸ hk)⟩
    · rintro ⟨t, ht, hk⟩
      obtain ⟨j, hj, rfl⟩ := List.getElem_of_mem ht
      refine ⟨j, by rw [List.length_append]; omega, sameLine_within ho hi hj, row[j], hget hj, ?_⟩
      exact (isStructural_iff _).1 hk
  · constructor
    · intro h t ht
      obtain ⟨j, hj, rfl⟩ := List.getElem_of_mem ht
      rw [Bool.not_eq_true, isVisible_eq_false_iff]
      exact h j (by rw [List.length_append]; omega) (sameLine_within ho hi hj) row[j] (hget hj)
    · intro h j hj hs t ht
      have hj' := hline hj hs
      rw [hget hj', Option.mem_def, Option.some.injEq] at ht
      rw [← isVisible_eq_false_iff, ← Bool.not_eq_true, ← ht]
      exact h row[j] (List.getElem_mem hj')

/-- After a line that ends, a place is dropped if it is among the tokens that follow alone. -/
theorem dropped_shift_iff {t : Token} (hlast : row.getLast? = some t) (ht : t.endsLine = true)
    {i : Nat} : Dropped (row ++ rest) (row.length + i) ↔ Dropped rest i := by
  have hget (j : Nat) : (row ++ rest)[row.length + j]? = rest[j]? := by
    rw [List.getElem?_append_right (by omega), Nat.add_sub_cancel_left]
  have hafter {j : Nat} (hs : SameLine (row ++ rest) (row.length + i) j) :
      ∃ m, j = row.length + m := by
    refine Nat.exists_eq_add_of_le (Nat.le_of_not_lt fun hj => ?_)
    exact not_sameLine_across hlast ht hj (Nat.le_add_right _ i) hs.symm
  rw [Dropped, Dropped, hget]
  refine and_congr_right fun _ => and_congr ?_ ?_
  · constructor
    · rintro ⟨j, hj, hs, h⟩
      obtain ⟨m, rfl⟩ := hafter hs
      rw [List.length_append] at hj
      exact ⟨m, by omega, sameLine_shift.1 hs, by rwa [hget] at h⟩
    · rintro ⟨j, hj, hs, h⟩
      refine ⟨row.length + j, by rw [List.length_append]; omega, sameLine_shift.2 hs, ?_⟩
      rwa [hget]
  · constructor
    · intro h j hj hs
      have := h (row.length + j) (by rw [List.length_append]; omega) (sameLine_shift.2 hs)
      rwa [hget] at this
    · intro h j hj hs
      obtain ⟨m, rfl⟩ := hafter hs
      rw [List.length_append] at hj
      rw [hget]
      exact h m (by omega) (sameLine_shift.1 hs)

end FirstLine

/-! ### What is left -/

/-- The items of a list whose places pass a test. -/
def itemsAt {α : Type} (p : Nat → Prop) [DecidablePred p] (l : List α) : List α :=
  (l.zipIdx.filter fun x => p x.2).map (·.1)

theorem itemsAt_append {α : Type} (p : Nat → Prop) [DecidablePred p] (l m : List α) :
    itemsAt p (l ++ m) = itemsAt p l ++ itemsAt (fun i => p (l.length + i)) m := by
  have hshift : m.zipIdx l.length = m.zipIdx.map fun x => (x.1, l.length + x.2) := by
    rw [List.zipIdx_eq_map_add]
  simp only [itemsAt, List.zipIdx_append, Nat.zero_add, List.filter_append, List.map_append,
    hshift, List.filter_map, List.map_map, Function.comp_def]

theorem itemsAt_eq_filter {α : Type} {p : Nat → Prop} [DecidablePred p] {l : List α}
    {q : α → Bool} (h : ∀ i (hi : i < l.length), p i ↔ q l[i] = true) :
    itemsAt p l = l.filter q := by
  have hfilter : l.zipIdx.filter (fun x => p x.2) = l.zipIdx.filter (q ∘ Prod.fst) := by
    refine List.filter_congr fun x hx => ?_
    obtain ⟨hi, hx⟩ := List.mem_zipIdx' hx
    rw [Function.comp, Bool.eq_iff_iff, decide_eq_true_iff, h _ hi, ← hx]
  rw [itemsAt, hfilter, ← List.filter_map, List.zipIdx_map_fst]

theorem itemsAt_congr {α : Type} {p q : Nat → Prop} [DecidablePred p] [DecidablePred q]
    (h : ∀ i, p i ↔ q i) (l : List α) : itemsAt p l = itemsAt q l := by
  simp only [itemsAt, h]

theorem stripLine_eq_filter (line : List Token) :
    stripLine line = line.filter fun t => !(t.isBlank && isStandalone line) := by
  rw [stripLine]
  split
  · next h => simp [h]
  · next h => exact (List.filter_eq_self.2 fun t _ => by simp [h]).symm

/-- Stripping line by line leaves the tokens at the places that are not dropped. -/
theorem strip_eq_itemsAt (ts : List Token) :
    strip ts = itemsAt (fun i => ¬ Dropped ts i) ts := by
  induction ts using line_induction with
  | last row ho =>
    rw [strip_of_open ho, stripLine_eq_filter]
    refine (itemsAt_eq_filter fun i hi => ?_).symm
    have hdropped : Dropped (row ++ []) i ↔ row[i].isBlank = true ∧ isStandalone row = true :=
      dropped_first_iff (fun k t _ ht => ho t (List.mem_of_getElem? ht)) (Or.inl rfl) hi
    rw [List.append_nil] at hdropped
    rw [hdropped, ← Bool.and_eq_true, Bool.not_eq_true', Bool.not_eq_true]
  | line row t ts ho ht ih =>
    have hlast : (row ++ [t]).getLast? = some t := by simp
    have hopen (k : Nat) (u : Token) (hk : k + 1 < (row ++ [t]).length)
        (hu : (row ++ [t])[k]? = some u) : u.endsLine = false := by
      rw [List.length_append, List.length_singleton] at hk
      rw [List.getElem?_append_left (by omega)] at hu
      exact ho u (List.mem_of_getElem? hu)
    rw [strip_append ho ht, ih, show row ++ t :: ts = (row ++ [t]) ++ ts by simp,
      itemsAt_append, stripLine_eq_filter]
    congr 1
    · refine (itemsAt_eq_filter fun i hi => ?_).symm
      rw [dropped_first_iff hopen (Or.inr ⟨t, hlast, ht⟩) hi, ← Bool.and_eq_true,
        Bool.not_eq_true', Bool.not_eq_true]
    · exact itemsAt_congr (fun i => not_congr (dropped_shift_iff hlast ht).symm) ts

example : strip [⟨.text, " ", 0, 1⟩, ⟨.sectionTag, "a", 1, 7⟩, ⟨.text, "\n", 7, 8⟩,
    ⟨.text, "x", 8, 9⟩] = [⟨.sectionTag, "a", 1, 7⟩, ⟨.text, "x", 8, 9⟩] := by decide

theorem pieces_eq_ok_iff_strip {d : Delimiters} {template : String} {ts : List Token} :
    pieces d template = .ok ts ↔ ∃ us, Tiles d template.toList 0 us ∧ strip us = ts := by
  have hmap : pieces d template = .ok ts ↔
      ∃ us, scan d 0 0 template.toList = .ok us ∧ sweep us = ts := by
    rw [pieces]
    cases scan d 0 0 template.toList <;> simp [Except.map]
  rw [hmap]
  refine exists_congr fun us => and_congr scan_eq_ok_iff ?_
  rw [sweep_eq_strip]

/-- **The standalone-line rule.** What is left of a template is what was scanned, in its order, less
the tokens that are dropped: the blank texts of a line with a tag that orders the template and
without anything to show. What was scanned tiles the template, with one token for each tag, and one
text for each character outside the tags. -/
theorem pieces_eq_ok_iff {d : Delimiters} {template : String} {ts : List Token} :
    pieces d template = .ok ts ↔
      ∃ us, scan d 0 0 template.toList = .ok us ∧ Tiles d template.toList 0 us ∧
        ts = itemsAt (fun i => ¬ Dropped us i) us := by
  rw [pieces_eq_ok_iff_strip]
  refine exists_congr fun us => ?_
  rw [strip_eq_itemsAt, scan_eq_ok_iff, eq_comm]
  exact (and_self_left).symm

end Mustache.Template
