import Mathlib.Data.List.DropRight
import Mustache.Text.Blank

/-!
# Words

The words of a text are what is left of it when it is cut at every blank character and the empty
pieces are thrown away (`words_eq_filter`). So a blank character parts the words before it from
those after it, and a text has exactly two words if it can be written as these words with blank
characters between and perhaps around them (`words_eq_pair_iff`).
-/

namespace Mustache.Text

variable {s t w o c : List Char} {b d : Char}

/-- All characters of the text are blank. -/
def AllBlank (s : List Char) : Prop := ∀ c ∈ s, isBlank c = true

/-- A word: it is not empty and has no blank characters. -/
structure IsWord (w : List Char) : Prop where
  ne_nil : w ≠ []
  solid : ∀ c ∈ w, isBlank c = false

/-- The text consists of two words, with blank characters between them and perhaps around them. -/
inductive IsPair (o c : List Char) : List Char → Prop
  | mk {w₁ w₂ w₃ : List Char} : AllBlank w₁ → AllBlank w₂ → AllBlank w₃ → w₂ ≠ [] → IsWord o →
      IsWord c → IsPair o c (w₁ ++ (o ++ (w₂ ++ (c ++ w₃))))

theorem IsPair.isWord_left (h : IsPair o c s) : IsWord o := by
  cases h
  assumption

theorem IsPair.isWord_right (h : IsPair o c s) : IsWord c := by
  cases h
  assumption

instance (s : List Char) : Decidable (AllBlank s) :=
  List.decidableBAll (fun c => isBlank c = true) s

instance (w : List Char) : Decidable (IsWord w) :=
  have : Decidable (∀ c ∈ w, isBlank c = false) := List.decidableBAll (fun c => isBlank c = false) w
  decidable_of_iff (w ≠ [] ∧ ∀ c ∈ w, isBlank c = false)
    ⟨fun h => ⟨h.1, h.2⟩, fun h => ⟨h.ne_nil, h.solid⟩⟩

/-! ## Character by character -/

theorem words_cons (c : Char) (r : List Char) :
    words (c :: r) =
      if isBlank c then words r
      else match r, words r with
        | d :: _, w :: ws => if isBlank d then [c] :: w :: ws else (c :: w) :: ws
        | _, ws => [c] :: ws :=
  words.eq_def (c :: r)

theorem words_cons_of_blank (hb : isBlank b = true) (s : List Char) : words (b :: s) = words s := by
  rw [words_cons, if_pos hb]

/-- A character with no other one behind it that is not blank is a word. -/
theorem words_cons_of_alone (hb : isBlank b = false) (hs : ∀ d ∈ s.head?, isBlank d = true) :
    words (b :: s) = [b] :: words s := by
  rw [words_cons, if_neg (by simp [hb])]
  cases s with
  | nil => rfl
  | cons d r =>
    have hd := hs d rfl
    cases words (d :: r) with
    | nil => rfl
    | cons w ws => exact if_pos hd

/-- A character belongs to the word behind it. -/
theorem exists_words_cons (hb : isBlank b = false) (hd : isBlank d = false) (s : List Char) :
    ∃ w ws, words (d :: s) = w :: ws ∧ words (b :: d :: s) = (b :: w) :: ws := by
  have hne : words (d :: s) ≠ [] := by
    rw [words_cons, if_neg (by simp [hd])]
    split
    · split <;> exact List.cons_ne_nil _ _
    · exact List.cons_ne_nil _ _
  obtain ⟨w, ws, hws⟩ := List.exists_cons_of_ne_nil hne
  refine ⟨w, ws, hws, ?_⟩
  rw [words_cons, if_neg (by simp [hb]), hws]
  exact if_neg (by simp [hd])

/-- **The words of a text** are the pieces between its blank characters that are not empty. -/
theorem words_eq_filter (s : List Char) : words s = (s.splitOnP isBlank).filter (· != []) := by
  induction s with
  | nil => rfl
  | cons b s ih =>
    rw [List.splitOnP_cons_eq_if_modifyHead]
    cases hb : isBlank b with
    | true =>
      rw [words_cons_of_blank hb, if_pos rfl, ih]
      rfl
    | false =>
      rw [if_neg (by simp)]
      cases s with
      | nil =>
        rw [words_cons_of_alone hb (by simp), List.splitOnP_nil]
        rfl
      | cons d s =>
        rw [List.splitOnP_cons_eq_if_modifyHead] at ih ⊢
        cases hd : isBlank d with
        | true =>
          -- The piece that `b` starts ends before `d`.
          rw [hd, if_pos rfl] at ih
          rw [words_cons_of_alone hb (by simp [hd]), ih, if_pos rfl]
          rfl
        | false =>
          obtain ⟨w, ws, hws, hwords⟩ := exists_words_cons hb hd s
          obtain ⟨p, ps, hp⟩ := List.exists_cons_of_ne_nil (List.splitOnP_ne_nil isBlank s)
          rw [hwords]
          rw [hws, hd, hp] at ih
          rw [hp]
          obtain ⟨rfl, rfl⟩ := List.cons.inj ih
          rfl

theorem isWord_of_mem_words (h : w ∈ words s) : IsWord w := by
  induction s generalizing w with
  | nil => cases h
  | cons b s ih =>
    cases hb : isBlank b with
    | true => exact ih (by rwa [words_cons_of_blank hb] at h)
    | false =>
      have hone : ∀ a ∈ [b], isBlank a = false := by simp [hb]
      by_cases hs : ∀ d ∈ s.head?, isBlank d = true
      · rw [words_cons_of_alone hb hs] at h
        rcases List.mem_cons.1 h with rfl | h
        · exact ⟨List.cons_ne_nil _ _, hone⟩
        · exact ih h
      · push Not at hs
        obtain ⟨d, hd, hsolid⟩ := hs
        obtain ⟨r, rfl⟩ := List.head?_eq_some_iff.1 hd
        obtain ⟨v, vs, hvs, hwords⟩ := exists_words_cons hb (Bool.eq_false_iff.2 hsolid) r
        rw [hvs] at ih
        rw [hwords] at h
        rcases List.mem_cons.1 h with rfl | h
        · have hv := ih List.mem_cons_self
          exact ⟨List.cons_ne_nil _ _, List.forall_mem_append.2 ⟨hone, hv.solid⟩⟩
        · exact ih (List.mem_cons_of_mem v h)

/-! ## Words in parts of a text -/

theorem words_append_cons (hb : isBlank b = true) (s t : List Char) :
    words (s ++ b :: t) = words s ++ words t := by
  simp only [words_eq_filter, List.splitOnP_append_cons s t hb, List.filter_append]

theorem AllBlank.words_eq_nil (hw : AllBlank w) : words w = [] := by
  induction w with
  | nil => rfl
  | cons b w ih =>
    obtain ⟨hb, hw⟩ := List.forall_mem_cons.1 hw
    rw [words_cons_of_blank hb, ih hw]

/-- Blank characters at the end of a text do not belong to any word. -/
theorem words_append_blank (s : List Char) (hw : AllBlank w) : words (s ++ w) = words s := by
  cases w with
  | nil => rw [List.append_nil]
  | cons b w =>
    obtain ⟨hb, hw⟩ := List.forall_mem_cons.1 hw
    rw [words_append_cons hb, AllBlank.words_eq_nil hw, List.append_nil]

theorem AllBlank.words_append (hw : AllBlank w) (s : List Char) : words (w ++ s) = words s := by
  induction w with
  | nil => rfl
  | cons b w ih =>
    obtain ⟨hb, hw⟩ := List.forall_mem_cons.1 hw
    rw [List.cons_append, words_cons_of_blank hb, ih hw]

/-- A word, with blank characters or nothing behind it, is the first word. -/
theorem IsWord.words_append (hw : IsWord w) (ht : ∀ b ∈ t.head?, isBlank b = true) :
    words (w ++ t) = w :: words t := by
  have hone : words w = [w] := by
    rw [words_eq_filter, List.splitOnP_eq_singleton hw.solid]
    simp [hw.ne_nil]
  cases t with
  | nil => rw [List.append_nil, hone]; rfl
  | cons b t =>
    have hb := ht b rfl
    rw [words_append_cons hb, hone, words_cons_of_blank hb]
    rfl

/-- A text without words is blank. -/
theorem allBlank_of_words_eq_nil (h : words s = []) : AllBlank s := by
  induction s with
  | nil => exact List.forall_mem_nil _
  | cons b s ih =>
    cases hb : isBlank b with
    | true => exact List.forall_mem_cons.2 ⟨hb, ih (by rwa [words_cons_of_blank hb] at h)⟩
    | false =>
      rw [words_cons, if_neg (by simp [hb])] at h
      split at h
      · split at h <;> cases h
      · cases h

/-- A text is some part and the blank characters behind it. -/
theorem exists_append_blank (s : List Char) :
    ∃ front w, s = front ++ w ∧ AllBlank w ∧ ∀ c ∈ front.getLast?, isBlank c = false := by
  refine ⟨s.rdropWhile isBlank, s.rtakeWhile isBlank, ?_, ?_, ?_⟩
  · exact List.rdropWhile_append_rtakeWhile.symm
  · intro c hc
    exact List.mem_rtakeWhile_imp hc
  · intro c hc
    obtain ⟨hne, rfl⟩ := List.mem_getLast?_eq_getLast hc
    simpa using List.rdropWhile_last_not isBlank s hne

/-- Before the first word there are blank characters, and it ends with the text or where there is
another one. -/
theorem exists_of_words_eq_cons {ws : List (List Char)} (h : words s = w :: ws) :
    ∃ front back, s = front ++ (w ++ back) ∧ AllBlank front ∧ words back = ws ∧
      ∀ b ∈ back.head?, isBlank b = true := by
  induction s generalizing w with
  | nil => cases h
  | cons b s ih =>
    cases hb : isBlank b with
    | true =>
      obtain ⟨front, back, rfl, hfront, hback⟩ := ih (by rwa [words_cons_of_blank hb] at h)
      exact ⟨b :: front, back, rfl, List.forall_mem_cons.2 ⟨hb, hfront⟩, hback⟩
    | false =>
      by_cases hs : ∀ d ∈ s.head?, isBlank d = true
      · rw [words_cons_of_alone hb hs] at h
        obtain ⟨rfl, rfl⟩ := List.cons.inj h
        exact ⟨[], s, rfl, List.forall_mem_nil _, rfl, hs⟩
      · push Not at hs
        obtain ⟨d, hd, hsolid⟩ := hs
        obtain ⟨r, rfl⟩ := List.head?_eq_some_iff.1 hd
        obtain ⟨v, vs, hvs, hwords⟩ := exists_words_cons hb (Bool.eq_false_iff.2 hsolid) r
        rw [hwords] at h
        obtain ⟨rfl, rfl⟩ := List.cons.inj h
        obtain ⟨front, back, hcut, hfront, hback⟩ := ih hvs
        -- The word behind `b` starts at once, for its first character is no blank.
        cases front with
        | nil => exact ⟨[], back, congrArg (b :: ·) hcut, hfront, hback⟩
        | cons a front =>
          obtain ⟨rfl, -⟩ := List.cons.inj hcut
          exact absurd (hfront d List.mem_cons_self) hsolid

/-- **A text has exactly two words** if and only if it consists of these, with blank characters
between and perhaps around them. -/
theorem words_eq_pair_iff : words s = [o, c] ↔ IsPair o c s := by
  constructor
  · intro h
    have ho : IsWord o := isWord_of_mem_words (s := s) (by simp [h])
    have hc : IsWord c := isWord_of_mem_words (s := s) (by simp [h])
    obtain ⟨w₁, rest, rfl, hw₁, hrest, hhead⟩ := exists_of_words_eq_cons h
    obtain ⟨w₂, w₃, rfl, hw₂, hw₃, -⟩ := exists_of_words_eq_cons hrest
    refine .mk hw₁ hw₂ (allBlank_of_words_eq_nil hw₃) ?_ ho hc
    rintro rfl
    obtain ⟨b, hb⟩ := Option.isSome_iff_exists.1 (List.isSome_head?.2 hc.ne_nil)
    have hblank := hhead b (by rw [List.nil_append, List.head?_append, hb]; rfl)
    rw [hc.solid b (List.mem_of_head? hb)] at hblank
    cases hblank
  · rintro ⟨hw₁, hw₂, hw₃, hne, ho, hc⟩
    rename_i w₁ w₂ w₃
    have hhead (r : List Char) : ∀ b ∈ (w₂ ++ r).head?, isBlank b = true := by
      rw [List.head?_append_of_ne_nil _ hne]
      exact fun b hb => hw₂ b (List.mem_of_mem_head? hb)
    rw [hw₁.words_append, ho.words_append (hhead _), hw₂.words_append,
      hc.words_append fun b hb => hw₃ b (List.mem_of_mem_head? hb), hw₃.words_eq_nil]

end Mustache.Text
