import Mathlib.Data.List.Basic
import Mustache.Proofs.Template.Tiling

/-!
# Tags as they are written

A tag may have blank characters after its opening delimiter, after its sigil and before its closing
delimiter. They mean nothing: a tag is read as it was written, whatever follows it.

**Idea.** A tag can be written in several ways that look the same: the blank characters in front of
a plain name stand before and after a sigil that is not there, and those around an empty value
before or after it. `Mark.tight` picks the way in which they are read. In a tight tag every run of
blank characters ends where the reader thinks it ends, and the end of the tag is not found before it
stands there (`Pattern.offset_blanksThen`).

Main statement: `Mark.read?_print`.
-/

namespace Mustache

open Text

/-! ## Blank characters and what follows them -/

/-- A text does not start with a blank character. -/
def Solid (s : List Char) : Prop := ∀ c ∈ s.head?, isBlank c = false

theorem blankRun_append {w r : List Char} (hw : ∀ c ∈ w, isBlank c = true) (hr : Solid r) :
    blankRun (w ++ r) = w.length := by
  rw [blankRun, List.takeWhile_append_of_pos hw, List.length_append]
  cases r with
  | nil => rfl
  | cons c r => simp [hr c rfl]

namespace Pattern

variable {word w value rest : List Char}

theorem length?_blanksThen (hw : ∀ c ∈ w, isBlank c = true) (hword : Solid word)
    (hne : word ≠ []) :
    (blanksThen word).length? (w ++ (word ++ rest)) = some (w.length + word.length) := by
  show blanksThenLength? word _ = _
  induction w with
  | nil =>
    have here : wordLength? word (word ++ rest) = some word.length :=
      wordLength?_eq_some.2 ⟨List.prefix_append _ _, rfl⟩
    cases word with
    | nil => exact absurd rfl hne
    | cons c word => simpa [blanksThenLength?, hword c rfl] using here
  | cons b w ih =>
    obtain ⟨hb, hw⟩ := List.forall_mem_cons.1 hw
    rw [List.cons_append, blanksThenLength?, if_pos hb, ih hw]
    simp only [Option.map_some, Option.some_or, List.length_cons, Option.some.injEq]
    omega

/-- A word does not start in a value without its first character, nor with blank characters that
reach beyond the value, since the value does not end with one. -/
theorem length?_blanksThen_value (hne : word ≠ [])
    (hlast : ∀ c ∈ value.getLast?, isBlank c = false) (hfree : ∀ c ∈ word.head?, c ∉ value)
    {k : Nat} (hk : k < value.length) :
    (blanksThen word).length? ((value ++ rest).drop k) = none := by
  rw [Option.eq_none_iff_forall_ne_some]
  intro n hn
  obtain ⟨b, hb, ⟨u, hu⟩, -⟩ := blanksThenLength?_eq_some hn
  obtain ⟨c, hc⟩ := Option.isSome_iff_exists.1 (List.isSome_head?.2 hne)
  rw [List.drop_append_of_le_length (Nat.le_of_lt hk)] at hu
  by_cases hlen : b.length < (value.drop k).length
  · -- The word would start inside the value.
    have hget : (value.drop k)[b.length]? = some c := by
      rw [← List.getElem?_append_left hlen, ← hu, List.append_assoc,
        List.getElem?_append_right (Nat.le_refl _), Nat.sub_self, ← List.head?_eq_getElem?,
        List.head?_append_of_ne_nil _ hne, hc]
    exact hfree c hc (List.mem_of_mem_drop (List.mem_of_getElem? hget))
  · -- The end of the value would be blank.
    have hpre : value.drop k <+: b := by
      refine List.prefix_of_prefix_length_le ?_ (List.prefix_append b (word ++ u)) (by omega)
      rw [← List.append_assoc, hu]
      exact List.prefix_append _ _
    obtain ⟨e, he⟩ := Option.isSome_iff_exists.1
      (List.getLast?_isSome.2 (show value.drop k ≠ [] by simpa using hk))
    have hblank := hb e (hpre.mem (List.mem_of_mem_getLast? he))
    rw [List.getLast?_drop, if_neg (by omega)] at he
    rw [hlast e he] at hblank
    cases hblank

/-- A search ends at the first place where there is a match. -/
theorem offset_eq_of_first {p : Pattern} {s : List Char} {n : Nat}
    (hn : (p.length? (s.drop n)).isSome) (hbefore : ∀ k < n, p.length? (s.drop k) = none) :
    p.offset s = n := by
  rw [offset]
  cases hf : p.find? s with
  | none => rw [find?_none hf] at hn; cases hn
  | some m =>
    obtain ⟨-, hsome, hmin⟩ := find?_some hf
    show m = n
    rcases Nat.lt_trichotomy m n with hlt | heq | hgt
    · rw [hbefore m hlt] at hsome; cases hsome
    · exact heq
    · rw [hmin n hgt] at hn; cases hn

theorem offset_blanksThen (hw : ∀ c ∈ w, isBlank c = true) (hword : Solid word) (hne : word ≠ [])
    (hlast : ∀ c ∈ value.getLast?, isBlank c = false) (hfree : ∀ c ∈ word.head?, c ∉ value) :
    (blanksThen word).offset (value ++ (w ++ (word ++ rest))) = value.length := by
  refine offset_eq_of_first ?_ fun k hk => length?_blanksThen_value hne hlast hfree hk
  rw [List.drop_left, length?_blanksThen hw hword hne]
  rfl

end Pattern

/-! ## Tags as they are written -/

/-- A tag as it may be written: its sigil, its value, and the blank characters in front of the
sigil, between the sigil and the value, and after the value. A value has no blank characters at its
ends and no closing brace, and one without a sigil does not start with one. -/
structure Mark where
  sigil : Option Char
  value : List Char
  lead : List Char
  gap : List Char
  trail : List Char
  sigil_mem : ∀ c ∈ sigil, c ∈ sigils ∧ c ≠ '='
  solid : Solid value
  last_not_blank : ∀ c ∈ value.getLast?, isBlank c = false
  no_brace : '}' ∉ value
  plain : sigil = none → ∀ c ∈ value.head?, c ∉ sigils
  lead_blank : ∀ c ∈ lead, isBlank c = true
  gap_blank : ∀ c ∈ gap, isBlank c = true
  trail_blank : ∀ c ∈ trail, isBlank c = true

namespace Mark

/-- What ends a tag: its closing delimiter, with a brace in front of it if the sigil is a brace. -/
def tail (m : Mark) (d : Delimiters) : List Char :=
  if m.sigil = some '{' then '}' :: d.closing else d.closing

/-- The text of a tag. -/
def print (m : Mark) (d : Delimiters) : List Char :=
  d.opening ++ (m.lead ++ (m.sigil.toList ++ (m.gap ++ (m.value ++ (m.trail ++ m.tail d)))))

/-- The kind of tag that the sigil stands for. -/
def kind (m : Mark) : Token.Kind := Token.Kind.ofSigil m.sigil

/-- The tag that is meant. -/
def tag (m : Mark) (d : Delimiters) : Tag := ⟨m.kind, m.value, (m.print d).length⟩

/-- Where blank characters could be taken for one of two runs, they are in the first one. -/
structure IsTight (m : Mark) : Prop where
  gap : m.sigil = none → m.gap = []
  trail : m.value = [] → m.trail = []

/-- The blank characters after an empty value, which are read with those in front of it. -/
def spare (m : Mark) : List Char := if m.value = [] then m.trail else []

theorem gap_spare_blank (m : Mark) : ∀ c ∈ m.gap ++ m.spare, isBlank c = true := by
  refine List.forall_mem_append.2 ⟨m.gap_blank, ?_⟩
  rw [spare]
  split
  · exact m.trail_blank
  · simp

/-- The same tag, with the blank characters in the runs in which they are read. -/
def tight (m : Mark) : Mark where
  sigil := m.sigil
  value := m.value
  lead := if m.sigil = none then m.lead ++ (m.gap ++ m.spare) else m.lead
  gap := if m.sigil = none then [] else m.gap ++ m.spare
  trail := if m.value = [] then [] else m.trail
  sigil_mem := m.sigil_mem
  solid := m.solid
  last_not_blank := m.last_not_blank
  no_brace := m.no_brace
  plain := m.plain
  lead_blank := by
    split
    · exact List.forall_mem_append.2 ⟨m.lead_blank, m.gap_spare_blank⟩
    · exact m.lead_blank
  gap_blank := by
    split
    · simp
    · exact m.gap_spare_blank
  trail_blank := by
    split
    · simp
    · exact m.trail_blank

theorem isTight_tight (m : Mark) : m.tight.IsTight where
  gap h := if_pos h
  trail h := if_pos h

theorem print_tight (m : Mark) (d : Delimiters) : m.tight.print d = m.print d := by
  have htail : m.tight.tail d = m.tail d := rfl
  simp only [print, htail]
  cases hs : m.sigil <;> by_cases hv : m.value = [] <;> simp [tight, spare, hs, hv]

theorem tag_tight (m : Mark) (d : Delimiters) : m.tight.tag d = m.tag d := by
  rw [tag, print_tight]
  rfl

end Mark

/-- The closing delimiter is not found in a value: its first character is no blank, no sigil, and
not in the value. -/
def Delimiters.Ends (d : Delimiters) (value : List Char) : Prop :=
  ∀ c ∈ d.closing.head?, isBlank c = false ∧ c ∉ sigils ∧ c ∉ value

namespace Mark

variable {m : Mark} {d : Delimiters}

theorem tail_ne_nil : m.tail d ≠ [] := by
  rw [tail]
  split
  · simp
  · exact d.closing_ne_nil

theorem head_tail (he : d.Ends m.value) :
    ∀ c ∈ (m.tail d).head?, isBlank c = false ∧ c ∉ sigils ∧ c ∉ m.value := by
  rw [tail]
  split
  · intro c hc
    cases hc
    exact ⟨rfl, by decide, m.no_brace⟩
  · exact he

/-- What follows the blank characters after the sigil. -/
def body (m : Mark) (d : Delimiters) (rest : List Char) : List Char :=
  m.value ++ (m.trail ++ (m.tail d ++ rest))

theorem print_append (m : Mark) (d : Delimiters) (rest : List Char) :
    m.print d ++ rest = d.opening ++ (m.lead ++ (m.sigil.toList ++ (m.gap ++ m.body d rest))) := by
  simp [print, body]

/-- The first character of a tight tag's body is one of its value or of its end. -/
theorem head_body (ht : m.IsTight) (he : d.Ends m.value) (rest : List Char) :
    ∀ c ∈ (m.body d rest).head?, isBlank c = false ∧ (m.sigil = none → c ∉ sigils) := by
  intro c hc
  rw [body] at hc
  by_cases hv : m.value = []
  · rw [hv, ht.trail hv, List.nil_append, List.nil_append,
      List.head?_append_of_ne_nil _ tail_ne_nil] at hc
    obtain ⟨hb, hs, -⟩ := head_tail he c hc
    exact ⟨hb, fun _ => hs⟩
  · rw [List.head?_append_of_ne_nil _ hv] at hc
    exact ⟨m.solid c hc, fun h => m.plain h c hc⟩

theorem splitSigil_body (ht : m.IsTight) (he : d.Ends m.value) (rest : List Char) :
    splitSigil (m.sigil.toList ++ (m.gap ++ m.body d rest)) =
      (m.sigil, m.gap ++ m.body d rest) := by
  cases hs : m.sigil with
  | some c =>
    have hc : sigils.contains c = true := by simpa using (m.sigil_mem c hs).1
    rw [Option.toList_some, List.singleton_append, splitSigil, if_pos hc]
  | none =>
    rw [ht.gap hs, Option.toList_none, List.nil_append, List.nil_append]
    cases hb : m.body d rest with
    | nil => rfl
    | cons c r =>
      have hc : c ∉ sigils := (head_body ht he rest c (by rw [hb]; rfl)).2 hs
      rw [splitSigil, if_neg (by simpa using hc)]

theorem solid_sigil_body (ht : m.IsTight) (he : d.Ends m.value) (rest : List Char) :
    Solid (m.sigil.toList ++ (m.gap ++ m.body d rest)) := by
  have hblank : ∀ c ∈ sigils, isBlank c = false := by
    intro c hc
    simpa using List.all_eq_true.1 (show sigils.all (!isBlank ·) = true by decide) c hc
  cases hs : m.sigil with
  | some c =>
    intro b hb
    cases hb
    exact hblank c (m.sigil_mem c hs).1
  | none =>
    rw [ht.gap hs]
    exact fun c hc => (head_body ht he rest c hc).1

theorem offset_tail (he : d.Ends m.value) (rest : List Char) :
    (Pattern.blanksThen (m.tail d)).offset (m.body d rest) = m.value.length := by
  refine Pattern.offset_blanksThen m.trail_blank ?_ tail_ne_nil m.last_not_blank ?_
  · exact fun c hc => (head_tail he c hc).1
  · exact fun c hc => (head_tail he c hc).2.2

/-- With a brace as its sigil, a tag is closed by another brace, which is passed over, and the
closing delimiter follows at once. -/
theorem valueSpan_brace (hs : m.sigil = some '{') (he : d.Ends m.value) (rest : List Char) :
    valueSpan d m.sigil (m.body d rest) =
        (m.value.length, m.value.length + (m.trail.length + 1)) ∧
      d.stop.length? ((m.body d rest).drop (m.value.length + (m.trail.length + 1))) =
        some d.closing.length := by
  have hclosing : Solid d.closing := fun c hc => (he c hc).1
  have htail : m.tail d = ['}'] ++ d.closing := by rw [tail, if_pos hs]; rfl
  have hbody : m.body d rest = m.value ++ (m.trail ++ (['}'] ++ (d.closing ++ rest))) := by
    rw [body, htail, List.append_assoc]
  have hvalue : d.braceStop.offset (m.body d rest) = m.value.length := by
    rw [← offset_tail he rest, htail]; rfl
  have hsign : (Pattern.blanksThen ['}']).width ((m.body d rest).drop m.value.length) =
      m.trail.length + 1 := by
    rw [hbody, List.drop_left, Pattern.width,
      Pattern.length?_blanksThen m.trail_blank (by simp [Solid, isBlank]) (by simp)]
    rfl
  have hdrop : (m.body d rest).drop (m.value.length + (m.trail.length + 1)) =
      d.closing ++ rest := by
    rw [hbody, ← List.append_assoc, ← List.append_assoc, List.drop_left' (by simp)]
  have hlength : d.stop.length? (d.closing ++ rest) = some d.closing.length := by
    have := @Pattern.length?_blanksThen d.closing [] rest (by simp) hclosing d.closing_ne_nil
    rwa [List.nil_append, List.length_nil, Nat.zero_add] at this
  have hoffset : d.stop.offset (d.closing ++ rest) = 0 := by
    have := @Pattern.offset_blanksThen d.closing [] [] rest (by simp) hclosing d.closing_ne_nil
      (by simp) (by simp)
    rwa [List.nil_append, List.nil_append] at this
  refine ⟨?_, by rw [hdrop, hlength]⟩
  simp only [hs, valueSpan, hvalue, hsign, hdrop, hoffset, Nat.add_zero]

theorem valueSpan_plain (hs : m.sigil ≠ some '{') (he : d.Ends m.value) (rest : List Char) :
    valueSpan d m.sigil (m.body d rest) = (m.value.length, m.value.length) ∧
      d.stop.length? ((m.body d rest).drop m.value.length) =
        some (m.trail.length + d.closing.length) := by
  have htail : m.tail d = d.closing := if_neg hs
  constructor
  · have hoffset := offset_tail he rest
    rw [htail] at hoffset
    unfold valueSpan
    split
    · next h => exact absurd rfl (m.sigil_mem '=' h).2
    · next h => exact absurd h hs
    · exact Prod.ext hoffset hoffset
  · rw [body, htail, List.drop_left]
    exact Pattern.length?_blanksThen m.trail_blank (fun c hc => (he c hc).1) d.closing_ne_nil

/-- The value ends where it was written to end, and the tag where its text does. -/
theorem valueSpan_body (he : d.Ends m.value) (rest : List Char) :
    ∃ stop n, valueSpan d m.sigil (m.body d rest) = (m.value.length, stop) ∧
      d.stop.length? ((m.body d rest).drop stop) = some n ∧
      stop + n = m.value.length + m.trail.length + (m.tail d).length := by
  by_cases hs : m.sigil = some '{'
  · obtain ⟨hspan, hstop⟩ := valueSpan_brace hs he rest
    refine ⟨_, _, hspan, hstop, ?_⟩
    rw [tail, if_pos hs, List.length_cons]
    omega
  · obtain ⟨hspan, hstop⟩ := valueSpan_plain hs he rest
    refine ⟨_, _, hspan, hstop, ?_⟩
    rw [tail, if_neg hs]
    omega

theorem read?_tight (ht : m.IsTight) (he : d.Ends m.value) (rest : List Char) :
    Tag.read? d (m.print d ++ rest) = some (m.tag d) := by
  have hopening : d.start.width (m.print d ++ rest) = d.opening.length + m.lead.length := by
    rw [print_append]
    show (Pattern.thenBlanks d.opening).width _ = _
    rw [Pattern.width_thenBlanks (List.prefix_append _ _), List.drop_left,
      blankRun_append m.lead_blank (solid_sigil_body ht he rest)]
  have hsplit : splitSigil ((m.print d ++ rest).drop (d.opening.length + m.lead.length)) =
      (m.sigil, m.gap ++ m.body d rest) := by
    rw [print_append, ← List.append_assoc, List.drop_left' (by simp), splitSigil_body ht he]
  have hgap : blankRun (m.gap ++ m.body d rest) = m.gap.length :=
    blankRun_append m.gap_blank fun c hc => (head_body ht he rest c hc).1
  obtain ⟨stop, n, hspan, hstop, hsum⟩ := valueSpan_body he rest
  have hvalue : (m.body d rest).take m.value.length = m.value := by rw [body, List.take_left]
  have hlength :
      d.opening.length + m.lead.length + m.sigil.toList.length + m.gap.length + stop + n =
      (m.print d).length := by
    simp only [print, List.length_append]
    omega
  simp only [Tag.read?, hopening, hsplit, hgap, List.drop_left, hspan, hstop, Option.map_some,
    hvalue, hlength, tag, kind]

/-- **A tag is read as it was written,** whatever follows it. -/
theorem read?_print (m : Mark) {d : Delimiters} (he : d.Ends m.value) (rest : List Char) :
    Tag.read? d (m.print d ++ rest) = some (m.tag d) := by
  rw [← print_tight, ← tag_tight]
  exact read?_tight m.isTight_tight he rest

theorem delimiters_tag (m : Mark) (d : Delimiters) : (m.tag d).delimiters d = .ok d := by
  have hkind : (m.tag d).kind ≠ .delimiterTag := by
    show Token.Kind.ofSigil m.sigil ≠ _
    intro h
    unfold Token.Kind.ofSigil at h
    split at h <;> cases h
    next hs => exact (m.sigil_mem '=' hs).2 rfl
  rw [Tag.delimiters, if_neg hkind]

end Mark

end Mustache
