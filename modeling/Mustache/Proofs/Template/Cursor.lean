import Mustache.Scanner
import Mustache.Proofs.Template.Locality
import Mustache.Proofs.Template.Offsets

/-!
# A cursor that takes and skips

What a scanner gives out when patterns are taken and skipped to, in whatever order: the text from
its start up to the cursor, every character once. A skip to a pattern that does not match the empty
text misses no match: either there is none left, or the first one stands at the cursor and can be
taken.

**Idea.** A call reads a number of characters from the cursor on, which the pattern and the rest of
the text decide (`Call.reach`), and that is all it does (`Call.run_eq`). Parts of a text that are
read one after the other make up one part (`between_append`), so a sequence of calls reads what lies
between the two places of the cursor (`calls_between`).

Main statement: `Scanner.reads_all`.
-/

namespace Mustache

open Text

/-! ## How far a match reaches -/

namespace Pattern

variable {p : Pattern} {s : List Char} {n : Nat}

/-- A pattern that does not match the empty text has no empty matches. -/
theorem length?_pos (hp : p.length? [] = none) (h : p.length? s = some n) : 0 < n := by
  have word_pos {word : List Char} (hword : wordLength? word [] = none) : 0 < word.length := by
    refine List.length_pos_iff.2 fun hnil => ?_
    rw [hnil] at hword
    cases hword
  cases p with
  | blanks => cases hp
  | someBlanks =>
    rw [length?] at h
    split at h
    · cases h
    · next hrun =>
      cases h
      exact Nat.pos_of_ne_zero hrun
  | oneOf choices =>
    cases s with
    | nil => cases h
    | cons c r =>
      rw [length?] at h
      split at h <;> cases h
      exact Nat.one_pos
  | exactly word =>
    obtain ⟨-, rfl⟩ := wordLength?_eq_some.1 h
    exact word_pos hp
  | thenBlanks word =>
    obtain ⟨m, hm, rfl⟩ := Option.map_eq_some_iff.1 h
    obtain ⟨-, rfl⟩ := wordLength?_eq_some.1 hm
    exact Nat.lt_of_lt_of_le (word_pos (Option.map_eq_none_iff.1 hp)) (Nat.le_add_right _ _)
  | blanksThen word =>
    exact Nat.lt_of_lt_of_le (word_pos hp) (blanksThenLength?_le h).1

theorem width_le (p : Pattern) (s : List Char) : p.width s ≤ s.length := by
  rw [width]
  cases h : p.length? s with
  | none => exact Nat.zero_le _
  | some n => exact length?_le h

theorem offset_le (p : Pattern) (s : List Char) : p.offset s ≤ s.length := by
  rw [offset]
  cases h : p.find? s with
  | none => exact Nat.le_refl _
  | some n => exact (find?_some h).1

/-- There is no match before the place that a search comes to. -/
theorem length?_before_offset {k : Nat} (h : k < p.offset s) : p.length? (s.drop k) = none := by
  rw [offset] at h
  cases hf : p.find? s with
  | none => exact find?_none hf k
  | some n =>
    rw [hf] at h
    exact (find?_some hf).2.2 k h

theorem width_pos_iff (hp : p.length? [] = none) : 0 < p.width s ↔ (p.length? s).isSome := by
  rw [width]
  cases h : p.length? s with
  | none => simp
  | some n => simpa using length?_pos hp h

end Pattern

namespace Delimiters

/-- The patterns that templates are read with where the delimiters `d` are in force. -/
def patterns (d : Delimiters) : List Pattern :=
  [.blanks, .someBlanks, .blanksThen ['='], .blanksThen ['}'], .oneOf sigils, d.start, d.stop,
    d.braceStop]

theorem length?_start_nil (d : Delimiters) : d.start.length? [] = none := by
  show (Pattern.wordLength? d.opening []).map _ = none
  rw [Option.map_eq_none_iff]
  exact Pattern.length?_nil d.opening_ne_nil

theorem length?_stop_nil (d : Delimiters) : d.stop.length? [] = none :=
  Pattern.length?_nil d.closing_ne_nil

/-- Of the patterns that templates are read with, only the one for any number of blank characters
matches the empty text. -/
theorem length?_nil_patterns {d : Delimiters} {p : Pattern} (h : p ∈ d.patterns) :
    p.length? [] = none ↔ p ≠ .blanks := by
  have hbrace : d.braceStop.length? [] = none := Pattern.length?_nil (List.cons_ne_nil _ _)
  simp only [patterns, List.mem_cons, List.not_mem_nil, or_false] at h
  rcases h with rfl | rfl | rfl | rfl | rfl | rfl | rfl | rfl
  · exact iff_of_false nofun (fun h => h rfl)
  · exact iff_of_true rfl nofun
  · exact iff_of_true rfl nofun
  · exact iff_of_true rfl nofun
  · exact iff_of_true rfl nofun
  · exact iff_of_true d.length?_start_nil nofun
  · exact iff_of_true d.length?_stop_nil nofun
  · exact iff_of_true hbrace nofun

end Delimiters

/-! ## Single calls -/

namespace Scanner

open Template (between between_append)

/-- A use of a scanner: a pattern is taken at the cursor or skipped to. -/
inductive Call
  | take (p : Pattern)
  | skipTo (p : Pattern)

/-- What a call gives out, and the scanner after it. -/
def Call.run (s : Scanner) : Call → List Char × Scanner
  | take p => s.take p
  | skipTo p => s.skipTo p

/-- How many characters a call reads, where `rest` is left of the text. -/
def Call.reach (rest : List Char) : Call → Nat
  | take p => p.width rest
  | skipTo p => p.offset rest

variable {text : List Char} {n : Nat} {p : Pattern}

theorem cursor_natCast (h : n ≤ text.length) : (⟨text, n⟩ : Scanner).cursor = n := by
  rw [cursor, Int.toNat_natCast, Nat.min_eq_left h]

theorem rest_natCast (h : n ≤ text.length) : (⟨text, n⟩ : Scanner).rest = text.drop n := by
  rw [rest, cursor_natCast h]

theorem atEnd_natCast : (⟨text, n⟩ : Scanner).atEnd = true ↔ text.length ≤ n := by
  rw [atEnd, decide_eq_true_iff]
  exact Int.ofNat_le

theorem Call.reach_le (c : Call) (rest : List Char) : c.reach rest ≤ rest.length := by
  cases c with
  | take p => exact p.width_le rest
  | skipTo p => exact p.offset_le rest

/-- Taking a pattern reads its match at the cursor. -/
theorem take_natCast (h : n ≤ text.length) :
    (⟨text, n⟩ : Scanner).take p = ((text.drop n).take (p.width (text.drop n)),
      ⟨text, (n + p.width (text.drop n) : Nat)⟩) := by
  rw [take, rest_natCast h, cursor_natCast h, Pattern.width]
  cases p.length? (text.drop n) <;> rfl

/-- Skipping to a pattern reads what stands before its first match. -/
theorem skipTo_natCast (h : n ≤ text.length) :
    (⟨text, n⟩ : Scanner).skipTo p = ((text.drop n).take (p.offset (text.drop n)),
      ⟨text, (n + p.offset (text.drop n) : Nat)⟩) := by
  have hle : n + p.offset (text.drop n) ≤ text.length := by
    have := p.offset_le (text.drop n)
    rw [List.length_drop] at this
    omega
  rw [skipTo, rest_natCast h, cursor_natCast h]
  show (slice text n (some ((n + p.offset (text.drop n) : Nat) : Int)), _) = _
  rw [slice_natCast text (Nat.le_add_right _ _) hle, Nat.add_sub_cancel_left]

/-- **A call reads on from the cursor.** -/
theorem Call.run_eq (c : Call) (h : n ≤ text.length) :
    c.run ⟨text, n⟩ =
      (between text n (n + c.reach (text.drop n)), ⟨text, (n + c.reach (text.drop n) : Nat)⟩) := by
  rw [between, Nat.add_sub_cancel_left]
  cases c with
  | take p => exact take_natCast h
  | skipTo p => exact skipTo_natCast h

theorem Call.add_reach_le (c : Call) (h : n ≤ text.length) :
    n + c.reach (text.drop n) ≤ text.length := by
  have := c.reach_le (text.drop n)
  rw [List.length_drop] at this
  omega

/-- Whether taking a pattern gives anything says whether it matches. -/
theorem take_eq_nil_iff (hp : p.length? [] = none) (h : n ≤ text.length) :
    ((⟨text, n⟩ : Scanner).take p).1 = [] ↔ p.length? (text.drop n) = none := by
  rw [take_natCast h, ← Option.not_isSome_iff_eq_none, ← Pattern.width_pos_iff hp, Nat.not_lt,
    Nat.le_zero]
  show (text.drop n).take _ = [] ↔ _
  rw [List.take_eq_nil_iff]
  constructor
  · rintro (hwidth | hnil)
    · exact hwidth
    · rw [hnil]
      exact Nat.le_zero.1 (p.width_le [])
  · exact .inl

/-! ## Skipping to the first match -/

/-- Skipping to a pattern comes to the first match from the cursor on, which can then be taken, or
to the end, and then there is no match from the cursor on. -/
def StopsAtFirst (s : Scanner) (p : Pattern) : Prop :=
  let t := (s.skipTo p).2
  (t.atEnd = true ∧ ∀ k : Nat, s.position ≤ k → p.length? (s.text.drop k) = none) ∨
    ((t.take p).1 ≠ [] ∧
      ∀ k : Nat, s.position ≤ k → k < t.position → p.length? (s.text.drop k) = none)

theorem stopsAtFirst (hp : p.length? [] = none) (h : n ≤ text.length) :
    StopsAtFirst ⟨text, n⟩ p := by
  have hstop : n + p.offset (text.drop n) ≤ text.length := (Call.skipTo p).add_reach_le h
  have hbefore (k : Nat) (hk : n ≤ k) (hlt : k < n + p.offset (text.drop n)) :
      p.length? (text.drop k) = none := by
    have := Pattern.length?_before_offset (p := p) (s := text.drop n) (k := k - n) (by omega)
    rwa [List.drop_drop, Nat.add_sub_cancel' hk] at this
  rw [StopsAtFirst, skipTo_natCast h]
  cases hmatch : p.length? (text.drop (n + p.offset (text.drop n))) with
  | some m =>
    refine .inr ⟨?_, fun k hk hlt => hbefore k (Int.ofNat_le.1 hk) (Int.ofNat_lt.1 hlt)⟩
    rw [Ne, take_eq_nil_iff hp hstop, hmatch]
    exact Option.some_ne_none m
  | none =>
    -- A search that comes to no match comes to the end.
    have hend : p.offset (text.drop n) = (text.drop n).length :=
      Pattern.offset_of_length?_eq_none (by rwa [List.drop_drop])
    rw [List.length_drop] at hend
    have hall : n + p.offset (text.drop n) = text.length := by omega
    refine .inl ⟨atEnd_natCast.2 hall.ge, fun k hk => ?_⟩
    by_cases hlt : k < text.length
    · exact hbefore k (Int.ofNat_le.1 hk) (hall ▸ hlt)
    · rw [List.drop_eq_nil_of_le (Nat.le_of_not_lt hlt)]
      exact hp

/-! ## Sequences of calls -/

/-- What calls give out, one after the other, and the scanner after them. -/
def calls (s : Scanner) : List Call → List (List Char) × Scanner
  | [] => ([], s)
  | c :: cs =>
    let (out, next) := c.run s
    let (outs, last) := next.calls cs
    (out :: outs, last)

/-- Calls read what lies between the place that the cursor had and the one that it has then. -/
theorem calls_between (cs : List Call) (h : n ≤ text.length) :
    ∃ m : Nat, n ≤ m ∧ m ≤ text.length ∧ ((⟨text, n⟩ : Scanner).calls cs).2 = ⟨text, m⟩ ∧
      ((⟨text, n⟩ : Scanner).calls cs).1.flatten = between text n m := by
  induction cs generalizing n with
  | nil => exact ⟨n, Nat.le_refl n, h, rfl, by simp [calls, between]⟩
  | cons c cs ih =>
    have hfirst : n ≤ n + c.reach (text.drop n) := Nat.le_add_right _ _
    obtain ⟨m, hle, hm, hlast, houts⟩ := ih (c.add_reach_le h)
    refine ⟨m, Nat.le_trans hfirst hle, hm, ?_, ?_⟩
    · rw [calls, c.run_eq h]
      exact hlast
    · rw [calls, c.run_eq h, ← between_append hfirst hle, ← houts]
      rfl

/-- **A scanner skips and repeats no character.** After any calls it has given out the text up to
the cursor, which is inside the text and is not moved back by a further call. Skipping to a pattern
that does not match the empty text comes to its first match or, if there is none, to the end; and
this goes for the patterns that templates are read with, except the one for any number of blank
characters. -/
theorem reads_all (text : List Char) (cs : List Call) :
    let outs := ((ofText text).calls cs).1
    let s := ((ofText text).calls cs).2
    s.text = text ∧ 0 ≤ s.position ∧ s.position ≤ text.length ∧
      outs.flatten = text.take s.position.toNat ∧
      (∀ c : Call, s.position ≤ (c.run s).2.position) ∧
      (∀ p : Pattern, p.length? [] = none → s.StopsAtFirst p) ∧
      ∀ d : Delimiters, ∀ p ∈ d.patterns, p ≠ .blanks → s.StopsAtFirst p := by
  intro outs s
  obtain ⟨m, -, hm, hs, houts⟩ := calls_between cs (Nat.zero_le text.length)
  replace hs : s = ⟨text, m⟩ := hs
  replace houts : outs.flatten = between text 0 m := houts
  rw [hs]
  refine ⟨rfl, Int.natCast_nonneg m, Int.ofNat_le.2 hm, ?_, fun c => ?_,
    fun p hp => stopsAtFirst hp hm, fun d p hmem hne => ?_⟩
  · rw [houts, between, List.drop_zero, Nat.sub_zero, Int.toNat_natCast]
  · rw [c.run_eq hm]
    exact Int.ofNat_le.2 (Nat.le_add_right _ _)
  · exact stopsAtFirst ((Delimiters.length?_nil_patterns hmem).2 hne) hm

/-- A tag is come to and its opening braces are taken; then its closing braces are looked for. -/
theorem reads_all_tag :
    let text := "a \x7b\x7b b \x7d\x7d".toList
    let cs : List Call := [.skipTo Delimiters.braces.start, .take Delimiters.braces.start]
    let s := ((ofText text).calls cs).2
    s.position = 5 ∧ ((ofText text).calls cs).1.flatten = "a \x7b\x7b ".toList ∧
      Delimiters.braces.stop ∈ Delimiters.braces.patterns ∧ Delimiters.braces.stop ≠ .blanks ∧
      s.StopsAtFirst Delimiters.braces.stop := by
  intro text cs s
  have hmem : Delimiters.braces.stop ∈ Delimiters.braces.patterns := by decide
  have hne : Delimiters.braces.stop ≠ .blanks := nofun
  obtain ⟨-, -, -, houts, -, -, hstops⟩ := reads_all text cs
  exact ⟨rfl, houts, hmem, hne, hstops _ _ hmem hne⟩

end Scanner

end Mustache
