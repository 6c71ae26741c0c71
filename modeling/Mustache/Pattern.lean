import Mustache.Text.Blank

/-!
# Patterns

The few shapes that a template is searched for: runs of blank characters, one of a set of
characters, and a given text with blank characters around it. A pattern is matched at the start of
a text, taking as many blank characters as it can; where the given text itself starts with blank
characters, the run in front of it is shortened until the rest fits.

`length?` is the length of the match at the start of a text and `find?` the offset of the first
match in it. `find?_none` and `find?_some` say that the search misses nothing and skips nothing.
-/

namespace Mustache

open Text

/-- What a template can be searched for. -/
inductive Pattern
  /-- Any number of blank characters. -/
  | blanks
  /-- At least one blank character. -/
  | someBlanks
  /-- One of the given characters. -/
  | oneOf (choices : List Char)
  /-- The given text. -/
  | exactly (word : List Char)
  /-- The given text and the blank characters after it. -/
  | thenBlanks (word : List Char)
  /-- Any number of blank characters and then the given text. -/
  | blanksThen (word : List Char)
  deriving DecidableEq, Repr

namespace Pattern

/-- The length of a given text, where another text starts with it. -/
def wordLength? (word s : List Char) : Option Nat :=
  if word.isPrefixOf s then some word.length else none

/-- The length of the longest match, at the start of the text, of blank characters followed by
`word`. -/
def blanksThenLength? (word : List Char) : List Char → Option Nat
  | [] => wordLength? word []
  | c :: r =>
    if isBlank c then ((blanksThenLength? word r).map (· + 1)).or (wordLength? word (c :: r))
    else wordLength? word (c :: r)

/-- The length of the match at the start of a text. -/
def length? : Pattern → List Char → Option Nat
  | blanks, s => some (blankRun s)
  | someBlanks, s => if blankRun s = 0 then none else some (blankRun s)
  | oneOf choices, c :: _ => if choices.contains c then some 1 else none
  | oneOf _, [] => none
  | exactly word, s => wordLength? word s
  | thenBlanks word, s => (wordLength? word s).map fun n => n + blankRun (s.drop n)
  | blanksThen word, s => blanksThenLength? word s

/-- The offset of the first match in a text, its end included. -/
def find? (p : Pattern) : List Char → Option Nat
  | [] => if (p.length? []).isSome then some 0 else none
  | c :: r => if (p.length? (c :: r)).isSome then some 0 else (find? p r).map (· + 1)

/-- The length of the match at the start of a text, zero if there is none. -/
def width (p : Pattern) (s : List Char) : Nat := (p.length? s).getD 0

/-- The offset of the first match in a text, or of its end if there is none. -/
def offset (p : Pattern) (s : List Char) : Nat := (p.find? s).getD s.length

/-! ## Laws of matching and search -/

theorem blankRun_le (s : List Char) : blankRun s ≤ s.length :=
  (List.takeWhile_sublist _).length_le

theorem wordLength?_eq_some {word s : List Char} {n : Nat} :
    wordLength? word s = some n ↔ word <+: s ∧ n = word.length := by
  rw [wordLength?]
  split
  · next h => simp [List.isPrefixOf_iff_prefix.1 h, eq_comm]
  · next h => simp [mt List.isPrefixOf_iff_prefix.2 h]

theorem blanksThenLength?_le {word s : List Char} {n : Nat}
    (h : blanksThenLength? word s = some n) : word.length ≤ n ∧ n ≤ s.length := by
  have here {t : List Char} {m : Nat} (ht : wordLength? word t = some m) :
      word.length ≤ m ∧ m ≤ t.length := by
    obtain ⟨hp, rfl⟩ := wordLength?_eq_some.1 ht
    exact ⟨Nat.le_refl _, hp.length_le⟩
  induction s generalizing n with
  | nil => exact here h
  | cons c r ih =>
    rw [blanksThenLength?] at h
    split at h
    · rcases Option.or_eq_some_iff.1 h with h | ⟨-, h⟩
      · obtain ⟨m, hm, rfl⟩ := Option.map_eq_some_iff.1 h
        have := ih hm
        simp only [List.length_cons]
        omega
      · exact here h
    · exact here h

/-- A match lies inside the text. -/
theorem length?_le {p : Pattern} {s : List Char} {n : Nat} (h : p.length? s = some n) :
    n ≤ s.length := by
  cases p with
  | blanks => exact Option.some.inj h ▸ blankRun_le s
  | someBlanks =>
    rw [length?] at h
    split at h
    · cases h
    · exact Option.some.inj h ▸ blankRun_le s
  | oneOf choices =>
    cases s with
    | nil => cases h
    | cons c r =>
      rw [length?] at h
      split at h
      · simp at h; simp; omega
      · cases h
  | exactly word =>
    obtain ⟨hp, rfl⟩ := wordLength?_eq_some.1 h
    exact hp.length_le
  | thenBlanks word =>
    obtain ⟨m, hm, rfl⟩ := Option.map_eq_some_iff.1 h
    obtain ⟨hp, rfl⟩ := wordLength?_eq_some.1 hm
    have h1 := hp.length_le
    have h2 := blankRun_le (s.drop word.length)
    rw [List.length_drop] at h2
    omega
  | blanksThen word => exact (blanksThenLength?_le h).2

/-- A search that finds nothing: there is no match anywhere in the text. -/
theorem find?_none {p : Pattern} {s : List Char} (h : p.find? s = none) (k : Nat) :
    p.length? (s.drop k) = none := by
  induction s generalizing k with
  | nil => cases hl : p.length? [] <;> simp_all [find?]
  | cons c r ih =>
    rw [find?] at h
    split at h
    · cases h
    · next hn =>
      cases k with
      | zero => simpa using hn
      | succ k => exact ih (by simpa using h) k

/-- A search that finds a match: it is inside the text, and there is none before it. -/
theorem find?_some {p : Pattern} {s : List Char} {n : Nat} (h : p.find? s = some n) :
    n ≤ s.length ∧ (p.length? (s.drop n)).isSome ∧ ∀ k < n, p.length? (s.drop k) = none := by
  induction s generalizing n with
  | nil =>
    rw [find?] at h
    split at h
    · next hs => cases h; simp [hs]
    · cases h
  | cons c r ih =>
    rw [find?] at h
    split at h
    · next hs => cases h; simp [hs]
    · next hn =>
      obtain ⟨m, hm, rfl⟩ := Option.map_eq_some_iff.1 h
      obtain ⟨h1, h2, h3⟩ := ih hm
      refine ⟨by simpa using h1, by simpa using h2, fun k hk => ?_⟩
      cases k with
      | zero => simpa using hn
      | succ k => exact h3 k (by omega)

end Pattern

end Mustache
