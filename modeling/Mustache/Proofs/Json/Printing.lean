import Mustache.Json.Bound
import Mustache.Json.Printer
import Mustache.Proofs.Json.Canonical

/-!
# Reading back JSON

A document that was written reads back as itself, if it is one that reading gives and has no floats
in it. Space is only written where it is passed over, an escape stands for the character that it was
written for, and digits are written only where a number ends before something that no number goes on
with.

**Idea.** What is read back is stated with the rest of the text left open: reading what was written,
with more text behind it, stops in front of that text (`Gives`). For numbers that text must not go
on with one (`AtEnd`). So the statement passes from the parts of a document to the document, by
induction on the document. The items of an array and the members of an object stand one to a line
and are read in the same way, so one induction along the lines serves both (`ReadsInRow`). The count
of steps is bounded by the length of the text as in `endsWithin_read`.

Main statements: `read_print`, and `not_mem_print` for the characters that are never written.
-/

namespace Mustache.Json

mutual

/-- Whether a document has no floats in it. -/
def isFloatFree : Json → Bool
  | float _ => false
  | arr items => areFloatFree items
  | obj members => membersFloatFree members
  | _ => true

/-- Whether some documents have no floats in them. -/
def areFloatFree : List Json → Bool
  | [] => true
  | j :: js => isFloatFree j && areFloatFree js

/-- Whether some members have no floats in them. -/
def membersFloatFree : List (String × Json) → Bool
  | [] => true
  | m :: ms => memberFloatFree m && membersFloatFree ms

/-- Whether a member has no floats in it. -/
def memberFloatFree : String × Json → Bool
  | (_, j) => isFloatFree j

end

theorem areFloatFree_iff (js : List Json) :
    areFloatFree js = true ↔ ∀ j ∈ js, isFloatFree j = true := by
  induction js with
  | nil => simp [areFloatFree]
  | cons j js ih => simp [areFloatFree, ih]

theorem membersFloatFree_iff (ms : List (String × Json)) :
    membersFloatFree ms = true ↔ ∀ m ∈ ms, isFloatFree m.2 = true := by
  induction ms with
  | nil => simp [membersFloatFree]
  | cons m ms ih =>
    obtain ⟨name, j⟩ := m
    simp [membersFloatFree, memberFloatFree, ih]

/-! ## Answers -/

variable {α β : Type} {a : α} {rest : List Char} {offset steps level : Nat}

/-- Reading gives something and stops in front of a text. -/
def Gives (a : α) (rest : List Char) (x : Except Stop (Read α)) : Prop :=
  ∃ offset, x = .ok ⟨a, offset, rest⟩

theorem Gives.map {x : Except Stop (Read α)} (h : Gives a rest x) (f : α → β) :
    Gives (f a) rest (x.map (·.map f)) := by
  obtain ⟨offset, rfl⟩ := h
  exact ⟨offset, rfl⟩

theorem Gives.bind {b : β} {left : List Char} {x : Except Stop (Read α)} (h : Gives a rest x)
    {f : Read α → Except Stop (Read β)} (hf : ∀ offset, Gives b left (f ⟨a, offset, rest⟩)) :
    Gives b left (x >>= f) := by
  obtain ⟨offset, rfl⟩ := h
  exact hf offset

/-- Nothing follows, or what may follow a document inside another one. -/
def AtEnd (rest : List Char) : Prop := ∀ c ∈ rest.head?, c = ',' ∨ c = '\n'

theorem atEnd_nil : AtEnd [] := nofun

theorem atEnd_comma (rest : List Char) : AtEnd (',' :: rest) := by
  rintro _ ⟨⟩
  exact .inl rfl

theorem atEnd_newLine (level : Nat) (rest : List Char) : AtEnd (newLine level ++ rest) := by
  rintro _ ⟨⟩
  exact .inr rfl

/-! ## Space -/

theorem skipSpace_cons {c : Char} (hc : isSpace c = false) (offset : Nat) (s : List Char) :
    skipSpace offset (c :: s) = (offset, c :: s) := by
  simp [skipSpace, hc]

theorem skipSpace_of_all {space : List Char} (hspace : ∀ c ∈ space, isSpace c = true) {c : Char}
    (hc : isSpace c = false) (offset : Nat) (s : List Char) :
    skipSpace offset (space ++ c :: s) = (offset + space.length, c :: s) := by
  rw [skipSpace, List.takeWhile_append_of_pos hspace, List.dropWhile_append_of_pos hspace]
  simp [hc]

theorem skipSpace_newLine {c : Char} (hc : isSpace c = false) (offset level : Nat)
    (s : List Char) :
    skipSpace offset (newLine level ++ c :: s) = (offset + (newLine level).length, c :: s) := by
  refine skipSpace_of_all (fun d hd => ?_) hc offset s
  rcases List.mem_cons.1 hd with rfl | hd
  · rfl
  · rw [(List.mem_replicate.1 hd).2]
    rfl

/-! ## Strings -/

/-- The number of a control character is read back from its four digits. -/
theorem hex4?_hex :
    ∀ n < 0x20, (match Text.hex 4 n with | [a, b, c, d] => hex4? a b c d | _ => none) = some n := by
  decide

theorem readString_escapeChar (start offset : Nat) (c : Char) {s : List Char} (hs : s ≠ []) :
    readString start offset (escapeChar c ++ s) =
      (readString start (offset + (escapeChar c).length) s).map (·.map (c :: ·)) := by
  unfold escapeChar
  split
  · next h =>
    have hc : c = '"' ∨ c = '\\' := by simpa using h
    rcases hc with rfl | rfl <;> simp [readString, letterEscape?]
  split
  · next h => subst h; simp [readString, letterEscape?]
  split
  · next h => subst h; simp [readString, letterEscape?]
  split
  · next h => subst h; simp [readString, letterEscape?]
  split
  · next h =>
    rw [← Char.ofNat_toNat c, h]
    simp [readString, letterEscape?]
  split
  · next h =>
    rw [← Char.ofNat_toNat c, h]
    simp [readString, letterEscape?]
  split
  · next h =>
    have hhex := hex4?_hex c.toNat h
    have hhigh : isHighHalf c.toNat = false := by
      simp only [isHighHalf, Bool.and_eq_false_iff, decide_eq_false_iff_not]
      omega
    have hlow : isLowHalf c.toNat = false := by
      simp only [isLowHalf, Bool.and_eq_false_iff, decide_eq_false_iff_not]
      omega
    obtain ⟨e, r, rfl⟩ := List.exists_cons_of_ne_nil hs
    split at hhex
    · next hdigits =>
      rw [hdigits]
      simp [readString, hhex, hhigh, hlow]
    · cases hhex
  · next hquote _ _ _ _ _ hcontrol =>
    have h : c ≠ '"' ∧ c ≠ '\\' := by simpa using hquote
    rw [List.singleton_append, readString]
    · rw [if_neg hcontrol]
      rfl
    all_goals
      intros
      simp_all

theorem gives_readString (start offset : Nat) (s rest : List Char) :
    Gives s rest (readString start offset (s.flatMap escapeChar ++ '"' :: rest)) := by
  induction s generalizing offset with
  | nil => exact ⟨offset + 1, by simp [readString]⟩
  | cons c s ih =>
    rw [List.flatMap_cons, List.append_assoc, readString_escapeChar start offset c (by simp)]
    exact (ih _).map _

/-! ## Numbers -/

theorem toList_intText (n : Int) :
    (Value.intText n).toList = (if n < 0 then ['-'] else []) ++ Nat.toDigits 10 n.natAbs := by
  rw [Value.intText, Decimal.signed, String.toList_ofList]
  by_cases h : n < 0 <;> simp [h]

theorem head?_toDigits_append (n : Nat) (s : List Char) :
    (Nat.toDigits 10 n ++ s).head? = (Nat.toDigits 10 n).head? := by
  obtain ⟨c, r, h⟩ := List.exists_cons_of_ne_nil (Nat.toDigits_ne_nil (b := 10) (n := n))
  rw [h]
  rfl

theorem head?_toDigits_ne {n : Nat} (hn : n ≠ 0) : (Nat.toDigits 10 n).head? ≠ some '0' := by
  induction n using Nat.strongRecOn with
  | ind n ih =>
    by_cases h : n < 10
    · rw [Nat.toDigits_of_lt_base h]
      simpa using hn
    · rw [Nat.toDigits_of_base_le (by decide) (Nat.le_of_not_lt h), head?_toDigits_append]
      exact ih (n / 10) (by omega) (by omega)

/-- Where a number is at its end no digit follows. -/
theorem AtEnd.not_isDigit (h : AtEnd rest) : ∀ c ∈ rest.head?, c.isDigit = false := by
  intro c hc
  rcases h c hc with rfl | rfl <;> rfl

theorem readDigits_append {digits : List Char} (hdigits : ∀ c ∈ digits, c.isDigit = true)
    (hrest : ∀ c ∈ rest.head?, c.isDigit = false) (offset : Nat) :
    readDigits offset (digits ++ rest) = ⟨digits, offset + digits.length, rest⟩ := by
  rw [readDigits, List.takeWhile_append_of_pos hdigits, List.dropWhile_append_of_pos hdigits]
  cases rest with
  | nil => simp
  | cons c r => simp [hrest c rfl]

theorem readWhole_toDigits (n offset : Nat) (hrest : ∀ c ∈ rest.head?, c.isDigit = false) :
    readWhole offset (Nat.toDigits 10 n ++ rest) =
      ⟨Nat.toDigits 10 n, offset + (Nat.toDigits 10 n).length, rest⟩ := by
  by_cases hn : n = 0
  · rw [hn, Nat.toDigits_zero]
    rfl
  · have hdigits : ∀ c ∈ Nat.toDigits 10 n, c.isDigit = true :=
      fun c hc => Nat.isDigit_of_mem_toDigits (by decide) (by decide) hc
    rw [← readDigits_append hdigits hrest, readWhole]
    intro r hr
    have hhead := congrArg List.head? hr
    rw [head?_toDigits_append] at hhead
    exact head?_toDigits_ne hn hhead

theorem readFraction_of_atEnd (h : AtEnd rest) (offset : Nat) :
    readFraction offset rest = ⟨[], offset, rest⟩ := by
  rw [readFraction.eq_def]
  split
  · have := h '.' rfl
    simp at this
  · rfl

theorem readExponent_of_atEnd (h : AtEnd rest) (offset : Nat) :
    readExponent offset rest = ⟨none, offset, rest⟩ := by
  cases rest with
  | nil => rfl
  | cons c r =>
    rcases h c rfl with rfl | rfl <;> rfl

theorem readMinus_intText (n : Int) (offset : Nat) (rest : List Char) :
    ∃ offset', readMinus offset ((Value.intText n).toList ++ rest) =
      ⟨decide (n < 0), offset', Nat.toDigits 10 n.natAbs ++ rest⟩ := by
  rw [toList_intText]
  by_cases h : n < 0
  · exact ⟨offset + 1, by simp [h, readMinus]⟩
  · refine ⟨offset, ?_⟩
    rw [if_neg h, List.nil_append, readMinus]
    · simp [h]
    · intro r hr
      have hhead := congrArg List.head? hr
      rw [head?_toDigits_append] at hhead
      have hdigit := Nat.isDigit_of_mem_toDigits (b := 10) (by decide) (by decide)
        (List.mem_of_head? hhead)
      exact absurd hdigit (by decide)

theorem gives_readNumber {n : Int} (hn : (Nat.toDigits 10 n.natAbs).length ≤ Error.maxDigits)
    (hrest : AtEnd rest) (offset : Nat) :
    Gives (int n) rest (readNumber offset ((Value.intText n).toList ++ rest)) := by
  obtain ⟨after, hminus⟩ := readMinus_intText n offset rest
  have hvalue : Decimal.natOfDigits (Nat.toDigits 10 n.natAbs) = n.natAbs :=
    Nat.ofDigitChars_ten_toDigits
  unfold readNumber
  simp only [hminus, readWhole_toDigits _ _ hrest.not_isDigit, readFraction_of_atEnd hrest,
    readExponent_of_atEnd hrest, Nat.toDigits_ne_nil, Nat.not_lt.2 hn, hvalue, and_self, if_true,
    if_false, decide_eq_true_eq]
  refine ⟨_, congrArg (fun m => Except.ok (Read.mk (int m) _ rest)) ?_⟩
  split <;> omega

/-- A digit, or a minus sign with one after it, starts none of the words. -/
theorem find?_wordDocuments {c : Char} {s : List Char}
    (h : c.isDigit = true ∨ c = '-' ∧ ∃ d r, s = d :: r ∧ d.isDigit = true) :
    (wordDocuments.find? fun w => w.1.isPrefixOf (c :: s)) = none := by
  have hne (d e : Char) (hd : d.isDigit = true) (he : e.isDigit = false) : e ≠ d := by
    intro heq
    rw [heq, hd] at he
    cases he
  rcases h with h | ⟨rfl, d, r, rfl, h⟩
  · simp [wordDocuments, hne c 'n' h rfl, hne c 't' h rfl, hne c 'f' h rfl, hne c 'N' h rfl,
      hne c 'I' h rfl, hne c '-' h rfl]
  · simp [wordDocuments, hne d 'I' h rfl]

/-! ## Documents -/

/-- A character that a document may start with. An array without items has a bracket in that
place. -/
structure Opens (c : Char) : Prop where
  space : isSpace c = false
  bracket : c ≠ ']'
  mark : c ≠ Char.ofNat 0xFEFF

/-- A document is read back in front of whatever may follow it, given enough steps. -/
structure ReadsBack (j : Json) : Prop where
  opens : ∀ level, ∃ c s, printAt level j = c :: s ∧ Opens c
  gives : ∀ level steps offset rest, AtEnd rest → 2 * (printAt level j ++ rest).length + 1 ≤ steps →
    Gives j rest (readValue steps offset (printAt level j ++ rest))

theorem readsBack_str (s : String) : ReadsBack (str s) where
  opens _ := ⟨'"', _, rfl, rfl, by decide, by decide⟩
  gives level steps offset rest _ hsteps := by
    obtain _ | steps := steps
    · omega
    · have h := gives_readString offset (offset + 1) s.toList rest
      rw [printAt, printString, List.append_assoc, List.cons_append, List.singleton_append,
        readValue, if_pos rfl]
      simpa using h.map (str ∘ String.ofList)

/-- What starts no string, no array and no object is a document without parts. -/
theorem readValue_leaf {c : Char} (hc : c ≠ '"' ∧ c ≠ '[' ∧ c ≠ '\x7b') (steps offset : Nat)
    (s : List Char) : readValue (steps + 1) offset (c :: s) = readLeaf offset (c :: s) := by
  rw [readValue, if_neg hc.1, if_neg hc.2.1, if_neg hc.2.2]

/-- A document that is written as one of the words is read back. -/
theorem readsBack_word {c : Char} {word : List Char} {j : Json}
    (hj : ∀ level, printAt level j = c :: word) (hopens : Opens c)
    (hc : c ≠ '"' ∧ c ≠ '[' ∧ c ≠ '\x7b')
    (hfind : ∀ rest, (wordDocuments.find? fun w => w.1.isPrefixOf (c :: word ++ rest)) =
      some (c :: word, j)) : ReadsBack j := by
  constructor
  · intro level
    exact ⟨c, word, hj level, hopens⟩
  · intro level steps offset rest _ hsteps
    obtain _ | steps := steps
    · omega
    · rw [hj, List.cons_append, readValue_leaf hc, readLeaf, ← List.cons_append, hfind]
      exact ⟨offset + (c :: word).length, by simp⟩

theorem readsBack_int {n : Int} (hn : (Nat.toDigits 10 n.natAbs).length ≤ Error.maxDigits) :
    ReadsBack (int n) := by
  have hstart : ∃ c s, (Value.intText n).toList = c :: s ∧
      (c.isDigit = true ∨ c = '-' ∧ ∃ d r, s = d :: r ∧ d.isDigit = true) := by
    obtain ⟨d, r, heq⟩ := List.exists_cons_of_ne_nil (Nat.toDigits_ne_nil (b := 10) (n := n.natAbs))
    have hd : d.isDigit = true :=
      Nat.isDigit_of_mem_toDigits (b := 10) (n := n.natAbs) (by decide) (by decide)
        (heq ▸ List.mem_cons_self)
    rw [toList_intText, heq]
    by_cases h : n < 0
    · exact ⟨'-', d :: r, by rw [if_pos h]; rfl, .inr ⟨rfl, d, r, rfl, hd⟩⟩
    · exact ⟨d, r, by rw [if_neg h]; rfl, .inl hd⟩
  obtain ⟨c, s, heq, hc⟩ := hstart
  have hne (e : Char) (he : e.isDigit = false) (he' : e ≠ '-') : c ≠ e := by
    rintro rfl
    rcases hc with h | ⟨h, -⟩
    · rw [he] at h
      cases h
    · exact he' h
  constructor
  · intro level
    refine ⟨c, s, heq, ?_, hne ']' rfl (by decide), hne _ rfl (by decide)⟩
    simp [isSpace, hne ' ' rfl (by decide), hne '\t' rfl (by decide), hne '\n' rfl (by decide),
      hne '\r' rfl (by decide)]
  · intro level steps offset rest hrest hsteps
    obtain _ | steps := steps
    · omega
    · have hnumber := gives_readNumber hn hrest offset
      rw [heq, List.cons_append] at hnumber
      have hfind : (wordDocuments.find? fun w => w.1.isPrefixOf (c :: (s ++ rest))) = none := by
        refine find?_wordDocuments (hc.imp_right fun ⟨hminus, d, r, hs, hd⟩ => ?_)
        exact ⟨hminus, d, r ++ rest, by rw [hs]; rfl, hd⟩
      rw [printAt, heq, List.cons_append, readValue_leaf
        ⟨hne _ rfl (by decide), hne _ rfl (by decide), hne _ rfl (by decide)⟩, readLeaf, hfind]
      exact hnumber

/-! ## Items and members -/

/-- What is written of some texts on lines of their own, from the first text on, with more text
behind the closing bracket. -/
def onLines (closing : Char) (level : Nat) (texts : List (List Char)) (rest : List Char) :
    List Char :=
  (',' :: newLine (level + 1)).intercalate texts ++ (newLine level ++ closing :: rest)

theorem onLines_singleton (closing : Char) (level : Nat) (text rest : List Char) :
    onLines closing level [text] rest = text ++ (newLine level ++ closing :: rest) := by
  rw [onLines, List.intercalate_singleton]

theorem onLines_cons_cons (closing : Char) (level : Nat) (text next : List Char)
    (texts : List (List Char)) (rest : List Char) :
    onLines closing level (text :: next :: texts) rest =
      text ++ (',' :: (newLine (level + 1) ++ onLines closing level (next :: texts) rest)) := by
  simp [onLines, List.intercalate_cons_cons]

theorem onLines_cons (closing : Char) (level : Nat) (text : List Char) (texts : List (List Char))
    (rest : List Char) :
    ∃ left, onLines closing level (text :: texts) rest = text ++ left := by
  cases texts with
  | nil => exact ⟨_, onLines_singleton closing level text rest⟩
  | cons next texts => exact ⟨_, onLines_cons_cons closing level text next texts rest⟩

theorem bracketed_append (opening closing : Char) (level : Nat) (text : List Char)
    (texts : List (List Char)) (rest : List Char) :
    bracketed opening closing level (text :: texts) ++ rest =
      opening :: (newLine (level + 1) ++ onLines closing level (text :: texts) rest) := by
  simp [bracketed, onLines]

theorem printItems_eq_map (level : Nat) (items : List Json) :
    printItems level items = items.map (printAt level) := by
  induction items with
  | nil => rfl
  | cons j js ih => rw [printItems, ih, List.map_cons]

theorem printMembers_eq_map (level : Nat) (members : List (String × Json)) :
    printMembers level members = members.map (printMember level) := by
  induction members with
  | nil => rfl
  | cons m ms ih => rw [printMembers, ih, List.map_cons]

/-- Things are written one to a line between two brackets, and read one after another by `readRow`.
What is written of one starts neither with space nor with the closing bracket; and with enough steps
it is read back in front of the line of the closing bracket, and in front of a comma. -/
structure ReadsInRow (closing : Char)
    (readRow : Nat → Nat → List Char → Except Stop (Read (List β))) (text : Nat → List Char)
    (b : β) : Prop where
  starts : ∀ level, ∃ c s, text level = c :: s ∧ isSpace c = false ∧ c ≠ closing
  last : ∀ level steps offset rest,
    2 * (text (level + 1) ++ (newLine level ++ closing :: rest)).length + 1 ≤ steps →
      Gives [b] rest
        (readRow (steps + 1) offset (text (level + 1) ++ (newLine level ++ closing :: rest)))
  more : ∀ level steps offset rest, 2 * (text level ++ ',' :: rest).length + 1 ≤ steps →
    ∃ after, readRow (steps + 1) offset (text level ++ ',' :: rest) =
      (readRow steps (skipSpace (after + 1) rest).1 (skipSpace (after + 1) rest).2).map
        (·.map (b :: ·))

section Row

variable {closing : Char} {readRow : Nat → Nat → List Char → Except Stop (Read (List β))}
  {print : Nat → β → List Char} {b : β} {bs : List β}

/-- Space before a line is passed over. -/
theorem ReadsInRow.skipSpace_onLines {text : Nat → List Char}
    (h : ReadsInRow closing readRow text b) (offset level : Nat) (texts : List (List Char))
    (rest : List Char) :
    ∃ c r, onLines closing level (text (level + 1) :: texts) rest = c :: r ∧ c ≠ closing ∧
      skipSpace offset (newLine (level + 1) ++
        onLines closing level (text (level + 1) :: texts) rest) =
          (offset + (newLine (level + 1)).length, c :: r) := by
  obtain ⟨c, s, htext, hspace, hc⟩ := h.starts (level + 1)
  obtain ⟨left, hleft⟩ := onLines_cons closing level (text (level + 1)) texts rest
  rw [htext, List.cons_append] at hleft
  rw [htext, hleft]
  exact ⟨c, s ++ left, rfl, hc, skipSpace_newLine hspace offset (level + 1) (s ++ left)⟩

/-- What is written on lines is read back. -/
theorem gives_readRow (hne : bs ≠ [])
    (h : ∀ b ∈ bs, ReadsInRow closing readRow (print · b) b) (level offset : Nat)
    (rest : List Char)
    (hsteps : 2 * (onLines closing level (bs.map (print (level + 1))) rest).length + 2 ≤ steps) :
    Gives bs rest
      (readRow steps offset (onLines closing level (bs.map (print (level + 1))) rest)) := by
  induction bs generalizing steps offset with
  | nil => exact absurd rfl hne
  | cons b bs ih =>
    obtain _ | steps := steps
    · omega
    obtain ⟨hb, hbs⟩ := List.forall_mem_cons.1 h
    cases bs with
    | nil =>
      rw [List.map_cons, List.map_nil, onLines_singleton] at hsteps ⊢
      exact hb.last level steps offset rest (by omega)
    | cons b' bs =>
      rw [List.map_cons, List.map_cons, onLines_cons_cons] at hsteps ⊢
      obtain ⟨after, hmore⟩ := hb.more (level + 1) steps offset _
        (Nat.le_of_succ_le_succ hsteps)
      obtain ⟨c, r, hlines, -, hskip⟩ := (h b' (by simp)).skipSpace_onLines
        (after + 1) level (bs.map (print (level + 1))) rest
      rw [hmore, hskip, ← hlines]
      refine (ih (List.cons_ne_nil _ _) hbs _ ?_).map (b :: ·)
      rw [List.map_cons]
      simp only [List.length_append, List.length_cons] at hsteps
      omega

/-- A document that is written as a row between brackets is read back, if a row is what is read
between these brackets. -/
theorem readsBack_bracketed (opening : Char) {j : Json} (wrap : List β → Json)
    (hprint : ∀ level, printAt level j =
      bracketed opening closing level (bs.map (print (level + 1))))
    (hopens : Opens opening) (hclosing : isSpace closing = false) (hj : wrap bs = j)
    (hempty : ∀ steps offset s o r, skipSpace (offset + 1) s = (o, closing :: r) →
      Gives (wrap []) r (readValue (steps + 1) offset (opening :: s)))
    (hrow : ∀ steps offset s o c r, skipSpace (offset + 1) s = (o, c :: r) → c ≠ closing →
      readValue (steps + 1) offset (opening :: s) = (readRow steps o (c :: r)).map (·.map wrap))
    (h : ∀ b ∈ bs, ReadsInRow closing readRow (print · b) b) : ReadsBack j := by
  have hstart (level : Nat) : ∃ s, printAt level j = opening :: s := by
    rw [hprint]
    cases bs with
    | nil => exact ⟨_, rfl⟩
    | cons b bs => exact ⟨_, rfl⟩
  refine ⟨fun level => ?_, fun level steps offset rest _ hsteps => ?_⟩
  · obtain ⟨s, hs⟩ := hstart level
    exact ⟨opening, s, hs, hopens⟩
  · obtain _ | steps := steps
    · omega
    subst hj
    rw [hprint] at hsteps ⊢
    cases bs with
    | nil => exact hempty steps offset _ _ _ (skipSpace_cons hclosing (offset + 1) rest)
    | cons b bs =>
      rw [List.map_cons, bracketed_append] at hsteps ⊢
      obtain ⟨c, r, hlines, hc, hskip⟩ := (h b List.mem_cons_self).skipSpace_onLines
        (offset + 1) level (bs.map (print (level + 1))) rest
      rw [hrow steps offset _ _ c r hskip hc, ← hlines, ← List.map_cons]
      refine (gives_readRow (List.cons_ne_nil b bs) h level _ rest ?_).map wrap
      simp only [List.length_cons, List.length_append, newLine] at hsteps
      rw [List.map_cons]
      omega

end Row

theorem ReadsBack.inRow {j : Json} (hj : ReadsBack j) :
    ReadsInRow ']' readItems (fun level => printAt level j) j where
  starts level := by
    obtain ⟨c, s, htext, hc⟩ := hj.opens level
    exact ⟨c, s, htext, hc.space, hc.bracket⟩
  last level steps offset rest hsteps := by
    rw [readItems]
    refine (hj.gives _ steps offset _ (atEnd_newLine level _) hsteps).bind fun after => ?_
    dsimp only
    rw [skipSpace_newLine (c := ']') rfl]
    exact ⟨_, rfl⟩
  more level steps offset rest hsteps := by
    obtain ⟨after, hafter⟩ := hj.gives _ steps offset _ (atEnd_comma rest) hsteps
    refine ⟨after, ?_⟩
    rw [readItems, hafter]
    dsimp only [bind, Except.bind]
    rw [skipSpace_cons (c := ',') rfl]
    show (readItems steps (skipSpace (after + 1) rest).1 (skipSpace (after + 1) rest).2 >>=
      fun others => .ok (others.map (j :: ·))) = _
    cases readItems steps (skipSpace (after + 1) rest).1 (skipSpace (after + 1) rest).2 <;> rfl

/-- A name is read back with the colon behind it, and then the document of that name. -/
theorem readMembers_printMember (offset : Nat) {m : String × Json} (hm : ReadsBack m.2)
    {left : List Char} (hleft : AtEnd left)
    (hsteps : 2 * (printMember level m ++ left).length + 1 ≤ steps) :
    ∃ after, readMembers (steps + 1) offset (printMember level m ++ left) =
      match skipSpace after left with
      | (offset, '\x7d' :: r) => .ok ⟨[m], offset + 1, r⟩
      | (offset, ',' :: r) =>
        readMembers steps (skipSpace (offset + 1) r).1 (skipSpace (offset + 1) r).2 >>=
          fun others => .ok (others.map (m :: ·))
      | (offset, _) => .error (.fault .expectedComma offset) := by
  obtain ⟨name, j⟩ := m
  obtain ⟨named, hnamed⟩ := gives_readString offset (offset + 1) name.toList
    (':' :: ' ' :: (printAt level j ++ left))
  obtain ⟨c, s, hopens, hc⟩ := hm.opens level
  have hcolon : readColon named (':' :: ' ' :: (printAt level j ++ left)) =
      .ok (named + 2, printAt level j ++ left) := by
    rw [readColon, skipSpace_cons rfl]
    dsimp only at hopens ⊢
    have hblank : ∀ c ∈ [' '], isSpace c = true := by
      intro c hc
      rw [List.mem_singleton.1 hc]
      rfl
    rw [hopens]
    exact congrArg Except.ok (skipSpace_of_all hblank hc.space (named + 1) (s ++ left))
  obtain ⟨after, hafter⟩ := hm.gives level steps (named + 2) left hleft (by
    simp only [printMember, List.length_append, List.length_cons] at hsteps
    simp only [List.length_append]
    omega)
  refine ⟨after, ?_⟩
  have htext : printMember level (name, j) ++ left = '"' :: (name.toList.flatMap escapeChar ++
      '"' :: ':' :: ' ' :: (printAt level j ++ left)) := by
    simp [printMember, printString]
  rw [htext, readMembers, if_pos rfl, hnamed]
  dsimp only [bind, Except.bind] at hafter ⊢
  rw [hcolon]
  dsimp only
  rw [hafter]
  simp only [String.ofList_toList]
  rfl

theorem ReadsBack.inRow_member {m : String × Json} (hm : ReadsBack m.2) :
    ReadsInRow '\x7d' readMembers (fun level => printMember level m) m where
  starts level := by
    obtain ⟨name, j⟩ := m
    exact ⟨'"', _, rfl, rfl, by decide⟩
  last level steps offset rest hsteps := by
    obtain ⟨after, hread⟩ := readMembers_printMember offset hm (atEnd_newLine level _) hsteps
    rw [hread, skipSpace_newLine (c := '\x7d') rfl]
    exact ⟨_, rfl⟩
  more level steps offset rest hsteps := by
    obtain ⟨after, hread⟩ := readMembers_printMember offset hm (atEnd_comma rest) hsteps
    refine ⟨after, ?_⟩
    rw [hread, skipSpace_cons (c := ',') rfl]
    show (readMembers steps (skipSpace (after + 1) rest).1 (skipSpace (after + 1) rest).2 >>=
      fun others => .ok (others.map (m :: ·))) = _
    cases readMembers steps (skipSpace (after + 1) rest).1 (skipSpace (after + 1) rest).2 <;> rfl

/-! ## Whole documents -/

theorem readsBack_arr {items : List Json} (hitems : ∀ j ∈ items, ReadsBack j) :
    ReadsBack (arr items) := by
  refine readsBack_bracketed '[' arr (fun level => ?_) ⟨rfl, by decide, by decide⟩ rfl rfl ?_ ?_
    fun j hj => (hitems j hj).inRow
  · rw [printAt, printItems_eq_map]
  · intro steps offset s o r hskip
    rw [readValue, if_neg (by decide), if_pos rfl, hskip]
    exact ⟨_, rfl⟩
  · intro steps offset s o c r hskip hc
    rw [readValue, if_neg (by decide), if_pos rfl, hskip]
    split
    · next heq =>
      cases heq
      exact absurd rfl hc
    · next heq =>
      cases heq
      rfl

theorem readsBack_obj {members : List (String × Json)} (hnames : (members.map Prod.fst).Nodup)
    (hmembers : ∀ m ∈ members, ReadsBack m.2) : ReadsBack (obj members) := by
  refine readsBack_bracketed '\x7b' (fun ms => obj (Table.ofList ms).entries) (fun level => ?_)
    ⟨rfl, by decide, by decide⟩ rfl (by rw [Table.entries_ofList hnames]) ?_ ?_
    fun m hm => (hmembers m hm).inRow_member
  · rw [printAt, printMembers_eq_map]
  · intro steps offset s o r hskip
    rw [readValue, if_neg (by decide), if_neg (by decide), if_pos rfl, hskip]
    exact ⟨_, rfl⟩
  · intro steps offset s o c r hskip hc
    rw [readValue, if_neg (by decide), if_neg (by decide), if_pos rfl, hskip]
    split
    · next heq =>
      cases heq
      exact absurd rfl hc
    · next heq =>
      cases heq
      rfl

/-- A document that reading gives is read back, if it has no floats in it. -/
theorem Canonical.readsBack {j : Json} (hj : Canonical j) (hfree : j.isFloatFree = true) :
    ReadsBack j := by
  induction hj with
  | null =>
    refine readsBack_word (fun _ => rfl) ⟨rfl, by decide, by decide⟩ (by decide) fun rest => ?_
    simp [wordDocuments]
  | bool b =>
    cases b with
    | true =>
      refine readsBack_word (fun _ => rfl) ⟨rfl, by decide, by decide⟩ (by decide) fun rest => ?_
      simp [wordDocuments]
    | false =>
      refine readsBack_word (fun _ => rfl) ⟨rfl, by decide, by decide⟩ (by decide) fun rest => ?_
      simp [wordDocuments]
  | int hn => exact readsBack_int hn
  | float x => cases hfree
  | str s => exact readsBack_str s
  | arr _ ih =>
    rw [isFloatFree, areFloatFree_iff] at hfree
    exact readsBack_arr fun j hj => ih j hj (hfree j hj)
  | obj hnames _ ih =>
    rw [isFloatFree, membersFloatFree_iff] at hfree
    exact readsBack_obj hnames fun m hm => ih m hm (hfree m hm)

/-- A document that reading gives is read back from what is written of it, if it has no floats in
it. -/
theorem read_print {j : Json} (hj : Canonical j) (hfree : j.isFloatFree = true) :
    read (print j).toList = .ok j := by
  obtain ⟨c, s, hopens, hc⟩ := (hj.readsBack hfree).opens 0
  obtain ⟨after, hgives⟩ := (hj.readsBack hfree).gives 0 (2 * (printAt 0 j).length + 1) 0 []
    atEnd_nil (Nat.le_of_eq (by rw [List.append_nil]))
  have hmark : (printAt 0 j).head? ≠ some (Char.ofNat 0xFEFF) := by
    rw [hopens]
    exact fun h => hc.mark (Option.some.inj h)
  rw [List.append_nil] at hgives
  have hchars : readChars (printAt 0 j) = .ok j := by
    rw [readChars, if_neg hmark]
    have hskip : skipSpace 0 (printAt 0 j) = (0, printAt 0 j) := by
      rw [hopens, skipSpace_cons hc.space]
    rw [hskip]
    dsimp only
    rw [hgives]
    rfl
  rw [print, String.toList_ofList, read, hchars]
  rfl

/-- Documents that are written alike are the same. -/
theorem print_injective {j j' : Json} (hj : Canonical j) (hfree : j.isFloatFree = true)
    (hj' : Canonical j') (hfree' : j'.isFloatFree = true) (h : print j = print j') : j = j' := by
  have hread := read_print hj hfree
  rw [h, read_print hj' hfree'] at hread
  exact (Except.ok.inj hread).symm

/-! ## Line ends -/

theorem not_mem_escapeChar (c : Char) : '\r' ∉ escapeChar c := by
  unfold escapeChar
  split
  · next h =>
    intro hmem
    have hc : c = '\r' := by simpa [eq_comm] using hmem
    simp [hc] at h
  split
  · decide
  split
  · decide
  split
  · decide
  split
  · decide
  split
  · decide
  split
  · next h =>
    have hhex : ∀ n < 0x20, '\r' ∉ '\\' :: 'u' :: Text.hex 4 n := by decide
    exact hhex c.toNat h
  · next hreturn _ _ _ _ =>
    intro hmem
    exact hreturn (List.mem_singleton.1 hmem).symm

theorem not_mem_printString (s : String) : '\r' ∉ printString s := by
  have h := fun c => not_mem_escapeChar c
  simp [printString, h]

theorem not_mem_newLine (level : Nat) : '\r' ∉ newLine level := by
  simp [newLine]

theorem not_mem_bracketed {opening closing : Char} (hopening : opening ≠ '\r')
    (hclosing : closing ≠ '\r') {texts : List (List Char)} (h : ∀ text ∈ texts, '\r' ∉ text) :
    '\r' ∉ bracketed opening closing level texts := by
  cases texts with
  | nil => simp [bracketed, hopening.symm, hclosing.symm]
  | cons text texts =>
    have hlines : '\r' ∉ (',' :: newLine (level + 1)).intercalate (text :: texts) := by
      induction texts generalizing text with
      | nil => simpa using h
      | cons next texts ih =>
        have hnext := ih next fun t ht => h t (List.mem_cons_of_mem _ ht)
        simp [List.intercalate_cons_cons, hnext, not_mem_newLine, h text List.mem_cons_self]
    simp [bracketed, hopening.symm, hclosing.symm, hlines, not_mem_newLine]

theorem not_mem_printAt {j : Json} (hj : Canonical j) (hfree : j.isFloatFree = true) (level : Nat) :
    '\r' ∉ printAt level j := by
  induction hj generalizing level with
  | null => simp [printAt]
  | bool b => cases b <;> simp [printAt]
  | @int n _ =>
    rw [printAt, toList_intText]
    intro hmem
    rcases List.mem_append.1 hmem with hmem | hmem
    · split at hmem <;> simp at hmem
    · exact absurd (Nat.isDigit_of_mem_toDigits (by decide) (by decide) hmem) (by decide)
  | float x => cases hfree
  | str s => exact not_mem_printString s
  | arr _ ih =>
    rw [isFloatFree, areFloatFree_iff] at hfree
    rw [printAt, printItems_eq_map]
    refine not_mem_bracketed (by decide) (by decide) fun text htext => ?_
    obtain ⟨j, hj, rfl⟩ := List.mem_map.1 htext
    exact ih j hj (hfree j hj) (level + 1)
  | obj _ _ ih =>
    rw [isFloatFree, membersFloatFree_iff] at hfree
    rw [printAt, printMembers_eq_map]
    refine not_mem_bracketed (by decide) (by decide) fun text htext => ?_
    obtain ⟨⟨name, j⟩, hm, rfl⟩ := List.mem_map.1 htext
    simp [printMember, not_mem_printString, ih _ hm (hfree _ hm) (level + 1)]

/-- No carriage return is ever written, whatever characters the strings have. -/
theorem not_mem_print {j : Json} (hj : Canonical j) (hfree : j.isFloatFree = true) :
    '\r' ∉ (print j).toList := by
  rw [print, String.toList_ofList]
  exact not_mem_printAt hj hfree 0

end Mustache.Json
