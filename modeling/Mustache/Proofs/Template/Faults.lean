import Mustache.Proofs.Template.Append
import Mustache.Proofs.Template.Balanced

/-!
# What is wrong with a template

Which fault is told of a template and the delimiters to read it with, said of the text alone. There
are four, and they are looked for in this order: the delimiters given are not two distinct texts;
then, from the left, a tag has no end or names delimiters that are not two distinct words; and only
if the whole template is read, a section is opened or closed wrongly (`Fault`).

**Idea.** A tag begins with its opening delimiter, a sigil and blank characters (`Tag.Begins`), and
whether it has an end can be said of what follows by looking for two or three words in it
(`Tag.HasEnd`), although the reader searches in steps and a failed step only shows at the last one.
All that is read before a fault is free of faults (`Reaches`), so there is one place at most where
the reading stops. Faults of sections do not depend on texts, and so neither on those that were
dropped nor on those that were joined (`nest_tags_error_iff`).

Main statements: `Template.scan_eq_error_iff`, `Template.parseWith_eq_error_iff` and
`Template.parseWith_faults`.
-/

namespace Mustache

open Text

/-! ## Delimiters that are given -/

namespace Delimiters

/-- The delimiters as two values. -/
def values (d : Delimiters) : List Value :=
  [.str (String.ofList d.opening), .str (String.ofList d.closing)]

/-- The values that are given, the words of a text or the items of a sequence. -/
def Spec.given : Spec → List Value
  | text s => wordItems s.toList
  | items vs => vs

theorem ofItems_values (d : Delimiters) : ofItems d.values = .ok d := by
  simp [values, ofItems, d.opening_ne_nil, d.closing_ne_nil, d.distinct]

theorem values_injective : Function.Injective values := by
  intro d e h
  have := ofItems_values d
  rw [h, ofItems_values] at this
  exact (Except.ok.inj this).symm

/-- Values stand for the delimiters that they are, and they are at fault if they are no
delimiters. -/
theorem ofItems_cases (vs : List Value) :
    (∃ d, vs = values d ∧ ofItems vs = .ok d) ∨
      (∀ d, vs ≠ values d) ∧ ofItems vs = .error (.malformedDelimiters vs) := by
  by_cases h : ∃ d, vs = values d
  · obtain ⟨d, rfl⟩ := h
    exact .inl ⟨d, rfl, ofItems_values d⟩
  · refine .inr ⟨fun d hd => h ⟨d, hd⟩, ?_⟩
    unfold ofItems
    split
    · next opening closing =>
      rw [dif_neg]
      intro hne
      exact h ⟨⟨opening.toList, closing.toList, hne.1, hne.2.1, hne.2.2⟩, by simp [values]⟩
    · rfl

theorem ofItems_eq_error_iff {vs : List Value} {x : TemplateError} :
    ofItems vs = .error x ↔ (∀ d, vs ≠ values d) ∧ x = .malformedDelimiters vs := by
  rcases ofItems_cases vs with ⟨d, hvs, hd⟩ | ⟨hvs, hd⟩
  · rw [hd]
    simp [hvs]
  · rw [hd]
    simp [hvs, eq_comm]

theorem ofItems_eq_ok_iff {vs : List Value} {d : Delimiters} :
    ofItems vs = .ok d ↔ vs = values d := by
  rcases ofItems_cases vs with ⟨e, rfl, he⟩ | ⟨hvs, hd⟩
  · rw [he, Except.ok.injEq, values_injective.eq_iff]
  · rw [hd]
    simp [hvs]

theorem Spec.delimiters_eq (spec : Spec) : spec.delimiters = ofItems spec.given := by
  cases spec <;> rfl

/-- The words of a text are delimiters if and only if there are two of them, which are not the
same. -/
theorem wordItems_eq_values_iff {s : List Char} {d : Delimiters} :
    wordItems s = values d ↔ words s = [d.opening, d.closing] := by
  have hinj : Function.Injective fun w : List Char => Value.str (String.ofList w) := by
    intro v w h
    exact String.ofList_injective (Value.str.inj h)
  have hvalues : values d = [d.opening, d.closing].map fun w => .str (String.ofList w) := rfl
  rw [wordItems, hvalues]
  split
  · next h => simp [h]
  · rw [List.map_inj_right hinj]

theorem exists_wordItems_eq_values_iff {s : List Char} :
    (∃ d, wordItems s = values d) ↔ ∃ o c, words s = [o, c] ∧ o ≠ c := by
  simp only [wordItems_eq_values_iff]
  constructor
  · rintro ⟨d, hd⟩
    exact ⟨d.opening, d.closing, hd, d.distinct⟩
  · rintro ⟨o, c, hoc, hne⟩
    have ho : o ≠ [] := (isWord_of_mem_words (s := s) (by simp [hoc])).ne_nil
    have hc : c ≠ [] := (isWord_of_mem_words (s := s) (by simp [hoc])).ne_nil
    exact ⟨⟨o, c, ho, hc, hne⟩, hoc⟩

/-- A text stands for delimiters if and only if it consists of them as its two words. -/
theorem ofText_eq_ok_iff {s : List Char} {d : Delimiters} :
    ofText s = .ok d ↔ IsPair d.opening d.closing s := by
  rw [ofText, ofItems_eq_ok_iff, wordItems_eq_values_iff, words_eq_pair_iff]

theorem ofText_eq_error_iff {s : List Char} {x : TemplateError} :
    ofText s = .error x ↔
      (¬ ∃ o c, words s = [o, c] ∧ o ≠ c) ∧ x = .malformedDelimiters (wordItems s) := by
  rw [ofText, ofItems_eq_error_iff, ← exists_wordItems_eq_values_iff, not_exists]

theorem wordItems_append_blank (s : List Char) {w : List Char}
    (hw : ∀ c ∈ w, isBlank c = true) : wordItems (s ++ w) = wordItems s := by
  rw [wordItems, words_append_blank s hw, wordItems]

end Delimiters

/-! ## Searches -/

namespace Pattern

variable {word s : List Char}

/-- A word is found, with blank characters in front of it or not, if it stands anywhere in the
text. -/
theorem exists_finds_iff : (∃ k n, (blanksThen word).Finds s k n) ↔ word <:+: s := by
  constructor
  · rintro ⟨k, n, h⟩
    obtain ⟨w, -, ⟨u, hu⟩, -⟩ := blanksThenLength?_eq_some h.here
    refine ⟨s.take k ++ w, u, ?_⟩
    rw [List.append_assoc (s.take k), List.append_assoc (s.take k), hu, List.take_append_drop]
  · rintro ⟨t, u, rfl⟩
    have hword : ((blanksThen word).length? ((t ++ word ++ u).drop t.length)).isSome := by
      rw [List.append_assoc, List.drop_left]
      exact isSome_blanksThenLength?.2 ⟨[], by simp, List.prefix_append word u⟩
    cases hf : (blanksThen word).find? (t ++ word ++ u) with
    | none =>
      rw [find?_none hf] at hword
      cases hword
    | some k =>
      obtain ⟨-, hsome, hbefore⟩ := find?_some hf
      obtain ⟨n, hn⟩ := Option.isSome_iff_exists.1 hsome
      exact ⟨k, n, hn, hbefore⟩

end Pattern

/-! ## Tags with an end and without one -/

namespace Tag

variable {d : Delimiters} {s body value rest : List Char} {sigil : Option Char}

/-- `Begins d s sigil body`: at the start of the text `s` stands the opening delimiter of a tag, and
after its sigil, if it has one, and blank characters follows `body`. -/
inductive Begins (d : Delimiters) : List Char → Option Char → List Char → Prop
  | plain {w body : List Char} : (∀ c ∈ w, isBlank c = true) → Solid body →
      (∀ c ∈ body.head?, c ∉ sigils) → Begins d (d.opening ++ (w ++ body)) none body
  | signed {w gap body : List Char} {c : Char} : (∀ c ∈ w, isBlank c = true) → c ∈ sigils →
      (∀ c ∈ gap, isBlank c = true) → Solid body →
      Begins d (d.opening ++ (w ++ c :: (gap ++ body))) (some c) body

/-- What follows the sigil of a tag has the tag's end in it. With a brace as its sigil a tag is
closed by another brace and the closing delimiter after it, with an equals sign by another one and
the closing delimiter anywhere after it, and any other tag by the closing delimiter. -/
def HasEnd (d : Delimiters) : Option Char → List Char → Prop
  | some '{', body => '}' :: d.closing <:+: body
  | some '=', body => ∃ value rest, body = value ++ '=' :: rest ∧ d.closing <:+: rest
  | _, body => d.closing <:+: body

/-- The text starts with the opening delimiter of a tag that has no end. -/
def Unclosed (d : Delimiters) (s : List Char) : Prop :=
  ∃ sigil body, Begins d s sigil body ∧ ¬ HasEnd d sigil body

/-- The text starts with a tag that has an end and is to set the delimiters, but what stands before
its second equals sign, `value`, is not two distinct words. -/
def Misnames (d : Delimiters) (s value : List Char) : Prop :=
  ∃ rest, Begins d s (some '=') (value ++ '=' :: rest) ∧ '=' ∉ value ∧ d.closing <:+: rest ∧
    ¬ ∃ o c, words value = [o, c] ∧ o ≠ c

theorem not_isBlank_of_mem_sigils {c : Char} (h : c ∈ sigils) : isBlank c = false := by
  simpa using List.all_eq_true.1 (show sigils.all (!isBlank ·) = true by decide) c h

theorem Begins.opening (h : Begins d s sigil body) : d.opening <+: s := by
  cases h <;> exact List.prefix_append _ _

/-- The reader finds the sigil where it stands, and goes on with what follows. -/
theorem Begins.lead (h : Begins d s sigil body) :
    (lead d s).1 = sigil ∧ s.drop (lead d s).2 = body := by
  have hwidth : d.start.width s = d.opening.length + blankRun (s.drop d.opening.length) :=
    Pattern.width_thenBlanks h.opening
  cases h with
  | @plain w body hw hbody hhead =>
    have hsplit : splitSigil body = (none, body) := by
      cases body with
      | nil => rfl
      | cons c r => rw [splitSigil, if_neg (by simpa using hhead c rfl)]
    rw [List.drop_left, blankRun_append hw hbody] at hwidth
    have hdrop : (d.opening ++ (w ++ body)).drop (d.opening.length + w.length) = body := by
      rw [← List.append_assoc, List.drop_left' (by simp)]
    have hzero : blankRun body = 0 := blankRun_append (w := []) (by simp) hbody
    simp [Tag.lead, hwidth, hdrop, hsplit, hzero]
  | @signed w gap body c hw hc hgap hbody =>
    have hsolid : Solid (c :: (gap ++ body)) := by
      intro b hb
      cases hb
      exact not_isBlank_of_mem_sigils hc
    rw [List.drop_left, blankRun_append hw hsolid] at hwidth
    have hdrop : (d.opening ++ (w ++ c :: (gap ++ body))).drop (d.opening.length + w.length) =
        c :: (gap ++ body) := by
      rw [← List.append_assoc, List.drop_left' (by simp)]
    have hsplit : splitSigil (c :: (gap ++ body)) = (some c, gap ++ body) := by
      rw [splitSigil, if_pos (by simpa using hc)]
    refine ⟨by simp [Tag.lead, hwidth, hdrop, hsplit], ?_⟩
    have hend : (Tag.lead d (d.opening ++ (w ++ c :: (gap ++ body)))).2 =
        d.opening.length + w.length + 1 + gap.length := by
      simp [Tag.lead, hwidth, hdrop, hsplit, blankRun_append hgap hbody]
    rw [hend, ← List.drop_drop, ← List.drop_drop, hdrop]
    simp

/-- Where the opening delimiter stands, a tag begins. -/
theorem exists_begins (h : d.opening <+: s) : ∃ sigil body, Begins d s sigil body := by
  obtain ⟨r, rfl⟩ := h
  have hsplit (t : List Char) : ∃ w u, t = w ++ u ∧ (∀ c ∈ w, isBlank c = true) ∧ Solid u := by
    refine ⟨t.takeWhile isBlank, t.dropWhile isBlank, List.takeWhile_append_dropWhile.symm, ?_, ?_⟩
    · intro c hc
      exact List.mem_takeWhile_imp hc
    · intro c hc
      have hnot := List.head?_dropWhile_not isBlank t
      rw [Option.mem_def.1 hc] at hnot
      exact hnot
  obtain ⟨w, u, rfl, hw, hu⟩ := hsplit r
  by_cases hhead : ∀ c ∈ u.head?, c ∉ sigils
  · exact ⟨none, u, .plain hw hu hhead⟩
  · push Not at hhead
    obtain ⟨c, hc, hsigil⟩ := hhead
    obtain ⟨t, rfl⟩ := List.head?_eq_some_iff.1 hc
    obtain ⟨gap, body, rfl, hgap, hbody⟩ := hsplit t
    exact ⟨some c, body, .signed hw hsigil hgap hbody⟩

/-- The first equals sign, with the blank characters in front of it. -/
theorem finds_equals {front w rest : List Char} (hw : ∀ c ∈ w, isBlank c = true)
    (hlast : ∀ c ∈ front.getLast?, isBlank c = false) (hfree : '=' ∉ front) :
    (Pattern.blanksThen ['=']).Finds (front ++ (w ++ '=' :: rest)) front.length (w.length + 1) :=
  Pattern.finds_blanksThen hw (by simp [Solid, isBlank]) (by simp) hlast (by simpa using hfree)

theorem drop_equals (front w rest : List Char) :
    (front ++ (w ++ '=' :: rest)).drop (front.length + (w.length + 1)) = rest := by
  rw [← List.drop_drop, List.drop_left, ← List.drop_drop, List.drop_left]
  rfl

/-- For a tag that sets the delimiters: the value ends before the first equals sign and the blank
characters in front of it, and the tag with the first closing delimiter after it. -/
theorem closes_equals_iff {front w rest : List Char} (hw : ∀ c ∈ w, isBlank c = true)
    (hlast : ∀ c ∈ front.getLast?, isBlank c = false) (hfree : '=' ∉ front) {e : Nat} :
    (∃ n, Closes d (some '=') (front ++ (w ++ '=' :: rest)) e n) ↔
      e = front.length ∧ d.closing <:+: rest := by
  have hfinds : (Pattern.blanksThen ['=']).Finds (front ++ (w ++ '=' :: rest)) _ _ :=
    finds_equals hw hlast hfree
  constructor
  · rintro ⟨n, h⟩
    cases h with
    | plain hs => cases hs
    | signed hs hv hm hf =>
      cases hs
      obtain rfl : e = front.length := by rw [← hv.offset, hfinds.offset]
      rw [hfinds.here, Option.some.injEq] at hm
      subst hm
      rw [drop_equals] at hf
      exact ⟨rfl, Pattern.exists_finds_iff.1 ⟨_, _, hf⟩⟩
  · rintro ⟨rfl, hinfix⟩
    obtain ⟨k, n, hf⟩ := Pattern.exists_finds_iff.2 hinfix
    exact ⟨_, .signed rfl hfinds hfinds.here (by rw [drop_equals]; exact hf)⟩

/-- What stands before an equals sign can be cut before the first one and the blank characters in
front of that. -/
theorem exists_equals (h : '=' ∈ body) :
    ∃ front w rest, body = front ++ (w ++ '=' :: rest) ∧ (∀ c ∈ w, isBlank c = true) ∧
      (∀ c ∈ front.getLast?, isBlank c = false) ∧ '=' ∉ front ++ w := by
  obtain ⟨value, rest, rfl, hfree⟩ := List.eq_append_cons_of_mem h
  obtain ⟨front, w, rfl, hw, hlast⟩ := exists_append_blank value
  exact ⟨front, w, rest, by simp, hw, hlast, hfree⟩

theorem hasEnd_equals_iff {front w rest : List Char} (hfree : '=' ∉ front ++ w) :
    HasEnd d (some '=') (front ++ (w ++ '=' :: rest)) ↔ d.closing <:+: rest := by
  constructor
  · rintro ⟨value, rest', heq, hinfix⟩
    rw [← List.append_assoc] at heq
    -- The equals sign in question is the first one or comes after it.
    rcases Node.append_eq_cut heq with ⟨t, ht⟩ | ⟨t, -, ht⟩
    · exact absurd (ht ▸ List.mem_append_right value List.mem_cons_self) hfree
    · cases t with
      | nil =>
        obtain rfl := (List.cons.inj ht).2
        exact hinfix
      | cons c t =>
        obtain rfl := (List.cons.inj ht).2
        exact hinfix.trans ⟨t ++ ['='], [], by simp⟩
  · intro hinfix
    exact ⟨front ++ w, rest, by simp, hinfix⟩

theorem exists_closes_brace_iff :
    (∃ e n, Closes d (some '{') body e n) ↔ HasEnd d (some '{') body := by
  change _ ↔ '}' :: d.closing <:+: body
  rw [← Pattern.exists_finds_iff]
  constructor
  · rintro ⟨e, n, h⟩
    cases h with
    | plain hs => cases hs
    | signed hs hv =>
      cases hs
      exact ⟨_, _, hv⟩
  · rintro ⟨e, l, hv⟩
    -- Behind the brace that ends the value, the closing delimiter is found at once.
    obtain ⟨w, hw, ⟨u, hu⟩, -⟩ := Pattern.blanksThenLength?_eq_some hv.here
    have hm : (Pattern.blanksThen ['}']).length? (body.drop e) = some (w.length + 1) := by
      rw [← hu, List.append_assoc]
      exact Pattern.length?_blanksThen hw (by simp [Solid, isBlank]) (by simp)
    have hrest : body.drop (e + (w.length + 1)) = d.closing ++ u := by
      rw [← List.drop_drop, ← hu, ← List.drop_drop, List.append_assoc, List.drop_left]
      rfl
    obtain ⟨k, n, hf⟩ := Pattern.exists_finds_iff.2 (show d.closing <:+: d.closing ++ u from
      (List.prefix_append _ _).isInfix)
    exact ⟨e, _, .signed rfl hv hm (by rw [hrest]; exact hf)⟩

theorem exists_closes_equals_iff :
    (∃ e n, Closes d (some '=') body e n) ↔ HasEnd d (some '=') body := by
  by_cases hmem : '=' ∈ body
  · obtain ⟨front, w, rest, rfl, hw, hlast, hfree⟩ := exists_equals hmem
    have hfront : '=' ∉ front := fun h => hfree (List.mem_append_left w h)
    rw [hasEnd_equals_iff hfree]
    simp [closes_equals_iff hw hlast hfront]
  · refine iff_of_false ?_ ?_
    · rintro ⟨e, n, h⟩
      cases h with
      | plain hs => cases hs
      | signed hs hv =>
        cases hs
        obtain ⟨t, u, rfl⟩ := Pattern.exists_finds_iff.1 ⟨_, _, hv⟩
        simp at hmem
    · rintro ⟨value, rest, rfl, -⟩
      simp at hmem

theorem exists_closes_plain_iff (hs : signs d sigil = none) :
    (∃ e n, Closes d sigil body e n) ↔ d.closing <:+: body := by
  rw [← Pattern.exists_finds_iff]
  constructor
  · rintro ⟨e, n, h⟩
    cases h with
    | plain _ hf => exact ⟨_, _, hf⟩
    | signed hs' => rw [hs] at hs'; cases hs'
  · rintro ⟨e, n, hf⟩
    exact ⟨e, _, .plain hs hf⟩

/-- **A tag is closed if and only if it has an end.** -/
theorem exists_closes_iff : (∃ e n, Closes d sigil body e n) ↔ HasEnd d sigil body := by
  by_cases hbrace : sigil = some '{'
  · rw [hbrace]
    exact exists_closes_brace_iff
  by_cases hequals : sigil = some '='
  · rw [hequals]
    exact exists_closes_equals_iff
  rw [HasEnd.eq_3 _ _ _ hbrace hequals]
  refine exists_closes_plain_iff ?_
  unfold signs
  split
  · exact absurd rfl hequals
  · exact absurd rfl hbrace
  · rfl

/-- **A tag cannot be read if and only if it has no end.** -/
theorem read?_eq_none_iff (ho : d.opening <+: s) : Tag.read? d s = none ↔ Unclosed d s := by
  have hsome : (Tag.read? d s).isSome ↔ HasEnd d (lead d s).1 (s.drop (lead d s).2) := by
    rw [← exists_closes_iff, Option.isSome_iff_exists]
    simp only [read?_eq_some_iff]
    constructor
    · rintro ⟨tag, e, n, h, -⟩
      exact ⟨e, n, h⟩
    · rintro ⟨e, n, h⟩
      exact ⟨_, e, n, h, rfl⟩
  rw [← Option.not_isSome_iff_eq_none, hsome]
  constructor
  · intro h
    obtain ⟨sigil, body, hb⟩ := exists_begins ho
    obtain ⟨rfl, rfl⟩ := hb.lead
    exact ⟨_, _, hb, h⟩
  · rintro ⟨sigil, body, hb, hno⟩
    obtain ⟨rfl, rfl⟩ := hb.lead
    exact hno

theorem ofSigil_eq_delimiterTag_iff :
    Token.Kind.ofSigil sigil = .delimiterTag ↔ sigil = some '=' := by
  unfold Token.Kind.ofSigil
  split <;> simp_all

/-- The value of a tag that is to set the delimiters is what stands before the first equals sign,
without the blank characters in front of that. -/
theorem exists_read?_equals {front w rest : List Char} (hw : ∀ c ∈ w, isBlank c = true)
    (hlast : ∀ c ∈ front.getLast?, isBlank c = false) (hfree : '=' ∉ front)
    (hb : Begins d s (some '=') (front ++ (w ++ '=' :: rest))) (hend : d.closing <:+: rest) :
    ∃ tag, Tag.read? d s = some tag ∧ tag.kind = .delimiterTag ∧ tag.value = front := by
  obtain ⟨hsigil, hbody⟩ := hb.lead
  obtain ⟨n, hn⟩ := (closes_equals_iff hw hlast hfree).2 ⟨rfl, hend⟩
  simp only [read?_eq_some_iff, hsigil, hbody]
  exact ⟨_, ⟨_, n, hn, rfl⟩, rfl, List.take_left⟩

/-- **A tag names no delimiters if and only if it is to set them and its value is not two distinct
words,** and then the fault tells the words that there are. -/
theorem delimiters_eq_error_iff (ho : d.opening <+: s) {x : TemplateError} :
    (∃ tag, Tag.read? d s = some tag ∧ tag.delimiters d = .error x) ↔
      ∃ value, Misnames d s value ∧ x = .malformedDelimiters (Delimiters.wordItems value) := by
  constructor
  · rintro ⟨tag, hread, hx⟩
    rw [Tag.delimiters] at hx
    split at hx
    · next hkind =>
      obtain ⟨sigil, body, hb⟩ := exists_begins ho
      obtain ⟨hsigil, hbody⟩ := hb.lead
      obtain ⟨e, n, hc, rfl⟩ := read?_eq_some_iff.1 hread
      rw [hsigil, hbody] at hc
      obtain rfl : sigil = some '=' := by
        rw [← hsigil]
        exact ofSigil_eq_delimiterTag_iff.1 hkind
      obtain ⟨value, rest, rfl, -⟩ := exists_closes_iff.1 ⟨e, n, hc⟩
      have hequals : '=' ∈ value ++ '=' :: rest := by simp
      obtain ⟨front, w, rest', heq, hw, hlast, hfree⟩ := exists_equals hequals
      rw [heq] at hb hc hbody
      have hfront : '=' ∉ front := fun h => hfree (List.mem_append_left w h)
      obtain ⟨rfl, hinfix⟩ := (closes_equals_iff hw hlast hfront).1 ⟨n, hc⟩
      rw [hbody, List.take_left, Delimiters.ofText_eq_error_iff] at hx
      refine ⟨front ++ w, ⟨rest', by simpa using hb, hfree, hinfix, ?_⟩, ?_⟩
      · rw [words_append_blank front hw]
        exact hx.1
      · rw [Delimiters.wordItems_append_blank front hw]
        exact hx.2
    · cases hx
  · rintro ⟨value, ⟨rest, hb, hfree, hinfix, hwords⟩, rfl⟩
    obtain ⟨front, w, rfl, hw, hlast⟩ := exists_append_blank value
    have hfront : '=' ∉ front := fun h => hfree (List.mem_append_left w h)
    rw [List.append_assoc] at hb
    obtain ⟨tag, hread, hkind, rfl⟩ := exists_read?_equals hw hlast hfront hb hinfix
    refine ⟨tag, hread, ?_⟩
    rw [words_append_blank _ hw] at hwords
    rw [Tag.delimiters, if_pos hkind, Delimiters.wordItems_append_blank _ hw]
    exact Delimiters.ofText_eq_error_iff.2 ⟨hwords, rfl⟩

end Tag

namespace Template

/-! ## The first fault of a tag -/

/-- `Reaches d s e r`: a part of the text `s` is read with the delimiters `d` without a fault, and
what is left of it is `r`, with the delimiters `e` in force. -/
inductive Reaches : Delimiters → List Char → Delimiters → List Char → Prop
  | here {d : Delimiters} {s : List Char} : Reaches d s d s
  | text {d e : Delimiters} {c : Char} {s r : List Char} :
      ¬ d.opening <+: c :: s → Reaches d s e r → Reaches d (c :: s) e r
  | tag {d d' e : Delimiters} {s r : List Char} {tag : Tag} :
      d.opening <+: s → Tag.read? d s = some tag → tag.delimiters d = .ok d' →
      Reaches d' (s.drop tag.length) e r → Reaches d s e r

/-- `FailsAt d s n x`: the tag that starts the text `s` has the fault `x`. Where no end of a tag is
found is known at the end of the text only, which is the offset `n`. -/
inductive FailsAt (d : Delimiters) (s : List Char) (n : Nat) : TemplateError → Prop
  | unclosed : Tag.Unclosed d s → FailsAt d s n (.unclosedTag n)
  | malformed {value : List Char} : Tag.Misnames d s value →
      FailsAt d s n (.malformedDelimiters (Delimiters.wordItems value))

variable {d e : Delimiters} {s r : List Char} {p n : Nat} {x : TemplateError}

theorem FailsAt.opening (h : FailsAt d s n x) : d.opening <+: s := by
  cases h with
  | unclosed h =>
    obtain ⟨_, _, hb, -⟩ := h
    exact hb.opening
  | malformed h =>
    obtain ⟨_, hb, -⟩ := h
    exact hb.opening

/-- A scan stops at a tag that has a fault, and tells it. -/
theorem failsAt_iff (ho : d.opening <+: s) :
    FailsAt d s (p + s.length) x ↔
      (Tag.read? d s = none ∧ x = .unclosedTag (p + s.length)) ∨
        ∃ tag, Tag.read? d s = some tag ∧ tag.delimiters d = .error x := by
  rw [Tag.read?_eq_none_iff ho, Tag.delimiters_eq_error_iff ho]
  constructor
  · intro h
    cases h with
    | unclosed h => exact .inl ⟨h, rfl⟩
    | malformed h => exact .inr ⟨_, h, rfl⟩
  · rintro (⟨h, rfl⟩ | ⟨value, h, rfl⟩)
    · exact .unclosed h
    · exact .malformed h

theorem FailsAt.scan_eq (h : FailsAt d s (p + s.length) x) : scan d p 0 s = .error x := by
  rcases (failsAt_iff h.opening).1 h with ⟨hread, rfl⟩ | ⟨tag, hread, hx⟩
  · exact scan_unclosed h.opening hread p
  · rw [scan_tag h.opening hread, hx]
    rfl

theorem Reaches.scan_eq (h : Reaches d s e r) (hx : FailsAt e r (p + s.length) x) :
    scan d p 0 s = .error x := by
  induction h generalizing p with
  | here => exact hx.scan_eq
  | @text d e c s r hc _ ih =>
    rw [scan_text hc, ih (p := p + 1) (by rwa [show p + 1 + s.length = p + (c :: s).length by
      simp; omega])]
    rfl
  | @tag d d' e s r tag ho hread hd _ ih =>
    have hle := (Tag.read?_spec ho hread).2.1
    rw [scan_tag ho hread, hd]
    show Except.map _ (scan d' _ 0 _) = _
    rw [ih (by rwa [List.length_drop, show p + tag.length + (s.length - tag.length) =
      p + s.length by omega])]
    rfl

theorem exists_reaches_of_scan (h : scan d p 0 s = .error x) :
    ∃ e r, Reaches d s e r ∧ FailsAt e r (p + s.length) x := by
  -- The induction is on the length, since a tag takes away more than one character.
  induction hn : s.length using Nat.strongRecOn generalizing d s p with
  | _ n ih =>
    subst hn
    by_cases ho : d.opening <+: s
    · cases hread : Tag.read? d s with
      | none =>
        rw [scan_unclosed ho hread] at h
        cases h
        exact ⟨d, s, .here, (failsAt_iff ho).2 (.inl ⟨hread, rfl⟩)⟩
      | some tag =>
        have hpos := Tag.length_pos ho hread
        have hle := (Tag.read?_spec ho hread).2.1
        rw [scan_tag ho hread] at h
        cases hd : tag.delimiters d with
        | error y =>
          rw [hd] at h
          cases h
          exact ⟨d, s, .here, (failsAt_iff ho).2 (.inr ⟨tag, hread, hd⟩)⟩
        | ok d' =>
          rw [hd] at h
          change Except.map _ (scan d' _ 0 _) = _ at h
          cases hs : scan d' (p + tag.length) 0 (s.drop tag.length) with
          | ok us => rw [hs] at h; cases h
          | error y =>
            rw [hs] at h
            cases h
            obtain ⟨e, r, hr, hx⟩ := ih _ (by rw [List.length_drop]; omega) hs rfl
            refine ⟨e, r, .tag ho hread hd hr, ?_⟩
            rwa [List.length_drop, show p + tag.length + (s.length - tag.length) =
              p + s.length by omega] at hx
    · cases s with
      | nil =>
        rw [scan] at h
        cases h
      | cons c s =>
        rw [scan_text ho] at h
        cases hs : scan d (p + 1) 0 s with
        | ok us => rw [hs] at h; cases h
        | error y =>
          rw [hs] at h
          cases h
          obtain ⟨e, r, hr, hx⟩ := ih _ (by simp) hs rfl
          refine ⟨e, r, .text ho hr, ?_⟩
          rwa [show p + 1 + s.length = p + (c :: s).length by simp; omega] at hx

/-- **A scan fails at the first tag from the left that has a fault,** and tells this fault. -/
theorem scan_eq_error_iff :
    scan d p 0 s = .error x ↔ ∃ e r, Reaches d s e r ∧ FailsAt e r (p + s.length) x := by
  constructor
  · exact exists_reaches_of_scan
  · rintro ⟨e, r, hr, hx⟩
    exact hr.scan_eq hx

end Template

/-! ## Faults of sections -/

namespace Node

variable {x : TemplateError}

/-- Texts have no part in how the read of some tokens fails, nor have the nodes read before. -/
theorem nestFrom_tags_error_iff {ts : List Token} {done done' : List Node}
    {around around' : List Open} (h : around.map Open.tag = around'.map Open.tag) :
    nestFrom done around (Token.tags ts) = .error x ↔ nestFrom done' around' ts = .error x := by
  induction ts generalizing done done' around around' with
  | nil =>
    cases around with
    | nil =>
      obtain rfl := List.map_eq_nil_iff.1 h.symm
      simp [Token.tags, nestFrom]
    | cons o around =>
      obtain ⟨o', outer, rfl, ho, -⟩ := List.map_eq_cons_iff.1 h.symm
      simp [Token.tags, nestFrom, ho]
  | cons t ts ih =>
    by_cases htext : t.kind = .text
    · have htags : Token.tags (t :: ts) = Token.tags ts := by simp [Token.tags, htext]
      rw [htags, nestFrom_leaf (by simp [htext, Token.Kind.opensSection]) (by simp [htext])]
      exact ih h
    have htags : Token.tags (t :: ts) = t :: Token.tags ts := by simp [Token.tags, htext]
    rw [htags]
    by_cases ho : t.kind.opensSection = true
    · rw [nestFrom_open ho, nestFrom_open ho]
      exact ih (by simp [h])
    rw [Bool.not_eq_true] at ho
    by_cases hc : t.kind = .closeTag
    · cases around with
      | nil =>
        obtain rfl := List.map_eq_nil_iff.1 h.symm
        rw [nestFrom_unopened hc, nestFrom_unopened hc]
      | cons o around =>
        obtain ⟨o', outer, rfl, htag, houter⟩ := List.map_eq_cons_iff.1 h.symm
        by_cases hv : t.value = o.tag.value
        · rw [nestFrom_close hc hv, nestFrom_close hc (by rw [hv, htag])]
          exact ih houter.symm
        · rw [nestFrom_mismatch hc hv, nestFrom_mismatch hc (by rwa [htag]), htag]
    · rw [nestFrom_leaf ho hc, nestFrom_leaf ho hc]
      exact ih h

theorem nest_tags_error_iff {ts us : List Token} (h : Token.tags ts = Token.tags us) :
    nest ts = .error x ↔ nest us = .error x := by
  have htags (vs : List Token) : nest (Token.tags vs) = .error x ↔ nest vs = .error x :=
    nestFrom_tags_error_iff rfl
  rw [← htags ts, h, htags us]

end Node

/-! ## Whole templates -/

namespace Template

/-- `Fault spec template x`: of the faults of a template and the delimiters to read it with, `x` is
the one that comes first. The template is looked at only if the delimiters given are two distinct
texts, and its sections only if all of it is read. -/
inductive Fault (spec : Delimiters.Spec) (template : String) : TemplateError → Prop
  | given : (∀ d, spec.given ≠ Delimiters.values d) →
      Fault spec template (.malformedDelimiters spec.given)
  | tag {d e : Delimiters} {r : List Char} {x : TemplateError} :
      spec.given = d.values → Reaches d template.toList e r → FailsAt e r template.length x →
      Fault spec template x
  | sections {d : Delimiters} {us : List Token} {x : TemplateError} :
      spec.given = d.values → Tiles d template.toList 0 us → Node.FirstFault us x →
      Fault spec template x

variable {spec : Delimiters.Spec} {template : String} {x : TemplateError}

theorem parse_eq_error_iff {d : Delimiters} :
    parse d template = .error x ↔
      (∃ e r, Reaches d template.toList e r ∧ FailsAt e r template.length x) ∨
        ∃ us, Tiles d template.toList 0 us ∧ Node.FirstFault us x := by
  have hscan : scan d 0 0 template.toList = .error x ↔
      ∃ e r, Reaches d template.toList e r ∧ FailsAt e r template.length x := by
    rw [scan_eq_error_iff, Nat.zero_add, String.length_toList]
  rw [parse_eq, ← hscan]
  simp only [← scan_eq_ok_iff]
  cases scan d 0 0 template.toList with
  | error y =>
    show Except.error y = _ ↔ _
    simp
  | ok us =>
    show Node.nest (squash (strip us)) = _ ↔ _
    rw [Node.nest_tags_error_iff ((tags_squash _).trans (tags_strip us)), Node.nest_eq_error_iff]
    simp

/-- **Reading a template fails with its first fault and with no other.** -/
theorem parseWith_eq_error_iff : parseWith spec template = .error x ↔ Fault spec template x := by
  rw [parseWith, Delimiters.Spec.delimiters_eq]
  rcases Delimiters.ofItems_cases spec.given with ⟨d, hgiven, hd⟩ | ⟨hgiven, hd⟩
  · rw [hd]
    show parse d template = _ ↔ _
    rw [parse_eq_error_iff]
    constructor
    · rintro (⟨e, r, hr, hx⟩ | ⟨us, hus, hx⟩)
      · exact .tag hgiven hr hx
      · exact .sections hgiven hus hx
    · intro h
      cases h with
      | given hno => exact absurd hgiven (hno d)
      | tag hgiven' hr hx =>
        obtain rfl := Delimiters.values_injective (hgiven.symm.trans hgiven')
        exact .inl ⟨_, _, hr, hx⟩
      | sections hgiven' hus hx =>
        obtain rfl := Delimiters.values_injective (hgiven.symm.trans hgiven')
        exact .inr ⟨_, hus, hx⟩
  · rw [hd]
    constructor
    · intro h
      cases h
      exact .given hgiven
    · intro h
      cases h with
      | given => rfl
      | tag hgiven' => exact absurd hgiven' (hgiven _)
      | sections hgiven' => exact absurd hgiven' (hgiven _)

/-- **A template is read into a tree, or it has one fault that comes first, and that is told.** -/
theorem parseWith_faults (spec : Delimiters.Spec) (template : String) :
    ((∃ ns, parseWith spec template = .ok ns) ∧ ∀ x, ¬ Fault spec template x) ∨
      ∃ x, parseWith spec template = .error x ∧ ∀ y, Fault spec template y ↔ y = x := by
  simp only [← parseWith_eq_error_iff]
  cases h : parseWith spec template with
  | ok ns => exact .inl ⟨⟨ns, rfl⟩, by simp⟩
  | error x => exact .inr ⟨x, rfl, by simp [eq_comm]⟩

/-- A tag without an end is told before the closing tag in front of it, which closes nothing. -/
example : parseWith .braces "\x7b\x7b/a\x7d\x7d\x7b\x7bb" = .error (.unclosedTag 9) := by
  with_unfolding_all rfl

end Template

end Mustache
