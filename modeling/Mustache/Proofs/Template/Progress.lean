import Mustache.Proofs.Template.Cursor
import Mustache.Proofs.Template.Printing

/-!
# Reading in rounds

A template can be read with a scanner, in rounds. A round goes on to the next tag, noting a text for
every character that it passes, and reads the tag by taking one pattern after the other or skipping
to it. The rounds end where no tag is left, and at the first fault. Each of them moves the scanner
past both delimiters at least, so there are at most half as many as the template has characters, and
one more; and what they come to is what `pieces` gives.

**Idea.** Every call of a round reads on from where the last one stopped, so a tag is read as
`Tag.read?` reads it from what is left of the text (`readTag_of_opening`). Before a tag a scan notes
the same texts (`scan_of_no_opening`), so a round and a scan agree on all that a round can come to
(`agrees_round`). The length of the tag is what the scanner gains, and bounds the number of rounds
(`loop_eq`).

Main statement: `Template.rounds_progress`.
-/

namespace Mustache

open Text

/-! ## The patterns of a tag -/

namespace Delimiters

theorem length?_start_eq_none_iff {d : Delimiters} {s : List Char} :
    d.start.length? s = none ↔ ¬ d.opening <+: s := by
  show (Pattern.wordLength? d.opening s).map _ = none ↔ _
  rw [Option.map_eq_none_iff, Option.eq_none_iff_forall_ne_some]
  constructor
  · exact fun h hp => h _ (Pattern.wordLength?_eq_some.2 ⟨hp, rfl⟩)
  · exact fun h n hn => h (Pattern.wordLength?_eq_some.1 hn).1

end Delimiters

/-- The lead of a tag does not reach beyond the text. -/
theorem Tag.lead_le (d : Delimiters) (s : List Char) : (Tag.lead d s).2 ≤ s.length := by
  have hopening := d.start.width_le s
  have hsplit := congrArg List.length (splitSigil_eq (s.drop (d.start.width s)))
  have hblanks := Pattern.blankRun_le (splitSigil (s.drop (d.start.width s))).2
  rw [List.length_append, List.length_drop] at hsplit
  simp only [Tag.lead]
  omega

/-- The sign that closes a value, where there is one, does not reach beyond the text. -/
theorem Pattern.offset_add_width_le (valueEnd sign : Pattern) (s : List Char) :
    valueEnd.offset s + sign.width (s.drop (valueEnd.offset s)) ≤ s.length := by
  have hvalue := valueEnd.offset_le s
  have hsign := sign.width_le (s.drop (valueEnd.offset s))
  rw [List.length_drop] at hsign
  omega

theorem valueSpan_le (d : Delimiters) (sigil : Option Char) (s : List Char) :
    (valueSpan d sigil s).2 ≤ s.length := by
  cases hs : Tag.signs d sigil with
  | none =>
    rw [Tag.valueSpan_of_plain hs]
    exact d.stop.offset_le s
  | some signs =>
    rw [Tag.valueSpan_of_signed hs]
    have hsign := Pattern.offset_add_width_le (.blanksThen signs.1) (.blanksThen signs.2) s
    have hstop (m : Nat) : d.stop.offset (s.drop m) ≤ s.length - m := by
      rw [← List.length_drop]
      exact d.stop.offset_le _
    exact Nat.add_le_of_le_sub' hsign (hstop _)

/-- Where no end of a tag is found, it was looked for up to the end of the text. -/
theorem valueSpan_of_length?_eq_none {d : Delimiters} {sigil : Option Char} {s : List Char}
    (h : d.stop.length? (s.drop (valueSpan d sigil s).2) = none) :
    (valueSpan d sigil s).2 = s.length := by
  cases hs : Tag.signs d sigil with
  | none =>
    rw [Tag.valueSpan_of_plain hs] at h ⊢
    exact Pattern.offset_of_length?_eq_none h
  | some signs =>
    rw [Tag.valueSpan_of_signed hs] at h ⊢
    have hsign := Pattern.offset_add_width_le (.blanksThen signs.1) (.blanksThen signs.2) s
    have hstop := Pattern.offset_of_length?_eq_none (by rw [List.drop_drop]; exact h)
    rw [List.length_drop] at hstop
    exact (congrArg _ hstop).trans (Nat.add_sub_cancel' hsign)

namespace Template

open Scanner

/-! ## Rounds -/

/-- What is known between two rounds: where the scanner stands, which delimiters are in force there,
and the tokens that were read and kept. -/
structure Reader where
  scanner : Scanner
  delimiters : Delimiters
  swept : Sweep

namespace Reader

/-- How a round ends. -/
inductive Outcome
  /-- No tag is left. -/
  | ended (swept : Sweep)
  | failed (fault : TemplateError)
  /-- A tag was read, and the next round may follow. -/
  | went (next : Reader)

/-- A tag was read, behind which these delimiters are in force, if there is no fault in them. -/
def Outcome.ofTag (s : Scanner) (swept : Sweep) : Except TemplateError Delimiters → Outcome
  | .error fault => failed fault
  | .ok d => went ⟨s, d, swept⟩

/-- Before the first round. -/
def start (d : Delimiters) (template : String) : Reader := ⟨ofText template.toList, d, .start⟩

/-- Goes on to where the next tag starts, and reads the texts before it. -/
def readTexts (r : Reader) : Reader :=
  let (skipped, s) := r.scanner.skipTo r.delimiters.start
  ⟨s, r.delimiters, (charTokens r.scanner.position.toNat skipped).foldl Sweep.add r.swept⟩

/-- Reads the sigil of a tag, if it has one, and the blank characters after it. -/
def readSigil (s : Scanner) : Option Char × Scanner :=
  let (sigil, s) := s.take (.oneOf sigils)
  (sigil.head?, (s.take .blanks).2)

/-- Reads a value that is closed by a sign of its own, and goes on to where the tag's end begins. -/
def readClosed (d : Delimiters) (s : Scanner) (valueEnd sign : Pattern) : List Char × Scanner :=
  let (value, s) := s.skipTo valueEnd
  (value, ((s.take sign).2.skipTo d.stop).2)

/-- Reads the value of a tag, and goes on to where the tag's end begins. -/
def readValue (d : Delimiters) (s : Scanner) : Option Char → List Char × Scanner
  | some '=' => readClosed d s (.blanksThen ['=']) (.blanksThen ['='])
  | some '{' => readClosed d s d.braceStop (.blanksThen ['}'])
  | _ => s.skipTo d.stop

/-- Reads the tag where the scanner stands, if there is one. -/
def readTag (r : Reader) : Outcome :=
  let (opening, s) := r.scanner.take r.delimiters.start
  if opening = [] then .ended r.swept
  else
    let (sigil, s) := readSigil s
    let (value, s) := readValue r.delimiters s sigil
    let (closing, s) := s.take r.delimiters.stop
    if closing = [] then .failed (.unclosedTag s.position.toNat)
    else
      let tag : Token :=
        ⟨.ofSigil sigil, String.ofList value, r.scanner.position.toNat, s.position.toNat⟩
      .ofTag s (r.swept.add tag) (tag.delimiters r.delimiters)

/-- One round. -/
def round (r : Reader) : Outcome := r.readTexts.readTag

/-- The tokens that are kept when the template ends. -/
def kept (swept : Sweep) : List Token := swept.endLine.tokens.toList

/-- What is read in rounds from here on, if no more than so many are needed. -/
def loop : Nat → Reader → Option (Except TemplateError (List Token))
  | 0, r => if r.scanner.atEnd then some (.ok (kept r.swept)) else none
  | n + 1, r =>
    if r.scanner.atEnd then some (.ok (kept r.swept))
    else match r.round with
      | .ended swept => some (.ok (kept swept))
      | .failed fault => some (.error fault)
      | .went next => loop n next

/-- What a template read with the delimiters `d` comes to before some round. -/
inductive Reached (d : Delimiters) (template : String) : Reader → Prop
  | start : Reached d template (start d template)
  | round {r next : Reader} : Reached d template r → r.scanner.atEnd = false →
      r.round = .went next → Reached d template next

/-! ## A round by the text that is left -/

variable {text : List Char} {d : Delimiters} {swept : Sweep} {n p k : Nat}

theorem readTexts_eq (h : p ≤ text.length) :
    (⟨⟨text, p⟩, d, swept⟩ : Reader).readTexts =
      ⟨⟨text, (p + d.start.offset (text.drop p) : Nat)⟩, d,
        (charTokens p ((text.drop p).take (d.start.offset (text.drop p)))).foldl Sweep.add
          swept⟩ := by
  rw [readTexts, skipTo_natCast h]
  rfl

theorem readSigil_eq (h : n ≤ text.length) :
    readSigil ⟨text, n⟩ =
      let (sigil, body) := splitSigil (text.drop n)
      (sigil, ⟨text, (n + sigil.toList.length + blankRun body : Nat)⟩) := by
  have hsplit (s : List Char) : (s.take ((Pattern.oneOf sigils).width s)).head? = (splitSigil s).1 ∧
      (Pattern.oneOf sigils).width s = (splitSigil s).1.toList.length := by
    cases s with
    | nil => exact ⟨rfl, rfl⟩
    | cons c r =>
      rw [Pattern.width, Pattern.length?, splitSigil]
      split <;> exact ⟨rfl, rfl⟩
  obtain ⟨hhead, hwidth⟩ := hsplit (text.drop n)
  have hle : n + (Pattern.oneOf sigils).width (text.drop n) ≤ text.length :=
    (Call.take (.oneOf sigils)).add_reach_le h
  have hrest : text.drop (n + (Pattern.oneOf sigils).width (text.drop n)) =
      (splitSigil (text.drop n)).2 := by
    have := congrArg (List.drop (splitSigil (text.drop n)).1.toList.length)
      (splitSigil_eq (text.drop n))
    rw [List.drop_left] at this
    rw [← List.drop_drop, hwidth, this]
  rw [readSigil, take_natCast h]
  simp only
  rw [take_natCast hle, hhead, hrest, hwidth]
  rfl

theorem readClosed_eq (valueEnd sign : Pattern) (h : n ≤ text.length) :
    readClosed d ⟨text, n⟩ valueEnd sign =
      let rest := text.drop n
      let e := valueEnd.offset rest
      let m := e + sign.width (rest.drop e)
      (rest.take e, ⟨text, (n + (m + d.stop.offset (rest.drop m)) : Nat)⟩) := by
  have hvalue := (Call.skipTo valueEnd).add_reach_le h
  have hsign := (Call.take sign).add_reach_le hvalue
  simp only [Call.reach] at hvalue hsign
  rw [readClosed, skipTo_natCast h]
  simp only
  rw [take_natCast hvalue, skipTo_natCast hsign]
  simp only [List.drop_drop, Nat.add_assoc]

theorem readValue_eq (sigil : Option Char) (h : n ≤ text.length) :
    readValue d ⟨text, n⟩ sigil = ((text.drop n).take (valueSpan d sigil (text.drop n)).1,
      ⟨text, (n + (valueSpan d sigil (text.drop n)).2 : Nat)⟩) := by
  unfold readValue
  split
  · exact readClosed_eq _ _ h
  · exact readClosed_eq _ _ h
  · next hequals hbrace =>
    have hsigns : Tag.signs d sigil = none := by
      unfold Tag.signs
      split
      · exact absurd rfl hequals
      · exact absurd rfl hbrace
      · rfl
    rw [Tag.valueSpan_of_plain hsigns]
    exact skipTo_natCast h

/-- Behind the opening delimiter stands the rest of the lead of a tag. -/
theorem readSigil_lead (h : k ≤ text.length) :
    readSigil ((⟨text, k⟩ : Scanner).take d.start).2 =
      ((Tag.lead d (text.drop k)).1, ⟨text, (k + (Tag.lead d (text.drop k)).2 : Nat)⟩) := by
  have hopening : k + d.start.width (text.drop k) ≤ text.length :=
    (Call.take d.start).add_reach_le h
  rw [take_natCast h]
  simp only
  rw [readSigil_eq hopening]
  simp only [Tag.lead, List.drop_drop, Nat.add_assoc]

/-- **Where the opening delimiter stands, a tag is read as it is read from what is left.** -/
theorem readTag_of_opening (h : k ≤ text.length) (ho : d.opening <+: text.drop k) :
    (⟨⟨text, k⟩, d, swept⟩ : Reader).readTag =
      (Tag.read? d (text.drop k)).elim (.failed (.unclosedTag text.length)) fun tag =>
        .ofTag ⟨text, (k + tag.length : Nat)⟩ (swept.add (tag.token k)) (tag.delimiters d) := by
  have hopening : ((⟨text, k⟩ : Scanner).take d.start).1 ≠ [] := by
    rw [Ne, take_eq_nil_iff d.length?_start_nil h, Delimiters.length?_start_eq_none_iff, not_not]
    exact ho
  have hlead : k + (Tag.lead d (text.drop k)).2 ≤ text.length := by
    have := Tag.lead_le d (text.drop k)
    rw [List.length_drop] at this
    omega
  have hspan := valueSpan_le d (Tag.lead d (text.drop k)).1
    (text.drop (k + (Tag.lead d (text.drop k)).2))
  rw [readTag, Tag.read?_eq]
  simp only [hopening, if_false, readSigil_lead h, readValue_eq _ hlead, List.drop_drop]
  -- From here on only the offsets count, of the value and of the tag's end.
  generalize Tag.lead d (text.drop k) = lead at *
  obtain ⟨sigil, a⟩ := lead
  have hnone := @valueSpan_of_length?_eq_none d sigil (text.drop (k + a))
  generalize valueSpan d sigil (text.drop (k + a)) = span at *
  obtain ⟨e, b⟩ := span
  simp only [List.length_drop, List.drop_drop] at hlead hspan hnone ⊢
  have hstop : k + a + b ≤ text.length := by omega
  have hclosing := take_eq_nil_iff d.length?_stop_nil hstop
  rw [take_natCast hstop] at hclosing ⊢
  cases hclose : d.stop.length? (text.drop (k + a + b)) with
  | none =>
    have hend : k + a + b + d.stop.width (text.drop (k + a + b)) = text.length := by
      rw [Pattern.width, hclose, hnone hclose]
      show k + a + (text.length - (k + a)) + 0 = _
      omega
    rw [if_pos (hclosing.2 hclose)]
    simp only [hend, Int.toNat_natCast, Option.map_none, Option.elim_none]
  | some m =>
    have hsome : d.stop.length? (text.drop (k + a + b)) ≠ none := by
      rw [hclose]
      exact Option.some_ne_none m
    have hend : k + a + b + d.stop.width (text.drop (k + a + b)) = k + (a + b + m) := by
      rw [Pattern.width, hclose, Option.getD_some]
      omega
    rw [if_neg (mt hclosing.1 hsome)]
    simp only [hend, Int.toNat_natCast, Option.map_some, Option.elim_some,
      ← Tag.delimiters_token _ k]
    rfl

/-- Where it does not stand, there is no tag left. -/
theorem readTag_of_no_opening (h : k ≤ text.length) (ho : ¬ d.opening <+: text.drop k) :
    (⟨⟨text, k⟩, d, swept⟩ : Reader).readTag = .ended swept := by
  have hopening : ((⟨text, k⟩ : Scanner).take d.start).1 = [] := by
    rwa [take_eq_nil_iff d.length?_start_nil h, Delimiters.length?_start_eq_none_iff]
  rw [readTag]
  simp only [hopening, if_true]

end Reader

/-! ## All rounds -/

/-- A scan notes a text for every character before the first tag. -/
theorem scan_of_no_opening {d : Delimiters} {s : List Char} {k : Nat} (hk : k ≤ s.length)
    (h : ∀ j < k, ¬ d.opening <+: s.drop j) (p : Nat) :
    scan d p 0 s = (scan d (p + k) 0 (s.drop k)).map (charTokens p (s.take k) ++ ·) := by
  induction k generalizing s p with
  | zero =>
    show _ = Except.map id _
    rw [Except.map_id]
    rfl
  | succ k ih =>
    cases s with
    | nil => exact absurd hk (Nat.not_succ_le_zero k)
    | cons c r =>
      have hrest := ih (Nat.le_of_succ_le_succ hk)
        (fun j hj => h (j + 1) (Nat.succ_lt_succ hj)) (p + 1)
      rw [scan_text (h 0 (Nat.succ_pos k)), hrest, List.drop_succ_cons, List.take_succ_cons,
        Nat.add_assoc, Nat.add_comm 1 k]
      cases scan d (p + (k + 1)) 0 (r.drop k) <;> rfl

namespace Reader

variable {text : List Char} {d : Delimiters} {swept : Sweep} {next : Reader} {n p : Nat}

/-- No tag starts before the place that a round goes on to. -/
theorem scan_readTexts (d : Delimiters) (text : List Char) (p : Nat) :
    scan d p 0 (text.drop p) =
      (scan d (p + d.start.offset (text.drop p)) 0
        (text.drop (p + d.start.offset (text.drop p)))).map
          (charTokens p ((text.drop p).take (d.start.offset (text.drop p))) ++ ·) := by
  rw [← List.drop_drop]
  exact scan_of_no_opening (d.start.offset_le _)
    (fun j hj => Delimiters.length?_start_eq_none_iff.1 (Pattern.length?_before_offset hj)) p

/-- What a round from the offset `p` may come to, and what a scan from there comes to in that case:
no tag is left, or there is a fault, or texts are read and a tag, and the rest is left to read. -/
inductive Agrees (text : List Char) (p : Nat) (d : Delimiters) (swept : Sweep) :
    Outcome → Except TemplateError (List Token) → Prop
  | ended (skipped : List Char) : Agrees text p d swept
      (.ended ((charTokens p skipped).foldl Sweep.add swept)) (.ok (charTokens p skipped))
  | failed (fault : TemplateError) : Agrees text p d swept (.failed fault) (.error fault)
  | went (skipped : List Char) (tag : Tag) (e : Delimiters) :
      d.opening.length + d.closing.length ≤ tag.length →
      p + skipped.length + tag.length ≤ text.length →
      Agrees text p d swept
        (.went ⟨⟨text, (p + skipped.length + tag.length : Nat)⟩, e,
          ((charTokens p skipped).foldl Sweep.add swept).add (tag.token (p + skipped.length))⟩)
        ((scan e (p + skipped.length + tag.length) 0
          (text.drop (p + skipped.length + tag.length))).map
            fun ts => charTokens p skipped ++ tag.token (p + skipped.length) :: ts)

/-- **A round agrees with a scan.** -/
theorem agrees_round (h : p ≤ text.length) :
    Agrees text p d swept (⟨⟨text, p⟩, d, swept⟩ : Reader).round (scan d p 0 (text.drop p)) := by
  have hk : p + d.start.offset (text.drop p) ≤ text.length := (Call.skipTo d.start).add_reach_le h
  have hskipped : ((text.drop p).take (d.start.offset (text.drop p))).length =
      d.start.offset (text.drop p) := List.length_take_of_le (d.start.offset_le _)
  -- Where no tag is left, the round goes on to the end.
  have hend (ho : ¬ d.opening <+: text.drop (p + d.start.offset (text.drop p))) :
      text.length ≤ p + d.start.offset (text.drop p) := by
    rw [← List.drop_drop, ← Delimiters.length?_start_eq_none_iff] at ho
    have hall := Pattern.offset_of_length?_eq_none ho
    rw [List.length_drop] at hall
    omega
  rw [round, readTexts_eq h, scan_readTexts]
  generalize (text.drop p).take (d.start.offset (text.drop p)) = skipped at *
  generalize d.start.offset (text.drop p) = o at *
  subst hskipped
  by_cases ho : d.opening <+: text.drop (p + skipped.length)
  · rw [readTag_of_opening hk ho]
    cases hread : Tag.read? d (text.drop (p + skipped.length)) with
    | none =>
      rw [scan_unclosed ho hread, List.length_drop, Nat.add_sub_cancel' hk]
      exact .failed _
    | some tag =>
      obtain ⟨hlong, hle, -⟩ := Tag.read?_spec ho hread
      rw [List.length_drop] at hle
      rw [Option.elim_some, scan_tag ho hread, List.drop_drop]
      cases tag.delimiters d with
      | error fault => exact .failed fault
      | ok e =>
        have hmap (rest : Except TemplateError (List Token)) :
            (rest.map (tag.token (p + skipped.length) :: ·)).map (charTokens p skipped ++ ·) =
              rest.map fun ts => charTokens p skipped ++ tag.token (p + skipped.length) :: ts := by
          cases rest <;> rfl
        show Agrees _ _ _ _ _ (Except.map _ (Except.map _ _))
        rw [hmap]
        exact .went skipped tag e hlong (by omega)
  · rw [readTag_of_no_opening hk ho, List.drop_eq_nil_of_le (hend ho), scan]
    simp only [Except.map, List.append_nil]
    exact .ended skipped

/-- **What the rounds come to.** If there are more than half as many of them as characters are left,
they read what a scan reads. -/
theorem loop_eq (h : p ≤ text.length) (hn : text.length - p < 2 * n) :
    loop n ⟨⟨text, p⟩, d, swept⟩ =
      some ((scan d p 0 (text.drop p)).map fun ts => kept (ts.foldl Sweep.add swept)) := by
  induction n generalizing p d swept with
  | zero => exact absurd hn (Nat.not_lt_zero _)
  | succ n ih =>
    by_cases hend : p = text.length
    · rw [loop, if_pos (atEnd_natCast.2 hend.ge), List.drop_eq_nil_of_le hend.ge, scan]
      rfl
    have hround : Agrees text p d swept _ _ := agrees_round h
    rw [loop, if_neg (mt atEnd_natCast.1 (by omega))]
    generalize (⟨⟨text, p⟩, d, swept⟩ : Reader).round = outcome at hround ⊢
    generalize scan d p 0 (text.drop p) = tokens at hround ⊢
    cases hround with
    | ended skipped => rfl
    | failed fault => rfl
    | went skipped tag e hlong hle =>
      have hopening := List.length_pos_iff.2 d.opening_ne_nil
      have hclosing := List.length_pos_iff.2 d.closing_ne_nil
      simp only
      rw [ih hle (by omega)]
      cases scan e (p + skipped.length + tag.length) 0
          (text.drop (p + skipped.length + tag.length)) with
      | error fault => rfl
      | ok ts => simp only [Except.map, List.foldl_append, List.foldl_cons]

/-- What is true of a reader between two rounds: its scanner is inside the template, and it has not
kept more tokens than it has passed characters. -/
def Keeps (template : String) (r : Reader) : Prop :=
  ∃ p : Nat, r.scanner = ⟨template.toList, p⟩ ∧ p ≤ template.length ∧ r.swept.tokens.size ≤ p

theorem keeps_start (d : Delimiters) (template : String) : Keeps template (start d template) :=
  ⟨0, rfl, Nat.zero_le _, Nat.le_refl 0⟩

/-- A round that reads a tag keeps this, and gains the length of both delimiters. -/
theorem Keeps.round {template : String} {r : Reader} (h : Keeps template r)
    (hround : r.round = .went next) :
    Keeps template next ∧ r.scanner.position + r.delimiters.opening.length +
      r.delimiters.closing.length ≤ next.scanner.position := by
  obtain ⟨scanner, d, swept⟩ := r
  obtain ⟨p, rfl, hp, hsize⟩ := h
  rw [← String.length_toList] at hp
  have hagrees : Agrees template.toList p d swept _ _ := agrees_round hp
  rw [hround] at hagrees
  generalize scan d p 0 (template.toList.drop p) = tokens at hagrees
  cases hagrees with | went skipped tag e hlong hle => ?_
  have hopening := List.length_pos_iff.2 d.opening_ne_nil
  have htexts := swept.size_foldl_add_le (charTokens p skipped)
  have htag := ((charTokens p skipped).foldl Sweep.add swept).size_add_le
    (tag.token (p + skipped.length))
  rw [length_charTokens] at htexts
  rw [String.length_toList] at hle
  simp only at hsize
  refine ⟨⟨_, rfl, hle, ?_⟩, ?_⟩
  · simp only
    omega
  · simp only [Int.natCast_add]
    omega

theorem Reached.keeps {template : String} {r : Reader} (h : Reached d template r) :
    Keeps template r := by
  induction h with
  | start => exact keeps_start d template
  | round _ _ hround ih => exact (ih.round hround).1

end Reader

/-- What is left of a template before it is joined has no more tokens than the template has
characters. -/
theorem length_pieces_le {d : Delimiters} {template : String} {ts : List Token}
    (h : pieces d template = .ok ts) : ts.length ≤ template.length := by
  obtain ⟨us, hus, rfl⟩ := pieces_eq_ok_iff_strip.1 h
  calc (strip us).length ≤ us.length := (strip_sublist us).length_le
    _ ≤ template.toList.length := hus.length_le
    _ = template.length := String.length_toList

/-- **Every round makes progress.** Before any round, the scanner is inside the template, and no
more tokens are kept than characters are passed; and a round that reads a tag moves the scanner by
the length of both delimiters in force there, or more. So the rounds end, by themselves or with a
fault, after half as many as the template has characters and one more at most. They come to what
`pieces` says, and these are no more tokens than the template has characters. -/
theorem rounds_progress (d : Delimiters) (template : String) :
    (∀ r, Reader.Reached d template r →
      (r.swept.tokens.size : Int) ≤ r.scanner.position ∧ r.scanner.position ≤ template.length ∧
        ∀ next, r.round = .went next →
          r.scanner.position + r.delimiters.opening.length + r.delimiters.closing.length ≤
            next.scanner.position) ∧
      Reader.loop (template.length / 2 + 1) (Reader.start d template) =
        some (pieces d template) ∧
      ∀ ts, pieces d template = .ok ts → ts.length ≤ template.length := by
  refine ⟨fun r hr => ?_, ?_, fun ts => length_pieces_le⟩
  · obtain ⟨p, hscanner, hp, hsize⟩ := hr.keeps
    refine ⟨?_, ?_, fun next hround => (hr.keeps.round hround).2⟩
    · rw [hscanner]
      exact Int.ofNat_le.2 hsize
    · rw [hscanner]
      exact Int.ofNat_le.2 hp
  · have henough : template.toList.length - 0 < 2 * (template.length / 2 + 1) := by
      rw [String.length_toList]
      omega
    exact Reader.loop_eq (Nat.zero_le _) henough

/-- A tag that sets the delimiters is read in the first round, with the braces in force. -/
theorem rounds_progress_delimiterSwitch :
    let template := "a\x7b\x7b=<% %>=\x7d\x7d<%b%>"
    let r := Reader.start .braces template
    ∃ next, r.round = .went next ∧ next.delimiters.opening = ['<', '%'] ∧
      r.scanner.position + 2 + 2 ≤ next.scanner.position ∧
      Reader.loop (template.length / 2 + 1) r = some (pieces .braces template) := by
  intro template r
  obtain ⟨hrounds, hloop, -⟩ := rounds_progress .braces template
  have hopening : (match r.round with
      | .went next => next.delimiters.opening
      | _ => []) = ['<', '%'] := by decide +kernel
  cases hround : r.round with
  | ended swept =>
    rw [hround] at hopening
    cases hopening
  | failed fault =>
    rw [hround] at hopening
    cases hopening
  | went next =>
    rw [hround] at hopening
    exact ⟨next, rfl, hopening, (hrounds r .start).2.2 next hround, hloop⟩

end Template

end Mustache
