import Mathlib.Data.List.Chain
import Mustache.Proofs.Template.Nested
import Mustache.Proofs.Template.Standalone

/-!
# Offsets

Every token of a tree remembers where it stands in the template. Here is shown that it stands there
indeed, also after blank texts have been dropped, adjacent texts joined, and all of them moved into
sections.

**Idea.** What tiles a template stands in it without gaps. Dropping blank texts leaves gaps, but
never between two texts that become neighbours: a line that loses its blanks has a tag, and that tag
stays (`isChain_strip`). So texts that are joined touch, and a joined text is what the template has
between its ends (`squash_placed`). Nesting changes nothing about the tokens; it drops the closing
tags, whose places the sections remember.

Main statements: `isChain_strip`, `squash_placed` and `parse_accountsFor`.
-/

namespace Mustache

/-- The delimiters in force after a token. -/
def Token.delimiters (t : Token) (d : Delimiters) : Except TemplateError Delimiters :=
  if t.kind = .delimiterTag then Delimiters.ofText t.value.toList else .ok d

theorem Tag.delimiters_token (tag : Tag) (p : Nat) (d : Delimiters) :
    (tag.token p).delimiters d = tag.delimiters d := by
  simp [Token.delimiters, Tag.delimiters, Tag.token]

theorem Token.Kind.ofSigil_ne_text (sigil : Option Char) : ofSigil sigil ≠ .text := by
  unfold ofSigil
  split <;> simp

theorem Tag.kind_ne_text {d : Delimiters} {s : List Char} {tag : Tag}
    (h : Tag.read? d s = some tag) : tag.kind ≠ .text := by
  simp only [Tag.read?, Option.map_eq_some_iff] at h
  obtain ⟨n, -, rfl⟩ := h
  exact Token.Kind.ofSigil_ne_text _

namespace Template

open Node (Nested)

/-! ## Parts of a text -/

/-- What a text has between two offsets. -/
def between (s : List Char) (i j : Nat) : List Char := (s.drop i).take (j - i)

theorem between_append {s : List Char} {i j k : Nat} (hij : i ≤ j) (hjk : j ≤ k) :
    between s i j ++ between s j k = between s i k := by
  have hdrop : s.drop j = (s.drop i).drop (j - i) := by
    rw [List.drop_drop, Nat.add_sub_cancel' hij]
  rw [between, between, between, hdrop, ← List.take_add]
  congr 1
  omega

/-! ## Tokens that stand in a template -/

/-- A text stands in the template: it is not empty, and it is what the template has between its
offsets. -/
structure TextAt (s : List Char) (t : Token) : Prop where
  start_lt : t.start < t.stop
  stop_le : t.stop ≤ s.length
  value : t.value.toList = between s t.start t.stop

/-- A tag stands in the template, where the delimiters `d` are in force: between its offsets the
template starts with the opening delimiter and ends with the closing one, and what is read there is
the tag. -/
structure TagAt (s : List Char) (d : Delimiters) (t : Token) : Prop where
  start_lt : t.start < t.stop
  stop_le : t.stop ≤ s.length
  opening : d.opening <+: between s t.start t.stop
  closing : d.closing <:+ between s t.start t.stop
  read : Tag.read? d (s.drop t.start) = some ⟨t.kind, t.value.toList, t.stop - t.start⟩

/-- The tokens stand in the template, one after another and none before the offset `a`, where the
delimiters `d` are in force. -/
inductive Placed (s : List Char) : Delimiters → Nat → List Token → Prop
  | nil (d : Delimiters) (a : Nat) : Placed s d a []
  | text {d : Delimiters} {a : Nat} {t : Token} {ts : List Token} :
      t.kind = .text → a ≤ t.start → TextAt s t → Placed s d t.stop ts → Placed s d a (t :: ts)
  | tag {d e : Delimiters} {a : Nat} {t : Token} {ts : List Token} :
      t.kind ≠ .text → a ≤ t.start → TagAt s d t → t.delimiters d = .ok e →
      Placed s e t.stop ts → Placed s d a (t :: ts)

theorem Placed.mono {s : List Char} {d : Delimiters} {a b : Nat} {ts : List Token}
    (h : Placed s d a ts) (hb : b ≤ a) : Placed s d b ts := by
  cases h with
  | nil => exact .nil d b
  | text hk ha ht hts => exact .text hk (hb.trans ha) ht hts
  | tag hk ha ht hd hts => exact .tag hk (hb.trans ha) ht hd hts

theorem textAt_ofChar {s r : List Char} {c : Char} {p : Nat} (h : s.drop p = c :: r) :
    TextAt s (Token.ofChar c p) where
  start_lt := Nat.lt_succ_self p
  stop_le := by
    have := congrArg List.length h
    simp only [List.length_drop, List.length_cons] at this
    show p + 1 ≤ s.length
    omega
  value := by simp [Token.ofChar, between, h]

theorem tagAt_token {s : List Char} {d : Delimiters} {tag : Tag} {p : Nat}
    (ho : d.opening <+: s.drop p) (h : Tag.read? d (s.drop p) = some tag) :
    TagAt s d (tag.token p) := by
  obtain ⟨hlen, hle, hclose⟩ := Tag.read?_spec ho h
  have hpos := Tag.length_pos ho h
  have hbetween : between s (tag.token p).start (tag.token p).stop =
      (s.drop p).take tag.length := by
    simp [between, Tag.token]
  rw [List.length_drop] at hle
  refine ⟨Nat.lt_add_of_pos_right hpos, ?_, ?_, by rwa [hbetween], ?_⟩
  · show p + tag.length ≤ s.length
    omega
  · rw [hbetween]
    exact List.prefix_take_iff.2 ⟨ho, by omega⟩
  · simpa [Tag.token] using h

theorem Tiles.placed {s r : List Char} {d : Delimiters} {p : Nat} {ts : List Token}
    (h : Tiles d r p ts) (hr : s.drop p = r) : Placed s d p ts := by
  induction h with
  | nil d p => exact .nil d p
  | text _ _ ih =>
    refine .text rfl (Nat.le_refl _) (textAt_ofChar hr) (ih ?_)
    rw [← List.drop_drop, hr]
    rfl
  | tag ho hread hd _ ih =>
    subst hr
    refine .tag (Tag.kind_ne_text hread) (Nat.le_refl _) (tagAt_token ho hread)
      (by rwa [Tag.delimiters_token]) (ih ?_)
    rw [List.drop_drop]

theorem Tiles.head_start {d : Delimiters} {r : List Char} {p : Nat} {ts : List Token}
    (h : Tiles d r p ts) {t : Token} (ht : t ∈ ts.head?) : t.start = p := by
  cases h with
  | nil => cases ht
  | text => cases ht; rfl
  | tag => cases ht; rfl

/-- What tiles a template has no gaps. -/
theorem Tiles.isChain {d : Delimiters} {r : List Char} {p : Nat} {ts : List Token}
    (h : Tiles d r p ts) : ts.IsChain fun t u => t.stop = u.start := by
  induction h with
  | nil => exact .nil
  | text _ hts ih => exact List.isChain_cons.2 ⟨fun u hu => (hts.head_start hu).symm, ih⟩
  | tag _ _ _ hts ih => exact List.isChain_cons.2 ⟨fun u hu => (hts.head_start hu).symm, ih⟩

/-! ## Dropping blank texts -/

/-- Texts that are neighbours touch. -/
def Touching (t u : Token) : Prop := t.kind = .text → u.kind = .text → t.stop = u.start

theorem kind_of_isBlank {t : Token} (h : t.isBlank = true) : t.kind = .text := by
  simpa using (Bool.and_eq_true_iff.1 h).1

/-- Of a standalone line there are only tags left, and at least one. -/
theorem stripLine_of_standalone {line : List Token} (h : isStandalone line = true) :
    stripLine line ≠ [] ∧ ∀ t ∈ stripLine line, t.kind ≠ .text := by
  rw [stripLine, if_pos h]
  rw [isStandalone, Bool.and_eq_true, List.any_eq_true, Bool.not_eq_true', List.any_eq_false] at h
  obtain ⟨⟨t, ht, hs⟩, hv⟩ := h
  constructor
  · refine List.ne_nil_of_mem (List.mem_filter.2 ⟨ht, ?_⟩)
    rw [Bool.not_eq_true', ← Bool.not_eq_true]
    intro hb
    simp [kind_of_isBlank hb, Token.Kind.isStructural] at hs
  · intro u hu hk
    obtain ⟨hu, hb⟩ := List.mem_filter.1 hu
    have := ((isVisible_eq_false_iff u).1 (by simpa using hv u hu)).2.2 hk
    simp [this] at hb

theorem stripLine_of_not_standalone {line : List Token} (h : isStandalone line = false) :
    stripLine line = line := by
  rw [stripLine, if_neg (by simp [h])]

theorem isChain_stripLine {line : List Token} (h : line.IsChain fun t u => t.stop = u.start) :
    (stripLine line).IsChain Touching := by
  cases hs : isStandalone line with
  | false =>
    rw [stripLine_of_not_standalone hs]
    exact h.imp fun t u htu _ _ => htu
  | true =>
    have htags := (stripLine_of_standalone hs).2
    have : (stripLine line).Pairwise Touching :=
      List.pairwise_of_forall_mem_list fun t ht _ _ hk => absurd hk (htags t ht)
    exact this.isChain

/-- What is left starts with a text only if the tokens did, and then with the same one. -/
theorem head_strip {ts : List Token} {t : Token} (h : t ∈ (strip ts).head?) (hk : t.kind = .text) :
    t ∈ ts.head? := by
  have ofLine {line : List Token} (h : t ∈ (stripLine line).head?) : t ∈ line.head? := by
    cases hs : isStandalone line with
    | false => rwa [stripLine_of_not_standalone hs] at h
    | true => exact absurd hk ((stripLine_of_standalone hs).2 t (List.mem_of_mem_head? h))
  induction ts using line_induction with
  | last line ho => exact ofLine (by rwa [strip_of_open ho] at h)
  | line line u ts ho hu _ =>
    rw [strip_append ho hu] at h
    have hne : stripLine (line ++ [u]) ≠ [] := by
      cases hs : isStandalone (line ++ [u]) with
      | false => rw [stripLine_of_not_standalone hs]; simp
      | true => exact (stripLine_of_standalone hs).1
    rw [List.head?_append_of_ne_nil _ hne] at h
    have := ofLine h
    rw [show line ++ u :: ts = (line ++ [u]) ++ ts by simp, List.head?_append_of_ne_nil _ (by simp)]
    exact this

/-- **Texts that become neighbours touch.** Where blanks were dropped, a tag is left. -/
theorem isChain_strip {ts : List Token} (h : ts.IsChain fun t u => t.stop = u.start) :
    (strip ts).IsChain Touching := by
  induction ts using line_induction with
  | last line ho =>
    rw [strip_of_open ho]
    exact isChain_stripLine h
  | line line t ts ho ht ih =>
    rw [show line ++ t :: ts = (line ++ [t]) ++ ts by simp, List.isChain_append] at h
    obtain ⟨hline, hts, hseam⟩ := h
    rw [strip_append ho ht, List.isChain_append]
    refine ⟨isChain_stripLine hline, ih hts, fun u hu v hv hku hkv => ?_⟩
    refine hseam u ?_ v (head_strip hv hkv)
    cases hs : isStandalone (line ++ [t]) with
    | false => rwa [stripLine_of_not_standalone hs] at hu
    | true => exact absurd hku ((stripLine_of_standalone hs).2 u (List.mem_of_mem_getLast? hu))

/-- `DropsTexts ts us`: the tokens `us` are the tokens `ts` less some texts. -/
inductive DropsTexts : List Token → List Token → Prop
  | nil : DropsTexts [] []
  | keep {ts us : List Token} (t : Token) : DropsTexts ts us → DropsTexts (t :: ts) (t :: us)
  | drop {ts us : List Token} {t : Token} : t.kind = .text → DropsTexts ts us →
      DropsTexts (t :: ts) us

theorem DropsTexts.append {ts us vs ws : List Token} (h : DropsTexts ts us)
    (h' : DropsTexts vs ws) : DropsTexts (ts ++ vs) (us ++ ws) := by
  induction h with
  | nil => exact h'
  | keep t _ ih => exact .keep t ih
  | drop hk _ ih => exact .drop hk ih

theorem dropsTexts_filter {p : Token → Bool} (ts : List Token)
    (h : ∀ t ∈ ts, p t = false → t.kind = .text) : DropsTexts ts (ts.filter p) := by
  induction ts with
  | nil => exact .nil
  | cons t ts ih =>
    obtain ⟨ht, hts⟩ := List.forall_mem_cons.1 h
    cases hp : p t with
    | false =>
      rw [List.filter_cons_of_neg (by simp [hp])]
      exact .drop (ht hp) (ih hts)
    | true =>
      rw [List.filter_cons_of_pos hp]
      exact .keep t (ih hts)

theorem dropsTexts_strip (ts : List Token) : DropsTexts ts (strip ts) := by
  have ofLine (line : List Token) : DropsTexts line (stripLine line) := by
    rw [stripLine_eq_filter]
    refine dropsTexts_filter line fun t _ ht => ?_
    rw [Bool.not_eq_false', Bool.and_eq_true] at ht
    exact kind_of_isBlank ht.1
  induction ts using line_induction with
  | last line ho => rw [strip_of_open ho]; exact ofLine line
  | line line t ts ho ht ih =>
    rw [strip_append ho ht, show line ++ t :: ts = (line ++ [t]) ++ ts by simp]
    exact (ofLine _).append ih

/-- Texts may be dropped without moving anything else. -/
theorem Placed.dropsTexts {s : List Char} {d : Delimiters} {a : Nat} {ts us : List Token}
    (h : Placed s d a ts) (hd : DropsTexts ts us) : Placed s d a us := by
  induction hd generalizing d a with
  | nil => exact h
  | keep t _ ih =>
    cases h with
    | text hk ha ht hts => exact .text hk ha ht (ih hts)
    | tag hk ha ht he hts => exact .tag hk ha ht he (ih hts)
  | drop hk _ ih =>
    cases h with
    | text _ ha ht hts => exact (ih hts).mono (ha.trans ht.start_lt.le)
    | tag hk' => exact absurd hk hk'

/-! ## Joining texts -/

/-- A token in front of tokens that are joined already. -/
def joinHead (t : Token) : List Token → List Token
  | [] => [t]
  | u :: us =>
    if t.kind = .text ∧ u.kind = .text then
      { t with value := t.value ++ u.value, stop := u.stop } :: us
    else t :: u :: us

theorem joinRun_singleton (t : Token) : joinRun [t] = some t := by
  simp [joinRun, String.join]

theorem joinRun_cons (t u : Token) (us : List Token) :
    ∃ v, joinRun (u :: us) = some v ∧ v.kind = u.kind ∧ v.start = u.start ∧
      joinRun (t :: u :: us) = some { t with value := t.value ++ v.value, stop := v.stop } :=
  ⟨_, rfl, rfl, rfl, by simp [joinRun, String.join_cons]⟩

theorem ne_nil_of_mem_runs {ts : List Token} {run : List Token} (h : run ∈ runs ts) :
    run ≠ [] := by
  induction ts generalizing run with
  | nil => simp [runs] at h
  | cons t ts ih =>
    rw [runs] at h
    split at h
    · next u us rest hr =>
      rw [hr] at ih
      split at h
      · rcases List.mem_cons.1 h with rfl | h
        · simp
        · exact ih (List.mem_cons_of_mem _ h)
      · rcases List.mem_cons.1 h with rfl | h
        · simp
        · exact ih h
    · rcases List.mem_cons.1 h with rfl | h
      · simp
      · exact ih h

/-- Joining reads the tokens from the last one to the first. -/
theorem squash_cons (t : Token) (ts : List Token) :
    squash (t :: ts) = joinHead t (squash ts) := by
  rw [squash, squash, runs]
  cases hr : runs ts with
  | nil => simp [joinRun_singleton, joinHead]
  | cons run rest =>
    cases run with
    | nil => exact absurd rfl (ne_nil_of_mem_runs (hr ▸ List.mem_cons_self))
    | cons u us =>
      obtain ⟨v, hv, hk, -, hjoin⟩ := joinRun_cons t u us
      rw [List.filterMap_cons_some hv, joinHead, hk]
      show List.filterMap joinRun (if _ then _ else _) = _
      split
      · rw [List.filterMap_cons_some hjoin]
      · rw [List.filterMap_cons_some (joinRun_singleton t), List.filterMap_cons_some hv]

/-- The first of the joined tokens starts like the first of the tokens. -/
theorem head_squash {ts : List Token} {u : Token} (h : u ∈ (squash ts).head?) :
    ∃ v ∈ ts.head?, v.kind = u.kind ∧ v.start = u.start := by
  cases ts with
  | nil => simp [squash, runs] at h
  | cons t ts =>
    refine ⟨t, rfl, ?_⟩
    rw [squash_cons] at h
    cases hs : squash ts with
    | nil => rw [hs] at h; cases h; exact ⟨rfl, rfl⟩
    | cons v vs =>
      rw [hs, joinHead] at h
      split at h <;> cases h <;> exact ⟨rfl, rfl⟩

/-- One of two neighbours is no text. -/
def Separate (t u : Token) : Prop := ¬ (t.kind = .text ∧ u.kind = .text)

theorem isChain_squash (ts : List Token) : (squash ts).IsChain Separate := by
  induction ts with
  | nil => exact .nil
  | cons t ts ih =>
    rw [squash_cons]
    cases hs : squash ts with
    | nil => exact List.isChain_singleton t
    | cons u us =>
      rw [hs, List.isChain_cons] at ih
      rw [joinHead]
      split
      · next h =>
        refine List.isChain_cons.2 ⟨fun v hv hk => ih.1 v hv ⟨h.2, hk.2⟩, ih.2⟩
      · next h =>
        refine List.isChain_cons.2 ⟨fun v hv => ?_, List.isChain_cons.2 ih⟩
        rw [List.head?_cons, Option.mem_some] at hv
        exact hv ▸ h

/-- The tokens take up an offset. -/
def Covers (ts : List Token) (i : Nat) : Prop := ∃ t ∈ ts, t.start ≤ i ∧ i < t.stop

theorem covers_cons {t : Token} {ts : List Token} {i : Nat} :
    Covers (t :: ts) i ↔ (t.start ≤ i ∧ i < t.stop) ∨ Covers ts i := by
  simp [Covers]

/-- A text joined with the text that it touches. -/
theorem TextAt.join {s : List Char} {t u : Token} (ht : TextAt s t) (hu : TextAt s u)
    (h : t.stop = u.start) :
    TextAt s { t with value := t.value ++ u.value, stop := u.stop } where
  start_lt := by
    have := ht.start_lt
    have := hu.start_lt
    show t.start < u.stop
    omega
  stop_le := hu.stop_le
  value := by
    show (t.value ++ u.value).toList = between s t.start u.stop
    rw [String.toList_append, ht.value, hu.value, ← h]
    exact between_append ht.start_lt.le (by rw [h]; exact hu.start_lt.le)

/-- **Joined texts stand in the template** if the texts touched, and take up the same offsets. -/
theorem squash_placed {s : List Char} {d : Delimiters} {a : Nat} {ts : List Token}
    (h : Placed s d a ts) (hc : ts.IsChain Touching) :
    Placed s d a (squash ts) ∧ ∀ i, Covers (squash ts) i ↔ Covers ts i := by
  induction h with
  | nil d a => exact ⟨.nil d a, fun i => Iff.rfl⟩
  | @text d a t ts hk ha ht _ ih =>
    obtain ⟨htouch, hc⟩ := List.isChain_cons.1 hc
    obtain ⟨hplaced, hcover⟩ := ih hc
    rw [squash_cons]
    cases hs : squash ts with
    | nil =>
      rw [hs] at hplaced hcover
      exact ⟨.text hk ha ht hplaced, fun i => by rw [joinHead, covers_cons, covers_cons, hcover]⟩
    | cons u us =>
      rw [hs] at hplaced hcover
      rw [joinHead]
      split
      · next huk =>
        -- The two texts are one now; they touched, so nothing is between them.
        have hu : u ∈ (squash ts).head? := by rw [hs]; rfl
        obtain ⟨v, hv, hvk, hvs⟩ := head_squash hu
        have hseam : t.stop = u.start := by rw [htouch v hv hk (hvk.trans huk.2), hvs]
        cases hplaced with
        | text _ hle hu hus =>
          refine ⟨.text hk ha (ht.join hu hseam) hus, fun i => ?_⟩
          have := ht.start_lt
          have := hu.start_lt
          rw [covers_cons, covers_cons, ← hcover, covers_cons, ← or_assoc]
          refine or_congr_left ?_
          show t.start ≤ i ∧ i < u.stop ↔ _
          omega
        | tag hk' => exact absurd huk.2 hk'
      · exact ⟨.text hk ha ht hplaced, fun i => by rw [covers_cons, hcover, covers_cons]⟩
  | @tag d e a t ts hk ha ht hd _ ih =>
    obtain ⟨hplaced, hcover⟩ := ih (List.isChain_cons.1 hc).2
    have hjoin : squash (t :: ts) = t :: squash ts := by
      rw [squash_cons]
      cases squash ts with
      | nil => rfl
      | cons u us => rw [joinHead, if_neg fun h => hk h.1]
    rw [hjoin]
    exact ⟨.tag hk ha ht hd hplaced, fun i => by rw [covers_cons, covers_cons, hcover]⟩

/-! ## The tree -/

/-- `Laid s d a ns ts e b`: read from the offset `a` on, where the delimiters `d` are in force, the
nodes `ns` stand in the template, in their order, at every depth. They take up the offsets of the
tokens `ts`, closing tags among them, end at `b` and leave the delimiters `e` in force.

A text is followed by no other text. What a section holds stands between its two tags, and its
closing tag stands where the section says and has the section's name. -/
inductive Laid (s : List Char) :
    Delimiters → Nat → List Node → List Token → Delimiters → Nat → Prop
  | nil (d : Delimiters) (a : Nat) : Laid s d a [] [] d a
  | text {d e : Delimiters} {a b : Nat} {t : Token} {ns : List Node} {ts : List Token} :
      t.kind = .text → a ≤ t.start → TextAt s t →
      (∀ u, ns.head? = some (.leaf u) → u.kind ≠ .text) →
      Laid s d t.stop ns ts e b → Laid s d a (.leaf t :: ns) (t :: ts) e b
  | tag {d e f : Delimiters} {a b : Nat} {t : Token} {ns : List Node} {ts : List Token} :
      t.kind ≠ .text → t.kind.opensSection = false → t.kind ≠ .closeTag → a ≤ t.start →
      TagAt s d t → t.delimiters d = .ok e →
      Laid s e t.stop ns ts f b → Laid s d a (.leaf t :: ns) (t :: ts) f b
  | block {d e f : Delimiters} {a b g : Nat} {t c : Token} {children ns : List Node}
      {us ts : List Token} :
      t.kind.opensSection = true → a ≤ t.start → TagAt s d t →
      Laid s d t.stop children us e b → b ≤ c.start →
      TagAt s e c → c.kind = .closeTag → c.value = t.value →
      Laid s e c.stop ns ts f g →
      Laid s d a (.block t children c.start :: ns) (t :: us ++ c :: ts) f g

theorem delimiters_of_not_delimiterTag {t : Token} (h : t.kind ≠ .delimiterTag) (d : Delimiters) :
    t.delimiters d = .ok d := by
  rw [Token.delimiters, if_neg h]

theorem head?_of_nested {ts : List Token} {u : Token} {ns : List Node}
    (h : Nested ts (.leaf u :: ns)) : ts.head? = some u := by
  cases h
  rfl

theorem laid_of_nested {s : List Char} {us : List Token} {ns : List Node} (h : Nested us ns)
    {d : Delimiters} {a : Nat} {rest : List Token} (hp : Placed s d a (us ++ rest))
    (hc : us.IsChain Separate) :
    ∃ e b, Laid s d a ns us e b ∧ Placed s e b rest := by
  induction h generalizing d a rest with
  | nil => exact ⟨d, a, .nil d a, hp⟩
  | @leaf t ts ns ho hcl hn ih =>
    obtain ⟨hsep, hc⟩ := List.isChain_cons.1 hc
    cases hp with
    | text hk ha ht hts =>
      obtain ⟨e, b, hl, hrest⟩ := ih hts hc
      refine ⟨e, b, .text hk ha ht (fun u hu huk => ?_) hl, hrest⟩
      cases ns with
      | nil => cases hu
      | cons n ns =>
        cases hu
        exact hsep u (head?_of_nested hn) ⟨hk, huk⟩
    | tag hk ha ht hd hts =>
      obtain ⟨e, b, hl, hrest⟩ := ih hts hc
      exact ⟨e, b, .tag hk ho hcl ha ht hd hl, hrest⟩
  | @block t c us ts children ns ho _ hck hv _ ih ih' =>
    rw [List.cons_append, List.isChain_cons, List.isChain_append, List.isChain_cons] at hc
    rw [List.cons_append, List.cons_append, List.append_assoc, List.cons_append] at hp
    have htag : ∀ {k : Token.Kind}, k.opensSection = true → k ≠ .text ∧ k ≠ .delimiterTag := by
      intro k hk
      cases k <;> simp [Token.Kind.opensSection] at hk ⊢
    cases hp with
    | text hk => exact absurd hk (htag ho).1
    | tag hk ha ht hd hts =>
      rw [delimiters_of_not_delimiterTag (htag ho).2] at hd
      cases hd
      obtain ⟨e, b, hl, hrest⟩ := ih hts hc.2.1
      cases hrest with
      | text hk' => rw [hck] at hk'; cases hk'
      | tag _ hb hct hce hafter =>
        rw [delimiters_of_not_delimiterTag (by rw [hck]; decide)] at hce
        cases hce
        obtain ⟨f, g, hl', hrest'⟩ := ih' hafter hc.2.2.1.2
        exact ⟨f, g, .block ho ha ht hl hb hct hck hv hl', hrest'⟩

theorem Placed.start_ge {s : List Char} {d : Delimiters} {a : Nat} {ts : List Token}
    (h : Placed s d a ts) : ∀ t ∈ ts, a ≤ t.start := by
  induction h with
  | nil => simp
  | text _ ha ht _ ih =>
    exact List.forall_mem_cons.2 ⟨ha, fun u hu => (ha.trans ht.start_lt.le).trans (ih u hu)⟩
  | tag _ ha ht _ _ ih =>
    exact List.forall_mem_cons.2 ⟨ha, fun u hu => (ha.trans ht.start_lt.le).trans (ih u hu)⟩

theorem Placed.pairwise {s : List Char} {d : Delimiters} {a : Nat} {ts : List Token}
    (h : Placed s d a ts) : ts.Pairwise fun t u => t.stop ≤ u.start := by
  induction h with
  | nil => exact .nil
  | text _ _ _ hts ih => exact List.pairwise_cons.2 ⟨hts.start_ge, ih⟩
  | tag _ _ _ _ hts ih => exact List.pairwise_cons.2 ⟨hts.start_ge, ih⟩

/-! ## Nothing is lost -/

theorem Tiles.covers {d : Delimiters} {r : List Char} {p : Nat} {ts : List Token}
    (h : Tiles d r p ts) {i : Nat} (hp : p ≤ i) (hi : i < p + r.length) : Covers ts i := by
  induction h with
  | nil => simp at hi; omega
  | @text d c r p ts _ _ ih =>
    rw [covers_cons]
    by_cases hip : i = p
    · left
      show p ≤ i ∧ i < p + 1
      omega
    · exact Or.inr (ih (by omega) (by rw [List.length_cons] at hi; omega))
  | @tag d e r p tag ts _ _ _ _ ih =>
    rw [covers_cons]
    by_cases hip : i < p + tag.length
    · exact Or.inl ⟨hp, hip⟩
    · exact Or.inr (ih (by omega) (by rw [List.length_drop]; omega))

theorem Tiles.eq_ofChar {d : Delimiters} {s r : List Char} {p : Nat} {ts : List Token}
    (h : Tiles d r p ts) (hr : s.drop p = r) {t : Token} (ht : t ∈ ts) (hk : t.kind = .text) :
    ∃ c, s[t.start]? = some c ∧ t = Token.ofChar c t.start := by
  induction h with
  | nil => cases ht
  | @text d c r p ts _ _ ih =>
    rcases List.mem_cons.1 ht with rfl | ht
    · refine ⟨c, ?_, rfl⟩
      show s[p]? = some c
      rw [← List.head?_drop, hr]
      rfl
    · refine ih ?_ ht
      rw [← List.drop_drop, hr]
      rfl
  | @tag d e r p tag ts _ hread _ _ ih =>
    rcases List.mem_cons.1 ht with rfl | ht
    · exact absurd hk (Tag.kind_ne_text hread)
    · refine ih ?_ ht
      rw [← List.drop_drop, hr]

theorem mem_itemsAt {α : Type} {p : Nat → Prop} [DecidablePred p] {l : List α} {a : α} :
    a ∈ itemsAt p l ↔ ∃ k, l[k]? = some a ∧ p k := by
  simp only [itemsAt, List.mem_map, List.mem_filter, decide_eq_true_eq, Prod.exists,
    List.mem_zipIdx_iff_getElem?]
  constructor
  · rintro ⟨b, k, ⟨hb, hk⟩, rfl⟩
    exact ⟨k, hb, hk⟩
  · rintro ⟨k, hk, hp⟩
    exact ⟨a, k, ⟨hk, hp⟩, rfl⟩

/-- A character that tiles a template and is not taken up by what is left of it was dropped. -/
theorem Tiles.dropped_of_not_covers {d : Delimiters} {s : List Char} {us : List Token}
    (h : Tiles d s 0 us) {i : Nat} {c : Char} (hi : s[i]? = some c)
    (hnot : ¬ Covers (strip us) i) :
    Text.isBlank c = true ∧ ∃ k, us[k]? = some (Token.ofChar c i) ∧ Dropped us k := by
  obtain ⟨hlen, -⟩ := List.getElem?_eq_some_iff.1 hi
  obtain ⟨t, ht, hti⟩ := h.covers (Nat.zero_le i) (by omega)
  obtain ⟨k, hk, hkt⟩ := List.getElem_of_mem ht
  have hget : us[k]? = some t := by rw [List.getElem?_eq_getElem hk, hkt]
  have hdropped : Dropped us k := by
    by_contra hd
    refine hnot ⟨t, ?_, hti⟩
    rw [strip_eq_itemsAt]
    exact mem_itemsAt.2 ⟨k, hget, hd⟩
  obtain ⟨u, hu, huk, hub⟩ := hdropped.1
  rw [hget, Option.mem_some] at hu
  subst hu
  obtain ⟨e, he, hte⟩ := h.eq_ofChar List.drop_zero ht huk
  -- The token is one character long, so it is the character at the offset.
  have hstart : t.start = i := by
    have hstop : t.stop = t.start + 1 := by rw [hte]; rfl
    omega
  rw [hstart, hi] at he
  cases he
  refine ⟨?_, k, by rw [hget, ← hstart, ← hte], hdropped⟩
  rw [hte] at hub
  simpa [Token.isBlank, Token.ofChar] using hub

theorem exists_pieces_of_parse {d : Delimiters} {template : String} {ns : List Node}
    (h : parse d template = .ok ns) :
    ∃ ts, pieces d template = .ok ts ∧ Node.nest (squash ts) = .ok ns := by
  rw [parse, tokens] at h
  cases hp : pieces d template with
  | error e => rw [hp] at h; cases h
  | ok ts => rw [hp] at h; exact ⟨ts, rfl, h⟩

theorem parse_eq (d : Delimiters) (template : String) :
    parse d template = scan d 0 0 template.toList >>= fun us => Node.nest (squash (strip us)) := by
  rw [parse, tokens, pieces, show sweep = strip from funext sweep_eq_strip]
  cases scan d 0 0 template.toList <;> rfl

theorem parse_eq_ok_iff {d : Delimiters} {template : String} {ns : List Node} :
    parse d template = .ok ns ↔
      ∃ us, Tiles d template.toList 0 us ∧ Nested (squash (strip us)) ns := by
  rw [parse_eq]
  simp only [← scan_eq_ok_iff, ← Node.nest_eq_ok_iff]
  constructor
  · intro h
    cases hus : scan d 0 0 template.toList with
    | error e => rw [hus] at h; cases h
    | ok us => rw [hus] at h; exact ⟨us, rfl, h⟩
  · rintro ⟨us, hus, h⟩
    rw [hus]
    exact h

/-- The nodes account for the whole template, read with the delimiters `d`. They stand in it at
every depth; texts, tags and closing tags do not overlap; and at an offset that none of them takes
up there is a blank character that was dropped, which means that its line had a tag that orders the
template. -/
def AccountsFor (d : Delimiters) (s : List Char) (ns : List Node) : Prop :=
  ∃ ts e b, Laid s d 0 ns ts e b ∧ (ts.Pairwise fun t u => t.stop ≤ u.start) ∧
    ∀ i c, s[i]? = some c → ¬ Covers ts i →
      Text.isBlank c = true ∧
        ∃ us k, Tiles d s 0 us ∧ us[k]? = some (Token.ofChar c i) ∧ Dropped us k

/-- **Offsets are faithful and nothing is lost.** -/
theorem parse_accountsFor {d : Delimiters} {template : String} {ns : List Node}
    (h : parse d template = .ok ns) : AccountsFor d template.toList ns := by
  obtain ⟨ts, hts, hnest⟩ := exists_pieces_of_parse h
  obtain ⟨us, hus, rfl⟩ := pieces_eq_ok_iff_strip.1 hts
  have hplaced : Placed template.toList d 0 (strip us) :=
    (hus.placed List.drop_zero).dropsTexts (dropsTexts_strip us)
  obtain ⟨hsquash, hcover⟩ := squash_placed hplaced (isChain_strip hus.isChain)
  have hpairwise := hsquash.pairwise
  rw [← List.append_nil (squash (strip us))] at hsquash
  obtain ⟨e, b, hlaid, -⟩ :=
    laid_of_nested (Node.nest_eq_ok_iff.1 hnest) hsquash (isChain_squash (strip us))
  refine ⟨_, e, b, hlaid, hpairwise, fun i c hi hnot => ?_⟩
  obtain ⟨hblank, k, hk, hd⟩ := hus.dropped_of_not_covers hi (mt (hcover i).2 hnot)
  exact ⟨hblank, us, k, hus, hk, hd⟩

theorem parse_accountsFor_delimiterSwitch :
    AccountsFor .braces
      "\x7b\x7b#a\x7d\x7d\n x\x7b\x7b=<% %>=\x7d\x7d\n<%b%> <%/a%>\n".toList
      [.block ⟨.sectionTag, "a", 0, 6⟩
        [.leaf ⟨.text, " x", 7, 9⟩, .leaf ⟨.delimiterTag, "<% %>", 9, 20⟩,
          .leaf ⟨.text, "\n", 20, 21⟩, .leaf ⟨.nameTag, "b", 21, 26⟩,
          .leaf ⟨.text, " ", 26, 27⟩] 27,
        .leaf ⟨.text, "\n", 33, 34⟩] :=
  parse_accountsFor (by with_unfolding_all rfl)

end Template

end Mustache
