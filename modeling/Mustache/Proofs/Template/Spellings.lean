import Mustache.Proofs.Template.Contents
import Mustache.Proofs.Template.Enclosing

/-!
# Three ways to name delimiters

Delimiters are named by a text of two words, by a sequence of two texts, or by a tag of the template
itself. Which texts and sequences name any is said here without the reader's words (`Spec.Names`).
Where two words can be written in all three ways, these agree: the template is read into the same
tree or has the same fault, except that what follows a tag stands further back by the line of the
tag.

**Idea.** The blank characters around the words are lost in each way: the words of a text are the
same without them, and a tag passes over them before its value and before its second equals sign
(`Spelling.FitsTag.read?_written`). The end of the tag's line is dropped, since the line shows
nothing, so that only the tag's token is left in front of what follows (`strip_line`).

Main statement: `Template.parseWith_spellings`.
-/

namespace Mustache

open Text

/-! ## What names delimiters -/

namespace Delimiters

/-- `Names spec o c`: what is given names the delimiters `o` and `c`. -/
inductive Spec.Names : Spec → String → String → Prop
  | text {s o c : String} : IsPair o.toList c.toList s.toList → o ≠ c → Names (.text s) o c
  | items {o c : String} : o ≠ "" → c ≠ "" → o ≠ c → Names (.items [.str o, .str c]) o c

/-- What is given, piece by piece: the pieces of a text that are left when it is cut at its blank
characters, one that is empty if there are no others, or the items of a sequence. -/
def Spec.pieces : Spec → List Value
  | text s =>
    if AllBlank s.toList then [.str ""]
    else ((s.toList.splitOnP isBlank).filter (· != [])).map fun w => .str (String.ofList w)
  | items vs => vs

theorem Spec.given_eq_pieces (spec : Spec) : spec.given = spec.pieces := by
  cases spec with
  | items vs => rfl
  | text s =>
    rw [given, pieces, wordItems, ← words_eq_filter]
    split
    · next h => rw [if_pos (allBlank_of_words_eq_nil h)]
    · next h =>
      have hblank : ¬ AllBlank s.toList := fun hblank => h hblank.words_eq_nil
      rw [if_neg hblank]

/-- Two texts that are named are neither empty nor the same. -/
def Spec.Names.toDelimiters {spec : Spec} {o c : String} (h : spec.Names o c) : Delimiters where
  opening := o.toList
  closing := c.toList
  opening_ne_nil := by
    cases h with
    | text hpair => exact hpair.isWord_left.ne_nil
    | items ho => simpa using ho
  closing_ne_nil := by
    cases h with
    | text hpair => exact hpair.isWord_right.ne_nil
    | items _ hc => simpa using hc
  distinct := by
    cases h with
    | text _ hne => exact fun heq => hne (String.toList_injective heq)
    | items _ _ hne => exact fun heq => hne (String.toList_injective heq)

/-- **What names delimiters is accepted,** and these are meant. -/
theorem Spec.Names.delimiters_eq {spec : Spec} {o c : String} (h : spec.Names o c) :
    spec.delimiters = .ok h.toDelimiters := by
  cases h with
  | text hpair => exact ofText_eq_ok_iff.2 hpair
  | @items o c =>
    rw [Spec.delimiters, ofItems_eq_ok_iff]
    simp [values, toDelimiters]

/-- Nothing else is accepted. -/
theorem Spec.names_of_delimiters {spec : Spec} {d : Delimiters} (h : spec.delimiters = .ok d) :
    spec.Names (String.ofList d.opening) (String.ofList d.closing) := by
  have hne : String.ofList d.opening ≠ String.ofList d.closing :=
    fun heq => d.distinct (String.ofList_injective heq)
  cases spec with
  | text s => exact .text (by simpa using ofText_eq_ok_iff.1 h) hne
  | items vs =>
    obtain rfl := ofItems_eq_ok_iff.1 h
    exact .items (by simpa using d.opening_ne_nil) (by simpa using d.closing_ne_nil) hne

/-- What names no delimiters is told as it was given. -/
theorem Spec.delimiters_of_not_names {spec : Spec} (h : ∀ o c, ¬ spec.Names o c) :
    spec.delimiters = .error (.malformedDelimiters spec.pieces) := by
  rw [Spec.delimiters_eq, ← given_eq_pieces]
  rcases ofItems_cases spec.given with ⟨d, -, hd⟩ | ⟨-, hd⟩
  · rw [← Spec.delimiters_eq] at hd
    exact absurd (names_of_delimiters hd) (h _ _)
  · exact hd

end Delimiters

/-! ## Two words, as they may be written -/

/-- Two words that are not the same, and the blank characters that are written before, between and
after them. -/
structure Spelling where
  opening : String
  closing : String
  before : String
  between : String
  after : String
  isWord_opening : IsWord opening.toList
  isWord_closing : IsWord closing.toList
  distinct : opening ≠ closing
  blank_before : AllBlank before.toList
  blank_between : AllBlank between.toList
  between_ne_empty : between ≠ ""
  blank_after : AllBlank after.toList

namespace Spelling

variable (p : Spelling)

/-- The delimiters that are spelled. -/
def delimiters : Delimiters where
  opening := p.opening.toList
  closing := p.closing.toList
  opening_ne_nil := p.isWord_opening.ne_nil
  closing_ne_nil := p.isWord_closing.ne_nil
  distinct h := p.distinct (String.toList_injective h)

/-- The words, without the blank characters around them. -/
def core : String := p.opening ++ p.between ++ p.closing

/-- The words as a text. -/
def text : String := p.before ++ p.core ++ p.after

/-- The words as a sequence. -/
def items : List Value := [.str p.opening, .str p.closing]

/-- The words in a tag between braces. -/
def written : String := "\x7b\x7b=" ++ p.text ++ "=\x7d\x7d"

/-- The tag on a line of its own. -/
def line : String := p.written ++ "\n"

theorem isPair_core : IsPair p.opening.toList p.closing.toList p.core.toList := by
  have hpair : IsPair p.opening.toList p.closing.toList
      ([] ++ (p.opening.toList ++ (p.between.toList ++ (p.closing.toList ++ [])))) :=
    .mk (List.forall_mem_nil _) p.blank_between (List.forall_mem_nil _)
      (by simpa using p.between_ne_empty) p.isWord_opening p.isWord_closing
  simpa [core] using hpair

theorem isPair_text : IsPair p.opening.toList p.closing.toList p.text.toList := by
  have hpair := IsPair.mk p.blank_before p.blank_between p.blank_after
    (by simpa using p.between_ne_empty) p.isWord_opening p.isWord_closing
  simpa [text, core] using hpair

theorem delimiters_text : (Delimiters.Spec.text p.text).delimiters = .ok p.delimiters :=
  Delimiters.ofText_eq_ok_iff.2 p.isPair_text

theorem delimiters_items : (Delimiters.Spec.items p.items).delimiters = .ok p.delimiters :=
  Delimiters.ofItems_eq_ok_iff.2 (show p.items = p.delimiters.values by
    simp [items, Delimiters.values, delimiters])

theorem solid_core : Solid p.core.toList := by
  intro c hc
  rw [core, String.toList_append, String.toList_append, List.append_assoc,
    List.head?_append_of_ne_nil _ p.isWord_opening.ne_nil] at hc
  exact p.isWord_opening.solid c (List.mem_of_mem_head? hc)

theorem isBlank_last_core : ∀ c ∈ p.core.toList.getLast?, isBlank c = false := by
  intro c hc
  rw [core, String.toList_append, List.getLast?_append_of_ne_nil _ p.isWord_closing.ne_nil] at hc
  exact p.isWord_closing.solid c (List.mem_of_mem_getLast? hc)

/-- There is no equals sign in the words, so that a tag can hold them. -/
def FitsTag : Prop := '=' ∉ p.opening.toList ∧ '=' ∉ p.closing.toList

variable {p}

theorem FitsTag.not_mem_core (h : p.FitsTag) : '=' ∉ p.core.toList := by
  have hbetween : '=' ∉ p.between.toList := fun hmem => by
    have hblank := p.blank_between _ hmem
    cases hblank
  simp [core, h.1, h.2, hbetween]

/-! ## The tag -/

/-- The tag that names the delimiters. -/
def tag (p : Spelling) : Tag := ⟨.delimiterTag, p.core.toList, p.written.length⟩

theorem length_written (p : Spelling) :
    p.written.length = p.before.length + p.core.length + p.after.length + 6 := by
  have hopening : "\x7b\x7b=".length = 3 := rfl
  have hclosing : "=\x7d\x7d".length = 3 := rfl
  simp only [written, text, String.length_append, hopening, hclosing]
  omega

theorem length_line (p : Spelling) : p.line.length = p.written.length + 1 := by
  rw [line, String.length_append]
  rfl

theorem toList_written (p : Spelling) (rest : List Char) :
    p.written.toList ++ rest = Delimiters.braces.opening ++ ([] ++ '=' :: (p.before.toList ++
      (p.core.toList ++ (p.after.toList ++ '=' :: (Delimiters.braces.closing ++ rest))))) := by
  simp [written, text, Delimiters.braces]

/-- The tag is read without the blank characters around the words. -/
theorem FitsTag.read?_written (h : p.FitsTag) (rest : List Char) :
    Tag.read? .braces (p.written.toList ++ rest) = some p.tag := by
  have hsolid : Solid (p.core.toList ++ (p.after.toList ++
      '=' :: (Delimiters.braces.closing ++ rest))) := by
    intro c hc
    rw [List.head?_append_of_ne_nil] at hc
    · exact p.solid_core c hc
    · simp [core, p.isWord_opening.ne_nil]
  have hbegins := Tag.Begins.signed (d := .braces) (List.forall_mem_nil _)
    (by decide : '=' ∈ sigils) p.blank_before hsolid
  rw [← toList_written] at hbegins
  obtain ⟨hsigil, hbody⟩ := hbegins.lead
  have hlead : (Tag.lead .braces (p.written.toList ++ rest)).2 = p.before.length + 3 := by
    have hlength := congrArg List.length hbody
    simp only [List.length_drop, List.length_append, List.length_cons, String.length_toList,
      length_written, show Delimiters.braces.closing.length = 2 from rfl] at hlength
    omega
  have hfinds : (Pattern.blanksThen ['=']).Finds (p.core.toList ++ (p.after.toList ++
      '=' :: (Delimiters.braces.closing ++ rest))) _ _ :=
    Tag.finds_equals p.blank_after p.isBlank_last_core h.not_mem_core
  have hclosing : Delimiters.braces.stop.Finds (Delimiters.braces.closing ++ rest) 0 2 :=
    @Pattern.finds_blanksThen _ rest [] [] (List.forall_mem_nil _)
      (by simp [Solid, Delimiters.braces, isBlank]) (by decide) (by simp) (by simp)
  have hcloses : Tag.Closes .braces (some '=') _ _ _ :=
    .signed rfl hfinds hfinds.here (by rw [Tag.drop_equals]; exact hclosing)
  refine Tag.read?_eq_some_iff.2 ⟨_, _, by rw [hsigil, hbody]; exact hcloses, ?_⟩
  rw [hsigil, hbody, hlead, List.take_left, tag, length_written]
  simp only [Tag.mk.injEq, String.length_toList]
  exact ⟨rfl, trivial, by omega⟩

theorem delimiters_tag (p : Spelling) (d : Delimiters) : p.tag.delimiters d = .ok p.delimiters :=
  Delimiters.ofText_eq_ok_iff.2 p.isPair_core

end Spelling

/-! ## Templates -/

namespace Template

open Token (shift)

variable {p : Spelling}

/-- The line of the tag is scanned into the tag and the end of the line, and what follows it with
the delimiters that the tag names. -/
theorem scan_line (h : p.FitsTag) (rest : List Char) :
    scan .braces 0 0 (p.line.toList ++ rest) =
      ((scan p.delimiters 0 0 rest).map fun us =>
        p.tag.token 0 :: Token.ofChar '\n' p.written.length ::
          us.map (shift p.line.length)).mapError (·.shift p.line.length) := by
  have hnot : ¬ p.delimiters.opening <+: '\n' :: rest := by
    intro hprefix
    obtain ⟨c, w, hc⟩ := List.exists_cons_of_ne_nil p.isWord_opening.ne_nil
    rw [show p.delimiters.opening = p.opening.toList from rfl, hc] at hprefix
    obtain rfl := (List.cons_prefix_cons.1 hprefix).1
    have hsolid := p.isWord_opening.solid '\n' (by simp [hc])
    rw [isBlank_newline] at hsolid
    cases hsolid
  have hline : p.line.toList ++ rest = p.written.toList ++ '\n' :: rest := by simp [Spelling.line]
  have hlength : p.tag.length = p.written.toList.length := String.length_toList.symm
  rw [hline, scan_tag (by rw [Spelling.toList_written]; exact List.prefix_append _ _)
    (h.read?_written _), p.delimiters_tag, hlength, List.drop_left]
  show Except.map _ (scan _ _ 0 _) = _
  have hshift := scan_shift p.delimiters 0 p.line.length 0 rest
  rw [Nat.zero_add] at hshift
  rw [scan_text hnot, Nat.zero_add, String.length_toList, ← p.length_line, hshift]
  cases scan p.delimiters 0 0 rest <;> rfl

/-- The end of the line is dropped, since the line shows nothing. -/
theorem strip_line (p : Spelling) (n : Nat) (us : List Token) :
    strip (p.tag.token 0 :: Token.ofChar '\n' n :: us) = p.tag.token 0 :: strip us := by
  have hopen : ∀ t ∈ [p.tag.token 0], t.endsLine = false := by
    simp [Token.endsLine, Tag.token, Spelling.tag]
  have hend : (Token.ofChar '\n' n).endsLine = true := by simp [Token.endsLine, Token.ofChar]
  have hline : stripLine ([p.tag.token 0] ++ [Token.ofChar '\n' n]) = [p.tag.token 0] := by
    simp [stripLine, isStandalone, Token.isVisible, Token.isBlank, Token.ofChar, Tag.token,
      Spelling.tag, Token.Kind.isStructural, isBlank_newline]
  rw [← List.singleton_append, strip_append hopen hend, hline, List.singleton_append]

/-- **The line of a tag that names delimiters,** in front of a template. -/
theorem parse_line (h : p.FitsTag) (template : String) :
    parse .braces (p.line ++ template) =
      ((parse p.delimiters template).map fun ns =>
        .leaf (p.tag.token 0) :: Node.shiftAll p.line.length ns).mapError
          (·.shift p.line.length) := by
  have hone : Node.Nested [p.tag.token 0] [.leaf (p.tag.token 0)] :=
    .leaf rfl (by simp [Spelling.tag, Tag.token]) .nil
  rw [parse_eq, parse_eq, String.toList_append, scan_line h]
  cases scan p.delimiters 0 0 template.toList with
  | error x => rfl
  | ok us =>
    show Node.nest (squash (strip _)) = _
    rw [strip_line, squash_cons_of_tag (by simp [Spelling.tag, Tag.token]), strip_shift,
      squash_shift, ← List.singleton_append, hone.nest_append, Node.nest_shift]
    show _ = Except.mapError _ (Except.map _ (Node.nest (squash (strip us))))
    cases Node.nest (squash (strip us)) <;> rfl

/-- **The ways to name delimiters.** A text or a sequence is accepted if and only if it names
delimiters, and else it is told piece by piece. A template is read the same with two words as a
text, whatever blank characters are around them, and as a sequence. It is also read the same behind
a line with a tag that holds the words, with the tag in front of its tree and all its offsets moved
by the length of the line. -/
theorem parseWith_spellings (spec : Delimiters.Spec) (p : Spelling) (template : String) :
    (∀ o c, (∃ d, spec.delimiters = .ok d ∧ d.opening = o.toList ∧ d.closing = c.toList) ↔
      spec.Names o c) ∧
    ((∀ o c, ¬ spec.Names o c) →
      parseWith spec template = .error (.malformedDelimiters spec.pieces)) ∧
    parseWith (.text p.text) template = parseWith (.items p.items) template ∧
    (p.FitsTag → parseWith .braces (p.line ++ template) =
      ((parseWith (.items p.items) template).map fun ns =>
        .leaf ⟨.delimiterTag, p.core, 0, p.written.length⟩ ::
          Node.shiftAll p.line.length ns).mapError (·.shift p.line.length)) := by
  refine ⟨fun o c => ⟨?_, fun h => ⟨_, h.delimiters_eq, rfl, rfl⟩⟩, fun h => ?_, ?_, fun h => ?_⟩
  · rintro ⟨d, hd, ho, hc⟩
    have hnames := Delimiters.Spec.names_of_delimiters hd
    rwa [ho, hc, String.ofList_toList, String.ofList_toList] at hnames
  · rw [parseWith, Delimiters.Spec.delimiters_of_not_names h]
    rfl
  · rw [parseWith, parseWith, p.delimiters_text, p.delimiters_items]
  · rw [parseWith, parseWith, Delimiters.delimiters_braces, p.delimiters_items]
    show parse .braces _ = Except.mapError _ (Except.map _ (parse p.delimiters template))
    rw [parse_line h]
    simp [Spelling.tag, Tag.token]

/-- Three braces on either side, with blank characters of several kinds around them. -/
def threeBraces : Spelling where
  opening := "\x7b\x7b\x7b"
  closing := "\x7d\x7d\x7d"
  before := " "
  between := "\t\n"
  after := ""
  isWord_opening := by decide +kernel
  isWord_closing := by decide +kernel
  distinct := by decide
  blank_before := by decide +kernel
  blank_between := by decide +kernel
  between_ne_empty := by decide
  blank_after := by decide +kernel

/-- One word alone names no delimiters; with two, which hold the braces that are in force, a tag
agrees with a sequence. -/
theorem parseWith_spellings_threeBraces :
    let template := "\x7b\x7b\x7ba\x7d\x7d\x7d\x7b\x7b\x7b#b\x7d\x7d"
    parseWith (.text " <% ") template = .error (.malformedDelimiters [.str "<%"]) ∧
    parseWith (.text threeBraces.text) template = parseWith (.items threeBraces.items) template ∧
    parseWith .braces (threeBraces.line ++ template) =
      ((parseWith (.items threeBraces.items) template).map fun ns =>
        .leaf ⟨.delimiterTag, threeBraces.core, 0, threeBraces.written.length⟩ ::
          Node.shiftAll threeBraces.line.length ns).mapError (·.shift threeBraces.line.length) := by
  intro template
  obtain ⟨-, hfault, htext, htag⟩ := parseWith_spellings (.text " <% ") threeBraces template
  have hone : words " <% ".toList = [['<', '%']] := by decide +kernel
  have hnames : ∀ o c, ¬ (Delimiters.Spec.text " <% ").Names o c := by
    rintro o c ⟨hpair, -⟩
    have hwords := words_eq_pair_iff.2 hpair
    rw [hone] at hwords
    exact absurd (congrArg List.length hwords) (by simp)
  have hpieces : (Delimiters.Spec.text " <% ").pieces = [.str "<%"] := by
    rw [← Delimiters.Spec.given_eq_pieces, Delimiters.Spec.given, Delimiters.wordItems, hone]
    rfl
  exact ⟨hpieces ▸ hfault hnames, htext, htag ⟨by decide, by decide⟩⟩

end Template

end Mustache
