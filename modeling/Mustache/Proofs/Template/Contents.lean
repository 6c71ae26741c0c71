import Mustache.Proofs.Template.Faults

/-!
# What tags hold

The value of a tag has no blank characters at its ends, although nothing ever takes them off, and it
is free of the word that ends it. This holds of every tag of a template, whatever its delimiters
are, also if these have blank characters themselves.

**Idea.** Blank characters are passed over before a value begins. A value ends where a word is first
found, or blank characters and then the word. Behind a blank character the word would be found one
character earlier (`Finds.isBlank_last`), and where the word stands it is found (`Finds.not_infix`).
Each tag is read with the delimiters that the tags before it leave in force, also among the tokens
that are left when blank texts are dropped and texts are joined (`Placed.tagAt`).

Main statement: `Template.values_normal`.
-/

namespace Mustache

open Text

/-! ## What stands before a first match -/

namespace Pattern

variable {word s : List Char} {k n : Nat}

/-- What stands before the first match does not hold blank characters and then the word. -/
theorem Finds.not_prefix {w : List Char} {j : Nat} (h : (blanksThen word).Finds s k n)
    (hw : AllBlank w) (hj : j < k) : ¬ w ++ word <+: s.drop j := by
  intro hp
  have hmatch : (blanksThenLength? word (s.drop j)).isSome :=
    isSome_blanksThenLength?.2 ⟨w, hw, hp⟩
  have hnone : blanksThenLength? word (s.drop j) = none := h.before j hj
  rw [hnone] at hmatch
  cases hmatch

theorem drop_of_take_eq {front back : List Char} (h : s.take k = front ++ back) :
    s.drop front.length = back ++ s.drop k := by
  have hs : s = front ++ (back ++ s.drop k) := by
    rw [← List.append_assoc, ← h, List.take_append_drop]
  conv_lhs => rw [hs, List.drop_left]

/-- What stands before the first match of a word does not hold the word. -/
theorem Finds.not_infix (hne : word ≠ []) (h : (blanksThen word).Finds s k n) :
    ¬ word <:+: s.take k := by
  rintro ⟨front, back, hcut⟩
  have hlt : front.length < k := by
    have hlength := congrArg List.length hcut
    have hword := List.length_pos_iff.2 hne
    simp only [List.length_append, List.length_take] at hlength
    omega
  have hdrop : s.drop front.length = word ++ (back ++ s.drop k) := by
    rw [drop_of_take_eq (hcut.symm.trans (List.append_assoc _ _ _)), List.append_assoc]
  exact h.not_prefix (List.forall_mem_nil _) hlt (hdrop ▸ List.prefix_append _ _)

/-- What stands before the first match of a word does not end with a blank character. -/
theorem Finds.isBlank_last (h : (blanksThen word).Finds s k n) :
    ∀ c ∈ (s.take k).getLast?, isBlank c = false := by
  intro c hc
  by_contra hblank
  rw [Bool.not_eq_false] at hblank
  obtain ⟨front, hfront⟩ := List.getLast?_eq_some_iff.1 hc
  have hlt : front.length < k := by
    have hlength := congrArg List.length hfront
    simp only [List.length_take, List.length_append, List.length_singleton] at hlength
    omega
  -- The blank character and those behind it would be passed over just as well.
  obtain ⟨w, hw, hp, -⟩ := blanksThenLength?_eq_some h.here
  refine h.not_prefix (List.forall_mem_cons.2 ⟨hblank, hw⟩) hlt ?_
  rw [drop_of_take_eq hfront]
  exact List.cons_prefix_cons.2 ⟨rfl, hp⟩

end Pattern

/-! ## Single tags -/

namespace Tag

variable {d e : Delimiters} {s body value : List Char} {sigil : Option Char} {tag : Tag}

/-- The word that ends the value of a tag: its own sign if it is to set the delimiters, and else the
closing delimiter, with a brace in front of it if the tag started with one. -/
def ending (d : Delimiters) : Option Char → List Char
  | some '=' => ['=']
  | some '{' => '}' :: d.closing
  | _ => d.closing

/-- What is true of the value of a tag with a sigil, where the delimiters `d` are in force. -/
structure Normal (d : Delimiters) (sigil : Option Char) (value : List Char) : Prop where
  first : ∀ c ∈ value.head?, isBlank c = false
  last : ∀ c ∈ value.getLast?, isBlank c = false
  free : ¬ ending d sigil <:+: value
  pair : sigil = some '=' → ∃ o c, o ≠ c ∧ IsPair o c value

theorem ending_ne_nil (d : Delimiters) (sigil : Option Char) : ending d sigil ≠ [] := by
  unfold ending
  split
  · exact List.cons_ne_nil _ _
  · exact List.cons_ne_nil _ _
  · exact d.closing_ne_nil

theorem ending_of_plain (h : signs d sigil = none) : ending d sigil = d.closing := by
  unfold ending
  split
  · cases h
  · cases h
  · rfl

theorem ending_of_signed {sign : List Char} (h : signs d sigil = some (value, sign)) :
    ending d sigil = value := by
  unfold signs at h
  split at h <;> cases h <;> rfl

/-- The value of a tag ends where the word that ends it is first found. -/
theorem Closes.finds_ending {k n : Nat} (h : Closes d sigil s k n) :
    ∃ l, (Pattern.blanksThen (ending d sigil)).Finds s k l := by
  cases h with
  | @plain _ l hs hf => exact ⟨l, by rw [ending_of_plain hs]; exact hf⟩
  | signed hs hv => exact ⟨_, ending_of_signed hs ▸ hv⟩

theorem Begins.solid (h : Begins d s sigil body) : Solid body := by
  cases h with
  | plain _ hbody => exact hbody
  | signed _ _ _ hbody => exact hbody

/-- **The value of a tag is normal,** if the tag names delimiters where it is to set them. -/
theorem normal_of_read? (ho : d.opening <+: s) (hread : Tag.read? d s = some tag)
    (hd : tag.delimiters d = .ok e) :
    ∃ sigil body, Begins d s sigil body ∧ tag.kind = Token.Kind.ofSigil sigil ∧
      tag.value <+: body ∧ Normal d sigil tag.value := by
  obtain ⟨sigil, body, hbegins⟩ := exists_begins ho
  obtain ⟨hsigil, hbody⟩ := hbegins.lead
  obtain ⟨k, n, hcloses, rfl⟩ := read?_eq_some_iff.1 hread
  rw [hsigil, hbody] at hcloses hd ⊢
  obtain ⟨l, hfinds⟩ := hcloses.finds_ending
  refine ⟨sigil, body, hbegins, rfl, List.take_prefix _ _, ?_, ?_, ?_, fun hequals => ?_⟩
  · intro c hc
    cases k with
    | zero => cases hc
    | succ k => exact hbegins.solid c (by rwa [List.head?_take, if_neg (Nat.succ_ne_zero k)] at hc)
  · exact hfinds.isBlank_last
  · exact hfinds.not_infix (ending_ne_nil d sigil)
  · rw [Tag.delimiters, if_pos (ofSigil_eq_delimiterTag_iff.2 hequals),
      Delimiters.ofText_eq_ok_iff] at hd
    exact ⟨_, _, e.distinct, hd⟩

end Tag

/-! ## Whole templates -/

namespace Node

theorem Nested.token_mem {ts : List Token} {ns : List Node} (h : Nested ts ns) {n : Node}
    (hn : n ∈ preorder ns) : n.token ∈ ts := by
  have hmem := List.mem_map_of_mem (f := Node.token) hn
  rw [h.map_token_preorder] at hmem
  exact (List.mem_filter.1 hmem).1

end Node

namespace Template

open Node (Nested)

variable {d : Delimiters} {s : List Char} {a : Nat} {t : Token} {before after : List Token}
  {template : String} {ns : List Node}

/-- A tag among tokens that stand in a template was read with the delimiters that those before it
leave in force, and what it makes of them are delimiters again. -/
theorem Placed.tagAt (h : Placed s d a (before ++ t :: after)) (ht : t.kind ≠ .text) :
    ∃ e f, inForce d before = .ok e ∧ TagAt s e t ∧ t.delimiters e = .ok f := by
  induction before generalizing d a with
  | nil =>
    cases h with
    | text hk => exact absurd hk ht
    | tag _ _ hat hd => exact ⟨d, _, rfl, hat, hd⟩
  | cons u before ih =>
    cases h with
    | text hk _ _ hrest =>
      rw [inForce_cons (delimiters_of_not_delimiterTag (by simp [hk]) d)]
      exact ih hrest
    | tag _ _ _ hd hrest =>
      rw [inForce_cons hd]
      exact ih hrest

/-- The tokens that a tree was nested from stand in the template. -/
theorem exists_placed_of_parse (h : parse d template = .ok ns) :
    ∃ ts, tokens d template = .ok ts ∧ Nested ts ns ∧ Placed template.toList d 0 ts := by
  obtain ⟨ts, hts, hnest⟩ := exists_pieces_of_parse h
  refine ⟨squash ts, by rw [tokens, hts]; rfl, Node.nest_eq_ok_iff.1 hnest, ?_⟩
  obtain ⟨us, hus, rfl⟩ := pieces_eq_ok_iff_strip.1 hts
  exact (squash_placed ((hus.placed List.drop_zero).dropsTexts (dropsTexts_strip us))
    (isChain_strip hus.isChain)).1

/-- **The values of tags are normal.** Of a template that is read into a tree, every tag, closing
tags among them, has a value without blank characters at its ends, which does not hold the word that
ends it: the closing delimiter in force where the tag stands, with a brace in front of it if the tag
was written with one, or an equals sign if the tag sets the delimiters, and then the value consists
of two words that are not the same. -/
theorem values_normal {spec : Delimiters.Spec} (h : parseWith spec template = .ok ns) :
    ∃ d ts, spec.delimiters = .ok d ∧ tokens d template = .ok ts ∧
      (∀ n ∈ Node.preorder ns, n.token ∈ ts) ∧
      ∀ before t after, ts = before ++ t :: after → t.kind ≠ .text →
        ∃ e sigil body, inForce d before = .ok e ∧
          Tag.Begins e (template.toList.drop t.start) sigil body ∧
          t.kind = Token.Kind.ofSigil sigil ∧ t.value.toList <+: body ∧
          Tag.Normal e sigil t.value.toList := by
  rw [parseWith] at h
  cases hd : spec.delimiters with
  | error x =>
    rw [hd] at h
    cases h
  | ok d =>
    rw [hd] at h
    obtain ⟨ts, hts, hnested, hplaced⟩ := exists_placed_of_parse h
    refine ⟨d, ts, rfl, hts, fun n hn => hnested.token_mem hn,
      fun before t after hcut ht => ?_⟩
    rw [hcut] at hplaced
    obtain ⟨e, f, he, hat, hf⟩ := hplaced.tagAt ht
    have ho : e.opening <+: template.toList.drop t.start :=
      hat.opening.trans (List.take_prefix _ _)
    obtain ⟨sigil, body, hnormal⟩ := Tag.normal_of_read? ho hat.read
      (by simpa [Tag.delimiters, Token.delimiters] using hf)
    exact ⟨e, sigil, body, he, hnormal⟩

/-- Delimiters with blank characters in them, and a tag that sets others. -/
theorem values_normal_spacedDelimiters :
    let spec : Delimiters.Spec := .items [.str "<% ", .str " %>"]
    let template := "<% #a\t %><%  y%> %><% /a %><% = [ ]= %>[!%>]"
    ∃ ns, parseWith spec template = .ok ns ∧
      ∃ d ts, spec.delimiters = .ok d ∧ tokens d template = .ok ts ∧
        (∀ n ∈ Node.preorder ns, n.token ∈ ts) ∧
        ∀ before t after, ts = before ++ t :: after → t.kind ≠ .text →
          ∃ e sigil body, inForce d before = .ok e ∧
            Tag.Begins e (template.toList.drop t.start) sigil body ∧
            t.kind = Token.Kind.ofSigil sigil ∧ t.value.toList <+: body ∧
            Tag.Normal e sigil t.value.toList := by
  intro spec template
  have hok : (parseWith spec template).isOk = true := by decide +kernel
  cases h : parseWith spec template with
  | error x =>
    rw [h] at hok
    cases hok
  | ok ns => exact ⟨ns, rfl, values_normal h⟩

end Template

end Mustache
