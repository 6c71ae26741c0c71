import Mustache.Proofs.Template.Offsets

/-!
# Trees in document order

A tree has the tags of its template in the order in which they were written. Here are the tree's
nodes as one list, in that order (`Node.preorder`), and the tree of its tags alone (`Node.tags`),
each beside the tokens that the tree was nested from.

**Idea.** A section stands in the list before all that it holds, so cutting the list at a section
cuts the tokens at its opening tag: what is before it are the tokens before that tag less their
closing tags, and what it holds was nested from the tokens up to its own closing tag
(`Nested.of_preorder`). Texts take no part in nesting: the tokens nest if those that are no texts
do, and then into the same tags (`Nested.tags` and `exists_nested_of_tags`).

The delimiters in force after some tokens are those that the last tag among them that sets
delimiters names (`inForce`). They depend on the tags only, so they are the same before and after
blank texts are dropped and texts are joined, and can be read off the tree.
-/

namespace Mustache

/-- The tokens that are no texts. -/
def Token.tags (ts : List Token) : List Token := ts.filter (·.kind != .text)

namespace Node

mutual

/-- A node and all the nodes in it, in document order. -/
def within : Node → List Node
  | leaf t => [leaf t]
  | block t children close => block t children close :: preorder children

/-- All the nodes of a tree, in document order. -/
def preorder : List Node → List Node
  | [] => []
  | x :: xs => within x ++ preorder xs

end

mutual

/-- A node without the texts in it, if it is no text itself. -/
def tag? : Node → Option Node
  | leaf t => if t.kind = .text then none else some (leaf t)
  | block t children close => some (block t (tags children) close)

/-- A tree without its texts, at every depth. -/
def tags : List Node → List Node
  | [] => []
  | x :: xs => (tag? x).toList ++ tags xs

end

theorem tags_append (ns ms : List Node) : tags (ns ++ ms) = tags ns ++ tags ms := by
  induction ns with
  | nil => rfl
  | cons x xs ih => simp [tags, ih]

theorem tags_texts {ts : List Token} (h : ∀ t ∈ ts, t.kind = .text) : tags (ts.map leaf) = [] := by
  induction ts with
  | nil => rfl
  | cons t ts ih =>
    obtain ⟨ht, hts⟩ := List.forall_mem_cons.1 h
    simp [tags, tag?, ht, ih hts]

theorem mem_preorder_cons {x n : Node} {ns : List Node} :
    x ∈ preorder (n :: ns) ↔ x ∈ within n ∨ x ∈ preorder ns := by
  rw [preorder, List.mem_append]

theorem mem_within_leaf {x : Node} {t : Token} : x ∈ within (leaf t) ↔ x = leaf t := by
  rw [within, List.mem_singleton]

theorem mem_within_block {x : Node} {t : Token} {children : List Node} {close : Nat} :
    x ∈ within (block t children close) ↔
      x = block t children close ∨ x ∈ preorder children := by
  rw [within, List.mem_cons]

mutual

/-- A node is in a tree with all that it holds. -/
theorem mem_within_trans {x y : Node} (hx : x ∈ within y) :
    ∀ n : Node, y ∈ within n → x ∈ within n
  | leaf t, hy => by
    rw [within, List.mem_singleton] at hy
    rwa [hy] at hx
  | block t children close, hy => by
    rw [within, List.mem_cons] at hy ⊢
    rcases hy with rfl | hy
    · rwa [within, List.mem_cons] at hx
    · exact .inr (mem_preorder_trans hx children hy)

theorem mem_preorder_trans {x y : Node} (hx : x ∈ within y) :
    ∀ ns : List Node, y ∈ preorder ns → x ∈ preorder ns
  | n :: ns, hy => by
    rw [preorder, List.mem_append] at hy ⊢
    rcases hy with hy | hy
    · exact .inl (mem_within_trans hx n hy)
    · exact .inr (mem_preorder_trans hx ns hy)

end

/-! ## Cutting a tree -/

/-- The list of a tree has the tokens that it was nested from, less the closing tags. -/
theorem Nested.map_token_preorder {ts : List Token} {ns : List Node} (h : Nested ts ns) :
    (preorder ns).map token = ts.filter (·.kind != .closeTag) := by
  induction h with
  | nil => rfl
  | leaf _ hc _ ih => simp [preorder, within, token, hc, ih]
  | @block t c us ts children ns ho _ hc _ _ ih ih' =>
    have ht : t.kind ≠ .closeTag := fun ht => by
      rw [not_opensSection_of_close ht] at ho
      cases ho
    simp [preorder, within, token, ht, hc, ih, ih']

/-- A list that is put together of two has each of its items in one of them. -/
theorem append_eq_cut {α : Type} {as bs before after : List α} {x : α}
    (h : as ++ bs = before ++ x :: after) :
    (∃ rest, as = before ++ x :: rest) ∨ ∃ front, before = as ++ front ∧
      bs = front ++ x :: after := by
  rcases List.append_eq_append_iff.1 h with ⟨front, rfl, rfl⟩ | ⟨rest, rfl, hrest⟩
  · exact .inr ⟨front, rfl, rfl⟩
  · cases rest with
    | nil => exact .inr ⟨[], by simp, by simpa using hrest.symm⟩
    | cons y rest =>
      obtain ⟨rfl, -⟩ := List.cons.inj hrest
      exact .inl ⟨rest, rfl⟩

/-- The tokens of a section at any depth: its opening tag, what it holds, and its closing tag.
Before it stand the tokens of the nodes before it, and closing tags. -/
theorem Nested.of_preorder {ts : List Token} {ns : List Node} (h : Nested ts ns)
    {before after children : List Node} {t : Token} {close : Nat}
    (hcut : preorder ns = before ++ .block t children close :: after) :
    ∃ front us c back, ts = front ++ t :: us ++ c :: back ∧ Nested us children ∧
      t.kind.opensSection = true ∧ c.kind = .closeTag ∧ c.start = close ∧
      before.map token = front.filter (·.kind != .closeTag) := by
  induction h generalizing before after with
  | nil => simp [preorder] at hcut
  | @leaf u ts ns ho hc _ ih =>
    rw [preorder, within, List.singleton_append] at hcut
    cases before with
    | nil => cases hcut
    | cons x before =>
      obtain ⟨rfl, hrest⟩ := List.cons.inj hcut
      obtain ⟨front, us, c, back, rfl, hus, ht, hck, hstart, hbefore⟩ := ih hrest
      exact ⟨u :: front, us, c, back, rfl, hus, ht, hck, hstart, by simp [token, hc, hbefore]⟩
  | @block u e us ts inner ns ho hus he hv hns ih ih' =>
    rw [preorder, within, List.cons_append] at hcut
    have hu : u.kind ≠ .closeTag := fun hu => by
      rw [not_opensSection_of_close hu] at ho
      cases ho
    cases before with
    | nil =>
      obtain ⟨hx, -⟩ := List.cons.inj hcut
      cases hx
      exact ⟨[], us, e, ts, rfl, hus, ho, he, rfl, rfl⟩
    | cons x before =>
      obtain ⟨rfl, hrest⟩ := List.cons.inj hcut
      rcases append_eq_cut hrest with ⟨rest, hinner⟩ | ⟨before', rfl, houter⟩
      · obtain ⟨front, vs, c, back, rfl, hvs, ht, hck, hstart, hbefore⟩ := ih hinner
        exact ⟨u :: front, vs, c, back ++ e :: ts, by simp, hvs, ht, hck, hstart,
          by simp [token, hu, hbefore]⟩
      · obtain ⟨front, vs, c, back, rfl, hvs, ht, hck, hstart, hbefore⟩ := ih' houter
        refine ⟨u :: us ++ e :: front, vs, c, back, by simp, hvs, ht, hck, hstart, ?_⟩
        simp [token, hu, he, hbefore, hus.map_token_preorder]

/-! ## Tags alone -/

theorem Nested.append {ts us : List Token} {ns ms : List Node} (h : Nested ts ns)
    (h' : Nested us ms) : Nested (ts ++ us) (ns ++ ms) := by
  induction h with
  | nil => exact h'
  | leaf ho hc _ ih => exact .leaf ho hc ih
  | @block t c us ts children ns ho hus hc hv _ _ ih =>
    rw [List.append_assoc, List.cons_append, List.cons_append]
    exact .block ho hus hc hv ih

theorem nested_texts {ts : List Token} (h : ∀ t ∈ ts, t.kind = .text) :
    Nested ts (ts.map leaf) := by
  induction ts with
  | nil => exact .nil
  | cons t ts ih =>
    obtain ⟨ht, hts⟩ := List.forall_mem_cons.1 h
    exact .leaf (by rw [ht]; rfl) (by simp [ht]) (ih hts)

theorem Nested.tags {ts : List Token} {ns : List Node} (h : Nested ts ns) :
    Nested (Token.tags ts) (tags ns) := by
  induction h with
  | nil => exact .nil
  | @leaf t ts ns ho hc _ ih =>
    by_cases hk : t.kind = .text
    · simpa [Token.tags, Node.tags, tag?, hk] using ih
    · simpa [Token.tags, Node.tags, tag?, hk] using Nested.leaf ho hc ih
  | @block t c us ts children ns ho _ hc hv _ ih ih' =>
    have ht : t.kind ≠ .text := fun ht => by simp [ht, Token.Kind.opensSection] at ho
    have := Nested.block ho ih hc hv ih'
    simpa [Token.tags, Node.tags, tag?, ht, hc] using this

/-- Tokens nest if their tags do, and then into the same tags. -/
theorem exists_nested_of_tags {us : List Token} {ms : List Node} (h : Nested us ms)
    {ts : List Token} (hts : Token.tags ts = us) : ∃ ns, Nested ts ns ∧ Node.tags ns = ms := by
  induction h generalizing ts with
  | nil =>
    have htexts : ∀ t ∈ ts, t.kind = .text := by
      simpa [Token.tags, List.filter_eq_nil_iff] using hts
    exact ⟨ts.map leaf, nested_texts htexts, tags_texts htexts⟩
  | @leaf t us ms ho hc _ ih =>
    obtain ⟨front, ts, rfl, hfront, ht, hts⟩ := List.filter_eq_cons_iff.1 hts
    obtain ⟨ns, hns, rfl⟩ := ih hts
    have htexts : ∀ t ∈ front, t.kind = .text := by simpa using hfront
    refine ⟨front.map leaf ++ leaf t :: ns, (nested_texts htexts).append (.leaf ho hc hns), ?_⟩
    have hk : t.kind ≠ .text := by simpa using ht
    simp [tags_append, tags_texts htexts, Node.tags, tag?, hk]
  | @block t c us vs children ms ho _ hc hv _ ih ih' =>
    rw [List.cons_append] at hts
    obtain ⟨front, rest, rfl, hfront, -, hrest⟩ := List.filter_eq_cons_iff.1 hts
    obtain ⟨inner, rest, rfl, hinner, hrest⟩ := List.filter_eq_append_iff.1 hrest
    obtain ⟨gap, back, rfl, hgap, -, hback⟩ := List.filter_eq_cons_iff.1 hrest
    -- The texts before the closing tag are in the section too.
    have hsection : Token.tags (inner ++ gap) = us := by
      rw [Token.tags, List.filter_append, hinner]
      simpa using hgap
    obtain ⟨ns, hns, rfl⟩ := ih hsection
    obtain ⟨ms, hms, rfl⟩ := ih' hback
    have htexts : ∀ t ∈ front, t.kind = .text := by simpa using hfront
    refine ⟨front.map leaf ++ block t ns c.start :: ms, ?_, ?_⟩
    · have := (nested_texts htexts).append (.block ho hns hc hv hms)
      simpa using this
    · simp [tags_append, tags_texts htexts, Node.tags, tag?]

end Node

namespace Template

/-! ## Delimiters in force -/

theorem DropsTexts.tags_eq {ts us : List Token} (h : DropsTexts ts us) :
    Token.tags us = Token.tags ts := by
  induction h with
  | nil => rfl
  | keep t _ ih =>
    rw [Token.tags] at ih
    rw [Token.tags, Token.tags, List.filter_cons, List.filter_cons, ih]
    rfl
  | drop hk _ ih => simpa [Token.tags, hk] using ih

theorem tags_strip (ts : List Token) : Token.tags (strip ts) = Token.tags ts :=
  (dropsTexts_strip ts).tags_eq

theorem tags_squash (ts : List Token) : Token.tags (squash ts) = Token.tags ts := by
  induction ts with
  | nil => rfl
  | cons t ts ih =>
    have hcons : Token.tags (t :: ts) = Token.tags (t :: squash ts) := by
      rw [Token.tags] at ih
      rw [Token.tags, Token.tags, List.filter_cons, List.filter_cons, ih]
      rfl
    rw [squash_cons, hcons]
    cases squash ts with
    | nil => rfl
    | cons u us =>
      rw [joinHead]
      split
      · next h => simp [Token.tags, h.1, h.2]
      · rfl

/-- The delimiters in force after some tokens, the first of which are read with the delimiters
`d`. -/
def inForce (d : Delimiters) (ts : List Token) : Except TemplateError Delimiters :=
  match ts.reverse.find? (·.kind == .delimiterTag) with
  | none => .ok d
  | some t => Delimiters.ofText t.value.toList

theorem inForce_singleton (d : Delimiters) (t : Token) : inForce d [t] = t.delimiters d := by
  rw [inForce, Token.delimiters]
  by_cases hk : t.kind = .delimiterTag
  · simp [hk]
  · simp [hk]

/-- Where no tag sets delimiters, they stay as they are. -/
theorem inForce_eq_self {ts : List Token} (h : ∀ t ∈ ts, t.kind ≠ .delimiterTag) (d : Delimiters) :
    inForce d ts = .ok d := by
  have hnone : ts.reverse.find? (·.kind == .delimiterTag) = none := by
    rw [List.find?_eq_none]
    intro t ht hk
    exact h t (List.mem_reverse.1 ht) (beq_iff_eq.1 hk)
  rw [inForce, hnone]

/-- Tokens are read with the delimiters that those before them leave in force. -/
theorem inForce_append {d e : Delimiters} {ts : List Token} (h : inForce d ts = .ok e)
    (us : List Token) : inForce d (ts ++ us) = inForce e us := by
  rw [inForce] at h
  rw [inForce, inForce, List.reverse_append, List.find?_append]
  cases us.reverse.find? (·.kind == .delimiterTag) with
  | some u => rfl
  | none => exact h

theorem inForce_cons {d e : Delimiters} {t : Token} (h : t.delimiters d = .ok e)
    (ts : List Token) : inForce d (t :: ts) = inForce e ts :=
  inForce_append ((inForce_singleton d t).trans h) ts

/-- Only the tags that set delimiters decide which ones are in force. -/
theorem inForce_filter {p : Token → Bool} (hp : ∀ t, t.kind = .delimiterTag → p t = true)
    (d : Delimiters) (ts : List Token) : inForce d (ts.filter p) = inForce d ts := by
  have hfind (l : List Token) : l.reverse.find? (·.kind == .delimiterTag) =
      (l.filter (·.kind == .delimiterTag)).reverse.head? := by
    rw [← List.filter_reverse, List.head?_filter]
  have hsetters : (ts.filter p).filter (·.kind == .delimiterTag) =
      ts.filter (·.kind == .delimiterTag) := by
    rw [List.filter_filter]
    refine List.filter_congr fun t _ => ?_
    by_cases hk : t.kind = .delimiterTag
    · simp [hk, hp t hk]
    · simp [hk]
  rw [inForce, inForce, hfind, hfind, hsetters]

theorem inForce_tags (d : Delimiters) (ts : List Token) :
    inForce d (Token.tags ts) = inForce d ts :=
  inForce_filter (fun t ht => by simp [ht]) d ts

/-- The delimiters in force behind some tokens can be read off the nodes that the joined tokens
become, closing tags left out. -/
theorem inForce_squash {d : Delimiters} {ts us : List Token} (h : Token.tags us = Token.tags ts) :
    inForce d ((squash us).filter (·.kind != .closeTag)) = inForce d ts := by
  rw [inForce_filter (fun t ht => by simp [ht]), ← inForce_tags, tags_squash, h, inForce_tags]

end Template

end Mustache
