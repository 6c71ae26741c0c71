import Mustache.Proofs.Render.Looks
import Mustache.Proofs.Render.Overseen

/-!
# Rendering and what contexts recall

Rendering looks names up in the context that it is given and in those that it makes, calls what
needs no arguments, and comes back to the same context from many places, also while such a call is
under way. All the while, each name is answered by what was recalled of it in its context.

**Idea.** The memo is what is recalled of the context at hand (`Right`), and this holds also when a
call is begun and when it ends. What is done in the course of a call keeps it by what is said of the
level below. Whatever is done leaves the calls under way that there were, and changes nothing of
what other contexts recall (`Grows`).

Main statements: `Watch.exists_answering`, `Judgement.right_renderCompiled` and
`Judgement.right_template`.
-/

namespace Mustache

open Render

namespace Watch

/-- The state of a watch is right: the context at hand has the scope and remembers what is recalled
of it, and all looks were lawful. -/
structure Right (scope : Scope) (s : State Watch) : Prop where
  here : s.writer.scopes[s.writer.here]? = some scope
  memo : ∀ name, s.memo.find? name = recalled s.writer.here name s.writer.looks
  lawful : Lawful s.writer.scopes s.writer.looks

/-- A watch goes on in its context: contexts are made, and names are looked up in them and in the
one at hand. What other contexts recall stays, and so do the calls that are under way. -/
structure Grows (x x' : Watch) : Prop where
  here : x'.here = x.here
  scopes : x.scopes <+: x'.scopes
  looks : x.looks <:+ x'.looks
  others : ∀ c, c < x.scopes.length → c ≠ x.here → ∀ name,
    recalled c name x'.looks = recalled c name x.looks
  underway : underway x'.looks = underway x.looks

/-- Two states do not differ in anything that is seen of contexts. -/
structure Unseen (s s' : State Watch) : Prop where
  memo : s'.memo = s.memo
  here : s'.writer.here = s.writer.here
  scopes : s'.writer.scopes = s.writer.scopes
  looks : s'.writer.looks = s.writer.looks

variable {scope : Scope} {s s' : State Watch} {x x' x'' : Watch} {name : String} {way : Way}
  {result : Except Error Value}

theorem Unseen.refl (s : State Watch) : Unseen s s := ⟨rfl, rfl, rfl, rfl⟩

theorem Grows.trans (h : Grows x x') (h' : Grows x' x'') : Grows x x'' where
  here := h'.here.trans h.here
  scopes := h.scopes.trans h'.scopes
  looks := h.looks.trans h'.looks
  others c hc hne name := by
    rw [h'.others c (Nat.lt_of_lt_of_le hc h.scopes.length_le) (h.here ▸ hne) name]
    exact h.others c hc hne name
  underway := h'.underway.trans h.underway

theorem Unseen.right (h : Unseen s s') (hs : Right scope s) : Right scope s' := by
  obtain ⟨hmemo, hhere, hscopes, hlooks⟩ := h
  constructor
  · rw [hscopes, hhere]
    exact hs.here
  · rw [hmemo, hhere, hlooks]
    exact hs.memo
  · rw [hscopes, hlooks]
    exact hs.lawful

theorem Unseen.grows (h : Unseen s s') : Grows s.writer s'.writer := by
  obtain ⟨-, hhere, hscopes, hlooks⟩ := h
  constructor
  · exact hhere
  · exact hscopes ▸ List.prefix_refl _
  · exact hlooks ▸ List.suffix_refl _
  · intro c _ _ name
    rw [hlooks]
  · rw [hlooks]

/-! ## Answering -/

/-- The state after a name was answered in the context at hand. -/
def answered (s : State Watch) (name : String) (way : Way) (result : Except Error Value) :
    State Watch :=
  { s with
    writer := { s.writer with looks := .looked s.writer.here name way result :: s.writer.looks }
    memo := match result with
      | .ok v => s.memo.insert name v
      | .error _ => s.memo }

/-- A lawful answer is remembered as it is recalled. -/
theorem Right.answered (h : Right scope s) (hlawful : Lawful s.writer.scopes
    (.looked s.writer.here name way result :: s.writer.looks)) :
    Right scope (answered s name way result) := by
  refine ⟨h.here, fun key => ?_, hlawful⟩
  cases result with
  | error e => exact h.memo key
  | ok v =>
    show (s.memo.insert name v).find? key = _
    rw [Table.find?_insert]
    by_cases hkey : key = name
    · rw [hkey, if_pos rfl]
      exact (recalled_looked_self way v _).symm
    · rw [if_neg hkey, h.memo key]
      exact (recalled_looked_of_ne (fun hboth => hkey hboth.2.symm) way (.ok v) _).symm

/-- Answers are recalled of the context at hand only. -/
theorem recalled_answered {c : Nat} (hne : c ≠ s.writer.here) (key : String) :
    recalled c key (answered s name way result).writer.looks = recalled c key s.writer.looks :=
  recalled_looked_of_ne (fun hboth => hne hboth.1.symm) way result _

/-- A name is answered from a state on: in what way, what that comes to, and in what state it is
noted and remembered. In the meantime nothing is looked up, unless there is a call. -/
structure Answering (scope : Scope) (s : State Watch) (name : String) (way : Way)
    (result : Except Error Value) (s' : State Watch) : Prop where
  right : Right scope (answered s' name way result)
  grows : Grows s.writer (answered s' name way result).writer
  looks : s.writer.looks <:+ s'.writer.looks
  calm : (∀ u, way ≠ .called u) → s'.writer.looks = s.writer.looks

/-- A name is answered by what is recalled of it. -/
theorem Right.answering (hs : Right scope s)
    (hanswers : Answers scope name (s.memo.find? name) way result) :
    Answering scope s name way result s := by
  rw [hs.memo name] at hanswers
  refine ⟨hs.answered (.answered hs.here hanswers hs.lawful), ?_, List.suffix_refl _, fun _ => rfl⟩
  exact ⟨rfl, List.prefix_refl _, List.suffix_cons _ _, fun c _ hne => recalled_answered hne,
    hanswers.underway_eq _ _⟩

/-- A name is answered by a call, which keeps right what it finds. -/
theorem Right.answering_call (hs : Right scope s) {u : Value} (hnone : s.memo.find? name = none)
    (hu : scope.resolve name = .ok u) (hinstant : u.isInstant = true) {left : State Watch}
    (hcall : Right scope { s with writer := s.writer.calling name (.called u) } →
      Right scope left ∧ Grows (s.writer.calling name (.called u)) left.writer) :
    Answering scope s name (.called u) result left := by
  have hlawful : Lawful s.writer.scopes (.calling s.writer.here name u :: s.writer.looks) :=
    .calling hs.here hu hinstant (hs.memo name ▸ hnone) hs.lawful
  obtain ⟨hright, hgrows⟩ := hcall ⟨hs.here, hs.memo, hlawful⟩
  have hhere : left.writer.here = s.writer.here := hgrows.here
  have hunder : underway left.writer.looks =
      (left.writer.here, name, u) :: underway s.writer.looks := hhere ▸ hgrows.underway
  have hlooks : s.writer.looks <:+ left.writer.looks := (List.suffix_cons _ _).trans hgrows.looks
  refine ⟨hright.answered (.called hunder result hright.lawful), ?_, hlooks,
    fun h => absurd rfl (h u)⟩
  refine ⟨hhere, hgrows.scopes, hlooks.trans (List.suffix_cons _ _), fun c hc hne key => ?_, ?_⟩
  · rw [recalled_answered (hhere ▸ hne)]
    exact hgrows.others c hc hne key
  · show (underway left.writer.looks).tail = _
    rw [hunder]
    rfl

theorem runFrom_looking (act : Render Watch Value) :
    (looking name way act).runFrom s =
      let (result, left) := act.runFrom { s with writer := s.writer.calling name way }
      (result, { left with writer := { left.writer with
        looks := .looked left.writer.here name way result :: left.writer.looks } }) := rfl

/-- **A name is answered by what is recalled of it, or by a call,** and what that comes to is noted
and remembered. -/
theorem exists_answering {d : Deeper Watch} (name : String) (hs : Right scope s)
    (hcall : ∀ (u : Value) (t : State Watch), Right scope t →
      Right scope ((d.apply scope u []).runFrom t).2 ∧
        Grows t.writer ((d.apply scope u []).runFrom t).2.writer) :
    ∃ s' way result, Answering scope s name way result s' ∧
      (notes.lookup d scope name).runFrom s = (result, answered s' name way result) := by
  rw [Notes.lookup, runFrom_get_bind]
  dsimp only
  cases hmemo : s.memo.find? name with
  | some v =>
    refine ⟨s, .remembered, .ok v, hs.answering (hmemo ▸ .remembered v), ?_⟩
    rw [answered, Table.insert_of_find? hmemo]
    rfl
  | none =>
    dsimp only
    cases hr : scope.resolve name with
    | error e => exact ⟨s, .found, .error e, hs.answering (hmemo ▸ .astray hr), rfl⟩
    | ok found =>
      dsimp only
      by_cases hinstant : (found.isCallable && found.required == 0) = true
      · have hcall := hcall found { s with writer := s.writer.calling name (.called found) }
        have hlooking :
            (notes.answer name (.called found) (d.apply scope found [])).runFrom s = _ :=
          runFrom_looking _
        rw [if_pos hinstant, runFrom_bind, hlooking]
        generalize (d.apply scope found []).runFrom { s with
          writer := s.writer.calling name (.called found) } = run at hcall ⊢
        obtain ⟨result, left⟩ := run
        refine ⟨left, .called found, result, hs.answering_call hmemo hr hinstant hcall, ?_⟩
        cases result <;> rfl
      · refine ⟨s, .found, .ok found, ?_, ?_⟩
        · exact hs.answering (hmemo ▸ .found hr (Bool.eq_false_iff.2 hinstant))
        · rw [if_neg hinstant]
          rfl

end Watch

namespace Judgement

open Watch

variable {α : Type} {scope : Scope} {settings : Settings}

/-- A computation keeps the state of the watch right, and goes on in the same context. -/
def right : Judgement Watch := fun _ scope m Q =>
  ∀ s, Right scope s → Right scope (m.runFrom s).2 ∧ Grows s.writer (m.runFrom s).2.writer ∧
    ∀ a, (m.runFrom s).1 = .ok a → Q a

/-- What does nothing that is seen of contexts keeps the state right. -/
theorem right_of_unseen {m : Render Watch α} {Q : α → Prop} (h : ∀ s, Unseen s (m.runFrom s).2)
    (hQ : ∀ s a, (m.runFrom s).1 = .ok a → Q a) : right α scope m Q :=
  fun s hs => ⟨(h s).right hs, (h s).grows, hQ s⟩

theorem right_pure {a : α} {Q : α → Prop} (ha : Q a) : right α scope (pure a) Q :=
  right_of_unseen Unseen.refl fun s b hb => by cases hb; exact ha

theorem right_bind {β : Type} {m : Render Watch α} {k : α → Render Watch β} {Q : α → Prop}
    {R : β → Prop} (hm : right α scope m Q) (hk : ∀ a, Q a → right β scope (k a) R) :
    right β scope (m >>= k) R := by
  intro s hs
  obtain ⟨hright, hgrows, hQ⟩ := hm s hs
  rw [runFrom_bind]
  rcases hr : m.runFrom s with ⟨x, s'⟩
  rw [hr] at hright hgrows hQ
  cases x with
  | error e => exact ⟨hright, hgrows, nofun⟩
  | ok a =>
    obtain ⟨hright', hgrows', hR⟩ := hk a (hQ a rfl) s' hright
    exact ⟨hright', hgrows.trans hgrows', hR⟩

theorem right_map {β : Type} (f : α → β) {m : Render Watch α} {Q : α → Prop}
    (h : right α scope m Q) : right β scope (f <$> m) fun _ => True := by
  rw [map_eq_pure_bind]
  exact right_bind h fun a _ => right_pure trivial

theorem right_compile (t : String) :
    right Compiled scope (onWriter (Render.compile settings t)) fun _ => True := by
  refine right_of_unseen (fun s => ?_) fun _ _ _ => trivial
  cases hc : s.writer.writer.compile settings.delimiters t with
  | error e =>
    rw [Watch.runFrom_compile_error hc]
    exact Unseen.refl s
  | ok given =>
    rw [Watch.runFrom_compile_ok hc]
    exact ⟨rfl, rfl, rfl, rfl⟩

theorem right_blank (v : Value) :
    right Unit scope (onWriter (acceptBlank settings v)) fun _ => True := by
  refine right_of_unseen (fun s => ?_) fun _ _ _ => trivial
  obtain ⟨r, w, hrun, -⟩ := runFrom_acceptBlank settings v ⟨s.writer.writer, s.memo, s.tally, s.log⟩
  show Unseen s (onWriter (acceptBlank settings v) s).2
  rw [onWriter, hrun]
  exact ⟨rfl, rfl, rfl, rfl⟩

theorem right_came (name : String) : right Unit scope (came name) fun _ => True :=
  right_of_unseen (fun _ => ⟨rfl, rfl, rfl, rfl⟩) fun _ _ _ => trivial

theorem right_fetch (name : String) :
    right Unit scope (Watch.fetch settings name) fun _ => True := by
  refine right_of_unseen (fun s => ?_) fun _ _ _ => trivial
  obtain ⟨r, finding, w, -, hrun⟩ := Watch.runFrom_fetch settings name s
  rw [hrun]
  exact ⟨rfl, rfl, rfl, rfl⟩

theorem right_accept (partials : Partials) :
    right Unit scope (Watch.accept settings partials) fun _ => True := by
  have register (name t : String) :
      right Unit scope (Watch.register settings name t) fun _ => True := by
    refine right_of_unseen (fun s => ?_) fun _ _ _ => trivial
    cases hc : s.writer.writer.compile settings.delimiters t with
    | error e =>
      rw [Watch.runFrom_register_error hc]
      exact Unseen.refl s
    | ok given =>
      rw [Watch.runFrom_register_ok hc]
      exact ⟨rfl, rfl, rfl, rfl⟩
  cases partials with
  | none => exact right_pure trivial
  | loader loader => exact right_of_unseen (fun s => ⟨rfl, rfl, rfl, rfl⟩) fun _ _ _ => trivial
  | named templates =>
    induction templates with
    | nil => exact right_pure trivial
    | cons entry templates ih => exact right_bind (register entry.1 entry.2) fun _ _ => ih

/-- Work in a new context leaves what is recalled of the one around it. -/
theorem right_child {v : Value} {m : Render Watch String} {Q : String → Prop}
    (h : right String (scope.push v) m Q) :
    right String scope (inContext (scope.push v) (inChild m)) Q := by
  intro s hs
  have hchild : Right (scope.push v) { s with
      writer := { s.writer with
        here := s.writer.scopes.length
        scopes := s.writer.scopes ++ [scope.push v] }
      memo := ∅ } := by
    refine ⟨List.getElem?_concat_length, fun name => ?_, ?_⟩
    · exact (hs.lawful.recalled_eq_none (Nat.le_refl _)).symm
    · exact hs.lawful.mono (List.prefix_append _ _)
  obtain ⟨hright, hgrows, hQ⟩ := h _ hchild
  obtain ⟨hlt, -⟩ := List.getElem?_eq_some_iff.1 hs.here
  have hprefix := (List.prefix_append s.writer.scopes [scope.push v]).trans hgrows.scopes
  have hothers (c : Nat) (hc : c < s.writer.scopes.length) (name : String) :=
    hgrows.others c (by rw [List.length_append]; omega) (Nat.ne_of_lt hc) name
  refine ⟨⟨?_, fun name => ?_, hright.lawful⟩,
    ⟨rfl, hprefix, hgrows.looks, fun c hc _ => hothers c hc, hgrows.underway⟩, hQ⟩
  · obtain ⟨more, hmore⟩ := hprefix
    show (m.runFrom _).2.writer.scopes[s.writer.here]? = _
    rw [← hmore, List.getElem?_append_left hlt]
    exact hs.here
  · show s.memo.find? name = _
    rw [hs.memo name]
    exact (hothers _ hlt name).symm

theorem right_lookup {d : Deeper Watch} {name : String}
    (happly : ∀ callee args, right Value scope (d.apply scope callee args) fun _ => True) :
    right Value scope (notes.lookup d scope name) fun _ => True := by
  intro s hs
  have hcall (u : Value) (t : State Watch) (ht : Right scope t) := happly u [] t ht
  obtain ⟨s', way, result, hanswering, hrun⟩ :=
    exists_answering name hs fun u t ht => ⟨(hcall u t ht).1, (hcall u t ht).2.1⟩
  rw [hrun]
  exact ⟨hanswering.right, hanswering.grows, fun _ _ => trivial⟩

theorem oversees_right (settings : Settings) : right.Oversees settings where
  result _ _ _ := right_pure
  error _ _ _ := right_of_unseen Unseen.refl nofun
  andThen _ _ _ _ _ := right_bind
  tallied _ _ _ hQ := right_of_unseen (fun _ => ⟨rfl, rfl, rfl, rfl⟩) fun s => hQ s.tally
  recorded scope label args := by
    refine right_of_unseen (fun s => ?_) fun _ _ _ => trivial
    rw [recordCall, runFrom_get_bind]
    dsimp only
    split
    · exact ⟨rfl, rfl, rfl, rfl⟩
    · exact Unseen.refl s
  reading _ := right_of_unseen Unseen.refl fun _ _ _ => trivial
  compile _ := right_compile
  blank _ := right_blank
  came _ := right_came
  fetch _ name := right_bind (right_came name) fun _ _ => right_fetch name
  child _ _ _ := right_child
  lookup _ _ _ := right_lookup

/-- **Calling a function keeps what is remembered what is recalled.** -/
theorem right_renderCompiled (settings : Settings) (limit : Nat) (c : Compiled)
    (partials : Partials) :
    right String scope (notes.renderCompiled settings limit c partials scope) fun _ => True :=
  (oversees_right settings).renderCompiled limit c (right_accept partials)

/-- **Rendering keeps what is remembered what is recalled.** -/
theorem right_template (settings : Settings) (limit : Nat) (text : String) (partials : Partials) :
    right String scope (notes.template settings limit text partials scope) fun _ => True :=
  (oversees_right settings).template limit text (right_accept partials)

end Judgement

end Mustache
