import Mustache.Proofs.Render.Supply

/-!
# What rendering remembers

In a context whose views are plain, a name leads to data, or to the method of a set, which is called
for it. Either way what comes of it is remembered under the name. Data would be found anew at any
time, and so would what a method gives that does nothing at all. Other methods change the tally:
they take items out of sets, or make sets.

**Idea.** All that a lookup can come to is said once (`Looked`). The tally only goes on
(`Tally.Precedes`), so if it is in the end what it was, it was so all the time. Then all that is
newly remembered would be found anew at any time, without any effect (`Scope.Ahead`).

Main statements: `Render.looked`, `Judgement.remembers_call` and `Judgement.remembers_template`.
-/

namespace Mustache

open Render

/-! ## Tallies going on -/

namespace Tally

variable {t t' t'' : Tally}

/-- A tally goes on from another one: sets have lost more items, and more sets were made. -/
structure Precedes (t t' : Tally) : Prop where
  counters : t'.counters = t.counters
  left : t.left <:+ t'.left
  made : t.made ≤ t'.made

theorem Precedes.refl (t : Tally) : t.Precedes t := ⟨rfl, List.suffix_refl _, Nat.le_refl _⟩

theorem Precedes.trans (h : t.Precedes t') (h' : t'.Precedes t'') : t.Precedes t'' :=
  ⟨h'.counters.trans h.counters, h.left.trans h'.left, h.made.trans h'.made⟩

/-- A tally that has gone on does not come back. -/
theorem Precedes.eq (h : t.Precedes t') (h' : t'.Precedes t) : t' = t := by
  obtain ⟨counters, left, made⟩ := t
  obtain ⟨counters', left', made'⟩ := t'
  obtain rfl : counters' = counters := h.counters
  obtain rfl : left' = left := h'.left.eq_of_length_le h.left.length_le
  obtain rfl : made' = made := Nat.le_antisymm h'.made h.made
  rfl

end Tally

namespace SetMethod

variable {m : SetMethod} {identity : SetId} {items : List Value} {t : Tally} {v : Value}

theorem precedes_perform (m : SetMethod) (identity : SetId) (items : List Value) (t : Tally) :
    t.Precedes (m.perform identity items t).2 := by
  have leave (n : Nat) : t.Precedes (t.leave identity n) :=
    ⟨rfl, List.suffix_cons _ _, Nat.le_refl _⟩
  unfold perform
  dsimp only
  split
  · exact .refl t
  · split
    · exact .refl t
    · exact leave _
  · exact leave 0
  · exact ⟨rfl, List.suffix_refl _, Nat.le_succ _⟩
  · exact .refl t

/-- A method that does nothing gives nothing. -/
theorem perform_of_nothing (h : m.effect = .nothing) (identity : SetId) (items : List Value)
    (t : Tally) : m.perform identity items t = (.ok .null, t) := by
  rw [perform, h]

/-- A method that gives something and leaves the tally as it is does nothing. -/
theorem nothing_of_perform (h : m.perform identity items t = (.ok v, t)) :
    m.effect = .nothing ∧ v = .null := by
  have longer (n : Nat) : (t.leave identity n) ≠ t := fun heq =>
    absurd (congrArg (fun u : Tally => u.left.length) heq) (Nat.succ_ne_self _)
  unfold perform at h
  dsimp only at h
  split at h
  · cases h
  · split at h
    · cases h
    · exact absurd (Prod.mk.inj h).2 (longer _)
  · exact absurd (Prod.mk.inj h).2 (longer 0)
  · have hmade : t.made + 1 = t.made := congrArg Tally.made (Prod.mk.inj h).2
    exact absurd hmade (Nat.succ_ne_self _)
  · next hnothing => exact ⟨hnothing, (Except.ok.inj (Prod.mk.inj h).1).symm⟩

end SetMethod

/-! ## What would be found anew -/

/-- What a name leads to comes to a value at any time, without any effect. -/
inductive Value.Idles : Value → Value → Prop
  | self {v : Value} (h : v.isCallable = false) : Idles v v
  | method {m : SetMethod} (h : m.effect = .nothing) (identity : SetId) (items : List Value) :
      Idles (.setMethod m identity items) .null

namespace Scope

variable {scope : Scope} {name : String} {v : Value} {memo memo' memo'' : Table Value}

/-- Looking a name up gives a value at any time, without any effect. -/
def Idles (scope : Scope) (name : String) (v : Value) : Prop :=
  ∃ found, scope.resolve name = .ok found ∧ found.Idles v

/-- One memo is ahead of another one: it has all that is remembered there, and besides only what
would be found at any time. -/
structure Ahead (scope : Scope) (memo memo' : Table Value) : Prop where
  kept : ∀ name v, memo.find? name = some v → memo'.find? name = some v
  idle : ∀ name v, memo'.find? name = some v → memo.find? name = some v ∨ scope.Idles name v

namespace Ahead

theorem refl (scope : Scope) (memo : Table Value) : scope.Ahead memo memo :=
  ⟨fun _ _ h => h, fun _ _ h => .inl h⟩

theorem trans (h : scope.Ahead memo memo') (h' : scope.Ahead memo' memo'') :
    scope.Ahead memo memo'' where
  kept name v hv := h'.kept name v (h.kept name v hv)
  idle name v hv := (h'.idle name v hv).elim (h.idle name v) .inr

/-- Remembering the same in both. -/
theorem insert (h : scope.Ahead memo memo') (name : String) (v : Value) :
    scope.Ahead (memo.insert name v) (memo'.insert name v) where
  kept other w hw := by
    rw [Table.find?_insert] at hw ⊢
    by_cases hname : other = name
    · rwa [if_pos hname] at hw ⊢
    · rw [if_neg hname] at hw ⊢
      exact h.kept other w hw
  idle other w hw := by
    rw [Table.find?_insert] at hw ⊢
    by_cases hname : other = name
    · rw [if_pos hname] at hw ⊢
      exact .inl hw
    · rw [if_neg hname] at hw ⊢
      exact h.idle other w hw

/-- Remembering what the other one has already. -/
theorem insert_left (h : scope.Ahead memo memo') (hv : memo'.find? name = some v) :
    scope.Ahead (memo.insert name v) memo' := by
  have hboth := h.insert name v
  rwa [Table.insert_of_find? hv] at hboth

/-- Remembering what would be found at any time. -/
theorem of_idles (hmemo : memo.find? name = none) (hv : scope.Idles name v) :
    scope.Ahead memo (memo.insert name v) where
  kept other w hw := by
    rw [Table.find?_insert, if_neg]
    · exact hw
    · rintro rfl
      rw [hmemo] at hw
      cases hw
  idle other w hw := by
    rw [Table.find?_insert] at hw
    split at hw
    · next heq =>
      cases hw
      exact .inr (heq ▸ hv)
    · exact .inl hw

end Ahead

end Scope

/-! ## Looking up -/

namespace Render

variable {sets : Bool} {scope : Scope} {name : String} {s s₁ : State Writer}
  {r : Except Error Value}

/-- What looking a name up comes to, where the views are plain. -/
inductive Looked (scope : Scope) (name : String) (s : State Writer) :
    Except Error Value → State Writer → Prop
  | known {v : Value} (hm : s.memo.find? name = some v) : Looked scope name s (.ok v) s
  | lost {e : Error} (hm : s.memo.find? name = none) (hr : scope.resolve name = .error e) :
      Looked scope name s (.error e) s
  | data {v : Value} (hm : s.memo.find? name = none) (hr : scope.resolve name = .ok v)
      (hv : v.isCallable = false) :
      Looked scope name s (.ok v) { s with memo := s.memo.insert name v }
  | refused {m : SetMethod} {identity : SetId} {items : List Value} {e : Error} {t : Tally}
      (hm : s.memo.find? name = none)
      (hr : scope.resolve name = .ok (.setMethod m identity items))
      (hp : m.perform identity items s.tally = (.error e, t)) :
      Looked scope name s (.error e) { s with tally := t }
  | called {m : SetMethod} {identity : SetId} {items : List Value} {v : Value} {t : Tally}
      (hm : s.memo.find? name = none)
      (hr : scope.resolve name = .ok (.setMethod m identity items))
      (hp : m.perform identity items s.tally = (.ok v, t)) :
      Looked scope name s (.ok v) { s with memo := s.memo.insert name v, tally := t }

/-- Names lead where `Looked` says on all levels. -/
theorem Looked.eq (h : Looked scope name s r s₁) (settings : Settings) (n : Nat) :
    (lookup (deeper settings n) scope name).runFrom s = (r, s₁) := by
  rw [lookup, runFrom_get_bind]
  dsimp only
  have called (m : SetMethod) (identity : SetId) (items : List Value) :
      ((Value.setMethod m identity items).isCallable &&
        (Value.setMethod m identity items).required == 0) = true := rfl
  cases h with
  | known hm =>
    rw [hm]
    rfl
  | lost hm hr =>
    rw [hm, hr]
    rfl
  | data hm hr hv =>
    rw [hm, hr]
    simp only [ofExcept, pure_bind, hv, Bool.false_and, Bool.false_eq_true, if_false]
    rfl
  | refused hm hr hp =>
    rw [hm, hr]
    simp only [ofExcept, pure_bind, called, if_true, deeper_apply_setMethod]
    rw [runFrom_bind, runFrom_onTally, hp]
  | called hm hr hp =>
    rw [hm, hr]
    simp only [ofExcept, pure_bind, called, if_true, deeper_apply_setMethod]
    rw [runFrom_bind, runFrom_onTally, hp]
    rfl

/-- **All that looking a name up can come to** where the views are plain. -/
theorem exists_looked (hscope : scope.IsData sets) (name : String) (s : State Writer) :
    ∃ r s₁, Looked scope name s r s₁ := by
  cases hm : s.memo.find? name with
  | some v => exact ⟨_, _, .known hm⟩
  | none =>
    cases hr : scope.resolve name with
    | error e => exact ⟨_, _, .lost hm hr⟩
    | ok found =>
      cases Scope.isFound_resolve hscope hr with
      | data hv => exact ⟨_, _, .data hm hr (Value.isCallable_of_isData hv)⟩
      | method m identity _ hitems =>
        rcases hp : m.perform identity _ s.tally with ⟨x, t⟩
        cases x with
        | error e => exact ⟨_, _, .refused hm hr hp⟩
        | ok v => exact ⟨_, _, .called hm hr hp⟩

/-- Looking up has nothing to do with the writer and the records. -/
theorem Looked.withWriter (h : Looked scope name s r s₁) (writer : Writer) (log : List Event) :
    Looked scope name { s with writer, log } r { s₁ with writer, log } := by
  cases h with
  | known hm => exact .known hm
  | lost hm hr => exact .lost hm hr
  | data hm hr hv => exact .data hm hr hv
  | refused hm hr hp => exact .refused hm hr hp
  | called hm hr hp => exact .called hm hr hp

/-- Looking up does nothing with the writer, and records nothing. -/
theorem Looked.same (h : Looked scope name s r s₁) : s₁.writer = s.writer ∧ s₁.log = s.log := by
  cases h <;> exact ⟨rfl, rfl⟩

/-- The tally goes on. -/
theorem Looked.precedes (h : Looked scope name s r s₁) : s.tally.Precedes s₁.tally := by
  have performed {m : SetMethod} {identity : SetId} {items : List Value} {x : Except Error Value}
      {t : Tally} (hp : m.perform identity items s.tally = (x, t)) : s.tally.Precedes t := by
    have h := m.precedes_perform identity items s.tally
    rwa [hp] at h
  cases h with
  | refused hm hr hp => exact performed hp
  | called hm hr hp => exact performed hp
  | _ => exact .refl s.tally

/-- What is remembered where the tally stays as it is would be found at any time. -/
theorem Looked.ahead (h : Looked scope name s r s₁) (ht : s₁.tally = s.tally) :
    scope.Ahead s.memo s₁.memo := by
  cases h with
  | data hm hr hv => exact .of_idles hm ⟨_, hr, .self hv⟩
  | @called m identity items v t hm hr hp =>
    obtain rfl : t = s.tally := ht
    obtain ⟨hnothing, rfl⟩ := SetMethod.nothing_of_perform hp
    exact .of_idles hm ⟨_, hr, .method hnothing identity items⟩
  | _ => exact .refl scope s.memo

/-- A memo that is right stays so, and what is found is data as the views are. -/
theorem Looked.keeps (h : Looked scope name s r s₁) (hscope : scope.IsData sets)
    (hs : Keeps (fun _ => True) scope s) :
    Keeps (fun _ => True) scope s₁ ∧ ∀ v, r = .ok v → v.isData sets = true := by
  cases h with
  | @known v hm =>
    refine ⟨hs, ?_⟩
    rintro _ ⟨⟩
    obtain ⟨found, hfound, hv⟩ := hs.memo name v hm
    cases Scope.isFound_resolve hscope hfound with
    | data hdata =>
      rw [Value.isCallable_of_isData hdata] at hv
      exact (show v = found from hv) ▸ hdata
    | method m identity hsets hitems =>
      subst hsets
      exact hv
  | lost hm hr => exact ⟨hs, nofun⟩
  | @data v hm hr hv =>
    refine ⟨hs.remember ⟨v, hr, by rw [hv]; rfl⟩, ?_⟩
    rintro _ ⟨⟩
    cases Scope.isFound_resolve hscope hr with
    | data hv => exact hv
    | method m identity _ hitems => cases hv
  | refused hm hr hp => exact ⟨⟨trivial, hs.memo⟩, nofun⟩
  | @called m identity items v t hm hr hp =>
    cases Scope.isFound_resolve hscope hr with
    | data hdata => cases hdata
    | method _ _ hsets hitems =>
      subst hsets
      have hv : v.isPlain = true := SetMethod.isPlain_perform (t := s.tally) hitems (by rw [hp])
      have hleft : Keeps (fun _ => True) scope { s with tally := t } := ⟨trivial, hs.memo⟩
      refine ⟨hleft.remember ⟨_, hr, hv⟩, ?_⟩
      rintro _ ⟨⟩
      exact hv

/-- A name that leads to no method is answered as the views say, and nothing changes but the memo.
-/
theorem Looked.of_uncallable (h : Looked scope name s r s₁) (hs : Keeps (fun _ => True) scope s)
    (huncallable : ∀ v, scope.resolve name = .ok v → v.isCallable = false) :
    r = scope.resolve name ∧ s₁.tally = s.tally ∧
      s₁.memo = match scope.resolve name with
        | .ok v => s.memo.insert name v
        | .error _ => s.memo := by
  cases h with
  | known hm =>
    rw [(hs.memo name _ hm).resolve_eq huncallable]
    exact ⟨rfl, rfl, (Table.insert_of_find? hm).symm⟩
  | lost hm hr =>
    rw [hr]
    exact ⟨rfl, rfl, rfl⟩
  | data hm hr hv =>
    rw [hr]
    exact ⟨rfl, rfl, rfl⟩
  | refused hm hr hp => cases huncallable _ hr
  | called hm hr hp => cases huncallable _ hr

end Render

/-! ## Rendering -/

namespace Judgement

variable {sets : Bool} {scope : Scope} {α β : Type}

/-- The memo stays right and the tally goes on. If the tally ends as it began, all that is newly
remembered would be found at any time; where there are no sets, it does. -/
structure Remembering (sets : Bool) (scope : Scope) (m : Render Writer α) (Q : α → Prop)
    (s : State Writer) : Prop where
  keeps : Keeps (fun _ => True) scope (m.runFrom s).2
  holds : ∀ a, (m.runFrom s).1 = .ok a → Q a
  tally : s.tally.Precedes (m.runFrom s).2.tally
  ahead : (m.runFrom s).2.tally = s.tally → scope.Ahead s.memo (m.runFrom s).2.memo
  rests : sets = false → (m.runFrom s).2.tally = s.tally

/-- A computation remembers what is right; there may be sets or not. -/
def remembers (sets : Bool) : Judgement Writer := fun _ scope m Q =>
  ∀ s, Keeps (fun _ => True) scope s → Remembering sets scope m Q s

theorem remembers_of_writer {m : Render Writer α} {Q : α → Prop}
    (h : ∀ s, (m.runFrom s).2.memo = s.memo ∧ (m.runFrom s).2.tally = s.tally)
    (hQ : ∀ s a, (m.runFrom s).1 = .ok a → Q a) : remembers sets α scope m Q := by
  intro s hs
  obtain ⟨hmemo, htally⟩ := h s
  refine ⟨⟨trivial, fun name v hv => hs.memo name v (hmemo ▸ hv)⟩, hQ s, ?_, fun _ => ?_,
    fun _ => htally⟩
  · rw [htally]
    exact .refl s.tally
  · rw [hmemo]
    exact .refl scope s.memo

theorem remembers_bind {m : Render Writer α} {k : α → Render Writer β} {Q : α → Prop}
    {R : β → Prop} (h : remembers sets α scope m Q)
    (hk : ∀ a, Q a → remembers sets β scope (k a) R) : remembers sets β scope (m >>= k) R := by
  intro s hs
  obtain ⟨hkeeps, hholds, htally, hahead, hrests⟩ := h s hs
  rcases hr : m.runFrom s with ⟨x, s₁⟩
  rw [hr] at hkeeps hholds htally hahead hrests
  cases x with
  | error e =>
    have herror : (m >>= k).runFrom s = (.error e, s₁) := by rw [runFrom_bind, hr]
    constructor <;> rw [herror]
    · exact hkeeps
    · nofun
    · exact htally
    · exact hahead
    · exact hrests
  | ok a =>
    have hok : (m >>= k).runFrom s = (k a).runFrom s₁ := by rw [runFrom_bind, hr]
    obtain ⟨hkeeps₂, hholds₂, htally₂, hahead₂, hrests₂⟩ := hk a (hholds a rfl) s₁ hkeeps
    constructor <;> rw [hok]
    · exact hkeeps₂
    · exact hholds₂
    · exact htally.trans htally₂
    · intro hsame
      -- The tally is back where it was, so it was there in between.
      have hbetween : s₁.tally = s.tally := htally.eq (hsame ▸ htally₂)
      exact (hahead hbetween).trans (hahead₂ (hsame.trans hbetween.symm))
    · exact fun hsets => (hrests₂ hsets).trans (hrests hsets)

theorem covers_remembers (settings : Settings) (n : Nat) :
    (remembers sets).Covers (Render.deeper settings n) (Scope.IsData sets)
      (fun v => v.isData sets = true) fun _ => True where
  uncallable _ := Value.isCallable_of_isData
  items _ := Value.isData_items
  push _ _ hscope hv := hscope.push hv
  result _ a _ ha := remembers_of_writer (fun _ => ⟨rfl, rfl⟩) (by rintro _ _ ⟨⟩; exact ha)
  andThen _ _ _ _ _ := remembers_bind
  inChild scope v m Q h s hs := by
    obtain ⟨-, hholds, htally, -, hrests⟩ := h { s with memo := ∅ } (keeps_of_empty trivial rfl)
    exact ⟨⟨trivial, hs.memo⟩, hholds, htally, fun _ => .refl scope s.memo, hrests⟩
  lookup scope name hscope _ s hs := by
    obtain ⟨r, s₁, hlooked⟩ := exists_looked hscope name s
    obtain ⟨hkeeps, hholds⟩ := hlooked.keeps hscope hs
    constructor <;> rw [hlooked.eq settings n]
    · exact hkeeps
    · exact hholds
    · exact hlooked.precedes
    · exact hlooked.ahead
    · rintro rfl
      refine (hlooked.of_uncallable hs fun v hv => ?_).2.1
      exact Value.isCallable_of_isData (Scope.isInert_resolve hscope hv)
  current _ v hv := remembers_of_writer (fun _ => ⟨rfl, rfl⟩) fun s a ha => by
    cases ha
    exact Value.isData_current v hv
  shown _ _ _ := remembers_of_writer (fun _ => ⟨rfl, rfl⟩) fun _ _ _ => trivial
  escape _ _ := remembers_of_writer (fun _ => ⟨rfl, rfl⟩) fun _ _ _ => trivial

theorem remembers_call (hscope : scope.IsData sets) (settings : Settings) (limit : Nat)
    (c : Compiled)
    (partials : Partials) :
    remembers sets String scope (call settings limit c partials scope) fun _ => True := by
  refine remembers_bind (Q := fun _ => True) ?_ fun _ _ => ?_
  · refine remembers_of_writer (fun s => ?_) fun _ _ _ => trivial
    have haccepts := (Writer.serves_self settings.delimiters s.writer partials).accepts
    exact ⟨haccepts.memo, haccepts.tally⟩
  · refine Covers.deeper (covers_remembers settings) (fun _ => ?_) (fun _ name => ?_) limit hscope
      c.template c.nodes
    · exact remembers_of_writer (fun _ => ⟨rfl, rfl⟩) fun _ _ _ => trivial
    · refine remembers_of_writer (fun s => ?_) fun _ _ _ => trivial
      obtain ⟨r, s', hfetched⟩ := exists_fetched settings name s
      rw [hfetched.supply_eq]
      exact hfetched.same

theorem remembers_template (hscope : scope.IsData sets) (settings : Settings) (limit : Nat)
    (text : String) (partials : Partials) :
    remembers sets String scope (template settings limit text partials scope) fun _ => True := by
  refine remembers_bind (Q := fun _ => True) ?_ fun c _ =>
    remembers_call hscope settings limit c partials
  refine remembers_of_writer (fun s => ?_) fun _ _ _ => trivial
  cases hc : s.writer.compile settings.delimiters text with
  | error e =>
    rw [runFrom_compile_error hc]
    exact ⟨rfl, rfl⟩
  | ok given =>
    rw [runFrom_compile_ok hc]
    exact ⟨rfl, rfl⟩

end Judgement

end Mustache
