import Mustache.Proofs.Render.Idle

/-!
# What rendering depends on

Where the views are plain, what rendering comes to depends on the writer, the views, the settings
and the tally alone, and not on what a context remembers, as far as it would be found anew at any
time. With a writer that has a way of escaping of its own, it does not depend on the one that holds
for all.

**Idea.** Two states lie side by side if they differ only in what is remembered, and one memo is
ahead of the other one (`State.Beside`). Each part of rendering takes two such states to the same
result and to two such states again (`Judgement.steady`), so all rendering does.

Main statements: `Judgement.steady_template` and `Render.agree_template_ownEscape`.
-/

namespace Mustache

open Render

namespace Render

/-- Two states that differ only in what is remembered. What the first one remembers is right, and
the second one is ahead of it. -/
structure State.Beside (scope : Scope) (s s' : State Writer) : Prop where
  writer : s'.writer = s.writer
  tally : s'.tally = s.tally
  log : s'.log = s.log
  keeps : Keeps (fun _ => True) scope s
  memo : scope.Ahead s.memo s'.memo

/-- What asking for a partial comes to has nothing to do with what is remembered. -/
theorem Fetched.beside {settings : Settings} {name : String} {s s₁ : State Writer}
    {r : Except Error Unit} (h : Fetched settings name s r s₁) (memo : Table Value) :
    Fetched settings name { s with memo } r { s₁ with memo } := by
  cases h with
  | known hp => exact .known hp
  | unasked hp hl => exact .unasked hp hl
  | failed hp hl hload => exact .failed hp hl hload
  | absent hp hl hload => exact .absent hp hl hload
  | unreadable hp hl hload hc => exact .unreadable hp hl hload hc
  | loaded hp hl hload hc => exact .loaded hp hl hload hc

/-- A name comes to the same, whether or not it is looked up ahead of time. -/
theorem Looked.beside {scope : Scope} {name : String} {s s₁ s' : State Writer}
    {r : Except Error Value} (h : Looked scope name s r s₁) (hscope : scope.IsPlain)
    (hs : State.Beside scope s s') :
    ∃ s₁', Looked scope name s' r s₁' ∧ State.Beside scope s₁ s₁' := by
  have hkeeps := (h.keeps hscope hs.keeps).1
  -- What is remembered in the second state only would be found at any time.
  have ahead {w : Value} (hm : s.memo.find? name = none) (hm' : s'.memo.find? name = some w) :
      scope.Idles name w :=
    (hs.memo.idle name w hm').resolve_left (by rw [hm]; nofun)
  cases h with
  | known hm => exact ⟨s', .known (hs.memo.kept _ _ hm), hs⟩
  | lost hm hr =>
    refine ⟨s', .lost ?_ hr, hs⟩
    rw [Option.eq_none_iff_forall_ne_some]
    intro w hm'
    obtain ⟨found, hfound, -⟩ := ahead hm hm'
    rw [hr] at hfound
    cases hfound
  | @data v hm hr hv =>
    cases hm' : s'.memo.find? name with
    | none => exact ⟨_, .data hm' hr hv, hs.writer, hs.tally, hs.log, hkeeps, hs.memo.insert name v⟩
    | some w =>
      obtain ⟨found, hfound, hidles⟩ := ahead hm hm'
      obtain rfl : v = found := Except.ok.inj (hr.symm.trans hfound)
      cases hidles with
      | method hnothing identity items => cases hv
      | self _ =>
        exact ⟨s', .known hm', hs.writer, hs.tally, hs.log, hkeeps, hs.memo.insert_left hm'⟩
  | @refused m identity items e t hm hr hp =>
    refine ⟨{ s' with tally := t }, .refused ?_ hr (hs.tally ▸ hp), hs.writer, rfl, hs.log, hkeeps,
      hs.memo⟩
    rw [Option.eq_none_iff_forall_ne_some]
    intro w hm'
    obtain ⟨found, hfound, hidles⟩ := ahead hm hm'
    obtain rfl := Except.ok.inj (hr.symm.trans hfound)
    cases hidles with
    | self h => cases h
    | method hnothing _ _ =>
      rw [SetMethod.perform_of_nothing hnothing] at hp
      cases hp
  | @called m identity items v t hm hr hp =>
    cases hm' : s'.memo.find? name with
    | none =>
      exact ⟨_, .called hm' hr (hs.tally ▸ hp), hs.writer, rfl, hs.log, hkeeps,
        hs.memo.insert name v⟩
    | some w =>
      obtain ⟨found, hfound, hidles⟩ := ahead hm hm'
      obtain rfl := Except.ok.inj (hr.symm.trans hfound)
      cases hidles with
      | self h => cases h
      | method hnothing _ _ =>
        rw [SetMethod.perform_of_nothing hnothing] at hp
        cases hp
        exact ⟨s', .known hm', hs.writer, hs.tally, hs.log, hkeeps, hs.memo.insert_left hm'⟩

end Render

/-! ## Going on side by side -/

namespace Judgement

/-- From two states side by side, the computation comes to the same result, one as `Q` says, and to
states side by side. -/
structure Steadies {α : Type} (scope : Scope) (m : Render Writer α) (Q : α → Prop)
    (s s' : State Writer) : Prop where
  result : (m.runFrom s').1 = (m.runFrom s).1
  holds : ∀ a, (m.runFrom s).1 = .ok a → Q a
  beside : State.Beside scope (m.runFrom s).2 (m.runFrom s').2

/-- The computation does not depend on what is remembered ahead. -/
def steady : Judgement Writer := fun _ scope m Q =>
  ∀ s s', State.Beside scope s s' → Steadies scope m Q s s'

variable {settings : Settings} {scope : Scope} {α β : Type}

theorem steady_pure {a : α} {Q : α → Prop} (h : Q a) : steady α scope (pure a) Q := by
  intro s s' hs
  refine ⟨rfl, ?_, hs⟩
  rintro _ ⟨⟩
  exact h

theorem steady_throw (e : Error) (Q : α → Prop) : steady α scope (throw e) Q :=
  fun _ _ hs => ⟨rfl, nofun, hs⟩

theorem steady_bind {m : Render Writer α} {k : α → Render Writer β} {Q : α → Prop} {R : β → Prop}
    (h : steady α scope m Q) (hk : ∀ a, Q a → steady β scope (k a) R) :
    steady β scope (m >>= k) R := by
  intro s s' hs
  obtain ⟨hresult, hholds, hbeside⟩ := h s s' hs
  rcases hr : m.runFrom s with ⟨x, s₁⟩
  rcases hr' : m.runFrom s' with ⟨x', s₁'⟩
  rw [hr, hr'] at hresult hbeside
  rw [hr] at hholds
  cases hresult
  cases x with
  | error e =>
    have hleft : (m >>= k).runFrom s = (.error e, s₁) := by rw [runFrom_bind, hr]
    have hright : (m >>= k).runFrom s' = (.error e, s₁') := by rw [runFrom_bind, hr']
    constructor
    · rw [hleft, hright]
    · rw [hleft]
      nofun
    · rw [hleft, hright]
      exact hbeside
  | ok a =>
    have hleft : (m >>= k).runFrom s = (k a).runFrom s₁ := by rw [runFrom_bind, hr]
    have hright : (m >>= k).runFrom s' = (k a).runFrom s₁' := by rw [runFrom_bind, hr']
    obtain ⟨hresult₂, hholds₂, hbeside₂⟩ := hk a (hholds a rfl) s₁ s₁' hbeside
    constructor
    · rw [hleft, hright]
      exact hresult₂
    · rw [hleft]
      exact hholds₂
    · rw [hleft, hright]
      exact hbeside₂

/-- A computation that changes nothing but the writer, by what the writer and the tally are. -/
theorem steady_of_writer {m : Render Writer α} {f : Writer → Tally → Except Error α × Writer}
    {Q : α → Prop}
    (h : ∀ s, m.runFrom s =
      ((f s.writer s.tally).1, { s with writer := (f s.writer s.tally).2 }))
    (hQ : ∀ w t a, (f w t).1 = .ok a → Q a) : steady α scope m Q := by
  intro s s' hs
  constructor
  · rw [h s, h s', hs.writer, hs.tally]
  · rw [h s]
    exact hQ s.writer s.tally
  · rw [h s, h s']
    exact ⟨by rw [hs.writer, hs.tally], hs.tally, hs.log, ⟨trivial, hs.keeps.memo⟩, hs.memo⟩

theorem covers_steady (settings : Settings) (n : Nat) :
    steady.Covers (Render.deeper settings n) Scope.IsPlain (fun v => v.isPlain = true)
      fun _ => True where
  uncallable _ := Value.isCallable_of_isData
  items _ := Value.isData_items
  push _ _ hscope hv := hscope.push hv
  result _ _ _ := steady_pure
  andThen _ _ _ _ _ := steady_bind
  inChild scope v m Q h s s' hs := by
    have hinside : State.Beside (scope.push v) { s with memo := ∅ } { s' with memo := ∅ } :=
      ⟨hs.writer, hs.tally, hs.log, keeps_of_empty trivial rfl, .refl _ ∅⟩
    obtain ⟨hresult, hholds, hbeside⟩ := h _ _ hinside
    exact ⟨hresult, hholds, hbeside.writer, hbeside.tally, hbeside.log, ⟨trivial, hs.keeps.memo⟩,
      hs.memo⟩
  lookup scope name hscope _ s s' hs := by
    obtain ⟨r, s₁, hlooked⟩ := exists_looked hscope name s
    obtain ⟨s₁', hlooked', hbeside⟩ := hlooked.beside hscope hs
    constructor
    · rw [hlooked.eq settings n, hlooked'.eq settings n]
    · rw [hlooked.eq settings n]
      exact (hlooked.keeps hscope hs.keeps).2
    · rwa [hlooked.eq settings n, hlooked'.eq settings n]
  current _ v hv := steady_of_writer (f := fun w t => (.ok (v.current t), w)) (fun _ => rfl) <| by
    rintro w t _ ⟨⟩
    exact Value.isData_current v hv
  shown _ v _ :=
    steady_of_writer (f := fun w t => (shown (v.current t), w)) (fun _ => rfl)
      fun _ _ _ _ => trivial
  escape _ text :=
    steady_of_writer (f := fun w _ => (.ok ((Render.deeper settings n).escape w text), w))
      (fun _ => rfl) fun _ _ _ _ => trivial

theorem steady_supply (settings : Settings) (scope : Scope) (name : String) :
    steady (Option Compiled) scope (supply settings name) fun _ => True := by
  intro s s' hs
  have hstate : s' = { s with memo := s'.memo } := by
    rw [← hs.writer, ← hs.log, ← hs.tally]
  obtain ⟨r, s₁, hfetched⟩ := exists_fetched settings name s
  have hbeside := hfetched.beside s'.memo
  rw [← hstate] at hbeside
  refine ⟨?_, fun _ _ => trivial, ?_⟩
  · rw [hfetched.supply_eq, hbeside.supply_eq]
  · rw [hfetched.supply_eq, hbeside.supply_eq]
    obtain ⟨hmemo, -⟩ := hfetched.same
    exact ⟨rfl, rfl, rfl, ⟨trivial, fun key v hv => hs.keeps.memo key v (hmemo ▸ hv)⟩,
      hmemo ▸ hs.memo⟩

theorem steady_register (settings : Settings) (scope : Scope) (name t : String) :
    steady Unit scope (register settings name t) fun _ => True := by
  refine steady_of_writer (f := fun w _ => match w.compile settings.delimiters t with
    | .error e => (.error (.template e), w)
    | .ok given => (.ok (), { given.2 with partials := given.2.partials.insert name given.1 }))
    (fun s => ?_) fun _ _ _ _ => trivial
  cases hc : s.writer.compile settings.delimiters t with
  | error e => rw [runFrom_register_error hc]
  | ok given => rw [runFrom_register_ok hc]

theorem steady_accept (settings : Settings) (scope : Scope) (partials : Partials) :
    steady Unit scope (accept settings partials) fun _ => True := by
  cases partials with
  | none => exact steady_pure trivial
  | loader l =>
    exact steady_of_writer (f := fun w _ => (.ok (), { w with loader := some l })) (fun _ => rfl)
      fun _ _ _ _ => trivial
  | named entries =>
    induction entries with
    | nil => exact steady_pure trivial
    | cons entry entries ih =>
      exact steady_bind (steady_register settings scope entry.1 entry.2) fun _ _ => ih

/-- **Calling a function does not depend on what is remembered ahead.** -/
theorem steady_call (settings : Settings) (limit : Nat) (c : Compiled) (partials : Partials)
    (hscope : scope.IsPlain) :
    steady String scope (call settings limit c partials scope) fun _ => True := by
  refine steady_bind (steady_accept settings scope partials) fun _ _ => ?_
  exact Covers.deeper (covers_steady settings) (fun _ => steady_throw .tooDeep _)
    (steady_supply settings) limit hscope c.template c.nodes

/-- **Rendering does not depend on what is remembered ahead.** -/
theorem steady_template (settings : Settings) (limit : Nat) (text : String) (partials : Partials)
    (hscope : scope.IsPlain) :
    steady String scope (template settings limit text partials scope) fun _ => True := by
  refine steady_bind (Q := fun _ => True) ?_ fun c _ => steady_call settings limit c partials hscope
  refine steady_of_writer (f := fun w _ => match w.compile settings.delimiters text with
    | .error e => (.error (.template e), w)
    | .ok given => (.ok given.1, given.2)) (fun s => ?_) fun _ _ _ _ => trivial
  cases hc : s.writer.compile settings.delimiters text with
  | error e => rw [runFrom_compile_error hc]
  | ok given => rw [runFrom_compile_ok hc]

end Judgement

/-! ## A way of escaping of one's own -/

namespace Writer

variable {settings : Settings}

/-- Nothing that rendering does takes a writer its own way of escaping. -/
theorem lasting_ownEscape (settings : Settings) :
    Lasting settings fun w => w.escape.isSome = true where
  compile w t c w' h hc := by
    rw [(same_of_compile hc).1]
    exact h
  load w name l t c w' h _ _ hc := by
    show w'.escape.isSome = true
    rw [(same_of_compile hc).1]
    exact h
  blank _ _ h := h

/-- On every level, a writer with a way of escaping of its own does the same whatever the one for
all is. -/
theorem alike_deeper_ownEscape (settings : Settings) (f : String → String) (n : Nat) :
    (deeper settings n).Alike (Same fun w => w.escape.isSome = true)
      (deeper { settings with escape := f } n) := by
  have escape (n : Nat) (w w' : Writer) (hw : Same (fun w => w.escape.isSome = true) w w') :
      (deeper settings n).escape w = (deeper { settings with escape := f } n).escape w' := by
    obtain ⟨rfl, hown⟩ := hw
    obtain ⟨g, hg⟩ := Option.isSome_iff_exists.1 hown
    rw [deeper_escape, deeper_escape, escaping, escaping, hg]
    rfl
  induction n with
  | zero => exact ⟨escape 0, fun _ => agree_applyFlat, fun _ _ => agree_throw _⟩
  | succ n ih =>
    have h := lasting_ownEscape settings
    refine ⟨escape (n + 1), fun scope callee args => ?_,
      fun scope name => h.agree_expand ih scope name⟩
    exact agree_apply ih (h.agree_sourceText ih scope) scope callee args

end Writer

namespace Render

variable {settings : Settings} {s : State Writer} {scope : Scope} {α : Type}

/-- What agrees on one and the same writer does the same. -/
theorem runFrom_eq_of_agree {I : Writer → Prop} {m m' : Render Writer α}
    (h : Agree (Writer.Same I) Eq m m') (hs : I s.writer) : m.runFrom s = m'.runFrom s := by
  obtain ⟨hresult, hstore, hmemo, htally, hlog⟩ := h s s ⟨⟨rfl, hs⟩, rfl, rfl, rfl⟩
  rcases hr : m.runFrom s with ⟨x, w, memo, tally, log⟩
  rcases hr' : m'.runFrom s with ⟨x', w', memo', tally', log'⟩
  rw [hr, hr'] at hresult hstore hmemo htally hlog
  obtain rfl := hresult.eq
  obtain rfl := hstore.1
  cases hmemo
  cases htally
  cases hlog
  rfl

theorem agree_register_ownEscape (settings : Settings) (name t : String) :
    Agree (Writer.Same fun w => w.escape.isSome = true) Eq (register settings name t)
      (register settings name t) := by
  refine Writer.agree_same fun s hs => ?_
  cases hc : s.writer.compile settings.delimiters t with
  | error e =>
    rw [runFrom_register_error hc]
    exact hs
  | ok given =>
    rw [runFrom_register_ok hc]
    show given.2.escape.isSome = true
    rw [(Writer.same_of_compile hc).1]
    exact hs

theorem agree_accept_ownEscape (settings : Settings) (partials : Partials) :
    Agree (Writer.Same fun w => w.escape.isSome = true) Eq (accept settings partials)
      (accept settings partials) := by
  cases partials with
  | none => exact agree_pure rfl
  | loader l => exact Writer.agree_same fun _ hs => hs
  | named entries =>
    induction entries with
    | nil => exact agree_pure rfl
    | cons entry entries ih =>
      exact (agree_register_ownEscape settings entry.1 entry.2).bindEq fun _ => ih

/-- With a way of escaping of its own, a writer calls a function the same whatever the one for all
is. -/
theorem agree_call_ownEscape (settings : Settings) (f : String → String) (limit : Nat)
    (c : Compiled) (partials : Partials) (scope : Scope) :
    Agree (Writer.Same fun w => w.escape.isSome = true) Eq (call settings limit c partials scope)
      (call { settings with escape := f } limit c partials scope) := by
  refine (agree_accept_ownEscape settings partials).bindEq fun _ => ?_
  exact Node.agree_renderAll (Writer.alike_deeper_ownEscape settings f limit) c.template scope
    c.nodes

/-- **With a way of escaping of its own,** a writer renders the same whatever the one for all is. -/
theorem agree_template_ownEscape (settings : Settings) (f : String → String) (limit : Nat)
    (text : String) (partials : Partials) (scope : Scope) :
    Agree (Writer.Same fun w => w.escape.isSome = true) Eq
      (template settings limit text partials scope)
      (template { settings with escape := f } limit text partials scope) :=
  ((Writer.lasting_ownEscape settings).agree_compile text).bindEq fun c =>
    agree_call_ownEscape settings f limit c partials scope

end Render

end Mustache
