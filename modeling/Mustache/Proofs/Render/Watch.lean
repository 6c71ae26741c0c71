import Mustache.Proofs.Render.Supply

/-!
# A watch over rendering

Names are looked up in many contexts: those of a session, and those that sections make for the
values that they go through. Partials are looked for in many places, and the loader is asked for
some of them. A watch notes all this as it happens: each look in its context, and each dealing with
the writer's partials and its loader. Contexts are told apart by numbers, in the order in which they
are made.

Rendering with a watch is rendering, and noting besides.

**Idea.** The watch takes the place of the writer in the state, and has the writer in it. What it
notes is noted where a name is answered, a context is made, a partial tag is come to and a partial
is looked for or taken over (`Watch.notes`). These notes are silent, so leaving them out of what a
watch saw gives what happens without one.

Main statements: `Watch.silent`, `Watch.agree_accept` and `Watch.runFrom_fetch`.
-/

namespace Mustache

open Render

/-- What happens in contexts. -/
inductive Look
  /-- A callable is called for a name in a context. This is noted before it is done. -/
  | calling (context : Nat) (name : String) (callee : Value)
  /-- A name was looked up in a context: in what way, and what that came to. -/
  | looked (context : Nat) (name : String) (way : Way) (result : Except Error Value)
  /-- A context was made to forget. -/
  | forgot (context : Nat)

/-- What a loader says when it is asked for a partial. -/
inductive Reply
  | failed (e : Error)
  | absent
  /-- It gave a template that cannot be read with the delimiters that are meant. -/
  | unreadable (template : String) (delimiters : Delimiters.Spec)
  /-- It gave a template, which was made the partial. -/
  | loaded (template : String)

/-- What looking for a partial comes to. -/
inductive Finding
  | known
  /-- The partial is not known, and there is no loader. -/
  | unasked
  | asked (loader : Loader) (reply : Reply)

/-- What is done about the partials of a writer. -/
inductive Dealing
  /-- A loader was put in the place of the one before. -/
  | given (loader : Loader)
  /-- A template was made the partial of a name. -/
  | registered (name template : String)
  /-- A partial tag of the name was come to. -/
  | came (name : String)
  /-- The partial of the name was looked for. -/
  | sought (name : String) (finding : Finding)
  | cleared

/-- A writer, and what was seen of it and of the contexts: the number of the context at hand, the
scopes of all contexts by their numbers, and the notes, the last one first. -/
structure Watch where
  writer : Writer
  here : Nat
  scopes : List Scope
  looks : List Look
  past : List Dealing

namespace Watch

variable {α : Type}

/-! ## Notes -/

/-- Does with the writer what a computation does. -/
def onWriter (act : Render Writer α) : Render Watch α := fun s =>
  let (result, left) := act.runFrom ⟨s.writer.writer, s.memo, s.tally, s.log⟩
  (result, ⟨{ s.writer with writer := left.writer }, left.memo, left.tally, left.log⟩)

/-- The watch with a dealing noted. -/
def dealt (x : Watch) (d : Dealing) : Watch := { x with past := d :: x.past }

/-- Notes a dealing, whatever comes of it. -/
def noting (d : Except Error Unit → Dealing) (act : Render Watch Unit) : Render Watch Unit :=
  fun s =>
  let (result, left) := act.runFrom s
  (result, { left with writer := left.writer.dealt (d result) })

/-- The watch with a call noted that is made for a name in the context at hand, if this is the way
in which the name is answered. -/
def calling (x : Watch) (name : String) : Way → Watch
  | .called callee => { x with looks := .calling x.here name callee :: x.looks }
  | .remembered | .found => x

@[simp] theorem calling_writer (x : Watch) (name : String) (way : Way) :
    (x.calling name way).writer = x.writer := by
  cases way <;> rfl

@[simp] theorem calling_past (x : Watch) (name : String) (way : Way) :
    (x.calling name way).past = x.past := by
  cases way <;> rfl

/-- Answers a name in the context at hand, and notes in what way. A call is also noted before it is
made. -/
def looking (name : String) (way : Way) (act : Render Watch Value) : Render Watch Value := fun s =>
  let (result, left) := act.runFrom { s with writer := s.writer.calling name way }
  (result, { left with writer := { left.writer with
    looks := .looked left.writer.here name way result :: left.writer.looks } })

/-- Notes that a partial tag is come to. -/
def came (name : String) : Render Watch Unit :=
  modify fun s => { s with writer := s.writer.dealt (.came name) }

/-- Works in a context of its own with a scope, which is given the next number. -/
def inContext (scope : Scope) (act : Render Watch α) : Render Watch α := fun s =>
  let (result, left) := act.runFrom { s with
    writer := { s.writer with
      here := s.writer.scopes.length
      scopes := s.writer.scopes ++ [scope] } }
  (result, { left with writer := { left.writer with here := s.writer.here } })

/-- Makes a template the partial of a name, and notes it. -/
def register (settings : Settings) (name template : String) : Render Watch Unit := do
  onWriter (Render.register settings name template)
  modify fun s => { s with writer := s.writer.dealt (.registered name template) }

/-- Takes over the partials that are given, and notes them one by one. -/
def accept (settings : Settings) : Partials → Render Watch Unit
  | .none => pure ()
  | .named templates => templates.forM fun (name, template) => register settings name template
  | .loader loader =>
    noting (fun _ => .given loader) (onWriter (Render.accept settings (.loader loader)))

/-- What a template that the loader gave comes to: it is made the partial, unless it cannot be
read. -/
def replyOf (settings : Settings) (template : String) : Except Error Unit → Reply
  | .ok _ => .loaded template
  | .error _ => .unreadable template settings.delimiters

/-- Looks for the partial of a name, and notes what that comes to. -/
def fetch (settings : Settings) (name : String) : Render Watch Unit := do
  let w := (← get).writer.writer
  match w.partials.find? name, w.loader with
  | some _, _ => noting (fun _ => .sought name .known) (pure ())
  | none, none => noting (fun _ => .sought name .unasked) (pure ())
  | none, some loader =>
    record (.loaded name)
    let asked (reply : Reply) : Dealing := .sought name (.asked loader reply)
    match loader.load name with
    | .error e => noting (fun _ => asked (.failed e)) (throw e)
    | .ok none => noting (fun _ => asked .absent) (pure ())
    | .ok (some template) =>
      noting (fun result => asked (replyOf settings template result))
        (onWriter (Render.register settings name template))

/-- The partial that is put in for a name, if there is one. -/
def supply (settings : Settings) (name : String) : Render Watch (Option Compiled) := do
  fetch settings name
  return (← get).writer.writer.partials.find? name

/-- What a watch notes: answers to names, contexts that are made, partial tags, and dealings. -/
def notes : Notes Watch where
  escape settings x := x.writer.escaping settings
  compile settings t := onWriter (Render.compile settings t)
  blank settings v := onWriter (acceptBlank settings v)
  accept := accept
  supply := supply
  answer := looking
  child := inContext
  partialTag name act := do
    came name
    act

/-! ## Nothing but notes -/

/-- A watch is over a writer. -/
def Over (w : Writer) (x : Watch) : Prop := x.writer = w

variable {settings : Settings}

theorem agree_onWriter (act : Render Writer α) : Agree Over Eq act (onWriter act) := by
  intro s t hs
  obtain ⟨x, memo, tally, log⟩ := t
  obtain ⟨w, memo', tally', log'⟩ := s
  obtain ⟨hstore, hmemo, htally, hlog⟩ := hs
  cases hmemo
  cases htally
  cases hlog
  cases hstore
  exact ⟨SameResult.refl _, rfl, rfl, rfl, rfl⟩

theorem agree_noting {act : Render Writer Unit} {act' : Render Watch Unit}
    (h : Agree Over Eq act act') (d : Except Error Unit → Dealing) :
    Agree Over Eq act (noting d act') := by
  intro s t hs
  obtain ⟨hresult, hleft⟩ := h s t hs
  exact ⟨hresult, hleft.store, hleft.memo, hleft.tally, hleft.log⟩

theorem around_looking (name : String) (way : Way) : Notes.Around Over (looking name way) := by
  intro act act' h s t hs
  have hstore : Over s.writer (t.writer.calling name way) := (calling_writer _ _ _).trans hs.store
  obtain ⟨hresult, hleft⟩ := h s { t with writer := t.writer.calling name way }
    ⟨hstore, hs.memo, hs.tally, hs.log⟩
  exact ⟨hresult, hleft.store, hleft.memo, hleft.tally, hleft.log⟩

theorem around_inContext (scope : Scope) : Notes.Around Over (inContext (α := String) scope) := by
  intro act act' h s t hs
  obtain ⟨hresult, hleft⟩ := h s { t with
    writer := { t.writer with
      here := t.writer.scopes.length
      scopes := t.writer.scopes ++ [scope] } } ⟨hs.store, hs.memo, hs.tally, hs.log⟩
  exact ⟨hresult, hleft.store, hleft.memo, hleft.tally, hleft.log⟩

theorem agree_register (name t : String) :
    Agree Over Eq (Render.register settings name t) (register settings name t) := by
  intro s s' hs
  obtain ⟨hresult, hleft⟩ := agree_onWriter (Render.register settings name t) s s' hs
  unfold register
  rw [runFrom_bind]
  rcases hr : (Render.register settings name t).runFrom s with ⟨x, s₁⟩
  rcases hr' : (onWriter (Render.register settings name t)).runFrom s' with ⟨x', s₁'⟩
  rw [hr, hr'] at hresult hleft
  cases hresult with
  | error e => exact ⟨.error e, hleft⟩
  | ok _ => exact ⟨.ok rfl, hleft.store, hleft.memo, hleft.tally, hleft.log⟩

/-- **Taking over partials with a watch is taking them over.** -/
theorem agree_accept (settings : Settings) (partials : Partials) :
    Agree Over Eq (Render.accept settings partials) (accept settings partials) := by
  cases partials with
  | none => exact agree_pure rfl
  | loader loader => exact agree_noting (agree_onWriter _) _
  | named templates =>
    induction templates with
    | nil => exact agree_pure rfl
    | cons entry templates ih => exact (agree_register entry.1 entry.2).bindEq fun _ => ih

theorem agree_fetch (name : String) :
    Agree Over Eq (Render.fetch settings name) (fetch settings name) := by
  refine agree_get_bind fun s t hs => ?_
  have hw : t.writer.writer = s.writer := hs.store
  dsimp only
  rw [hw]
  cases s.writer.partials.find? name with
  | some c => exact agree_noting (agree_pure rfl) _
  | none =>
    cases s.writer.loader with
    | none => exact agree_noting (agree_pure rfl) _
    | some loader =>
      refine (agree_record _).bindEq fun _ => ?_
      cases loader.load name with
      | error e => exact agree_noting (agree_throw e) _
      | ok found =>
        cases found with
        | none => exact agree_noting (agree_pure rfl) _
        | some template => exact agree_noting (agree_onWriter _) _

theorem agree_supply (name : String) :
    Agree Over Eq (Render.supply settings name) (supply settings name) := by
  refine (agree_fetch name).bindEq fun _ => agree_get_bind fun s t hs => ?_
  rw [show t.writer.writer = s.writer from hs.store]
  exact agree_pure rfl

/-- **What a watch sees is seen of rendering,** which does not change for it. -/
theorem silent (settings : Settings) : notes.Silent settings Over where
  escape w x hx := by
    show w.escaping settings = x.writer.escaping settings
    rw [show x.writer = w from hx]
  compile t := agree_onWriter _
  blank v := agree_onWriter _
  supply := agree_supply
  tree _ := Notes.around_id _
  node _ _ := Notes.around_id _
  sectionName _ := Notes.around_id _
  answer := around_looking
  child := around_inContext
  partialTag name _ _ h := fun s _ hs => h s _ ⟨hs.store, hs.memo, hs.tally, hs.log⟩
  call _ _ := Notes.around_id _

/-! ## What is noted -/

variable {s : State Watch} {name t : String}

theorem runFrom_noting (d : Except Error Unit → Dealing) (act : Render Watch Unit)
    (s : State Watch) : (noting d act).runFrom s = ((act.runFrom s).1, { (act.runFrom s).2 with
      writer := (act.runFrom s).2.writer.dealt (d (act.runFrom s).1) }) := rfl

theorem runFrom_compile_error {e : TemplateError}
    (h : s.writer.writer.compile settings.delimiters t = .error e) :
    (onWriter (Render.compile settings t)).runFrom s = (.error (.template e), s) := by
  show onWriter (Render.compile settings t) s = _
  rw [onWriter, Render.runFrom_compile_error h]

theorem runFrom_compile_ok {given : Compiled × Writer}
    (h : s.writer.writer.compile settings.delimiters t = .ok given) :
    (onWriter (Render.compile settings t)).runFrom s =
      (.ok given.1, { s with writer := { s.writer with writer := given.2 } }) := by
  show onWriter (Render.compile settings t) s = _
  rw [onWriter, Render.runFrom_compile_ok h]

theorem runFrom_onWriter_register_error {e : TemplateError}
    (h : s.writer.writer.compile settings.delimiters t = .error e) :
    (onWriter (Render.register settings name t)).runFrom s = (.error (.template e), s) := by
  show onWriter (Render.register settings name t) s = _
  rw [onWriter, Render.runFrom_register_error h]

theorem runFrom_onWriter_register_ok {given : Compiled × Writer}
    (h : s.writer.writer.compile settings.delimiters t = .ok given) :
    (onWriter (Render.register settings name t)).runFrom s = (.ok (), { s with
      writer := { s.writer with
        writer := { given.2 with partials := given.2.partials.insert name given.1 } } }) := by
  show onWriter (Render.register settings name t) s = _
  rw [onWriter, Render.runFrom_register_ok h]

theorem runFrom_register_error {e : TemplateError}
    (h : s.writer.writer.compile settings.delimiters t = .error e) :
    (register settings name t).runFrom s = (.error (.template e), s) := by
  rw [register, runFrom_bind, runFrom_onWriter_register_error h]

theorem runFrom_register_ok {given : Compiled × Writer}
    (h : s.writer.writer.compile settings.delimiters t = .ok given) :
    (register settings name t).runFrom s = (.ok (), { s with
      writer := { s.writer with
        writer := { given.2 with partials := given.2.partials.insert name given.1 }
        past := .registered name t :: s.writer.past } }) := by
  rw [register, runFrom_bind, runFrom_onWriter_register_ok h]
  rfl

/-- What looking for a partial comes to, by what the writer knows and its loader says; and what it
leaves of the writer. -/
inductive Found (settings : Settings) (name : String) (w : Writer) : Finding → Writer → Prop
  | known {c : Compiled} (hp : w.partials.find? name = some c) : Found settings name w .known w
  | unasked (hp : w.partials.find? name = none) (hl : w.loader = none) :
      Found settings name w .unasked w
  | failed {l : Loader} {e : Error} (hp : w.partials.find? name = none)
      (hl : w.loader = some l) (hload : l.load name = .error e) :
      Found settings name w (.asked l (.failed e)) w
  | absent {l : Loader} (hp : w.partials.find? name = none)
      (hl : w.loader = some l) (hload : l.load name = .ok none) :
      Found settings name w (.asked l .absent) w
  | unreadable {l : Loader} {t : String} {e : TemplateError}
      (hp : w.partials.find? name = none) (hl : w.loader = some l)
      (hload : l.load name = .ok (some t)) (hc : w.compile settings.delimiters t = .error e) :
      Found settings name w (.asked l (.unreadable t settings.delimiters)) w
  | loaded {l : Loader} {t : String} {given : Compiled × Writer}
      (hp : w.partials.find? name = none) (hl : w.loader = some l)
      (hload : l.load name = .ok (some t)) (hc : w.compile settings.delimiters t = .ok given) :
      Found settings name w (.asked l (.loaded t))
        { given.2 with partials := given.2.partials.insert name given.1 }

/-- The questions that are put to a loader. -/
def questions (name : String) : Finding → List Event
  | .known | .unasked => []
  | .asked _ _ => [.loaded name]

/-- **Looking for a partial is noted,** with what it comes to. -/
theorem runFrom_fetch (settings : Settings) (name : String) (s : State Watch) :
    ∃ r finding w, Found settings name s.writer.writer finding w ∧
      (fetch settings name).runFrom s = (r, { s with
        writer := { s.writer with writer := w, past := .sought name finding :: s.writer.past }
        log := s.log ++ questions name finding }) := by
  have quiet : s.log = s.log ++ [] := (List.append_nil _).symm
  rw [fetch, runFrom_get_bind]
  dsimp only
  cases hp : s.writer.writer.partials.find? name with
  | some c =>
    refine ⟨.ok (), .known, _, .known hp, ?_⟩
    rw [questions, ← quiet]
    rfl
  | none =>
    cases hl : s.writer.writer.loader with
    | none =>
      refine ⟨.ok (), .unasked, _, .unasked hp hl, ?_⟩
      rw [questions, ← quiet]
      rfl
    | some l =>
      dsimp only
      cases hload : l.load name with
      | error e => exact ⟨.error e, _, _, .failed hp hl hload, rfl⟩
      | ok found =>
        cases found with
        | none => exact ⟨.ok (), _, _, .absent hp hl hload, rfl⟩
        | some t =>
          have step (act : Render Watch Unit) : (record (.loaded name) >>= fun _ => act).runFrom s =
              act.runFrom (s.recorded (.loaded name)) := runFrom_bind _ _ s
          rw [step]
          cases hc : s.writer.writer.compile settings.delimiters t with
          | error e =>
            refine ⟨.error (.template e), _, _, .unreadable hp hl hload hc, ?_⟩
            dsimp only
            rw [runFrom_noting, runFrom_onWriter_register_error (s := s.recorded (.loaded name)) hc]
            rfl
          | ok given =>
            refine ⟨.ok (), _, _, .loaded hp hl hload hc, ?_⟩
            dsimp only
            rw [runFrom_noting, runFrom_onWriter_register_ok (s := s.recorded (.loaded name)) hc]
            rfl

end Watch

end Mustache
