import Mustache.Proofs.Render.Leads
import Mustache.Proofs.Render.Notes
import Mustache.Proofs.Render.Refinement

/-!
# Chronicles

A writer comes to know templates in many places: when it is asked to compile one, when one is
rendered, when partials are given or loaded, and when a function renders its section's source. A
chronicle is a writer together with all that was done with it, in whatever place: each deed, with
the writer as it was right after it.

Rendering with a chronicle is rendering with its writer, and noting the deeds besides. Nothing is
noted of what fails.

**Idea.** The chronicle of a writer may be thought along with it (`Tells`), with a property that all
deeds keep (`Stable`). Every operation on the writer agrees with the one on the chronicle, so these
notes are silent, and all rendering keeps the property.

Main statements: `Chronicle.Stable.silent` and `Chronicle.holds_of_agree`.
-/

namespace Mustache

open Render

/-- What is done with what a writer knows. -/
inductive Deed
  /-- A template was compiled with some delimiters, which gave a function, new or known. -/
  | compile (template : String) (delimiters : Delimiters.Spec) (given : Compiled)
  /-- A value that is no text was taken for an empty template. -/
  | blank (v : Value) (delimiters : Delimiters.Spec)
  /-- A template was made the partial of a name. -/
  | register (name template : String)
  /-- A function was made of a tree, and not kept. -/
  | assemble (given : Compiled)
  | clear

/-- A deed, and the writer right after it. -/
structure Moment where
  deed : Deed
  writer : Writer

/-- A writer, and what was done with it, the last deed first. -/
structure Chronicle where
  writer : Writer
  past : List Moment

namespace Render

variable {settings : Settings} {s : State Writer} {t : String}

theorem runFrom_compile_error {e : TemplateError}
    (h : s.writer.compile settings.delimiters t = .error e) :
    (compile settings t).runFrom s = (.error (.template e), s) := by
  rw [compile, runFrom_get_bind, h]
  rfl

theorem runFrom_compile_ok {given : Compiled × Writer}
    (h : s.writer.compile settings.delimiters t = .ok given) :
    (compile settings t).runFrom s = (.ok given.1, { s with writer := given.2 }) := by
  rw [compile, runFrom_get_bind, h]
  rfl

theorem runFrom_register_error {name : String} {e : TemplateError}
    (h : s.writer.compile settings.delimiters t = .error e) :
    (register settings name t).runFrom s = (.error (.template e), s) := by
  rw [register, runFrom_get_bind, Writer.compilePartial, h]
  rfl

theorem runFrom_register_ok {name : String} {given : Compiled × Writer}
    (h : s.writer.compile settings.delimiters t = .ok given) :
    (register settings name t).runFrom s = (.ok (), { s with
      writer := { given.2 with partials := given.2.partials.insert name given.1 } }) := by
  rw [register, runFrom_get_bind, Writer.compilePartial, h]
  rfl

end Render

namespace Chronicle

variable {α : Type}

/-- The chronicle with a deed noted. -/
def note (ch : Chronicle) (d : Deed) : Chronicle := { ch with past := ⟨d, ch.writer⟩ :: ch.past }

/-- The chronicle with its writer changed. -/
def withWriter (ch : Chronicle) (w : Writer) : Chronicle := { ch with writer := w }

/-- The chronicle with a template made the partial of a name. -/
def registered (ch : Chronicle) (name t : String) (c : Compiled) : Chronicle :=
  (ch.withWriter { ch.writer with partials := ch.writer.partials.insert name c }).note
    (.register name t)

/-- The chronicle with the loader put in the place of the one before. -/
def withLoader (ch : Chronicle) (loader : Loader) : Chronicle :=
  ch.withWriter { ch.writer with loader := some loader }

/-! ## Rendering with a chronicle -/

/-- The chronicle after something was done that left another writer, noted if it did not fail. -/
def noted (ch : Chronicle) (deed : α → Deed) (w : Writer) : Except Error α → Chronicle
  | .ok a => (ch.withWriter w).note (deed a)
  | .error _ => ch.withWriter w

theorem writer_noted (ch : Chronicle) (deed : α → Deed) (w : Writer) (r : Except Error α) :
    (ch.noted deed w r).writer = w := by
  cases r <;> rfl

/-- Does with the writer what a computation does with it, and notes the deed. -/
def noting (deed : α → Deed) (act : Render Writer α) : Render Chronicle α := fun s =>
  let (result, left) := act.runFrom ⟨s.writer.writer, s.memo, s.tally, s.log⟩
  (result, ⟨s.writer.noted deed left.writer result, left.memo, left.tally, left.log⟩)

/-- Compiles a template, and notes it. -/
def compile (settings : Settings) (template : String) : Render Chronicle Compiled :=
  noting (.compile template settings.delimiters) (Render.compile settings template)

/-- Makes a template the partial of a name, and notes it. -/
def register (settings : Settings) (name template : String) : Render Chronicle Unit := do
  let c ← compile settings template
  modify fun s => { s with writer := s.writer.registered name template c }

/-- Takes over the partials that are given. A loader that is put in place is not noted. -/
def accept (settings : Settings) : Partials → Render Chronicle Unit
  | .none => pure ()
  | .named templates => templates.forM fun (name, template) => register settings name template
  | .loader loader => modify fun s => { s with writer := s.writer.withLoader loader }

/-- Asks the loader for a partial that is not known. What it gives is noted. -/
def fetch (settings : Settings) (name : String) : Render Chronicle Unit := do
  let w := (← get).writer.writer
  match w.partials.find? name, w.loader with
  | none, some loader =>
    Render.record (.loaded name)
    match ← Render.ofExcept (loader.load name) with
    | none => return ()
    | some template => register settings name template
  | _, _ => return ()

/-- Takes a value that is no text for a template, and notes it. -/
def acceptBlank (settings : Settings) (v : Value) : Render Chronicle Unit :=
  noting (fun _ => .blank v settings.delimiters) (Render.acceptBlank settings v)

/-- The partial that is put in for a name, if there is one. -/
def supply (settings : Settings) (name : String) : Render Chronicle (Option Compiled) := do
  fetch settings name
  return (← get).writer.writer.partials.find? name

/-- A chronicle notes what is done with its writer, and nothing else. -/
def notes : Notes Chronicle where
  escape settings ch := ch.writer.escaping settings
  compile := compile
  blank := acceptBlank
  accept := accept
  supply := supply

/-! ## Properties that all deeds keep -/

/-- A property of chronicles that compiling, registering and taking a value for an empty template
keep. -/
structure Stable (settings : Settings) (I : Chronicle → Prop) : Prop where
  compiled : ∀ ch t c w, I ch → ch.writer.compile settings.delimiters t = .ok (c, w) →
    I ((ch.withWriter w).note (.compile t settings.delimiters c))
  registered : ∀ ch name t c, I ch → ch.writer.templates.find? t = some c →
    I (ch.registered name t c)
  blank : ∀ ch v, I ch → v.size? = some 0 → (∃ d, settings.delimiters.delimiters = .ok d) →
    I ((ch.withWriter (ch.writer.keepBlank v)).note (.blank v settings.delimiters))
  knownBlank : ∀ ch v, I ch → ch.writer.knowsBlank v = true →
    I (ch.note (.blank v settings.delimiters))

/-- A property that putting the loader in place keeps, if partials are given as one. -/
def Welcomes (I : Chronicle → Prop) (partials : Partials) : Prop :=
  ∀ loader, partials = .loader loader → ∀ ch, I ch → I (ch.withLoader loader)

/-- A chronicle is one of a writer, and has a property. -/
structure Tells (I : Chronicle → Prop) (w : Writer) (ch : Chronicle) : Prop where
  writer : ch.writer = w
  holds : I ch

variable {settings : Settings} {I : Chronicle → Prop}

/-! ### Single operations -/

theorem runFrom_noting {deed : α → Deed} {act : Render Writer α} {s : State Chronicle}
    {r : Except Error α} {left : State Writer}
    (h : act.runFrom ⟨s.writer.writer, s.memo, s.tally, s.log⟩ = (r, left)) :
    (noting deed act).runFrom s =
      (r, ⟨s.writer.noted deed left.writer r, left.memo, left.tally, left.log⟩) := by
  show (let (result, left) := act.runFrom ⟨s.writer.writer, s.memo, s.tally, s.log⟩
    (result, (⟨s.writer.noted deed left.writer result, left.memo, left.tally, left.log⟩ :
      State Chronicle))) = _
  rw [h]

theorem runFrom_compile_error {s : State Chronicle} {t : String} {e : TemplateError}
    (h : s.writer.writer.compile settings.delimiters t = .error e) :
    (compile settings t).runFrom s = (.error (.template e), s) :=
  runFrom_noting (Render.runFrom_compile_error h)

theorem runFrom_compile_ok {s : State Chronicle} {t : String} {given : Compiled × Writer}
    (h : s.writer.writer.compile settings.delimiters t = .ok given) :
    (compile settings t).runFrom s = (.ok given.1, { s with
      writer := (s.writer.withWriter given.2).note (.compile t settings.delimiters given.1) }) :=
  runFrom_noting (Render.runFrom_compile_ok h)

theorem runFrom_register_error {s : State Chronicle} {name t : String} {e : TemplateError}
    (h : s.writer.writer.compile settings.delimiters t = .error e) :
    (register settings name t).runFrom s = (.error (.template e), s) := by
  rw [register, runFrom_bind, runFrom_compile_error h]

theorem runFrom_register_ok {s : State Chronicle} {name t : String} {given : Compiled × Writer}
    (h : s.writer.writer.compile settings.delimiters t = .ok given) :
    (register settings name t).runFrom s = (.ok (), { s with
      writer := ((s.writer.withWriter given.2).note
        (.compile t settings.delimiters given.1)).registered name t given.1 }) := by
  rw [register, runFrom_bind, runFrom_compile_ok h]
  rfl

/-- Noting does not change what a computation does. The property has to be kept by what it leaves.
-/
theorem agree_noting {deed : α → Deed} {act : Render Writer α}
    (h : ∀ ch, I ch →
      Leads (fun s => s.writer = ch.writer) act fun r s => I (ch.noted deed s.writer r)) :
    Agree (Tells I) Eq act (noting deed act) := by
  intro s s' hs
  have hstate : (⟨s'.writer.writer, s'.memo, s'.tally, s'.log⟩ : State Writer) = s := by
    rw [hs.store.writer, ← hs.memo, ← hs.tally, ← hs.log]
  have hleft := h s'.writer hs.store.holds s hs.store.writer.symm
  rcases hr : act.runFrom s with ⟨r, left⟩
  rw [hr] at hleft
  rw [runFrom_noting (hstate.symm ▸ hr)]
  exact ⟨SameResult.refl r, ⟨writer_noted _ _ _ _, hleft⟩, rfl, rfl, rfl⟩

theorem Stable.agree_compile (h : Stable settings I) (t : String) :
    Agree (Tells I) Eq (Render.compile settings t) (compile settings t) := by
  intro s s' hs
  cases hc : s'.writer.writer.compile settings.delimiters t with
  | error e =>
    rw [runFrom_compile_error hc, Render.runFrom_compile_error (hs.store.writer ▸ hc)]
    exact ⟨.error _, hs⟩
  | ok given =>
    rw [runFrom_compile_ok hc, Render.runFrom_compile_ok (hs.store.writer ▸ hc)]
    have hcompiled := h.compiled s'.writer t given.1 given.2 hs.store.holds hc
    exact ⟨.ok rfl, ⟨rfl, hcompiled⟩, hs.memo, hs.tally, hs.log⟩

theorem Stable.agree_register (h : Stable settings I) (name t : String) :
    Agree (Tells I) Eq (Render.register settings name t) (register settings name t) := by
  intro s s' hs
  cases hc : s'.writer.writer.compile settings.delimiters t with
  | error e =>
    rw [runFrom_register_error hc, Render.runFrom_register_error (hs.store.writer ▸ hc)]
    exact ⟨.error _, hs⟩
  | ok given =>
    rw [runFrom_register_ok hc, Render.runFrom_register_ok (hs.store.writer ▸ hc)]
    have hcompiled := h.compiled s'.writer t given.1 given.2 hs.store.holds hc
    exact ⟨.ok rfl, ⟨rfl, h.registered _ name t given.1 hcompiled (Writer.find?_of_compile hc)⟩,
      hs.memo, hs.tally, hs.log⟩

theorem Stable.agree_accept (h : Stable settings I) {partials : Partials}
    (hloader : Welcomes I partials) :
    Agree (Tells I) Eq (Render.accept settings partials) (accept settings partials) := by
  cases partials with
  | none => exact agree_pure rfl
  | named templates =>
    induction templates with
    | nil => exact agree_pure rfl
    | cons entry templates ih =>
      exact (h.agree_register entry.1 entry.2).bindEq fun _ => ih fun _ hl => nomatch hl
  | loader loader =>
    refine agree_modify fun s s' hs =>
      ⟨⟨?_, hloader loader rfl _ hs.store.holds⟩, hs.memo, hs.tally, hs.log⟩
    show { s'.writer.writer with loader := some loader } = _
    rw [hs.store.writer]

theorem Stable.agree_fetch (h : Stable settings I) (name : String) :
    Agree (Tells I) Eq (Render.fetch settings name) (fetch settings name) := by
  refine agree_get_bind fun s s' hs => ?_
  dsimp only
  rw [hs.store.writer]
  cases s.writer.partials.find? name with
  | some c => exact agree_pure rfl
  | none =>
    cases s.writer.loader with
    | none => exact agree_pure rfl
    | some loader =>
      refine (agree_record _).bindEq fun _ => (agree_ofExcept _).bindEq fun found => ?_
      cases found with
      | none => exact agree_pure rfl
      | some template => exact h.agree_register name template

theorem Stable.agree_acceptBlank (h : Stable settings I) (v : Value) :
    Agree (Tells I) Eq (Render.acceptBlank settings v) (acceptBlank settings v) := by
  refine agree_noting fun ch hI => ?_
  have failed {e : Error} {s : State Writer} (hs : s.writer = ch.writer) :
      I (ch.noted (fun _ : Unit => .blank v settings.delimiters) s.writer (.error e)) := by
    rw [hs]
    exact hI
  refine leads_get_bind fun s hs => ?_
  dsimp only
  cases hk : v.canBeKey with
  | false => exact leads_throw fun t ht => failed (ht ▸ hs)
  | true =>
    cases hb : s.writer.knowsBlank v with
    | true =>
      refine leads_pure fun t ht => ?_
      rw [ht, hs]
      exact h.knownBlank ch v hI (hs ▸ hb)
    | false =>
      cases hd : settings.delimiters.delimiters with
      | error e => exact leads_throw fun t ht => failed (ht ▸ hs)
      | ok d =>
        refine Leads.bind (P := fun r t => r = v.measure ∧ t = s)
          (leads_ofExcept fun t ht => ⟨rfl, ht⟩) (fun n => ?_) fun e t ht => failed (ht.2 ▸ hs)
        split
        · refine leads_modify fun t ht => ?_
          rw [ht.2, hs]
          exact h.blank ch v hI ((Value.measure_eq_zero_iff v).1 ht.1.symm) ⟨d, hd⟩
        · exact leads_throw fun t ht => failed (ht.2 ▸ hs)

theorem Stable.agree_supply (h : Stable settings I) (name : String) :
    Agree (Tells I) Eq (Render.supply settings name) (supply settings name) := by
  refine (h.agree_fetch name).bindEq fun _ => agree_get_bind fun s s' hs => ?_
  rw [hs.store.writer]
  exact agree_pure rfl

/-- **What is reached with the chronicle is what is reached with its writer,** and a property that
all deeds keep is kept. -/
theorem Stable.silent (h : Stable settings I) : notes.Silent settings (Tells I) where
  escape w ch hw := by
    show w.escaping settings = ch.writer.escaping settings
    rw [hw.writer]
  compile := h.agree_compile
  blank := h.agree_acceptBlank
  supply := h.agree_supply
  tree _ := Notes.around_id _
  node _ _ := Notes.around_id _
  sectionName _ := Notes.around_id _
  answer _ _ := Notes.around_id _
  child _ := Notes.around_id _
  partialTag _ := Notes.around_id _
  call _ _ := Notes.around_id _

/-- A property of writers that is kept along with the chronicle holds after rendering. -/
theorem holds_of_agree {P : Writer → Prop} {act : Render Writer α} {act' : Render Chronicle α}
    (h : Agree (Tells fun ch => P ch.writer) Eq act act') {s : State Writer} (hs : P s.writer) :
    P (act.runFrom s).2.writer := by
  obtain ⟨-, hleft⟩ := h s ⟨⟨s.writer, []⟩, s.memo, s.tally, s.log⟩ ⟨⟨rfl, hs⟩, rfl, rfl, rfl⟩
  exact hleft.store.writer ▸ hleft.store.holds

end Chronicle

end Mustache
