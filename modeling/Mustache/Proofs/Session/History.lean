import Mathlib.Logic.Function.Basic
import Mustache.Proofs.Render.Accounts
import Mustache.Proofs.Session.Steps

/-!
# What a writer knows in a session

Each step of a session does its work with one writer, or with none. So what is done with a writer
can be followed through a session, whatever else is done in it: with other writers, contexts,
delimiters and ways of escaping.

**Idea.** The work of a step (`Session.work`) is what it does, told of a chronicle. A step leaves
the writer as its work leaves the writer of the chronicle (`Session.Did`), and the work only does
what can be accounted for.

Main statements: `Session.FollowedBy.step` and `Session.knows_by_history`.
-/

namespace Mustache

open Render Moment

namespace Chronicle

/-! ## Work with a chronicle -/

/-- Makes a function of a tree, without keeping it. -/
def assemble (template : String) (nodes : List Node) : Render Chronicle Unit :=
  modify fun s =>
    let (c, w) := s.writer.writer.assemble template nodes
    { s with writer := (s.writer.withWriter w).note (.assemble c) }

/-- Forgets the templates and the partials. -/
def clear : Render Chronicle Unit :=
  modify fun s => { s with writer := (s.writer.withWriter s.writer.writer.clear).note .clear }

end Chronicle

/-- The settings, with other delimiters if some are given. -/
def Settings.using (settings : Settings) (delimiters : Option Delimiters.Spec) : Settings :=
  { settings with delimiters := delimiters.getD settings.delimiters }

/-- What a step does: with which writer, in the context of what view, and how that goes. -/
structure Work where
  writer : Nat
  view : View
  act : Scope → Render Chronicle Unit

/-- The chronicle of a writer after some work with it, in a context. -/
def Work.told (k : Work) (ch : Chronicle) (c : Context) (tally : Tally) : Chronicle :=
  ((k.act c.scope).runFrom ⟨ch, c.memo, tally, []⟩).2.writer

/-- The number of the function that an answer gives out. -/
def Answer.compiled? : Answer → Option Nat
  | .compiled k => some k
  | _ => none

namespace Session

/-- Work that looks at no view. -/
def viewless (writer : Nat) (act : Render Chronicle Unit) : Work :=
  ⟨writer, .value .null, fun _ => act⟩

/-- The work of a step, if it uses a writer. -/
def work (s : Session) : Step → Option Work
  | .compile writer template delimiters =>
    some (viewless writer (discard (Chronicle.compile (s.settings.using delimiters) template)))
  | .compilePartial writer name template delimiters =>
    some (viewless writer (Chronicle.register (s.settings.using delimiters) name template))
  | .assemble writer template drafts =>
    some (viewless writer (Chronicle.assemble template (Draft.nodes template.length drafts)))
  | .assembleParsed writer template other delimiters =>
    some (viewless writer
      (match Template.parseWith (delimiters.getD s.settings.delimiters) other with
      | .error e => throw (.template e)
      | .ok nodes => Chronicle.assemble template nodes))
  | .call compiled view partials =>
    s.compiled[compiled]?.map fun (writer, c) =>
      ⟨writer, view, fun scope =>
        discard (Chronicle.notes.renderCompiled s.settings depthLimit c partials scope)⟩
  | .render writer template view partials =>
    some ⟨writer, view, fun scope =>
      discard (Chronicle.notes.template s.settings depthLimit template partials scope)⟩
  | .send template view partials _ =>
    some ⟨0, view, fun scope =>
      discard (Chronicle.notes.template s.settings depthLimit template partials scope)⟩
  | .clear writer => some (viewless writer Chronicle.clear)
  | .lookup context name =>
    some ⟨0, .context context, fun scope =>
      discard do
        let v ← Render.lookup (Chronicle.notes.deeper s.settings depthLimit) scope name
        Render.ofCurrent Value.writable v⟩
  | _ => none

/-- What has been done with each writer after a step, from what had been done before. -/
def recount (s : Session) (pasts : Nat → List Moment) (a : Step) : Nat → List Moment :=
  match s.work a with
  | none => pasts
  | some k =>
    match s.writers[k.writer]?, s.contextOf k.view with
    | some w, some c =>
      Function.update pasts k.writer (k.told ⟨w, pasts k.writer⟩ c s.tally).past
    | _, _ => pasts

/-- The session after some steps. -/
def after (s : Session) : List Step → Session
  | [] => s
  | a :: as => after (s.step a).2 as

/-- What has been done with each writer after some steps, from what had been done before. -/
def history (s : Session) (pasts : Nat → List Moment) : List Step → Nat → List Moment
  | [] => pasts
  | a :: as => history (s.step a).2 (s.recount pasts a) as

/-- What is done with each writer accounts for what it knows, and gave the functions that were given
out. -/
structure FollowedBy (s : Session) (pasts : Nat → List Moment) : Prop where
  sound : ∀ n w, s.writers[n]? = some w → Chronicle.Sound ⟨w, pasts n⟩
  unborn : ∀ n, s.writers[n]? = none → pasts n = []
  given : ∀ g ∈ s.compiled, ∃ m ∈ pasts g.1, g.2 ∈ m.deed.given?

/-- The function that was given last. -/
def lastGiven (past : List Moment) : Option Compiled := past.findSome? (·.deed.given?)

theorem exists_of_lastGiven {past : List Moment} {c : Compiled} (h : lastGiven past = some c) :
    ∃ m ∈ past, c ∈ m.deed.given? :=
  List.exists_of_findSome?_eq_some h

/-- A chronicle goes on from a past. -/
structure Continues (past : List Moment) (ch : Chronicle) : Prop where
  sound : ch.Sound
  suffix : past <:+ ch.past

theorem stable_continues (settings : Settings) (past : List Moment) :
    Chronicle.Stable settings (Continues past) := by
  have h := Chronicle.Sound.stable settings
  have onward {ch : Chronicle} {d : Deed} (hch : past <:+ ch.past) : past <:+ (ch.note d).past :=
    hch.trans (List.suffix_cons _ _)
  exact ⟨fun _ _ _ _ hI hc => ⟨h.compiled _ _ _ _ hI.sound hc, onward hI.suffix⟩,
    fun _ _ _ _ hI hc => ⟨h.registered _ _ _ _ hI.sound hc, onward hI.suffix⟩,
    fun _ _ hI hv hd => ⟨h.blank _ _ hI.sound hv hd, onward hI.suffix⟩,
    fun _ _ hI hv => ⟨h.knownBlank _ _ hI.sound hv, onward hI.suffix⟩⟩

theorem welcomes_continues (past : List Moment) (partials : Partials) :
    Chronicle.Welcomes (Continues past) partials :=
  fun loader _ _ h => ⟨h.sound.withLoader loader, h.suffix⟩

/-! ## Single steps -/

variable {s : Session} {n : Nat} {w : Writer} {view : View} {c : Context} {past : List Moment}
  {left : Chronicle}

/-- A step did some work with a writer: it left the writer of a chronicle, and gave out what is
noted in it. -/
structure Did (s : Session) (n : Nat) (past : List Moment) (left : Chronicle)
    (o : Outcome Answer × Session) : Prop where
  continues : Continues past left
  writers : o.2.writers = s.writers.set n left.writer
  compiled : ∀ g ∈ o.2.compiled, g ∈ s.compiled ∨ g.1 = n ∧ ∃ m ∈ left.past, g.2 ∈ m.deed.given?
  answer : ∀ k, o.1.result = .ok (.compiled k) →
    ∃ given e, lastGiven left.past = some given ∧ o.2.compiled[k]? = some (n, e) ∧
      e.number = given.number

theorem runFrom_discard {α : Type} (act : Render Chronicle α) (t : State Chronicle) :
    ((discard act).runFrom t).2 = (act.runFrom t).2 := by
  show ((act >>= fun _ => pure PUnit.unit).runFrom t).2 = _
  rw [runFrom_bind]
  rcases act.runFrom t with ⟨r, t'⟩
  cases r <;> rfl

theorem exists_of_map_eq_ok {α β : Type} {f : α → β} {x : Except Error α} {b : β}
    (h : f <$> x = .ok b) : ∃ a, x = .ok a ∧ f a = b := by
  cases x with
  | ok a => exact ⟨a, rfl, Except.ok.inj h⟩
  | error e => cases h

theorem did_run {α : Type} {act : Scope → Render Writer α} {act' : Scope → Render Chronicle α}
    (hw : s.writers[n]? = some w) (hc : s.contextOf view = some c)
    (hsound : Chronicle.Sound ⟨w, past⟩)
    (ha : ∀ scope, Agree (Chronicle.Tells (Continues past)) Eq (act scope) (act' scope))
    {f : α → Answer} (hf : ∀ a, (f a).compiled? = none) :
    s.Did n past (Work.told ⟨n, view, fun scope => discard (act' scope)⟩ ⟨w, past⟩ c s.tally)
      ((s.run n view act).1.map f, (s.run n view act).2) := by
  obtain ⟨-, hleft⟩ := ha c.scope ⟨w, c.memo, s.tally, []⟩ ⟨⟨w, past⟩, c.memo, s.tally, []⟩
    ⟨⟨rfl, hsound, List.suffix_refl past⟩, rfl, rfl, rfl⟩
  rw [Work.told, runFrom_discard, run_eq hw hc]
  refine ⟨hleft.store.holds, ?_, fun g hg => .inl hg, ?_⟩
  · rw [hleft.store.writer]
    rfl
  · intro k hk
    obtain ⟨a, -, ha⟩ := exists_of_map_eq_ok hk
    have hnone := hf a
    rw [ha] at hnone
    cases hnone

theorem did_compileWith_error {f : Writer → Except TemplateError (Compiled × Writer)}
    {e : TemplateError} (hw : s.writers[n]? = some w) (hsound : Chronicle.Sound ⟨w, past⟩)
    (hf : f w = .error e) : s.Did n past ⟨w, past⟩ (s.compileWith n f) := by
  rw [compileWith_error hw hf]
  refine ⟨⟨hsound, List.suffix_refl past⟩, (set_eq_self hw).symm, fun g hg => .inl hg, ?_⟩
  intro k hk
  cases hk

theorem did_compileWith_ok {f : Writer → Except TemplateError (Compiled × Writer)}
    {given : Compiled × Writer} (hw : s.writers[n]? = some w) (hf : f w = .ok given)
    (hcontinues : Continues past left) (hwriter : left.writer = given.2)
    (hlast : lastGiven left.past = some given.1) : s.Did n past left (s.compileWith n f) := by
  rw [compileWith_ok hw hf]
  rcases giveOut_cases { s with writers := s.writers.set n given.2 } n given.1 with
    ⟨k, e, hk, hn, hout⟩ | hout
  · rw [hout]
    refine ⟨hcontinues, by rw [hwriter], fun g hg => .inl hg, fun j hj => ?_⟩
    cases hj
    exact ⟨given.1, e, hlast, hk, hn⟩
  · rw [hout]
    refine ⟨hcontinues, by rw [hwriter], fun g hg => ?_, fun j hj => ?_⟩
    · rcases List.mem_append.1 hg with hg | hg
      · exact .inl hg
      · obtain rfl := List.mem_singleton.1 hg
        exact .inr ⟨rfl, exists_of_lastGiven hlast⟩
    · cases hj
      exact ⟨given.1, given.1, hlast, List.getElem?_concat_length, rfl⟩

theorem exists_of_work_call {compiled : Nat} {partials : Partials} {k : Work}
    (hk : s.work (.call compiled view partials) = some k) :
    ∃ n given, s.compiled[compiled]? = some (n, given) ∧
      k = ⟨n, view, fun scope =>
        discard (Chronicle.notes.renderCompiled s.settings depthLimit given partials scope)⟩ := by
  obtain ⟨g, hg, rfl⟩ := Option.map_eq_some_iff.1 hk
  exact ⟨g.1, g.2, hg, rfl⟩

/-- **Every step does its work,** with the writer that the work is told of. -/
theorem did_step {a : Step} {k : Work} (hk : s.work a = some k)
    (hw : s.writers[k.writer]? = some w) (hc : s.contextOf k.view = some c)
    (hsound : Chronicle.Sound ⟨w, past⟩) :
    s.Did k.writer past (k.told ⟨w, past⟩ c s.tally) (s.step a) := by
  cases a with
  | compile n t delimiters =>
    cases hk
    rw [Work.told, viewless, runFrom_discard]
    cases hf : w.compile (s.settings.using delimiters).delimiters t with
    | error e =>
      rw [Chronicle.runFrom_compile_error hf]
      exact did_compileWith_error hw hsound hf
    | ok given =>
      rw [Chronicle.runFrom_compile_ok hf]
      exact did_compileWith_ok hw hf ⟨hsound.compile hf, List.suffix_cons _ past⟩ rfl rfl
  | compilePartial n name t delimiters =>
    cases hk
    rw [Work.told, viewless]
    cases hf : w.compilePartial (s.settings.using delimiters).delimiters name t with
    | error e =>
      rw [Chronicle.runFrom_register_error (Writer.compile_of_compilePartial_error hf)]
      exact did_compileWith_error hw hsound hf
    | ok given =>
      obtain ⟨w', hcompiled, hleft⟩ := Writer.compile_of_compilePartial_ok hf
      have hregistered := (Chronicle.Sound.stable (s.settings.using delimiters)).registered _ name t
        given.1 (hsound.compile hcompiled) (Writer.find?_of_compile hcompiled)
      rw [Chronicle.runFrom_register_ok hcompiled]
      exact did_compileWith_ok hw hf
        ⟨hregistered, (List.suffix_cons _ past).trans (List.suffix_cons _ _)⟩ hleft.symm rfl
  | assemble n t drafts =>
    cases hk
    have hassembled := hsound.assemble t (Draft.nodes t.length drafts)
    exact did_compileWith_ok (f := fun w => .ok (w.assemble t (Draft.nodes t.length drafts))) hw rfl
      ⟨hassembled, List.suffix_cons _ past⟩ rfl rfl
  | assembleParsed n t other delimiters =>
    cases hk
    rw [step, Work.told, viewless]
    cases hp : Template.parseWith (delimiters.getD s.settings.delimiters) other with
    | error e => exact did_compileWith_error hw hsound rfl
    | ok nodes =>
      exact did_compileWith_ok hw rfl ⟨hsound.assemble t nodes, List.suffix_cons _ past⟩ rfl rfl
  | call compiled view partials =>
    obtain ⟨n, given, hg, rfl⟩ := exists_of_work_call hk
    rw [step_call_eq hg]
    have h := stable_continues s.settings past
    exact did_run hw hc hsound (fun scope => h.silent.agree_call
      (h.agree_accept (welcomes_continues past partials)) depthLimit given scope) fun _ => rfl
  | render n t view partials =>
    cases hk
    have h := stable_continues s.settings past
    exact did_run hw hc hsound (fun scope => h.silent.agree_template
      (h.agree_accept (welcomes_continues past partials)) depthLimit t scope) fun _ => rfl
  | send t view partials taken =>
    cases hk
    have h := stable_continues s.settings past
    refine did_run hw hc hsound (fun scope => h.silent.agree_template
      (h.agree_accept (welcomes_continues past partials)) depthLimit t scope) fun text => ?_
    cases taken <;> rfl
  | clear n =>
    cases hk
    rw [step, withWriter, show s.writers[n]? = some w from hw]
    refine ⟨⟨hsound.clear, List.suffix_cons _ past⟩, rfl, fun g hg => .inl hg, fun k hk => ?_⟩
    cases hk
  | lookup context name =>
    cases hk
    have ha (scope : Scope) :=
      (agree_lookup ((stable_continues s.settings past).silent.alike_deeper depthLimit) scope
        name).bindEq fun v => agree_ofCurrent Value.writable v
    exact did_run hw hc hsound ha fun _ => rfl
  | _ => cases hk

/-- Work with a writer or in a context that is not there is not done. -/
theorem step_of_not_there {a : Step} {k : Work} (hk : s.work a = some k)
    (h : s.writers[k.writer]? = none ∨ s.contextOf k.view = none) :
    s.step a = (.quiet (.error .mismatch), s) := by
  cases a with
  | call compiled view partials =>
    obtain ⟨n, given, hg, rfl⟩ := exists_of_work_call hk
    rw [step_call_eq hg, run_of_not_there h]
    rfl
  | render n t view partials =>
    cases hk
    rw [step, run_of_not_there h]
    rfl
  | send t view partials taken =>
    cases hk
    rw [step, run_of_not_there h]
    rfl
  | lookup n name =>
    cases hk
    rw [step, run_of_not_there h]
    rfl
  | clear n =>
    cases hk
    rcases h with hw | hc
    · rw [step, withWriter, show s.writers[n]? = none from hw]
    · cases hc
  | compile | compilePartial | assemble | assembleParsed =>
    cases hk
    rw [step]
    rcases h with hw | hc
    · exact compileWith_of_writers_eq_none hw _
    · cases hc
  | _ => cases hk

/-- A step that uses no writer gives out no function, and changes the writers only by adding a new
one. -/
theorem step_of_work_eq_none {a : Step} (hk : s.work a = none) :
    (∃ new, (s.step a).2.writers = s.writers ++ new ∧ ∀ w ∈ new, ∃ escape, w = Writer.new escape) ∧
      (s.step a).2.compiled = s.compiled := by
  have same {o : Outcome Answer × Session} (hw : o.2.writers = s.writers)
      (hc : o.2.compiled = s.compiled) :
      (∃ new, o.2.writers = s.writers ++ new ∧ ∀ w ∈ new, ∃ escape, w = Writer.new escape) ∧
        o.2.compiled = s.compiled :=
    ⟨⟨[], by rw [hw, List.append_nil], nofun⟩, hc⟩
  cases a with
  | makeWriter escape =>
    exact ⟨⟨[Writer.new escape], rfl, fun w hw => ⟨escape, List.mem_singleton.1 hw⟩⟩, rfl⟩
  | call compiled view partials =>
    rw [work] at hk
    cases hg : s.compiled[compiled]? with
    | none =>
      rw [step, hg]
      exact same rfl rfl
    | some g =>
      rw [hg] at hk
      cases hk
  | inspect n =>
    rw [step]
    cases s.writers[n]? <;> exact same rfl rfl
  | makeContext view => cases view <;> exact same rfl rfl
  | push n v =>
    rw [step, withContext]
    cases s.contexts[n]? <;> exact same rfl rfl
  | viewOf n | forget n =>
    rw [step, withContext]
    cases s.contexts[n]? <;> exact same rfl rfl
  | setEscape | setDelimiters => exact same rfl rfl
  | _ => cases hk

/-! ## Runs -/

variable {pasts : Nat → List Moment} {o : Outcome Answer × Session}

theorem FollowedBy.did (h : s.FollowedBy pasts) (hw : s.writers[n]? = some w)
    (hd : s.Did n (pasts n) left o) : o.2.FollowedBy (Function.update pasts n left.past) where
  sound k v hv := by
    rw [hd.writers] at hv
    by_cases hk : k = n
    · subst hk
      rw [List.getElem?_set_self', hw] at hv
      cases hv
      rw [Function.update_self]
      exact hd.continues.sound
    · rw [List.getElem?_set_ne (Ne.symm hk)] at hv
      rw [Function.update_of_ne hk]
      exact h.sound k v hv
  unborn k hk := by
    rw [hd.writers] at hk
    by_cases hn : k = n
    · subst hn
      rw [List.getElem?_set_self', hw] at hk
      cases hk
    · rw [List.getElem?_set_ne (Ne.symm hn)] at hk
      rw [Function.update_of_ne hn]
      exact h.unborn k hk
  given g hg := by
    rcases hd.compiled g hg with hold | ⟨hn, hnew⟩
    · obtain ⟨m, hm, hgiven⟩ := h.given g hold
      by_cases hn : g.1 = n
      · rw [hn] at hm ⊢
        rw [Function.update_self]
        exact ⟨m, hd.continues.suffix.subset hm, hgiven⟩
      · rw [Function.update_of_ne hn]
        exact ⟨m, hm, hgiven⟩
    · rw [hn, Function.update_self]
      exact hnew

/-- **What is done in a step accounts for what writers know after it.** -/
theorem FollowedBy.step (h : s.FollowedBy pasts) (a : Step) :
    (s.step a).2.FollowedBy (s.recount pasts a) := by
  rw [recount]
  cases hk : s.work a with
  | none =>
    obtain ⟨⟨new, hwriters, hnew⟩, hcompiled⟩ := step_of_work_eq_none hk
    dsimp only
    refine ⟨fun n w hw => ?_, fun n hn => ?_, fun g hg => h.given g (hcompiled ▸ hg)⟩
    · rw [hwriters, List.getElem?_append] at hw
      split at hw
      · exact h.sound n w hw
      · next hn =>
        obtain ⟨escape, rfl⟩ := hnew w (List.mem_of_getElem? hw)
        rw [h.unborn n (List.getElem?_eq_none (Nat.le_of_not_lt hn))]
        exact .new escape
    · rw [hwriters, List.getElem?_eq_none_iff, List.length_append] at hn
      exact h.unborn n (List.getElem?_eq_none (Nat.le_of_add_right_le hn))
  | some k =>
    dsimp only
    cases hw : s.writers[k.writer]? with
    | none =>
      rw [step_of_not_there hk (.inl hw)]
      exact h
    | some w =>
      cases hc : s.contextOf k.view with
      | none =>
        rw [step_of_not_there hk (.inr hc)]
        exact h
      | some c => exact h.did hw (did_step hk hw hc (h.sound k.writer w hw))

theorem FollowedBy.after (h : s.FollowedBy pasts) (steps : List Step) :
    (s.after steps).FollowedBy (s.history pasts steps) := by
  induction steps generalizing s pasts with
  | nil => exact h
  | cons a steps ih => exact ih (h.step a)

/-- What a step gives out is the function that was given last. -/
theorem FollowedBy.answer (h : s.FollowedBy pasts) {a : Step} {k : Nat}
    (hn : (s.work a).map Work.writer = some n)
    (hr : (s.step a).1.result = .ok (.compiled k)) :
    ∃ given, lastGiven (s.recount pasts a n) = some given ∧
      (s.step a).2.compiled[k]? = some (n, given) := by
  obtain ⟨work, hk, rfl⟩ := Option.map_eq_some_iff.1 hn
  cases hw : s.writers[work.writer]? with
  | none =>
    rw [step_of_not_there hk (.inl hw)] at hr
    cases hr
  | some w =>
    cases hc : s.contextOf work.view with
    | none =>
      rw [step_of_not_there hk (.inr hc)] at hr
      cases hr
    | some c =>
      have hd := did_step hk hw hc (h.sound work.writer w hw)
      obtain ⟨given, e, hlast, he, hnumber⟩ := hd.answer k hr
      obtain ⟨m, hm, hgiven⟩ := exists_of_lastGiven hlast
      obtain ⟨m', hm', hgiven'⟩ := (h.did hw hd).given _ (List.mem_of_getElem? he)
      rw [Function.update_self] at hm'
      have hsame := hd.continues.sound.one m' hm' m hm e hgiven' given hgiven hnumber
      refine ⟨given, ?_, hsame ▸ he⟩
      rw [recount, hk]
      dsimp only
      rw [hw, hc]
      dsimp only
      rw [Function.update_self]
      exact hlast

/-- A session with one writer, in which nothing was done yet. -/
def begun (settings : Settings) (escape : Option (String → String)) : Session :=
  ⟨settings, [Writer.new escape], [], [], ∅⟩

theorem followedBy_begun (settings : Settings) (escape : Option (String → String)) :
    (begun settings escape).FollowedBy fun _ => [] where
  sound n w hw := by
    obtain rfl := List.mem_singleton.1 (List.mem_of_getElem? hw)
    exact .new escape
  unborn _ _ := rfl
  given _ hg := nomatch hg

/-- **What a writer knows is what was done with it.** At every moment of a session, whatever is done
in it and with whatever delimiters: a template has the function that compiling it gave first since
everything was last forgotten, with the tree that reading it with the delimiters of that time gives;
compiling it has given this function each time since; a partial has the function of the template
that was registered last; and after everything was forgotten nothing is known, and no function is
given that was given before. What a step gives out is the function that is noted. -/
theorem knows_by_history (settings : Settings) (escape : Option (String → String))
    (steps : List Step) {n : Nat} {w : Writer}
    (hw : ((begun settings escape).after steps).writers[n]? = some w) :
    let s := (begun settings escape).after steps
    let pasts := (begun settings escape).history (fun _ => []) steps
    Chronicle.Sound ⟨w, pasts n⟩ ∧
      ∀ a k, (s.work a).map Work.writer = some n → (s.step a).1.result = .ok (.compiled k) →
        ∃ given, lastGiven (s.recount pasts a n) = some given ∧
          (s.step a).2.compiled[k]? = some (n, given) := by
  intro s pasts
  have h := (followedBy_begun settings escape).after steps
  exact ⟨h.sound n w hw, fun a k hn hr => h.answer hn hr⟩

/-- A template that is compiled again with other delimiters, is rendered again by a function while
another template is rendered, and is a partial of that one too, has one function, number 0, until
everything is forgotten. -/
theorem knows_by_history_delimiterSwitch :
    let t := "\x7b\x7ba\x7d\x7d"
    let again : Function := .mk 0 none ⟨[], [⟨"text", false⟩, ⟨"render", false⟩], none, [], none⟩
      (.call (.argument "render") [.argument "text"])
    let view : View := .value (.dict [(.str "f", .function again none)])
    let steps : List Step := [.compile 0 t none, .setDelimiters (.text "<% %>"), .compile 0 t none,
      .render 0 ("<%#f%>" ++ t ++ "<%/f%><%>p%>") view (.named [("p", t)]), .clear 0,
      .compile 0 t none]
    let s := (begun defaults none).after steps
    let pasts := (begun defaults none).history (fun _ => []) steps
    (pasts 0).map (fun m => m.deed.given?.map (·.number)) =
        [some 2, none, some 0, none, some 0, some 1, some 0, some 0] ∧
      ∃ w, s.writers[0]? = some w ∧ Chronicle.Sound ⟨w, pasts 0⟩ ∧
        ∀ a k, (s.work a).map Work.writer = some 0 → (s.step a).1.result = .ok (.compiled k) →
          ∃ given, lastGiven (s.recount pasts a 0) = some given ∧
            (s.step a).2.compiled[k]? = some (0, given) := by
  intro t again view steps s pasts
  have hthere : s.writers[0]?.isSome = true := by decide +kernel
  obtain ⟨w, hw⟩ := Option.isSome_iff_exists.1 hthere
  exact ⟨by decide +kernel, w, hw, knows_by_history defaults none steps hw⟩

end Session

end Mustache
