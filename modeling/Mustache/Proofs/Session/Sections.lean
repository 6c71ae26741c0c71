import Mustache.Proofs.Render.Rules
import Mustache.Proofs.Render.Transparent
import Mustache.Proofs.Session.Watching
import Mustache.Proofs.Template.Section

/-!
# Sections that are handed to callables

The steps of a session that render are done with a journal. In it each section stands that was
evaluated, wherever that was: in the template of the step, in a partial, or in a source that another
section's callable rendered. If its name stood for a callable, this was called once, and was given
the text between the section's own two tags; what it gave was put out as it is, and what the section
holds was not evaluated.

**Idea.** A trace that stands somewhere in the journal is reached from the top (`Trace.Within`), and
on the way down the rules hold everywhere. What is rendered was read by a writer of the session, or
put together by hand, as the history of the session says.

Main statement: `Session.sections_handed`.
-/

namespace Mustache

open Render

namespace Trace

/-- The template that is rendered in the course of something, if that is what is done. -/
def template? : Trace → Option Compiled
  | rendered c _ _ => some c
  | _ => none

/-- `Within x here around ts`: the trace `x` is one of `ts`, or was done in the course of one of
them. The template that is rendered right around `ts` is `around`, and right around `x` it is
`here`. -/
inductive Within (x : Trace) (here : Option Compiled) : Option Compiled → List Trace → Prop
  | one {ts : List Trace} (hx : x ∈ ts) : Within x here here ts
  | inside {around : Option Compiled} {y : Trace} {ts : List Trace} (hy : y ∈ ts)
      (hx : Within x here (y.template?.or around) y.inner) : Within x here around ts

/-- What stands in a journal under some numbers, each of them for one level further down, and the
template that is rendered right around it. -/
def at? : List Nat → Option Compiled → List Trace → Option (Option Compiled × Trace)
  | [], _, _ => none
  | [i], around, ts => ts[i]?.map fun x => (around, x)
  | i :: path, around, ts => ts[i]?.bind fun y => at? path (y.template?.or around) y.inner

/-- The section that is evaluated, where it ends, and the value that its name is found to have. -/
def section? : Trace → Option (Token × Nat × Value)
  | evaluated (.block t _ close) _ (looked _ _ (.ok v) :: _) _ => some (t, close, v)
  | _ => none

/-- Nothing is done but calls, and the helper of a section renders the source that it is given. -/
inductive IsCall : Trace → Prop
  | body {callee : Value} {args : List Value} {inner : List Trace} {result : Except Error Value}
      (hinner : ∀ y ∈ inner, IsCall y) : IsCall (.called callee args inner result)
  | helper (c : Compiled) (inner : List Trace) (result : Except Error String) :
      IsCall (.called .renderer [.str c.template] [.rendered c inner result] (result.map .str))

/-- Whether something can be in a place while a template is rendered, of which `read` holds. -/
def Place.Fits (read : Compiled → Prop) (here : Option Compiled) : Place → Prop
  | .tree c => here = some c ∧ read c
  | _ => True

variable {read : Compiled → Prop} {p : Place} {x y z : Trace} {ts : List Trace}
  {here around : Option Compiled}

theorem within_of_at? {path : List Nat} (h : at? path around ts = some (here, x)) :
    Within x here around ts := by
  induction path generalizing around ts with
  | nil => cases h
  | cons i path ih =>
    cases path with
    | nil =>
      obtain ⟨y, hy, heq⟩ := Option.map_eq_some_iff.1 h
      cases heq
      exact .one (List.mem_of_getElem? hy)
    | cons j path =>
      obtain ⟨y, hy, h⟩ := Option.bind_eq_some_iff.1 h
      exact .inside (List.mem_of_getElem? hy) (ih h)

theorem eq_of_section? {t : Token} {close : Nat} {v : Value}
    (h : x.section? = some (t, close, v)) : ∃ children scope name looks rest result,
      x = .evaluated (.block t children close) scope
        (.looked name looks (.ok v) :: rest) result := by
  rw [section?.eq_def] at h
  split at h <;> cases h
  exact ⟨_, _, _, _, _, _, rfl⟩

theorem Proper.isCall (h : Proper read p x) : p = .call → x.IsCall := by
  induction h with
  | called _ ih => exact fun _ => .body fun y hy => ih y hy rfl
  | helper _ _ => exact fun _ => .helper _ _ _
  | _ => exact nofun

/-- The rules hold of all that was done in the course of something. -/
theorem Proper.of_inner (h : Proper read p y) (hp : p.Fits read around) (hz : z ∈ y.inner) :
    ∃ q : Place, q.Fits read (y.template?.or around) ∧ Proper read q z := by
  cases h with
  | rendered hc hinner _ => exact ⟨.tree _, ⟨rfl, hc⟩, hinner z hz⟩
  | called hinner | looked hinner => exact ⟨.call, trivial, hinner z hz⟩
  | leaf _ hinner => exact ⟨.call, trivial, hinner z hz⟩
  | helper hx | putIn _ _ hx =>
    obtain rfl := List.mem_singleton.1 hz
    exact ⟨.alone, trivial, hx⟩
  | astray _ hlook =>
    obtain rfl := List.mem_singleton.1 hz
    exact ⟨.name, trivial, hlook⟩
  | handed _ _ hlook _ hcall =>
    rcases List.mem_cons.1 hz with rfl | hz
    · exact ⟨.name, trivial, hlook⟩
    · obtain rfl := List.mem_singleton.1 hz
      exact ⟨.call, trivial, hcall⟩
  | entered _ hlook _ hinner _ =>
    rcases List.mem_cons.1 hz with rfl | hz
    · exact ⟨.name, trivial, hlook⟩
    · exact ⟨_, hp, hinner z hz⟩

theorem Within.proper (h : Within x here around ts)
    (hts : ∀ y ∈ ts, ∃ q : Place, q.Fits read around ∧ Proper read q y) :
    ∃ q : Place, q.Fits read here ∧ Proper read q x := by
  induction h with
  | one hx => exact hts x hx
  | inside hy _ ih =>
    obtain ⟨q, hq, hproper⟩ := hts _ hy
    exact ih fun z hz => hproper.of_inner hq hz

/-- What is evaluated is a part of rendering a template. -/
theorem Proper.tree {n : Node} {scope : Scope} {inner : List Trace} {result : Except Error String}
    (h : Proper read p (.evaluated n scope inner result)) (hp : p.Fits read here) :
    ∃ c, here = some c ∧ read c ∧ Proper read (.tree c) (.evaluated n scope inner result) := by
  cases p with
  | tree c => exact ⟨c, hp.1, hp.2, h⟩
  | _ => cases h

/-- The arguments that a callable is given for a section, by the number that it needs. -/
structure Arguments (v view : Value) (text : String) (args : List Value) : Prop where
  one : v.required = 1 → args = [.str text]
  two : v.required = 2 → args = [.str text, .renderer]
  other : v.required ≠ 1 → v.required ≠ 2 → args = [view, .str text, .renderer]

theorem arguments_sectionArguments (v : Value) (scope : Scope) (text : String) :
    Arguments v scope.view text (sectionArguments scope text v.required) := by
  refine ⟨fun h => by rw [h]; rfl, fun h => by rw [h]; rfl, fun h₁ h₂ => ?_⟩
  rw [sectionArguments.eq_3 scope text v.required h₁ h₂]

/-- What is put out for what a callable gives: nothing for null, and otherwise the text of the
value, if it can be written. -/
structure PutsOut (answer : Except Error Value) (result : Except Error String) : Prop where
  null : answer = .ok .null → result = .ok ""
  value : ∀ v, answer = .ok v → v ≠ .null → result = v.written
  error : ∀ e, answer = .error e → result = .error e

theorem putsOut_shown (answer : Except Error Value) : PutsOut answer (answer >>= shown) where
  null := by
    rintro rfl
    rfl
  value v hanswer hv := by
    subst hanswer
    exact shown.eq_2 v hv
  error e := by
    rintro rfl
    rfl

/-- A section was evaluated: its name was looked up, and if that came to a callable, this was called
once, with the text from the end of the opening tag to the start of the closing tag; what it gave
was put out, as a text, and there were calls only. -/
structure Hands (c : Compiled) (t : Token) (close : Nat) (scope : Scope) (inner : List Trace)
    (result : Except Error String) : Prop where
  looked : ∃ looks found rest, inner = .looked t.value looks found :: rest
  called : ∀ looks v rest, inner = .looked t.value looks (.ok v) :: rest → v.isCallable = true →
    ∃ text args calls answer, rest = [.called v args calls answer] ∧
      text.toList = (c.template.toList.take close).drop t.stop ∧
      Arguments v scope.view text args ∧ PutsOut answer result ∧ ∀ y ∈ looks ++ rest, y.IsCall

theorem Proper.hands {c : Compiled} {t : Token} {children : List Node} {close : Nat} {scope : Scope}
    {inner : List Trace} {result : Except Error String} (ht : t.kind = .sectionTag)
    (h : Proper read (.tree c) (.evaluated (.block t children close) scope inner result)) :
    .block t children close ∈ Node.preorder c.nodes ∧ Hands c t close scope inner result := by
  cases h with
  | astray hn hlook =>
    refine ⟨hn, ⟨_, _, _, rfl⟩, ?_⟩
    rintro looks v rest ⟨⟩
  | handed hn _ hlook hv hcall =>
    refine ⟨hn, ⟨_, _, _, rfl⟩, ?_⟩
    rintro looks v rest ⟨⟩ -
    refine ⟨_, _, _, _, rfl, ?_, arguments_sectionArguments _ scope _, putsOut_shown _, ?_⟩
    · rw [source, String.toList_ofList, List.drop_take]
    intro y hy
    rcases List.mem_append.1 hy with hy | hy
    · cases hlook with
      | looked hlooks => exact (hlooks y hy).isCall rfl
    · rw [List.mem_singleton.1 hy]
      exact hcall.isCall rfl
  | entered hn hlook hv _ _ =>
    refine ⟨hn, ⟨_, _, _, rfl⟩, ?_⟩
    rintro looks v rest ⟨⟩ hcallable
    rcases hv with hi | hv
    · rw [ht] at hi
      cases hi
    · rw [hv] at hcallable
      cases hcallable

/-- What is put out in the course of rendering a template, or of going through what a section holds,
is put out as it is. -/
def Joins : Trace → Prop
  | rendered _ inner (.ok text) => text = texts inner
  | evaluated (.block _ _ _) _ (_ :: inner) (.ok text) =>
    text = texts inner ∨ ∃ v args calls answer, inner = [.called v args calls answer]
  | _ => True

theorem Proper.joins (h : Proper read p x) : x.Joins := by
  cases h with
  | @rendered c inner result _ _ htext =>
    cases result with
    | ok text => exact htext text rfl
    | error e => trivial
  | @entered c t children close scope looks inner v result _ _ _ _ htext =>
    cases result with
    | ok text => exact .inl (htext text rfl)
    | error e => trivial
  | @handed c t children close scope looks calls v answer =>
    cases hresult : answer >>= shown with
    | ok text => exact .inr ⟨_, _, _, _, rfl⟩
    | error e => trivial
  | _ => trivial

end Trace

/-! ## What writers of a session render -/

section History

variable {past : List Moment} {ch : Chronicle} {w : Writer} {m : Moment} {c : Compiled}

theorem Accounts.reads (h : Accounts past w) : w.Reads := by
  have templates (t : String) (c : Compiled) (hc : w.templates.find? t = some c) :
      c.template = t ∧ c.IsRead := by
    obtain ⟨spec, -, rfl, hp⟩ := h.templates t c hc
    exact ⟨rfl, spec, hp⟩
  refine ⟨templates, fun name c hc => ?_⟩
  obtain ⟨t, -, ht⟩ := h.partials name c hc
  exact (templates t c ht).2

/-- A function that was given was made by reading, or of a tree that was put together by hand. -/
theorem Chronicle.Sound.isRead_of_given (h : ch.Sound) (hm : m ∈ ch.past) (hc : c ∈ m.deed.given?) :
    c.IsRead ∨ m.deed = .assemble c := by
  obtain ⟨later, earlier, hpast⟩ := List.append_of_mem hm
  have hacc := h.always later m earlier hpast
  cases hd : m.deed with
  | compile t spec e =>
    rw [hd] at hc
    cases hc
    have hmem : m ∈ Moment.sinceClear (m :: earlier) := by
      rw [Moment.sinceClear_cons (by rw [hd]; rfl)]
      exact List.mem_cons_self
    exact .inl (hacc.reads.templates t c (hacc.compiled m hmem t spec c hd)).2
  | assemble e =>
    rw [hd] at hc
    cases hc
    exact .inr rfl
  | _ =>
    rw [hd] at hc
    cases hc

end History

namespace Session

/-! ## Steps with a journal -/

/-- Runs a computation with a writer, in the context of a view, and keeps what it leaves behind; and
gives the journal, which is empty at the start. -/
def runTold (s : Session) (n : Nat) (view : View) (f : String → Answer)
    (act : Scope → Render Journal String) : (Outcome Answer × Session) × List Trace :=
  match s.writers[n]?, s.contextOf view with
  | some w, some c =>
    let (result, left) := (act c.scope).runFrom ⟨⟨w, []⟩, c.memo, s.tally, []⟩
    ((⟨f <$> result, left.log⟩,
      s.leave n view c ⟨left.writer.writer, left.memo, left.tally, left.log⟩), left.writer.traces)
  | _, _ => ((.quiet (.error .mismatch), s), [])

/-- Performs a step, with a journal if it renders. -/
def told (s : Session) : Step → (Outcome Answer × Session) × List Trace
  | .call k view partials =>
    match s.compiled[k]? with
    | none => ((.quiet (.error .mismatch), s), [])
    | some (n, c) =>
      s.runTold n view .rendered (Journal.notes.renderCompiled s.settings depthLimit c partials)
  | .render n t view partials =>
    s.runTold n view .rendered (Journal.notes.template s.settings depthLimit t partials)
  | .send t view partials taken =>
    s.runTold 0 view (sent taken) (Journal.notes.template s.settings depthLimit t partials)
  | a => (s.step a, [])

variable {s : Session} {n : Nat} {view : View} {read : Compiled → Prop}
  {act : Scope → Render Writer String} {act' : Scope → Render Journal String}

theorem runTold_eq {w : Writer} {c : Context} (hw : s.writers[n]? = some w)
    (hc : s.contextOf view = some c) (f : String → Answer) (act' : Scope → Render Journal String) :
    s.runTold n view f act' =
      let (result, left) := (act' c.scope).runFrom ⟨⟨w, []⟩, c.memo, s.tally, []⟩
      ((⟨f <$> result, left.log⟩,
        s.leave n view c ⟨left.writer.writer, left.memo, left.tally, left.log⟩),
        left.writer.traces) := by
  rw [runTold, hw, hc]

theorem runTold_of_not_there (h : s.writers[n]? = none ∨ s.contextOf view = none)
    (f : String → Answer) (act' : Scope → Render Journal String) :
    s.runTold n view f act' = ((.quiet (.error .mismatch), s), []) := by
  rw [runTold]
  rcases h with hw | hc
  · rw [hw]
  · rw [hc]
    cases s.writers[n]? <;> rfl

theorem runTold_eq_run (h : ∀ scope, Agree Journal.Over Eq (act scope) (act' scope))
    (f : String → Answer) :
    (s.runTold n view f act').1 = ((s.run n view act).1.map f, (s.run n view act).2) := by
  have gone (h : s.writers[n]? = none ∨ s.contextOf view = none) :
      (s.runTold n view f act').1 = ((s.run n view act).1.map f, (s.run n view act).2) := by
    rw [runTold_of_not_there h, run_of_not_there h]
    rfl
  cases hw : s.writers[n]? with
  | none => exact gone (.inl hw)
  | some w =>
    cases hc : s.contextOf view with
    | none => exact gone (.inr hc)
    | some c =>
      obtain ⟨hresult, hleft⟩ := h c.scope ⟨w, c.memo, s.tally, []⟩
        ⟨⟨w, []⟩, c.memo, s.tally, []⟩ ⟨rfl, rfl, rfl, rfl⟩
      rw [run_eq hw hc, runTold_eq hw hc]
      rcases hr : (act c.scope).runFrom ⟨w, c.memo, s.tally, []⟩ with ⟨x, left⟩
      rcases hr' : (act' c.scope).runFrom ⟨⟨w, []⟩, c.memo, s.tally, []⟩ with ⟨x', left'⟩
      rw [hr, hr'] at hresult hleft
      have hx : x = x' := hresult.eq
      have hsame : (⟨left'.writer.writer, left'.memo, left'.tally, left'.log⟩ : State Writer) =
          left := by
        rw [show left'.writer.writer = left.writer from hleft.store, ← hleft.memo, ← hleft.tally,
          ← hleft.log]
      have hlog : left'.log = left.log := hleft.log.symm
      dsimp only
      rw [hsame, hlog, ← hx]
      rfl

theorem proper_of_runTold (hreads : ∀ w, s.writers[n]? = some w → w.Reads)
    (h : ∀ scope, Journal.Adds (Journal.Renders read) (act' scope)) (f : String → Answer) :
    ∀ y ∈ (s.runTold n view f act').2, Trace.Proper read .alone y := by
  cases hw : s.writers[n]? with
  | none =>
    rw [runTold_of_not_there (.inl hw)]
    exact nofun
  | some w =>
    cases hc : s.contextOf view with
    | none =>
      rw [runTold_of_not_there (.inr hc)]
      exact nofun
    | some c =>
      obtain ⟨-, new, hnew, hrenders⟩ := h c.scope [] ⟨⟨w, []⟩, c.memo, s.tally, []⟩
        ⟨hreads w hw, rfl⟩
      rw [runTold_eq hw hc]
      dsimp only
      rw [hnew, List.nil_append]
      rcases hrenders with rfl | ⟨e, inner, rfl, hx⟩
      · exact nofun
      · exact List.forall_mem_singleton.2 hx

/-- **A step that is done with a journal is the step.** -/
theorem told_eq_step (s : Session) (a : Step) : (s.told a).1 = s.step a := by
  cases a with
  | call k view partials =>
    rw [told]
    cases hk : s.compiled[k]? with
    | none =>
      rw [step, hk]
    | some given =>
      rw [step_call_eq hk]
      have haccept := Journal.agree_accept s.settings partials
      exact runTold_eq_run ((Journal.silent s.settings).agree_call haccept depthLimit given.2) _
  | render n t view partials =>
    have haccept := Journal.agree_accept s.settings partials
    exact runTold_eq_run ((Journal.silent s.settings).agree_template haccept depthLimit t) _
  | send t view partials taken =>
    have haccept := Journal.agree_accept s.settings partials
    exact runTold_eq_run ((Journal.silent s.settings).agree_template haccept depthLimit t) _
  | _ => rfl

/-- In the journal of a step all is done by the rules. -/
theorem proper_of_told (hreads : ∀ (n : Nat) (w : Writer), s.writers[n]? = some w → w.Reads)
    (hread : ∀ c, c.IsRead → read c) (hcompiled : ∀ g ∈ s.compiled, read g.2) (a : Step) :
    ∀ y ∈ (s.told a).2, Trace.Proper read .alone y := by
  cases a with
  | call k view partials =>
    rw [told]
    cases hk : s.compiled[k]? with
    | none => exact nofun
    | some given =>
      have hgiven := hcompiled given (List.mem_of_getElem? hk)
      exact proper_of_runTold (hreads given.1)
        (Journal.adds_call hread s.settings depthLimit hgiven partials) _
  | render n t view partials =>
    exact proper_of_runTold (hreads n)
      (Journal.adds_template hread s.settings depthLimit t partials) _
  | send t view partials taken =>
    exact proper_of_runTold (hreads 0)
      (Journal.adds_template hread s.settings depthLimit t partials) _
  | _ => exact nofun

/-- A compiled template was read from its text, or put together by hand. -/
def Made (pasts : Nat → List Moment) (c : Compiled) : Prop :=
  c.IsRead ∨ ∃ n, ∃ m ∈ pasts n, m.deed = .assemble c

theorem FollowedBy.made {pasts : Nat → List Moment} (h : s.FollowedBy pasts)
    {g : Nat × Compiled} (hg : g ∈ s.compiled) : Made pasts g.2 := by
  obtain ⟨m, hm, hgiven⟩ := h.given g hg
  cases hw : s.writers[g.1]? with
  | none =>
    rw [h.unborn g.1 hw] at hm
    cases hm
  | some w =>
    rcases (h.sound g.1 w hw).isRead_of_given hm hgiven with hread | hdeed
    · exact .inl hread
    · exact .inr ⟨g.1, m, hm, hdeed⟩

/-- **Sections hand their own source to a callable, once.** In the journal of any step of any
session, take the evaluation of a section, wherever it was done. The template `c` that is rendered
right around it has the section in its tree; and if this tree was read, and not put together by
hand, the section stands in the text of `c` with both its tags. The name of the section is looked
up; if that comes to a callable, this is called once, with the text of `c` between the two tags, and
what it gives is put out as it is. But for that there are calls only: nothing else is evaluated in
the course of it, unless the helper renders a source that it is given. -/
theorem sections_handed (settings : Settings) (escape : Option (String → String))
    (steps : List Step) (a : Step) :
    let s := (begun settings escape).after steps
    (s.told a).1 = s.step a ∧
      (∀ x here, Trace.Within x here none (s.told a).2 → x.Joins) ∧
      ∀ t children close scope inner result here, t.kind = .sectionTag →
        Trace.Within (.evaluated (.block t children close) scope inner result) here none
          (s.told a).2 →
        ∃ c, here = some c ∧ .block t children close ∈ Node.preorder c.nodes ∧
          (c.IsRead ∧ Template.SectionAt c.template.toList t children close ∨
            ∃ n, ∃ m ∈ (begun settings escape).history (fun _ => []) steps n,
              m.deed = .assemble c) ∧
          Trace.Hands c t close scope inner result := by
  intro s
  let pasts := (begun settings escape).history (fun _ => []) steps
  have h : s.FollowedBy pasts := (followedBy_begun settings escape).after steps
  have htop : ∀ y ∈ (s.told a).2, ∃ q : Trace.Place, q.Fits (Made pasts) none ∧
      Trace.Proper (Made pasts) q y := fun y hy =>
    ⟨.alone, trivial, proper_of_told (fun n w hw => (h.sound n w hw).now.reads) (fun _ => .inl)
      (fun _ hg => h.made hg) a y hy⟩
  refine ⟨told_eq_step s a, fun x here hx => ?_, ?_⟩
  · obtain ⟨q, -, hq⟩ := hx.proper htop
    exact hq.joins
  · intro t children close scope inner result here ht hx
    obtain ⟨q, hfits, hq⟩ := hx.proper htop
    obtain ⟨c, hhere, hmade, htree⟩ := hq.tree hfits
    obtain ⟨hnode, hhands⟩ := htree.hands ht
    refine ⟨c, hhere, hnode, ?_, hhands⟩
    rcases hmade with hread | hhand
    · obtain ⟨spec, hp⟩ := hread
      obtain ⟨d, -, hd⟩ := Template.parseWith_eq_ok_iff.1 hp
      exact .inl ⟨⟨spec, hp⟩, Template.sectionAt_of_parse hd hnode⟩
    · exact .inr hhand

/-- A section in a partial is handed to a callable that renders its source, and the section that
stands in there to another one. This gets its text from the source that is rendered, not from the
partial. -/
theorem sections_handed_again :
    let again : Function := .mk 0 none ⟨[], [⟨"text", false⟩, ⟨"render", false⟩], none, [], none⟩
      (.call (.argument "render") [.argument "text"])
    let upper : Function := .mk 1 none ⟨[], [⟨"text", false⟩], none, [], none⟩
      (.upper (.argument "text"))
    let view : View := .value (.dict [(.str "f", .function again none),
      (.str "g", .function upper none)])
    let inside := "<\x7b\x7b#g\x7d\x7dx\x7b\x7b/g\x7d\x7d>"
    let s := (begun defaults none).after
      [.compilePartial 0 "p" ("\x7b\x7b#f\x7d\x7d" ++ inside ++ "\x7b\x7b/f\x7d\x7d") none]
    let a : Step := .render 0 "\x7b\x7b>p\x7d\x7d" view .none
    ∃ c t children scope inner result, t.kind = .sectionTag ∧ t.value = "g" ∧ c.template = inside ∧
      Trace.Within (.evaluated (.block t children 8) scope inner result) (some c) none
        (s.told a).2 ∧
      Trace.Hands c t 8 scope inner result ∧
      ∃ looks v calls answer,
        inner = [.looked "g" looks (.ok v), .called v [.str "x"] calls answer] := by
  intro again upper view inside s a
  have hfound : ((Trace.at? [0, 0, 0, 0, 1, 0, 0, 1] none (s.told a).2).any fun found =>
      found.1.any (fun c => c.template == inside) && found.2.section?.any fun e =>
        e.1.kind == .sectionTag && e.1.value == "g" && e.1.stop == 7 && e.2.1 == 8 &&
          e.2.2.isCallable && e.2.2.required == 1) = true := by decide +kernel
  obtain ⟨⟨here, x⟩, hat, hfound⟩ := (Option.any_eq_true _ _).1 hfound
  obtain ⟨hhere, hsection⟩ := Bool.and_eq_true_iff.1 hfound
  obtain ⟨c, rfl, htext⟩ := (Option.any_eq_true _ _).1 hhere
  obtain ⟨⟨t, close, v⟩, hx, hsection⟩ := (Option.any_eq_true _ _).1 hsection
  simp only [Bool.and_eq_true, beq_iff_eq] at htext hsection
  obtain ⟨⟨⟨⟨⟨hkind, hname⟩, hstop⟩, rfl⟩, hcallable⟩, hrequired⟩ := hsection
  obtain ⟨children, scope, name, looks, rest, result, rfl⟩ := Trace.eq_of_section? hx
  have hwithin := Trace.within_of_at? hat
  obtain ⟨-, -, hsections⟩ := sections_handed defaults none
    [.compilePartial 0 "p" ("\x7b\x7b#f\x7d\x7d" ++ inside ++ "\x7b\x7b/f\x7d\x7d") none] a
  obtain ⟨e, he, -, -, hhands⟩ := hsections t children 8 scope _ result _ hkind hwithin
  cases he
  obtain ⟨_, _, _, hlooked⟩ := hhands.looked
  obtain ⟨rfl, -⟩ := Trace.looked.inj (List.cons.inj hlooked).1
  obtain ⟨text, args, calls, answer, rfl, hslice, hargs, -⟩ :=
    hhands.called looks v rest rfl hcallable
  refine ⟨c, t, children, scope, _, result, hkind, hname, htext, hwithin, hhands,
    looks, v, calls, answer, ?_⟩
  have htext : text = "x" := by
    rw [← String.toList_inj, hslice, htext, hstop]
    decide +kernel
  rw [hargs.one hrequired, hname, htext]

end Session

end Mustache
