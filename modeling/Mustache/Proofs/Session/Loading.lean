import Mustache.Proofs.Render.Dealings
import Mustache.Proofs.Session.Watching

/-!
# Loaders in a session

A writer asks its loader for a partial when a tag of its name is come to and the partial is not
known; and it asks the loader that was passed to it last, with a function that it compiled, or with
a template that it could read. Mappings of partials, their absence, and forgetting do not take the
loader away. This holds in a whole session, with loaders passed midway, loads that fail, and
partials inside sections and inside other partials.

**Idea.** The past of a writer, as it is noted, tells what the writer knows and which loader it has
(`Session.ToldBy`). Every step keeps this; it adds to the past the loader that it passes, and what
was asked in it is what it records (`Session.Adds`).

Main statements: `Session.ToldBy.step` and `Session.loaders_inOrder`.
-/

namespace Mustache

open Render Watch

namespace Session

variable {s s' : Session} {r r' : Record} {a : Step} {k : Watching} {n : Nat} {w w' : Writer}
  {view : View} {c : Context} {past : List Dealing} {partials : Partials}

/-! ## What is passed -/

/-- The loaders that are passed to a writer in the context of a view, if the writer is ready for it.
-/
def passedTo (s : Session) (n : Nat) (view : View) (partials : Partials) (ready : Writer → Bool) :
    List Loader :=
  match s.writers[n]?, s.contextOf view with
  | some w, some _ => if ready w then partials.loaders else []
  | _, _ => []

/-- Whether a writer can read a template. -/
def reads (s : Session) (t : String) (w : Writer) : Bool := (w.compile s.settings.delimiters t).isOk

/-- The loaders that a step passes to a writer: with a function that the writer compiled, or with a
template that it can read. -/
def passed (s : Session) (n : Nat) : Step → List Loader
  | .call i view partials =>
    if s.compiled[i]?.map (·.1) = some n then s.passedTo n view partials fun _ => true else []
  | .render m t view partials => if m = n then s.passedTo n view partials (s.reads t) else []
  | .send t view partials _ => if 0 = n then s.passedTo n view partials (s.reads t) else []
  | _ => []

/-- The loaders that some steps pass to a writer, the last one first. -/
def passedAll (s : Session) (n : Nat) : List Step → List Loader
  | [] => []
  | a :: as => passedAll (s.step a).2 n as ++ s.passed n a

theorem passedTo_of_there (hw : s.writers[n]? = some w) (hc : s.contextOf view = some c)
    (ready : Writer → Bool) :
    s.passedTo n view partials ready = if ready w then partials.loaders else [] := by
  rw [passedTo, hw, hc]

theorem passedTo_of_not_there (h : s.writers[n]? = none ∨ s.contextOf view = none)
    (ready : Writer → Bool) : s.passedTo n view partials ready = [] := by
  unfold passedTo
  rcases h with hw | hc
  · rw [hw]
  · rw [hc]
    cases s.writers[n]? <;> rfl

/-- What a step passes, it passes to the writer that it works with, in the context that it works
in. -/
theorem passed_cases (hk : s.watching a = some k) (n : Nat) : s.passed n a = [] ∨
    k.writer = n ∧ ∃ partials ready, s.passed n a = s.passedTo n k.view partials ready := by
  cases a with
  | call i view partials =>
    obtain ⟨m, given, hg, rfl⟩ := exists_of_watching_call hk
    rw [passed, hg]
    by_cases hm : m = n
    · exact .inr ⟨hm, partials, _, if_pos (congrArg some hm)⟩
    · exact .inl (if_neg fun heq => hm (Option.some.inj heq))
  | render m t view partials =>
    cases hk
    by_cases hm : m = n
    · exact .inr ⟨hm, partials, _, if_pos hm⟩
    · exact .inl (if_neg hm)
  | send t view partials taken =>
    cases hk
    by_cases hm : 0 = n
    · exact .inr ⟨hm, partials, _, if_pos hm⟩
    · exact .inl (if_neg hm)
  | _ => exact .inl rfl

/-- Nothing is passed where there is no writer, or no context. -/
theorem passed_of_not_there (hk : s.watching a = some k)
    (h : s.writers[k.writer]? = none ∨ s.contextOf k.view = none) (n : Nat) :
    s.passed n a = [] := by
  rcases passed_cases hk n with hnone | ⟨rfl, partials, ready, heq⟩
  · exact hnone
  · rw [heq]
    exact passedTo_of_not_there h ready

/-- Nothing is passed to another writer. -/
theorem passed_of_ne (hk : s.watching a = some k) (hn : k.writer ≠ n) : s.passed n a = [] := by
  rcases passed_cases hk n with hnone | ⟨heq, -⟩
  · exact hnone
  · exact absurd heq hn

theorem passed_of_watching_eq_none (hk : s.watching a = none) (n : Nat) : s.passed n a = [] := by
  cases a with
  | call i view partials =>
    have hi : s.compiled[i]? = none := Option.map_eq_none_iff.1 hk
    rw [passed, hi]
    rfl
  | render | send => cases hk
  | _ => rfl

/-! ## Work with a writer -/

/-- What a step does goes on with the past of its writer, and adds the loader that it passes. -/
theorem dealing_act (hk : s.watching a = some k) (hw : s.writers[k.writer]? = some w)
    (hc : s.contextOf k.view = some c) (htold : Told w (r.pasts k.writer)) :
    let left := (k.seen r w c s.tally).2
    Told left.writer.writer left.writer.past ∧
      ∃ new, Noted new ⟨r.watch k.writer w k.view c.scope, c.memo, s.tally, []⟩ left ∧
        new.filterMap Dealing.given? = s.passed k.writer a := by
  cases a with
  | call i view partials =>
    obtain ⟨m, given, hg, rfl⟩ := exists_of_watching_call hk
    have hpassed : s.passed m (.call i view partials) = partials.loaders := by
      rw [passed, hg, Option.map_some, if_pos rfl, passedTo_of_there hw hc]
      rfl
    have hcall : Judgement.dealing partials.loaders String c.scope
        (Watch.notes.renderCompiled s.settings depthLimit given partials c.scope) fun _ => True :=
      Judgement.dealing_renderCompiled s.settings depthLimit given partials
    obtain ⟨hleft, hnew, -⟩ := hcall ⟨r.watch m w view c.scope, c.memo, s.tally, []⟩ htold
    dsimp only
    rw [Watching.seen, runFrom_map, hpassed]
    exact ⟨hleft, hnew⟩
  | render m t view partials =>
    cases hk
    dsimp only
    rw [Watching.seen, runFrom_map, passed, if_pos rfl, passedTo_of_there hw hc]
    exact Judgement.dealing_template s.settings depthLimit t partials htold
  | send t view partials taken =>
    cases hk
    dsimp only
    rw [Watching.seen, runFrom_map, passed, if_pos rfl, passedTo_of_there hw hc]
    exact Judgement.dealing_template s.settings depthLimit t partials htold
  | lookup i name =>
    cases hk
    have h := Judgement.oversees_dealing s.settings
    have hlookup : Judgement.dealing [] Value c.scope
        (Watch.notes.lookup (Watch.notes.deeper s.settings depthLimit) c.scope name >>= fun v =>
          ofCurrent Value.writable v) fun _ => True := by
      refine Judgement.dealing_bind (Judgement.dealing_lookup fun callee args => ?_) fun v _ => ?_
      · exact (h.below depthLimit).apply c.scope callee args
      · exact h.ofCurrent _ v
    obtain ⟨hleft, hnew, -⟩ := hlookup ⟨r.watch 0 w (.context i) c.scope, c.memo, s.tally, []⟩ htold
    dsimp only
    rw [Watching.seen, runFrom_map]
    exact ⟨hleft, hnew⟩
  | _ => cases hk

/-! ## Steps -/

/-- What was noted of each writer tells what it knows and which loader it has. -/
structure ToldBy (s : Session) (r : Record) : Prop where
  told : ∀ (n : Nat) (w : Writer), s.writers[n]? = some w → Told w (r.pasts n)
  unborn : ∀ n, s.writers[n]? = none → r.pasts n = []

/-- What a step adds to the past of a writer: some dealings, among them what the step passes to the
writer. If the step works with the writer, what loaders were asked in them is what it records. -/
structure Adds (s : Session) (r : Record) (a : Step) (n : Nat) (new : List Dealing) : Prop where
  past : (s.noted r a).pasts n = new ++ r.pasts n
  given : new.filterMap Dealing.given? = s.passed n a
  asked : (new.filterMap Dealing.asked?).reverse =
    if (s.watching a).map Watching.writer = some n then
      (s.step a).1.log.filterMap Event.loaded?
    else []

namespace ToldBy

theorem of_eq (h : s.ToldBy r) (hwriters : s'.writers = s.writers) (hpasts : r'.pasts = r.pasts) :
    s'.ToldBy r' := by
  obtain ⟨htold, hunborn⟩ := h
  rw [← hwriters, ← hpasts] at htold hunborn
  exact ⟨htold, hunborn⟩

/-- One writer was changed, and its past with it. -/
theorem set (h : s.ToldBy r) (hw : s.writers[n]? = some w) (htold : Told w' past)
    (hwriters : s'.writers = s.writers.set n w')
    (hpasts : r'.pasts = Function.update r.pasts n past) : s'.ToldBy r' := by
  constructor
  · intro m v hv
    rw [hwriters] at hv
    rw [hpasts]
    by_cases hm : m = n
    · subst hm
      rw [List.getElem?_set_self', hw] at hv
      cases hv
      rw [Function.update_self]
      exact htold
    · rw [List.getElem?_set_ne (Ne.symm hm)] at hv
      rw [Function.update_of_ne hm]
      exact h.told m v hv
  · intro m hm
    rw [hwriters, List.getElem?_eq_none_iff, List.length_set] at hm
    have hne : m ≠ n := by
      rintro rfl
      exact Nat.not_lt_of_le hm (List.getElem?_eq_some_iff.1 hw).1
    rw [hpasts, Function.update_of_ne hne]
    exact h.unborn m (List.getElem?_eq_none_iff.2 hm)

theorem step_watching (h : s.ToldBy r) (hk : s.watching a = some k) :
    (s.step a).2.ToldBy (s.noted r a) := by
  cases hw : s.writers[k.writer]? with
  | none =>
    rw [step_of_watching_not_there hk (.inl hw), noted_of_not_there hk (.inl hw)]
    exact h
  | some w =>
    cases hc : s.contextOf k.view with
    | none =>
      rw [step_of_watching_not_there hk (.inr hc), noted_of_not_there hk (.inr hc)]
      exact h
    | some c =>
      obtain ⟨htold, -⟩ := dealing_act hk hw hc (h.told k.writer w hw)
      rw [step_eq_retold s r a k w c hk hw hc, noted_eq_seen hk hw hc]
      exact h.set hw htold rfl rfl

/-- Compiling that leaves the partials and the loader goes on with the past. -/
theorem compileWith (h : s.ToldBy r) {f : Writer → Except TemplateError (Compiled × Writer)}
    (hf : ∀ w given, f w = .ok given →
      given.2.partials = w.partials ∧ given.2.loader = w.loader) :
    (s.compileWith n f).2.ToldBy r := by
  rcases writers_compileWith s n f with ⟨w, given, hw, hr, hwriters⟩ | ⟨-, hwriters⟩
  · obtain ⟨hpartials, hloader⟩ := hf w given hr
    refine h.set hw ((h.told n w hw).of_eq hpartials hloader) hwriters ?_
    exact (Function.update_eq_self n r.pasts).symm
  · exact h.of_eq hwriters rfl

/-- **Every step keeps what was noted right.** -/
theorem step (h : s.ToldBy r) (a : Step) : (s.step a).2.ToldBy (s.noted r a) := by
  cases a with
  | makeWriter escape =>
    constructor
    · intro n w hw
      change (s.writers ++ [Writer.new escape])[n]? = some w at hw
      show Told w (r.pasts n)
      rw [List.getElem?_append] at hw
      split at hw
      · exact h.told n w hw
      · next hn =>
        rw [h.unborn n (List.getElem?_eq_none (Nat.le_of_not_lt hn))]
        obtain rfl := List.mem_singleton.1 (List.mem_of_getElem? hw)
        exact Told.new escape
    · intro n hn
      change (s.writers ++ [Writer.new escape])[n]? = none at hn
      rw [List.getElem?_eq_none_iff, List.length_append] at hn
      exact h.unborn n (List.getElem?_eq_none (Nat.le_of_add_right_le hn))
  | setEscape | setDelimiters => exact h.of_eq rfl rfl
  | makeContext view => cases view <;> exact h.of_eq rfl rfl
  | inspect n =>
    rw [Session.step]
    cases s.writers[n]? <;> exact h
  | push i v | viewOf i =>
    rw [Session.step, withContext]
    cases s.contexts[i]? <;> exact h.of_eq rfl rfl
  | forget i =>
    rw [Session.step, withContext]
    cases s.contexts[i]? <;> exact h.of_eq rfl (r.forgetting_pasts i)
  | compile n t delimiters =>
    refine h.compileWith fun w given hf => ?_
    exact ⟨Writer.partials_of_compile hf, (Writer.same_of_compile hf).2.1⟩
  | assemble n t drafts =>
    refine h.compileWith fun w given hf => ?_
    cases hf
    exact ⟨rfl, rfl⟩
  | assembleParsed n t other delimiters =>
    refine h.compileWith fun w given hf => ?_
    cases hp : Template.parseWith (delimiters.getD s.settings.delimiters) other with
    | error e =>
      rw [hp] at hf
      cases hf
    | ok nodes =>
      rw [hp] at hf
      cases hf
      exact ⟨rfl, rfl⟩
  | compilePartial n name t delimiters =>
    rcases writers_compileWith s n fun w =>
      w.compilePartial (delimiters.getD s.settings.delimiters) name t with
      ⟨w, given, hw, hf, hwriters⟩ | ⟨hf, hwriters⟩
    · obtain ⟨v, hc, hleft⟩ := Writer.compile_of_compilePartial_ok hf
      have htold := (h.told n w hw).register hc name
      rw [noted_compilePartial_ok hw hf]
      rw [← hleft] at htold
      exact h.set hw htold hwriters rfl
    · rw [noted_compilePartial_error hf]
      exact h.of_eq hwriters rfl
  | clear n =>
    show (s.step _).2.ToldBy (if (s.writers[n]?).isSome then r.dealt n .cleared else r)
    rw [Session.step, withWriter]
    cases hw : s.writers[n]? with
    | none => exact h
    | some w => exact h.set hw (h.told n w hw).clear rfl rfl
  | call i view partials =>
    cases hk : s.watching (.call i view partials) with
    | some k => exact h.step_watching hk
    | none =>
      obtain ⟨hstep, hnoted⟩ := step_of_watching_call_eq_none hk r
      rw [hstep, hnoted]
      exact h
  | render | send | lookup => exact h.step_watching rfl

end ToldBy

/-! ## What steps add -/

/-- Compiling records nothing. -/
theorem log_compileWith (s : Session) (n : Nat)
    (f : Writer → Except TemplateError (Compiled × Writer)) : (s.compileWith n f).1.log = [] := by
  cases hw : s.writers[n]? with
  | none =>
    rw [compileWith_of_writers_eq_none hw]
    rfl
  | some w =>
    cases hf : f w with
    | error e =>
      rw [compileWith_error hw hf]
      rfl
    | ok given =>
      rw [compileWith_ok hw hf]
      rcases giveOut_cases { s with writers := s.writers.set n given.2 } n given.1 with
        ⟨j, e, -, -, hout⟩ | hout <;> rw [hout] <;> rfl

/-- A step that neither renders nor looks a name up records nothing. -/
theorem log_of_watching_eq_none (hk : s.watching a = none) : (s.step a).1.log = [] := by
  cases a with
  | compile | compilePartial | assemble | assembleParsed => exact log_compileWith s _ _
  | call i view partials =>
    rw [(step_of_watching_call_eq_none hk .empty).1]
    rfl
  | render | send | lookup => cases hk
  | makeContext view => cases view <;> rfl
  | clear n =>
    rw [step, withWriter]
    cases s.writers[n]? <;> rfl
  | inspect n =>
    rw [step]
    cases s.writers[n]? <;> rfl
  | push i v | viewOf i | forget i =>
    rw [step, withContext]
    cases s.contexts[i]? <;> rfl
  | makeWriter | setEscape | setDelimiters => rfl

/-- A step that neither renders nor looks a name up gives and asks no loader. -/
theorem exists_of_watching_eq_none (hk : s.watching a = none) (r : Record) (n : Nat) :
    ∃ new, (s.noted r a).pasts n = new ++ r.pasts n ∧ new.filterMap Dealing.given? = [] ∧
      new.filterMap Dealing.asked? = [] := by
  have same {r' : Record} (h : r'.pasts = r.pasts) : ∃ new, r'.pasts n = new ++ r.pasts n ∧
      new.filterMap Dealing.given? = [] ∧ new.filterMap Dealing.asked? = [] :=
    ⟨[], by rw [h]; rfl, rfl, rfl⟩
  have dealt (m : Nat) (d : Dealing) (hgiven : d.given? = none) (hasked : d.asked? = none) :
      ∃ new, (r.dealt m d).pasts n = new ++ r.pasts n ∧ new.filterMap Dealing.given? = [] ∧
        new.filterMap Dealing.asked? = [] := by
    by_cases hm : n = m
    · subst hm
      refine ⟨[d], Function.update_self _ _ _, ?_, ?_⟩
      · rw [List.filterMap_cons, hgiven]
        rfl
      · rw [List.filterMap_cons, hasked]
        rfl
    · exact ⟨[], Function.update_of_ne hm _ _, rfl, rfl⟩
  cases a with
  | compilePartial m name t delimiters =>
    rcases writers_compileWith s m fun w =>
      w.compilePartial (delimiters.getD s.settings.delimiters) name t with
      ⟨w, given, hw, hf, -⟩ | ⟨hf, -⟩
    · rw [noted_compilePartial_ok hw hf]
      exact dealt m _ rfl rfl
    · rw [noted_compilePartial_error hf]
      exact same rfl
  | clear m =>
    show ∃ new, (if (s.writers[m]?).isSome then r.dealt m .cleared else r).pasts n = _ ∧ _
    split
    · exact dealt m _ rfl rfl
    · exact same rfl
  | forget i =>
    exact same (r.forgetting_pasts i)
  | call i view partials =>
    rw [(step_of_watching_call_eq_none hk r).2]
    exact same rfl
  | render | send | lookup => cases hk
  | _ => exact same rfl

/-- **What a step adds to the past of a writer,** and what of this it passes and records. -/
theorem ToldBy.exists_adds (h : s.ToldBy r) (a : Step) (n : Nat) : ∃ new, s.Adds r a n new := by
  cases hk : s.watching a with
  | none =>
    obtain ⟨new, hpast, hgiven, hasked⟩ := exists_of_watching_eq_none hk r n
    refine ⟨new, hpast, hgiven.trans (passed_of_watching_eq_none hk n).symm, ?_⟩
    rw [hasked, hk]
    rfl
  | some k =>
    -- Nothing is done, or it is done with another writer, or with this one.
    have nothing (hpast : (s.noted r a).pasts n = r.pasts n) (hpassed : s.passed n a = [])
        (hlog : k.writer = n → (s.step a).1.log = []) : ∃ new, s.Adds r a n new := by
      refine ⟨[], hpast, hpassed.symm, ?_⟩
      rw [hk, Option.map_some]
      by_cases hn : k.writer = n
      · rw [if_pos (congrArg some hn), hlog hn]
        rfl
      · rw [if_neg fun heq => hn (Option.some.inj heq)]
        rfl
    by_cases hthere : s.writers[k.writer]? = none ∨ s.contextOf k.view = none
    · refine nothing ?_ (passed_of_not_there hk hthere n) fun _ => ?_
      · rw [noted_of_not_there hk hthere]
      · rw [step_of_watching_not_there hk hthere]
        rfl
    · obtain ⟨hw, hc⟩ := not_or.1 hthere
      obtain ⟨w, hw⟩ := Option.ne_none_iff_exists'.1 hw
      obtain ⟨c, hc⟩ := Option.ne_none_iff_exists'.1 hc
      by_cases hn : k.writer = n
      · subst hn
        obtain ⟨-, new, hnotes, hgiven⟩ := dealing_act hk hw hc (h.told k.writer w hw)
        refine ⟨new, ?_, hgiven, ?_⟩
        · rw [noted_eq_seen hk hw hc]
          exact (Function.update_self _ _ _).trans hnotes.past
        · rw [hk, Option.map_some, if_pos rfl, step_eq_retold s r a k w c hk hw hc]
          exact hnotes.log.symm
      · refine nothing ?_ (passed_of_ne hk hn) fun heq => absurd heq hn
        rw [noted_eq_seen hk hw hc]
        exact Function.update_of_ne (Ne.symm hn) _ _

/-! ## Runs -/

theorem ToldBy.after (h : s.ToldBy r) (steps : List Step) :
    (s.after steps).ToldBy (s.notedAll r steps) := by
  induction steps generalizing s r with
  | nil => exact h
  | cons a steps ih => exact ih (h.step a)

/-- The loaders that were given to a writer are those that the steps passed. -/
theorem ToldBy.given_after (h : s.ToldBy r) (n : Nat) (steps : List Step) :
    ((s.notedAll r steps).pasts n).filterMap Dealing.given? =
      s.passedAll n steps ++ (r.pasts n).filterMap Dealing.given? := by
  induction steps generalizing s r with
  | nil => rfl
  | cons a steps ih =>
    obtain ⟨new, hadds⟩ := h.exists_adds a n
    have hrest := ih (h.step a)
    rw [hadds.past, List.filterMap_append, hadds.given] at hrest
    rw [notedAll, hrest, passedAll, List.append_assoc]

theorem toldBy_begun (settings : Settings) (escape : Option (String → String)) :
    (begun settings escape).ToldBy .empty where
  told n w hw := by
    obtain rfl := List.mem_singleton.1 (List.mem_of_getElem? hw)
    exact Told.new escape
  unborn _ _ := rfl

/-- A writer of a session asks its loaders in order, by what was noted. What was noted is right: it
tells what the writer knows and which loader it has; each step adds to it the loader that it passes,
and what is asked, which it records; other steps than those that render or look up record nothing;
and each step does what it does with the notes left out. -/
structure LoadsInOrder (s : Session) (r : Record) (n : Nat) (w : Writer) : Prop where
  asks : Disciplined (r.pasts n)
  told : Told w (r.pasts n)
  adds : ∀ a, ∃ new, s.Adds r a n new
  silent : ∀ a, s.watching a = none → (s.step a).1.log = []
  retold : ∀ a, s.Retold r a

/-- **Loaders are asked in order.** At every moment of a session, whatever was done in it: a loader
was asked for a name only where a partial tag of this name was come to and the name was not known;
once the name was registered no loader was asked for it until everything was forgotten; after a load
that gave nothing the next tag had a loader asked again; and the loader that was asked was the one
that was passed last, with a function that the writer compiled or with a template that it could
read. -/
theorem loaders_inOrder (settings : Settings) (escape : Option (String → String))
    (steps : List Step) {n : Nat} {w : Writer}
    (hw : ((begun settings escape).after steps).writers[n]? = some w) :
    ((begun settings escape).after steps).LoadsInOrder
        ((begun settings escape).notedAll .empty steps) n w ∧
      w.loader = ((begun settings escape).passedAll n steps).head? := by
  have hbegun := toldBy_begun settings escape
  have h := hbegun.after steps
  have htold := h.told n w hw
  refine ⟨⟨htold.orderly.disciplined, htold, fun a => h.exists_adds a n,
    fun a => log_of_watching_eq_none, fun a => step_eq_retold _ _ a⟩, ?_⟩
  have hgiven := hbegun.given_after n steps
  rw [show (Record.empty.pasts n).filterMap Dealing.given? = [] from rfl, List.append_nil] at hgiven
  rw [htold.loader, Watch.lastGiven, ← hgiven, List.head?_filterMap]

/-- In a word, a dealing with the partial of a name. -/
def account : Dealing → String × String
  | .given _ => ("given", "")
  | .registered name _ => ("registered", name)
  | .came name => ("came", name)
  | .sought name .known => ("known", name)
  | .sought name .unasked => ("unasked", name)
  | .sought name (.asked _ (.loaded _)) => ("loaded", name)
  | .sought name (.asked _ _) => ("in vain", name)
  | .cleared => ("cleared", "")

/-- Of two partials in a section that is gone through twice, the loader gives one, and is asked for
the other one each time. A second loader, passed later, is asked for this one only; and for the
first one once everything was forgotten, although no loader but a mapping is passed. -/
theorem loaders_inOrder_replaced :
    let first : Loader := ⟨fun name => .ok (if name = "p" then some "P" else none)⟩
    let second : Loader := ⟨fun _ => .ok (some "S")⟩
    let view : Value := .dict [(.str "l", .list [.str "x", .str "y"])]
    let steps : List Step :=
      [.render 0 "\x7b\x7b#l\x7d\x7d\x7b\x7b>p\x7d\x7d\x7b\x7b>q\x7d\x7d\x7b\x7b/l\x7d\x7d"
        (.value view) (.loader first),
      .render 0 "\x7b\x7b>p\x7d\x7d\x7b\x7b>q\x7d\x7d" (.value .null) (.loader second), .clear 0,
      .render 0 "\x7b\x7b>p\x7d\x7d" (.value .null) (.named [("q", "Q")])]
    (((begun defaults none).notedAll .empty steps).pasts 0).reverse.map account =
        [("given", ""), ("came", "p"), ("loaded", "p"), ("came", "q"), ("in vain", "q"),
          ("came", "p"), ("known", "p"), ("came", "q"), ("in vain", "q"), ("given", ""),
          ("came", "p"), ("known", "p"), ("came", "q"), ("loaded", "q"), ("cleared", ""),
          ("registered", "q"), ("came", "p"), ("loaded", "p")] ∧
      ∃ w, ((begun defaults none).after steps).writers[0]? = some w ∧
        ((begun defaults none).after steps).LoadsInOrder
          ((begun defaults none).notedAll .empty steps) 0 w ∧
        w.loader = ((begun defaults none).passedAll 0 steps).head? := by
  intro first second view steps
  have hthere : ((begun defaults none).after steps).writers[0]?.isSome = true := by decide +kernel
  obtain ⟨w, hw⟩ := Option.isSome_iff_exists.1 hthere
  exact ⟨by decide +kernel, w, hw, loaders_inOrder defaults none steps hw⟩

end Session

end Mustache
