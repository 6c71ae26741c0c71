import Mustache.Proofs.Render.Recall
import Mustache.Proofs.Session.Watching

/-!
# Calls that contexts make

A name of a context may lead to a callable that needs no arguments. In a whole session, whatever is
looked up and rendered in this context, in those around it and in those inside it, the callable is
called for the name once, if that succeeds: what came of it is remembered until the context is made
to forget. If it fails, the next look calls again. What is remembered is not known before the call
ended; so a callable that comes back to its own name is called for it in the course of its own call.

**Idea.** What a context remembers is what can be recalled of the looks in it that were noted
(`Session.SeenBy`). Every step keeps this, so it holds at every moment of a session, and each look
was lawful. The rest is said of lawful looks.

Main statements: `Session.SeenBy.step` and `Session.calls_once`.
-/

namespace Mustache

open Render Watch

namespace Session

variable {s s' : Session} {r r' : Record} {a : Step} {k : Watching} {n i : Nat} {w : Writer}
  {view : View} {c : Context} {number : Nat} {left : State Watch}

/-- What was noted in a session is right. Each context has a number of its own, under which its
scope and its looks are; it remembers what is recalled of these; each look was lawful, and no call
is under way. -/
structure SeenBy (s : Session) (r : Record) : Prop where
  length : r.numbers.length = s.contexts.length
  nodup : r.numbers.Nodup
  scope : ∀ (i : Nat) (c : Context) (number : Nat), s.contexts[i]? = some c →
    r.numbers[i]? = some number → r.scopes[number]? = some c.scope
  memo : ∀ (i : Nat) (c : Context) (number : Nat), s.contexts[i]? = some c →
    r.numbers[i]? = some number → ∀ name, c.memo.find? name = recalled number name r.looks
  lawful : Lawful r.scopes r.looks
  rests : underway r.looks = []

/-- What was noted under a number is right for a context: its scope, and what it remembers. -/
structure Fits (r : Record) (number : Nat) (c : Context) : Prop where
  scope : r.scopes[number]? = some c.scope
  memo : ∀ name, c.memo.find? name = recalled number name r.looks

namespace SeenBy

theorem exists_number (h : s.SeenBy r) (hc : s.contexts[i]? = some c) :
    ∃ number, r.numbers[i]? = some number := by
  obtain ⟨hi, -⟩ := List.getElem?_eq_some_iff.1 hc
  rw [← h.length] at hi
  exact ⟨_, List.getElem?_eq_getElem hi⟩

theorem number_lt (h : s.SeenBy r) (hnumber : r.numbers[i]? = some number) :
    number < r.scopes.length := by
  obtain ⟨hi, -⟩ := List.getElem?_eq_some_iff.1 hnumber
  rw [h.length] at hi
  have hscope := h.scope i _ number (List.getElem?_eq_getElem hi) hnumber
  exact (List.getElem?_eq_some_iff.1 hscope).1

/-- It is enough to look at one context after the other. -/
theorem of_fits (hlength : r.numbers.length = s.contexts.length) (hnodup : r.numbers.Nodup)
    (hfits : ∀ (j : Nat) (d : Context) (number : Nat), s.contexts[j]? = some d →
      r.numbers[j]? = some number → Fits r number d)
    (hlawful : Lawful r.scopes r.looks) (hrests : underway r.looks = []) : s.SeenBy r where
  length := hlength
  nodup := hnodup
  scope j d number hd hnumber := (hfits j d number hd hnumber).scope
  memo j d number hd hnumber := (hfits j d number hd hnumber).memo
  lawful := hlawful
  rests := hrests

/-- Something was done in one context, and nothing in the others. -/
theorem set (h : s.SeenBy r) (hc : s.contexts[i]? = some c)
    (hhere : r.numbers[i]? = some number) {c' : Context}
    (hcontexts : s'.contexts = s.contexts.set i c') (hnumbers : r'.numbers = r.numbers)
    (hself : Fits r' number c')
    (hothers : ∀ (j : Nat) (d : Context) (other : Nat), s.contexts[j]? = some d →
      r.numbers[j]? = some other → other ≠ number → Fits r' other d)
    (hlawful : Lawful r'.scopes r'.looks) (hrests : underway r'.looks = []) : s'.SeenBy r' := by
  refine of_fits ?_ (hnumbers ▸ h.nodup) (fun j d other hd hother => ?_) hlawful hrests
  · rw [hnumbers, hcontexts, List.length_set]
    exact h.length
  · rw [hcontexts] at hd
    rw [hnumbers] at hother
    by_cases hj : i = j
    · subst hj
      rw [List.getElem?_set_self', hc] at hd
      cases hd
      rw [hhere] at hother
      cases hother
      exact hself
    · rw [List.getElem?_set_ne hj] at hd
      refine hothers j d other hd hother ?_
      rintro rfl
      obtain ⟨hlt, -⟩ := List.getElem?_eq_some_iff.1 hhere
      exact hj ((List.getElem?_inj hlt h.nodup).1 (hhere.trans hother.symm))

/-- Nothing that is noted of contexts has changed. -/
theorem of_eq (h : s.SeenBy r) (hcontexts : s'.contexts = s.contexts)
    (hscopes : r'.scopes = r.scopes) (hlooks : r'.looks = r.looks)
    (hnumbers : r'.numbers = r.numbers) : s'.SeenBy r' := by
  obtain ⟨hlength, hnodup, hscope, hmemo, hlawful, hrests⟩ := h
  rw [← hcontexts, ← hnumbers] at hlength
  rw [← hnumbers] at hnodup
  rw [← hcontexts, ← hnumbers, ← hscopes] at hscope
  rw [← hcontexts, ← hnumbers, ← hlooks] at hmemo
  rw [← hscopes, ← hlooks] at hlawful
  rw [← hlooks] at hrests
  exact ⟨hlength, hnodup, hscope, hmemo, hlawful, hrests⟩

/-! ## Work in a context -/

/-- A watch over a writer starts right, in the context of a view. -/
theorem right (h : s.SeenBy r) (hc : s.contextOf view = some c) (n : Nat) (w : Writer) :
    Right c.scope ⟨r.watch n w view c.scope, c.memo, s.tally, []⟩ := by
  cases view with
  | value v =>
    cases hc
    refine ⟨List.getElem?_concat_length, fun name => ?_, ?_⟩
    · exact (h.lawful.recalled_eq_none (Nat.le_refl _)).symm
    · exact h.lawful.mono (List.prefix_append _ _)
  | context i =>
    have hthere : s.contexts[i]? = some c := hc
    obtain ⟨number, hnumber⟩ := h.exists_number hthere
    have hhere := Record.numberOf_context hnumber
    constructor
    · show r.scopes[r.numberOf (.context i)]? = some c.scope
      rw [hhere]
      exact h.scope i c number hthere hnumber
    · show ∀ name, c.memo.find? name = recalled (r.numberOf (.context i)) name r.looks
      rw [hhere]
      exact h.memo i c number hthere hnumber
    · exact h.lawful

/-- The contexts where no work was done remember what they did, and it is recalled still. -/
theorem others (h : s.SeenBy r) (hgrows : Grows (r.watch n w view c.scope) left.writer)
    {j other : Nat} {d : Context} (hd : s.contexts[j]? = some d)
    (hother : r.numbers[j]? = some other) (hne : other ≠ r.numberOf view) :
    Fits (r.seen n left.writer) other d := by
  have hlt := h.number_lt hother
  have hsub : r.scopes <+: r.scopesWith c.scope view := by
    cases view with
    | value v => exact List.prefix_append _ _
    | context i => exact List.prefix_refl _
  constructor
  · obtain ⟨more, hmore⟩ := hsub.trans hgrows.scopes
    show left.writer.scopes[other]? = some d.scope
    rw [← hmore, List.getElem?_append_left hlt]
    exact h.scope j d other hd hother
  · intro name
    rw [h.memo j d other hd hother name]
    exact (hgrows.others other (Nat.lt_of_lt_of_le hlt hsub.length_le) hne name).symm

/-- What was noted is right after some work with a writer, in the context of a view. -/
theorem seen (h : s.SeenBy r) (hc : s.contextOf view = some c) (hright : Right c.scope left)
    (hgrows : Grows (r.watch n w view c.scope) left.writer) :
    (s.leave n view c left.erased).SeenBy (r.seen n left.writer) := by
  have hrests : underway left.writer.looks = [] := hgrows.underway.trans h.rests
  cases view with
  | value v =>
    refine of_fits h.length h.nodup (fun j d other hd hother => ?_) hright.lawful hrests
    exact h.others hgrows hd hother (Nat.ne_of_lt (h.number_lt hother))
  | context i =>
    have hthere : s.contexts[i]? = some c := hc
    obtain ⟨here, hhere⟩ := h.exists_number hthere
    have hnumberOf := Record.numberOf_context hhere
    have hleft : left.writer.here = here := hgrows.here.trans hnumberOf
    have hself : Fits (r.seen n left.writer) here { c with memo := left.memo } :=
      hleft ▸ ⟨hright.here, hright.memo⟩
    refine h.set hthere hhere rfl rfl hself (fun j d other hd hother hne => ?_) hright.lawful hrests
    exact h.others hgrows hd hother (hnumberOf ▸ hne)

/-! ## Steps -/

/-- What a step does keeps what is remembered what is recalled. -/
theorem right_act (hk : s.watching a = some k) {scope : Scope} :
    Judgement.right Answer scope (k.act scope) fun _ => True := by
  cases a with
  | call i view partials =>
    obtain ⟨n, given, hg, rfl⟩ := exists_of_watching_call hk
    exact Judgement.right_map _
      (Judgement.right_renderCompiled s.settings depthLimit given partials)
  | render n t view partials =>
    cases hk
    exact Judgement.right_map _ (Judgement.right_template s.settings depthLimit t partials)
  | send t view partials taken =>
    cases hk
    exact Judgement.right_map _ (Judgement.right_template s.settings depthLimit t partials)
  | lookup i name =>
    cases hk
    have h := Judgement.oversees_right s.settings
    have hlookup := h.lookup _ scope name ((h.below depthLimit).apply scope)
    exact Judgement.right_map _ (h.bind hlookup fun v _ => h.ofCurrent Value.writable v)
  | _ => cases hk

theorem step_watching (h : s.SeenBy r) (hk : s.watching a = some k) :
    (s.step a).2.SeenBy (s.noted r a) := by
  cases hw : s.writers[k.writer]? with
  | none =>
    rw [step_of_watching_not_there hk (.inl hw), noted_of_not_there hk (.inl hw)]
    exact h
  | some w =>
    cases hc : s.contextOf k.view with
    | none =>
      rw [step_of_watching_not_there hk (.inr hc), noted_of_not_there hk (.inr hc)]
      exact h
    | some c =>
      obtain ⟨hright, hgrows, -⟩ := right_act hk _ (h.right hc k.writer w)
      rw [step_eq_retold s r a k w c hk hw hc, noted_eq_seen hk hw hc]
      exact h.seen hc hright hgrows

/-- A context that is opened remembers nothing yet. -/
theorem addContext (h : s.SeenBy r) (scope : Scope) :
    (s.addContext (Context.ofScope scope)).2.SeenBy (r.opening [scope]) := by
  refine of_fits ?_ ?_ (fun j d number hd hnumber => ?_) (h.lawful.mono (List.prefix_append _ _))
    h.rests
  · show (r.numbers ++ [r.scopes.length]).length = (s.contexts ++ [_]).length
    rw [List.length_append, List.length_append, h.length]
    rfl
  · refine List.nodup_append.2 ⟨h.nodup, List.pairwise_singleton _ _, ?_⟩
    intro number hold next hnew
    obtain rfl := List.mem_singleton.1 hnew
    obtain ⟨j, hj⟩ := List.mem_iff_getElem?.1 hold
    exact Nat.ne_of_lt (h.number_lt hj)
  -- A context that was there, with its number, or the new one, with the next.
  · change (s.contexts ++ [Context.ofScope scope])[j]? = some d at hd
    change (r.numbers ++ [r.scopes.length])[j]? = some number at hnumber
    by_cases hj : j < s.contexts.length
    · rw [List.getElem?_append_left hj] at hd
      rw [List.getElem?_append_left (h.length ▸ hj)] at hnumber
      have hold : (r.scopes ++ [scope])[number]? = some d.scope := by
        rw [List.getElem?_append_left (h.number_lt hnumber)]
        exact h.scope j d number hd hnumber
      exact ⟨hold, h.memo j d number hd hnumber⟩
    · have hlen := (List.getElem?_eq_some_iff.1 hd).1
      rw [List.length_append, List.length_singleton] at hlen
      obtain rfl : j = s.contexts.length := by omega
      rw [List.getElem?_concat_length] at hd
      cases hd
      rw [← h.length, List.getElem?_concat_length] at hnumber
      cases hnumber
      refine ⟨List.getElem?_concat_length, fun name => ?_⟩
      exact (h.lawful.recalled_eq_none (Nat.le_refl _)).symm

/-- A context that is made to forget recalls nothing. -/
theorem forget (h : s.SeenBy r) (hc : s.contexts[i]? = some c) :
    ({ s with contexts := s.contexts.set i c.forget } : Session).SeenBy (r.forgetting i) := by
  obtain ⟨here, hhere⟩ := h.exists_number hc
  rw [Record.forgetting, hhere]
  refine h.set hc hhere rfl rfl ?_ (fun j d other hd hother hne => ?_) (.forgot here h.lawful)
    h.rests
  · exact ⟨h.scope i c here hc hhere, fun name => (recalled_forgot_self r.looks).symm⟩
  · refine ⟨h.scope j d other hd hother, fun name => ?_⟩
    rw [recalled_forgot_of_ne (Ne.symm hne)]
    exact h.memo j d other hd hother name

/-- **Every step keeps what was noted right.** -/
theorem step (h : s.SeenBy r) (a : Step) : (s.step a).2.SeenBy (s.noted r a) := by
  cases a with
  | makeWriter | setEscape | setDelimiters => exact h.of_eq rfl rfl rfl rfl
  | inspect n =>
    rw [Session.step]
    cases s.writers[n]? <;> exact h
  | viewOf i =>
    rw [Session.step, withContext]
    cases s.contexts[i]? <;> exact h
  | compile | assemble | assembleParsed => exact h.of_eq (contexts_compileWith s _ _) rfl rfl rfl
  | compilePartial n name t delimiters =>
    have hcontexts := contexts_compileWith s n fun w =>
      w.compilePartial (delimiters.getD s.settings.delimiters) name t
    rcases writers_compileWith s n fun w =>
      w.compilePartial (delimiters.getD s.settings.delimiters) name t with
      ⟨w, given, hw, hf, -⟩ | ⟨hf, -⟩
    · rw [noted_compilePartial_ok hw hf]
      exact h.of_eq hcontexts rfl rfl rfl
    · rw [noted_compilePartial_error hf]
      exact h.of_eq hcontexts rfl rfl rfl
  | clear n =>
    show (s.step _).2.SeenBy (if (s.writers[n]?).isSome then r.dealt n .cleared else r)
    rw [Session.step, withWriter]
    cases s.writers[n]? <;> exact h.of_eq rfl rfl rfl rfl
  | call i view partials =>
    cases hk : s.watching (.call i view partials) with
    | some k => exact h.step_watching hk
    | none =>
      obtain ⟨hstep, hnoted⟩ := step_of_watching_call_eq_none hk r
      rw [hstep, hnoted]
      exact h
  | render | send | lookup => exact h.step_watching rfl
  | makeContext view =>
    cases view with
    | value v => exact h.addContext _
    | context i => exact h.of_eq rfl (List.append_nil _) rfl (List.append_nil _)
  | push i v =>
    show (s.step _).2.SeenBy (r.opening (s.opened (.push i v)))
    rw [Session.step, withContext, opened, getElem?_scopes]
    cases hc : s.contexts[i]? with
    | none => exact h.of_eq rfl (List.append_nil _) rfl (List.append_nil _)
    | some c => exact h.addContext _
  | forget i =>
    show (s.step _).2.SeenBy (r.forgetting i)
    rw [Session.step, withContext]
    cases hc : s.contexts[i]? with
    | some c => exact h.forget hc
    | none =>
      have hnone : r.numbers[i]? = none := by
        rw [List.getElem?_eq_none_iff, h.length]
        exact List.getElem?_eq_none_iff.1 hc
      rw [Record.forgetting, hnone]
      exact h

theorem after (h : s.SeenBy r) (steps : List Step) :
    (s.after steps).SeenBy (s.notedAll r steps) := by
  induction steps generalizing s r with
  | nil => exact h
  | cons a steps ih => exact ih (h.step a)

theorem begun (settings : Settings) (escape : Option (String → String)) :
    (begun settings escape).SeenBy .empty where
  length := rfl
  nodup := List.nodup_nil
  scope _ _ _ hc _ := nomatch hc
  memo _ _ _ hc _ := nomatch hc
  lawful := .nil
  rests := rfl

/-- Looking a name up ends in a look in the context, which is answered with what came of it as it is
by then, as far as that can be written. Without a call it is the only look. -/
theorem noted_lookup (h : s.SeenBy r) (hw : s.writers[0]? = some w) (hc : s.contexts[i]? = some c)
    (name : String) :
    ∃ number way result inner, r.numbers[i]? = some number ∧
      (s.noted r (.lookup i name)).looks = .looked number name way result :: (inner ++ r.looks) ∧
      ((∀ u, way ≠ .called u) → inner = []) ∧
      (s.step (.lookup i name)).1.result = (result >>= fun v =>
        Answer.value <$> (v.current (s.step (.lookup i name)).2.tally).writable) := by
  have hcontext : s.contextOf (.context i) = some c := hc
  obtain ⟨number, hnumber⟩ := h.exists_number hc
  have hcall (u : Value) (t : State Watch) (ht : Right c.scope t) :=
    ((Judgement.oversees_right s.settings).below depthLimit).apply c.scope u [] t ht
  obtain ⟨left, way, result, hanswering, hrun⟩ :=
    exists_answering name (h.right hcontext 0 w) fun u t ht =>
      ⟨(hcall u t ht).1, (hcall u t ht).2.1⟩
  obtain ⟨k, hk, hwriter, hview, hseen⟩ : ∃ k : Watching, s.watching (.lookup i name) = some k ∧
      k.writer = 0 ∧ k.view = .context i ∧ k.seen r w c s.tally =
        ((result >>= fun v => Answer.value <$> (v.current left.tally).writable),
          answered left name way result) := by
    refine ⟨_, rfl, rfl, rfl, ?_⟩
    rw [Watching.seen, runFrom_map, runFrom_bind]
    dsimp only
    rw [hrun]
    cases result <;> rfl
  have hw' : s.writers[k.writer]? = some w := hwriter ▸ hw
  have hc' : s.contextOf k.view = some c := hview ▸ hcontext
  have hstep := step_eq_retold s r _ k w c hk hw' hc'
  rw [hseen] at hstep
  obtain ⟨inner, hinner⟩ := hanswering.looks
  have hhere : left.writer.here = number :=
    hanswering.grows.here.trans (Record.numberOf_context hnumber)
  refine ⟨number, way, result, inner, hnumber, ?_, fun hcalm => ?_, ?_⟩
  · rw [noted_eq_seen hk hw' hc', hseen]
    show .looked left.writer.here name way result :: left.writer.looks = _
    rw [hhere, ← hinner]
    rfl
  · have hlooks := hanswering.calm hcalm
    rw [← hinner] at hlooks
    exact List.append_left_eq_self.1 hlooks
  · rw [hstep]
    rfl

end SeenBy

/-- Callables without arguments are called once for each context and name in a session, by what was
noted of it. What was noted is right: contexts remember what can be recalled of the looks, looking a
name up is a look in its context, with what is done in the course of it if there is a call, and each
step does what it does with the notes left out. -/
structure CallsOnce (s : Session) (r : Record) : Prop where
  calls : CalledOnce r.scopes r.looks
  seen : s.SeenBy r
  lookup : ∀ (i : Nat) (c : Context) (name : String), s.contexts[i]? = some c →
    ∃ number way result inner, r.numbers[i]? = some number ∧
      (s.noted r (.lookup i name)).looks = .looked number name way result :: (inner ++ r.looks) ∧
      ((∀ u, way ≠ .called u) → inner = []) ∧
      (s.step (.lookup i name)).1.result = (result >>= fun v =>
        Answer.value <$> (v.current (s.step (.lookup i name)).2.tally).writable)
  retold : ∀ a, s.Retold r a

/-- **Callables without arguments are called once for each context and name,** unless they come back
to their own name. At every moment of a session, whatever was looked up and rendered in it, and in
whatever contexts: after such a callable was called with success for a name in a context, and until
this was made to forget, no other call is begun for the name there, and every later look gives what
came of it and calls nothing. Only a call in the course of which the other one was made can still
end then. Where calling it failed, nothing is remembered that was not looked up in the course of it,
and the next look calls again; and no context keeps another one from calling. -/
theorem calls_once (settings : Settings) (escape : Option (String → String)) (steps : List Step) :
    ((begun settings escape).after steps).CallsOnce
      ((begun settings escape).notedAll .empty steps) := by
  have h := (SeenBy.begun settings escape).after steps
  obtain ⟨w, hw⟩ := exists_firstWriter settings escape steps
  refine ⟨h.lawful.calledOnce, h, fun i c name hc => ?_, fun a => step_eq_retold _ _ a⟩
  exact h.noted_lookup hw hc name

/-- In a few words, a look in a context that has a number. -/
def brief : Look → Nat × String × String
  | .calling c name _ => (c, name, "calling")
  | .looked c name .remembered _ => (c, name, "remembered")
  | .looked c name .found _ => (c, name, "found")
  | .looked c name (.called _) _ => (c, name, "called")
  | .forgot c => (c, "", "forgot")

/-- A function without parameters. -/
def plainFunction (body : Expr) : Value := .function (.mk 0 none ⟨[], [], none, [], none⟩ body) none

/-- A callable that gives null is called once in a context and once in that of a section inside it,
and again when the first one was made to forget; one that fails is called each time. -/
example :
    let view : Value := .dict [(.str "n", plainFunction (.literal .null)),
      (.str "f", plainFunction (.fail "no")), (.str "l", .list [.str "x"])]
    let steps : List Step := [.makeContext (.value view), .lookup 0 "n",
      .render 0 "\x7b\x7bn\x7d\x7d\x7b\x7b#l\x7d\x7d\x7b\x7bn\x7d\x7d\x7b\x7b/l\x7d\x7d"
        (.context 0) .none, .lookup 0 "f", .lookup 0 "f", .forget 0, .lookup 0 "n"]
    ((begun defaults none).notedAll .empty steps).looks.map brief =
      [(0, "n", "called"), (0, "n", "calling"), (0, "", "forgot"), (0, "f", "called"),
        (0, "f", "calling"), (0, "f", "called"), (0, "f", "calling"), (1, "n", "called"),
        (1, "n", "calling"), (0, "l", "found"), (0, "n", "remembered"), (0, "n", "called"),
        (0, "n", "calling")] := by
  decide +kernel

/-- How many calls for a name in a context have succeeded since this was last made to forget. -/
def callsSince (c : Nat) (name : String) : List Look → Nat
  | [] => 0
  | .looked c' name' (.called _) (.ok _) :: looks =>
    callsSince c name looks + if c' = c ∧ name' = name then 1 else 0
  | .forgot c' :: looks => if c' = c then 0 else callsSince c name looks
  | .looked _ _ _ _ :: looks | .calling _ _ _ :: looks => callsSince c name looks

/-- Renders the name `f`, in a section that is there the first time only. -/
def comingBack : Value :=
  plainFunction (.call (.literal .renderer) [.join [.literal (.str "\x7b\x7b#a"), .count "opened",
    .literal (.str "\x7d\x7d\x7b\x7bf\x7d\x7d\x7b\x7b/a"), .count "closed",
    .literal (.str "\x7d\x7d")]])

/-- A callable that comes back to its own name is called twice, and both calls succeed. -/
theorem calls_twice_comingBack :
    ¬ ∀ (steps : List Step) (c : Nat) (name : String),
      callsSince c name ((begun defaults none).notedAll .empty steps).looks ≤ 1 := by
  intro h
  have hcalls := h [.makeContext (.value (.dict [(.str "f", comingBack), (.str "a1", .bool true)])),
    .lookup 0 "f"] 0 "f"
  exact absurd hcalls (by decide +kernel)

end Session

end Mustache
