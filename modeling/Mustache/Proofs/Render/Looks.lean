import Mustache.Proofs.Render.Watch

/-!
# Looking up, as it is noted

A context answers a name by what it remembers, or else by what its views say; a callable that needs
no arguments is called for it, and if that succeeds the context remembers what came of it. So the
callable is not called again, unless the context was made to forget, or in another context. It can
be called twice only if it comes back to its own name: then the call in the course of the other ends
first, and neither knew of what the other would come to.

**Idea.** What a context remembers can be read off the looks that were noted (`recalled`), and only
off those in this context; and which calls are under way, off the calls that were begun and those
that ended (`underway`). Looks are `Lawful` if calls are begun only where nothing was recalled, and
what is no call was answered by what was recalled. What there is to say of calls follows by going
back through the looks.

Main statement: `Lawful.calledOnce`.
-/

namespace Mustache

/-- A callable that needs no arguments. -/
def Value.isInstant (v : Value) : Bool := v.isCallable && v.required == 0

namespace Watch

/-- What a context remembers of a name after some looks, the last one first: what looking the name
up in it came to last, since it was last made to forget. -/
def recalled (context : Nat) (name : String) : List Look → Option Value
  | [] => none
  | .calling _ _ _ :: looks => recalled context name looks
  | .looked c key _ (.ok v) :: looks =>
    if c = context ∧ key = name then some v else recalled context name looks
  | .looked _ _ _ (.error _) :: looks => recalled context name looks
  | .forgot c :: looks => if c = context then none else recalled context name looks

/-- The calls that are under way after some looks, each with the context and the name that it is
made for, the last one first. -/
def underway : List Look → List (Nat × String × Value)
  | [] => []
  | .calling c name u :: looks => (c, name, u) :: underway looks
  | .looked _ _ (.called _) _ :: looks => (underway looks).tail
  | .looked _ _ .remembered _ :: looks | .looked _ _ .found _ :: looks => underway looks
  | .forgot _ :: looks => underway looks

/-- How a name is answered in a scope where nothing is called, by what is remembered of it: in what
way, and what that comes to. -/
inductive Answers (scope : Scope) (name : String) :
    Option Value → Way → Except Error Value → Prop
  | remembered (v : Value) : Answers scope name (some v) .remembered (.ok v)
  | astray {e : Error} (h : scope.resolve name = .error e) :
      Answers scope name none .found (.error e)
  | found {v : Value} (h : scope.resolve name = .ok v) (hv : v.isInstant = false) :
      Answers scope name none .found (.ok v)

/-- A call was begun only for what the views say, where nothing was recalled; what ended is the last
call that was under way; and every other look was answered by what was recalled before it, in its
context. -/
inductive Lawful (scopes : List Scope) : List Look → Prop
  | nil : Lawful scopes []
  | calling {c : Nat} {name : String} {u : Value} {looks : List Look} {scope : Scope}
      (hscope : scopes[c]? = some scope) (hu : scope.resolve name = .ok u)
      (hinstant : u.isInstant = true) (hnone : recalled c name looks = none)
      (hlooks : Lawful scopes looks) : Lawful scopes (.calling c name u :: looks)
  | called {c : Nat} {name : String} {u : Value} {looks : List Look}
      {others : List (Nat × String × Value)} (hunder : underway looks = (c, name, u) :: others)
      (result : Except Error Value) (hlooks : Lawful scopes looks) :
      Lawful scopes (.looked c name (.called u) result :: looks)
  | answered {c : Nat} {name : String} {way : Way} {result : Except Error Value} {looks : List Look}
      {scope : Scope} (hscope : scopes[c]? = some scope)
      (h : Answers scope name (recalled c name looks) way result) (hlooks : Lawful scopes looks) :
      Lawful scopes (.looked c name way result :: looks)
  | forgot (c : Nat) {looks : List Look} (hlooks : Lawful scopes looks) :
      Lawful scopes (.forgot c :: looks)

variable {scopes : List Scope} {looks later between earlier : List Look} {c : Nat} {name : String}
  {way : Way} {result : Except Error Value} {u v : Value} {scope : Scope}

/-! ## What is recalled -/

theorem recalled_looked_self (way : Way) (v : Value) (looks : List Look) :
    recalled c name (.looked c name way (.ok v) :: looks) = some v := if_pos ⟨rfl, rfl⟩

theorem recalled_looked_of_ne {c' : Nat} {name' : String} (h : ¬ (c' = c ∧ name' = name))
    (way : Way) (result : Except Error Value) (looks : List Look) :
    recalled c name (.looked c' name' way result :: looks) = recalled c name looks := by
  cases result with
  | ok v => exact if_neg h
  | error e => rfl

/-- Other contexts do not matter. -/
theorem recalled_forgot_of_ne {c' : Nat} (h : c' ≠ c) (looks : List Look) :
    recalled c name (.forgot c' :: looks) = recalled c name looks := if_neg h

theorem recalled_forgot_self (looks : List Look) : recalled c name (.forgot c :: looks) = none :=
  if_pos rfl

/-- A look changes what is recalled of a name in a context only if it succeeds with this name in
this context, or makes the context forget. -/
theorem recalled_cons {look : Look} (hforgot : look ≠ .forgot c)
    (hlooked : ∀ way v, look ≠ .looked c name way (.ok v)) (looks : List Look) :
    recalled c name (look :: looks) = recalled c name looks := by
  cases look with
  | calling => rfl
  | looked c' name' way result =>
    cases result with
    | error e => rfl
    | ok v =>
      refine recalled_looked_of_ne ?_ way _ looks
      rintro ⟨rfl, rfl⟩
      exact hlooked way v rfl
  | forgot c' => exact recalled_forgot_of_ne (fun hc => hforgot (congrArg Look.forgot hc)) looks

/-- As long as the name is not looked up in the context with success, and the context is not made to
forget, the same is recalled as before. -/
theorem recalled_append (hforgot : .forgot c ∉ between)
    (hlooked : ∀ way v, .looked c name way (.ok v) ∉ between) (earlier : List Look) :
    recalled c name (between ++ earlier) = recalled c name earlier := by
  induction between with
  | nil => rfl
  | cons look between ih =>
    rw [List.mem_cons, not_or] at hforgot
    rw [List.cons_append, recalled_cons (Ne.symm hforgot.1)]
    · exact ih hforgot.2 fun way v hmem => hlooked way v (List.mem_cons_of_mem _ hmem)
    · rintro way v rfl
      exact hlooked way v List.mem_cons_self

/-- A context that was made to forget recalls nothing, as long as nothing is looked up in it. -/
theorem recalled_append_of_forgot (hforgot : .forgot c ∈ between)
    (hlooked : ∀ way v, .looked c name way (.ok v) ∉ between) (earlier : List Look) :
    recalled c name (between ++ earlier) = none := by
  induction between with
  | nil => cases hforgot
  | cons look between ih =>
    rw [List.cons_append]
    by_cases hlook : look = .forgot c
    · rw [hlook, recalled_forgot_self]
    · rw [recalled_cons hlook]
      · refine ih ((List.mem_cons.1 hforgot).resolve_left (Ne.symm hlook)) fun way v hmem => ?_
        exact hlooked way v (List.mem_cons_of_mem _ hmem)
      · rintro way v rfl
        exact hlooked way v List.mem_cons_self

/-- Something is recalled until the context is made to forget. -/
theorem isSome_recalled_append (hforgot : .forgot c ∉ between)
    (h : (recalled c name earlier).isSome = true) :
    (recalled c name (between ++ earlier)).isSome = true := by
  induction between with
  | nil => exact h
  | cons look between ih =>
    rw [List.mem_cons, not_or] at hforgot
    rw [List.cons_append]
    by_cases hlooked : ∃ way v, look = .looked c name way (.ok v)
    · obtain ⟨way, v, rfl⟩ := hlooked
      rw [recalled_looked_self]
      rfl
    · rw [recalled_cons (Ne.symm hforgot.1) (by simpa using hlooked)]
      exact ih hforgot.2

/-- What is recalled was looked up last, with success, and not forgotten since. -/
theorem exists_of_recalled (h : recalled c name looks = some v) :
    ∃ way between older, looks = between ++ .looked c name way (.ok v) :: older ∧
      .forgot c ∉ between ∧ ∀ way' v', .looked c name way' (.ok v') ∉ between := by
  induction looks with
  | nil => cases h
  | cons look looks ih =>
    by_cases hforgot : look = .forgot c
    · rw [hforgot, recalled_forgot_self] at h
      cases h
    · by_cases hlooked : ∃ way v, look = .looked c name way (.ok v)
      · obtain ⟨way, w, rfl⟩ := hlooked
        rw [recalled_looked_self] at h
        cases h
        exact ⟨way, [], looks, rfl, List.not_mem_nil, fun _ _ => List.not_mem_nil⟩
      · have hlooked : ∀ way v, look ≠ .looked c name way (.ok v) := by simpa using hlooked
        rw [recalled_cons hforgot hlooked] at h
        obtain ⟨way, between, older, heq, hbetween, hnone⟩ := ih h
        refine ⟨way, look :: between, older, by rw [heq]; rfl, ?_, fun way' v' => ?_⟩
        · simp [hbetween, Ne.symm hforgot]
        · simp [hnone way' v', Ne.symm (hlooked way' v')]

/-! ## Laws -/

/-- Where a name leads to a callable without arguments and nothing is called, it is remembered. -/
theorem Answers.of_instant {memory : Option Value} (h : Answers scope name memory way result)
    (hu : scope.resolve name = .ok u) (hinstant : u.isInstant = true) :
    way = .remembered ∧ ∃ v, memory = some v ∧ result = .ok v := by
  cases h with
  | remembered v => exact ⟨rfl, v, rfl, rfl⟩
  | astray herror =>
    rw [hu] at herror
    cases herror
  | found hfound hnot =>
    rw [hu] at hfound
    cases hfound
    rw [hinstant] at hnot
    cases hnot

/-- What is answered without a call is no call. -/
theorem Answers.ne_called {memory : Option Value} (h : Answers scope name memory way result) :
    way ≠ .called u := by
  cases h <;> exact nofun

theorem Answers.underway_eq {memory : Option Value} (h : Answers scope name memory way result)
    (c : Nat)
    (looks : List Look) : underway (.looked c name way result :: looks) = underway looks := by
  cases h <;> rfl

namespace Lawful

/-- New contexts do not matter. -/
theorem mono {scopes' : List Scope} (h : Lawful scopes looks) (hscopes : scopes <+: scopes') :
    Lawful scopes' looks := by
  have there {c : Nat} {scope : Scope} (hscope : scopes[c]? = some scope) :
      scopes'[c]? = some scope := by
    obtain ⟨more, rfl⟩ := hscopes
    obtain ⟨hc, -⟩ := List.getElem?_eq_some_iff.1 hscope
    rw [List.getElem?_append_left hc]
    exact hscope
  induction h with
  | nil => exact .nil
  | calling hscope hu hinstant hnone _ ih => exact .calling (there hscope) hu hinstant hnone ih
  | called hunder result _ ih => exact .called hunder result ih
  | answered hscope h _ ih => exact .answered (there hscope) h ih
  | forgot c _ ih => exact .forgot c ih

theorem of_cons {look : Look} (h : Lawful scopes (look :: looks)) : Lawful scopes looks := by
  cases h <;> assumption

theorem of_append (later : List Look) (h : Lawful scopes (later ++ earlier)) :
    Lawful scopes earlier := by
  induction later with
  | nil => exact h
  | cons look later ih => exact ih h.of_cons

/-- What is under way was begun for what the views say, and needs no arguments. -/
theorem of_mem_underway (h : Lawful scopes looks) (hmem : (c, name, u) ∈ underway looks) :
    u.isInstant = true ∧ ∃ scope, scopes[c]? = some scope ∧ scope.resolve name = .ok u := by
  induction h with
  | nil => cases hmem
  | calling hscope hu hinstant _ _ ih =>
    rcases List.mem_cons.1 hmem with heq | hmem
    · cases heq
      exact ⟨hinstant, _, hscope, hu⟩
    · exact ih hmem
  | called _ _ _ ih => exact ih (List.mem_of_mem_tail hmem)
  | answered _ h _ ih => exact ih (h.underway_eq _ _ ▸ hmem)
  | forgot _ _ ih => exact ih hmem

/-- Nothing is recalled of what is no context yet. -/
theorem recalled_eq_none (h : Lawful scopes looks) (hc : scopes.length ≤ c) :
    recalled c name looks = none := by
  have apart {c' : Nat} {scope : Scope} (hscope : scopes[c']? = some scope) {name' : String} :
      ¬ (c' = c ∧ name' = name) := by
    rintro ⟨rfl, -⟩
    exact Nat.not_lt_of_le hc (List.getElem?_eq_some_iff.1 hscope).1
  induction h with
  | nil => rfl
  | calling _ _ _ _ _ ih => exact ih
  | called hunder result hlooks ih =>
    obtain ⟨-, scope, hscope, -⟩ := hlooks.of_mem_underway (hunder ▸ List.mem_cons_self)
    rw [recalled_looked_of_ne (apart hscope)]
    exact ih
  | answered hscope _ _ ih =>
    rw [recalled_looked_of_ne (apart hscope)]
    exact ih
  | forgot c' _ ih =>
    by_cases hne : c' = c
    · rw [hne]
      exact recalled_forgot_self _
    · rw [recalled_forgot_of_ne hne]
      exact ih

/-- **Where something is recalled of a name, no call is begun for it:** what is under way was under
way before. -/
theorem mem_underway_of_append (h : Lawful scopes (between ++ earlier))
    (hforgot : .forgot c ∉ between)
    (hsome : (recalled c name earlier).isSome = true)
    (hmem : (c, name, u) ∈ underway (between ++ earlier)) : (c, name, u) ∈ underway earlier := by
  induction between with
  | nil => exact hmem
  | cons look between ih =>
    rw [List.cons_append] at h hmem
    have hrest : .forgot c ∉ between := fun hmem => hforgot (List.mem_cons_of_mem _ hmem)
    have ih := ih h.of_cons hrest
    cases h with
    | calling hscope hu hinstant hnone hlooks =>
      rcases List.mem_cons.1 hmem with heq | hmem
      · cases heq
        have := isSome_recalled_append hrest hsome
        rw [hnone] at this
        cases this
      · exact ih hmem
    | called => exact ih (List.mem_of_mem_tail hmem)
    | answered _ hanswers _ => exact ih (hanswers.underway_eq _ _ ▸ hmem)
    | forgot => exact ih hmem

/-- A look in a lawful row ends a call that was under way, or is answered by what was recalled. -/
theorem cases_looked (h : Lawful scopes (later ++ .looked c name way result :: earlier)) :
    (∃ u, way = .called u ∧ (underway earlier).head? = some (c, name, u)) ∨
      ∃ scope, scopes[c]? = some scope ∧
        Answers scope name (recalled c name earlier) way result := by
  cases of_append later h with
  | called hunder => exact .inl ⟨_, rfl, by rw [hunder]; rfl⟩
  | answered hscope h _ => exact .inr ⟨_, hscope, h⟩

/-- What is recalled of a name that leads to a callable without arguments is what calling it came
to, in this very context and since it was last made to forget. -/
theorem exists_call (h : Lawful scopes looks) (hscope : scopes[c]? = some scope)
    (hu : scope.resolve name = .ok u) (hinstant : u.isInstant = true)
    (hv : recalled c name looks = some v) :
    ∃ between older, looks = between ++ .looked c name (.called u) (.ok v) :: older ∧
      .forgot c ∉ between := by
  have cons {look : Look} {looks : List Look} (hlook : look ≠ .forgot c)
      (hrest : ∃ between older, looks = between ++ .looked c name (.called u) (.ok v) :: older ∧
        .forgot c ∉ between) :
      ∃ between older, look :: looks = between ++ .looked c name (.called u) (.ok v) :: older ∧
        .forgot c ∉ between := by
    obtain ⟨between, older, rfl, hbetween⟩ := hrest
    exact ⟨look :: between, older, rfl, by simp [hbetween, Ne.symm hlook]⟩
  induction h with
  | nil => cases hv
  | calling _ _ _ _ _ ih => exact cons nofun (ih hv)
  | @called c' name' u' looks others hunder result hlooks ih =>
    by_cases hsame : c' = c ∧ name' = name
    · obtain ⟨rfl, rfl⟩ := hsame
      cases result with
      | error e => exact cons nofun (ih hv)
      | ok w =>
        obtain ⟨-, scope', hscope', hu'⟩ := hlooks.of_mem_underway (hunder ▸ List.mem_cons_self)
        rw [hscope] at hscope'
        cases hscope'
        rw [hu] at hu'
        cases hu'
        rw [recalled_looked_self] at hv
        cases hv
        exact ⟨[], looks, rfl, List.not_mem_nil⟩
    · rw [recalled_looked_of_ne hsame] at hv
      exact cons nofun (ih hv)
  | @answered c' name' way result looks scope' hscope' hanswers _ ih =>
    by_cases hsame : c' = c ∧ name' = name
    · obtain ⟨rfl, rfl⟩ := hsame
      rw [hscope] at hscope'
      cases hscope'
      -- It was remembered then, and so was called before.
      obtain ⟨-, w, hmemory, rfl⟩ := hanswers.of_instant hu hinstant
      rw [recalled_looked_self] at hv
      cases hv
      exact cons nofun (ih hmemory)
    · rw [recalled_looked_of_ne hsame] at hv
      exact cons nofun (ih hv)
  | forgot c' _ ih =>
    by_cases hne : c' = c
    · rw [hne, recalled_forgot_self] at hv
      cases hv
    · rw [recalled_forgot_of_ne hne] at hv
      exact cons (fun heq => hne (Look.forgot.inj heq)) (ih hv)

end Lawful

/-! ## Calls -/

/-- In the course of a call that a name makes in a context, the name was looked up there with
success, and what that came to was not forgotten since. -/
def Within (c : Nat) (name : String) (u v : Value) (looks : List Look) : Prop :=
  ∃ way between older, looks = between ++ .looked c name way (.ok v) :: older ∧
    .forgot c ∉ between ∧ (c, name, u) ∈ underway (.looked c name way (.ok v) :: older)

/-- Callables without arguments are called at most once for each context and name, as far as that
succeeds, until the context is made to forget; unless they come back to their own name.

* `called`: what is called needs no arguments, and is what the views of the context say.
* `ended`: what ends is the last call that is under way.
* `spared`: after the name was looked up with success no call is begun for it, until the context was
  made to forget.
* `once`: of two calls for a name in a context that succeed the context was made to forget in
  between, or the one that ended first was made in the course of the other.
* `kept`: after the name was looked up with success, whatever that came to, each look gives the same
  and calls nothing; or it ends a call that was under way then.
* `failed`: a call that fails leaves nothing to remember, unless the name was looked up with success
  in the course of it.
* `again`: after a call that fails the next look calls again, with the same exception.
* `apart`: what is not called was called before, for this name in this very context. -/
structure CalledOnce (scopes : List Scope) (looks : List Look) : Prop where
  called : ∀ later c name u earlier, looks = later ++ .calling c name u :: earlier →
    u.isInstant = true ∧ ∃ scope, scopes[c]? = some scope ∧ scope.resolve name = .ok u
  ended : ∀ later c name u result earlier,
    looks = later ++ .looked c name (.called u) result :: earlier →
      (underway earlier).head? = some (c, name, u)
  spared : ∀ later c name u between way v earlier,
    looks = later ++ .calling c name u :: (between ++ .looked c name way (.ok v) :: earlier) →
      .forgot c ∈ between
  once : ∀ later c name u v between u' v' earlier,
    looks = later ++ .looked c name (.called u) (.ok v) ::
      (between ++ .looked c name (.called u') (.ok v') :: earlier) →
        .forgot c ∈ between ∨
          (c, name, u) ∈ underway (.looked c name (.called u') (.ok v') :: earlier)
  kept : ∀ later c name way result between way' v earlier,
    looks = later ++ .looked c name way result ::
      (between ++ .looked c name way' (.ok v) :: earlier) → .forgot c ∉ between →
        (∀ way v, .looked c name way (.ok v) ∉ between) →
          way = .remembered ∧ result = .ok v ∨
            ∃ u, way = .called u ∧ (c, name, u) ∈ underway (.looked c name way' (.ok v) :: earlier)
  failed : ∀ later c name u e earlier,
    looks = later ++ .looked c name (.called u) (.error e) :: earlier →
      recalled c name (.looked c name (.called u) (.error e) :: earlier) = none ∨
        ∃ v, Within c name u v earlier
  again : ∀ later c name way result between u e earlier,
    looks = later ++ .looked c name way result ::
      (between ++ .looked c name (.called u) (.error e) :: earlier) →
        (∀ way v, .looked c name way (.ok v) ∉ between) →
          way = .called u ∨ way = .remembered ∧ ∃ v, result = .ok v ∧ Within c name u v earlier
  apart : ∀ later c name way result earlier scope u,
    looks = later ++ .looked c name way result :: earlier → scopes[c]? = some scope →
      scope.resolve name = .ok u → u.isInstant = true →
        way = .called u ∨ way = .remembered ∧ ∃ v between older, result = .ok v ∧
          earlier = between ++ .looked c name (.called u) (.ok v) :: older ∧ .forgot c ∉ between

namespace Lawful

/-- A look ends a call for what the views say, or what it gives was remembered. -/
theorem cases_of_resolve (h : Lawful scopes (later ++ .looked c name way result :: earlier))
    (hscope : scopes[c]? = some scope) (hu : scope.resolve name = .ok u)
    (hinstant : u.isInstant = true) :
    way = .called u ∨
      way = .remembered ∧ ∃ v, result = .ok v ∧ recalled c name earlier = some v := by
  rcases h.cases_looked with ⟨u', rfl, hhead⟩ | ⟨scope', hscope', hanswers⟩
  · have hmem := List.mem_of_mem_head? hhead
    obtain ⟨-, scope', hscope', hu'⟩ := (of_append later h).of_cons.of_mem_underway hmem
    rw [hscope] at hscope'
    cases hscope'
    rw [hu] at hu'
    cases hu'
    exact .inl rfl
  · rw [hscope] at hscope'
    cases hscope'
    obtain ⟨rfl, v, hmemory, rfl⟩ := hanswers.of_instant hu hinstant
    exact .inr ⟨rfl, v, rfl, hmemory⟩

/-- The call that ends was under way already when the name was last looked up with success. -/
theorem mem_underway_of_called
    (h : Lawful scopes (later ++ .looked c name (.called u) result ::
      (between ++ .looked c name way (.ok v) :: earlier))) (hforgot : .forgot c ∉ between) :
    (c, name, u) ∈ underway (.looked c name way (.ok v) :: earlier) := by
  cases of_append later h with
  | called hunder _ hlooks =>
    refine hlooks.mem_underway_of_append hforgot ?_ (hunder ▸ List.mem_cons_self)
    rw [recalled_looked_self]
    rfl
  | answered _ hanswers _ => exact absurd rfl hanswers.ne_called

/-- What is recalled when a call ends was looked up in the course of it. -/
theorem within_of_recalled
    (h : Lawful scopes (later ++ .looked c name (.called u) result :: earlier))
    (hv : recalled c name earlier = some v) : Within c name u v earlier := by
  obtain ⟨way, between, older, rfl, hforgot, -⟩ := exists_of_recalled hv
  exact ⟨way, between, older, rfl, hforgot, h.mem_underway_of_called hforgot⟩

/-- **Callables without arguments are called once for each context and name,** unless they come back
to their own name, if all looks are lawful. -/
theorem calledOnce (h : Lawful scopes looks) : CalledOnce scopes looks where
  called later c name u earlier heq := by
    subst heq
    cases of_append later h with
    | calling hscope hu hinstant _ _ => exact ⟨hinstant, _, hscope, hu⟩
  ended later c name u result earlier heq := by
    subst heq
    cases of_append later h with
    | called hunder =>
      rw [hunder]
      rfl
    | answered _ hanswers _ => exact absurd rfl hanswers.ne_called
  spared later c name u between way v earlier heq := by
    subst heq
    by_contra hforgot
    cases of_append later h with
    | calling _ _ _ hnone _ =>
      have hfound : (recalled c name (.looked c name way (.ok v) :: earlier)).isSome = true := by
        rw [recalled_looked_self]
        rfl
      have hsome := isSome_recalled_append hforgot hfound
      rw [hnone] at hsome
      cases hsome
  once later c name u v between u' v' earlier heq := by
    subst heq
    exact or_iff_not_imp_left.2 fun hforgot => h.mem_underway_of_called hforgot
  kept later c name way result between way' v earlier heq hforgot hnone := by
    subst heq
    rcases h.cases_looked with ⟨u, rfl, -⟩ | ⟨scope, -, hanswers⟩
    · exact .inr ⟨u, rfl, h.mem_underway_of_called hforgot⟩
    · rw [recalled_append hforgot hnone, recalled_looked_self] at hanswers
      cases hanswers
      exact .inl ⟨rfl, rfl⟩
  failed later c name u e earlier heq := by
    subst heq
    show recalled c name earlier = none ∨ _
    cases hv : recalled c name earlier with
    | none => exact .inl rfl
    | some v => exact .inr ⟨v, h.within_of_recalled hv⟩
  again later c name way result between u e earlier heq hnone := by
    subst heq
    have hfailed : Lawful scopes ([] ++ .looked c name (.called u) (.error e) :: earlier) :=
      of_append (later ++ .looked c name way result :: between) (by simpa using h)
    obtain ⟨hinstant, scope, hscope, hu⟩ : u.isInstant = true ∧ ∃ scope,
        scopes[c]? = some scope ∧ scope.resolve name = .ok u := by
      cases hfailed with
      | called hunder _ hlooks => exact hlooks.of_mem_underway (hunder ▸ List.mem_cons_self)
      | answered _ hanswers _ => exact absurd rfl hanswers.ne_called
    rcases h.cases_of_resolve hscope hu hinstant with hway | ⟨hway, v, hv, hmemory⟩
    · exact .inl hway
    · have hforgot : .forgot c ∉ between := by
        intro hmem
        rw [recalled_append_of_forgot hmem hnone] at hmemory
        cases hmemory
      rw [recalled_append hforgot hnone] at hmemory
      exact .inr ⟨hway, v, hv, hfailed.within_of_recalled hmemory⟩
  apart later c name way result earlier scope u heq hscope hu hinstant := by
    subst heq
    rcases h.cases_of_resolve hscope hu hinstant with hway | ⟨hway, v, hv, hmemory⟩
    · exact .inl hway
    · obtain ⟨between, older, heq, hbetween⟩ :=
        (of_append later h).of_cons.exists_call hscope hu hinstant hmemory
      exact .inr ⟨hway, v, between, older, hv, heq, hbetween⟩

end Lawful

end Watch

end Mustache
