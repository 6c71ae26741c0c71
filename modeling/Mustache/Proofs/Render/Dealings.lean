import Mustache.Proofs.Render.Overseen

/-!
# Partials and loaders, as they are noted

A partial that is not known is asked of the loader when a tag of its name is come to. What a loader
gives and what can be read is known from then on, and nothing is asked for it until everything is
forgotten. The loader that is asked is the one that was given last.

**Idea.** Which partials a writer knows, and which loader it has, can be read off its past (`Told`).
In a past that is `Orderly`, what each search for a partial came to is `Due` to what the past says
at that time. Rendering goes on with the past of its writer (`Judgement.dealing`), and gives no
loader but the one that it was given itself.

Main statements: `Orderly.disciplined`, `Judgement.dealing_renderCompiled` and
`Judgement.dealing_template`.
-/

namespace Mustache

open Render

/-- The name that comes to be known by a dealing. -/
def Dealing.registers : Dealing → Option String
  | .registered name _ | .sought name (.asked _ (.loaded _)) => some name
  | _ => none

/-- The loader that is given by a dealing. -/
def Dealing.given? : Dealing → Option Loader
  | .given loader => some loader
  | _ => none

/-- The name that a loader is asked for in a dealing. -/
def Dealing.asked? : Dealing → Option String
  | .sought name (.asked _ _) => some name
  | _ => none

/-- The name that a loader was asked for, as it is recorded. -/
def Event.loaded? : Event → Option String
  | .loaded name => some name
  | _ => none

namespace Watch

/-! ## What the past says -/

/-- Whether a name is known after some dealings, the last one first: whether it came to be known
since everything was last forgotten. -/
def knows (name : String) : List Dealing → Bool
  | [] => false
  | .cleared :: _ => false
  | d :: past => d.registers == some name || knows name past

/-- The loader that was given last. -/
def lastGiven (past : List Dealing) : Option Loader := past.findSome? Dealing.given?

/-- A reply is what the loader says of a name. A template that it gives is unreadable only if it
cannot be read with the delimiters. -/
inductive Replies (l : Loader) (name : String) : Reply → Prop
  | failed {e : Error} (h : l.load name = .error e) : Replies l name (.failed e)
  | absent (h : l.load name = .ok none) : Replies l name .absent
  | unreadable {t : String} {delimiters : Delimiters.Spec} {e : TemplateError}
      (h : l.load name = .ok (some t)) (hread : Template.parseWith delimiters t = .error e) :
      Replies l name (.unreadable t delimiters)
  | loaded {t : String} (h : l.load name = .ok (some t)) : Replies l name (.loaded t)

/-- What looking for a partial has to come to, by whether the name is known and which loader there
is. -/
inductive Due (name : String) : Bool → Option Loader → Finding → Prop
  | known (loader : Option Loader) : Due name true loader .known
  | unasked : Due name false none .unasked
  | asked {l : Loader} {reply : Reply} (h : Replies l name reply) :
      Due name false (some l) (.asked l reply)

/-- Partials are looked for only where a tag of their name was come to, and what that comes to is
due to the past. -/
inductive Orderly : List Dealing → Prop
  | nil : Orderly []
  | given (l : Loader) {past : List Dealing} (hpast : Orderly past) : Orderly (.given l :: past)
  | registered (name template : String) {past : List Dealing} (hpast : Orderly past) :
      Orderly (.registered name template :: past)
  | came (name : String) {past : List Dealing} (hpast : Orderly past) : Orderly (.came name :: past)
  | sought {name : String} {finding : Finding} {past : List Dealing}
      (h : Due name (knows name past) (lastGiven past) finding)
      (hpast : Orderly (.came name :: past)) : Orderly (.sought name finding :: .came name :: past)
  | cleared {past : List Dealing} (hpast : Orderly past) : Orderly (.cleared :: past)

variable {past later between earlier : List Dealing} {name : String} {finding : Finding}
  {reply : Reply} {d : Dealing} {l : Loader}

theorem Due.of_asked {known : Bool} {loader : Option Loader}
    (h : Due name known loader (.asked l reply)) :
    known = false ∧ loader = some l ∧ Replies l name reply := by
  cases h with
  | asked hreply => exact ⟨rfl, rfl, hreply⟩

theorem knows_cons_of_ne (hd : d ≠ .cleared) (past : List Dealing) :
    knows name (d :: past) = (d.registers == some name || knows name past) := by
  cases d with
  | cleared => exact absurd rfl hd
  | _ => rfl

/-- What came to be known is known until everything is forgotten. -/
theorem knows_append (hbetween : .cleared ∉ between) (h : knows name earlier = true) :
    knows name (between ++ earlier) = true := by
  induction between with
  | nil => exact h
  | cons d between ih =>
    obtain ⟨hd, hrest⟩ := not_or.1 fun hor => hbetween (List.mem_cons.2 hor)
    rw [List.cons_append, knows_cons_of_ne (Ne.symm hd), ih hrest, Bool.or_true]

/-- What does not come to be known is not known. -/
theorem knows_append_eq_false (hbetween : ∀ d ∈ between, d.registers ≠ some name)
    (h : knows name earlier = false) : knows name (between ++ earlier) = false := by
  induction between with
  | nil => exact h
  | cons d between ih =>
    obtain ⟨hd, hrest⟩ := List.forall_mem_cons.1 hbetween
    by_cases hcleared : d = .cleared
    · rw [hcleared]
      rfl
    · rw [List.cons_append, knows_cons_of_ne hcleared, ih hrest, Bool.or_false]
      simpa using hd

theorem knows_of_registers (hd : d.registers = some name) (past : List Dealing) :
    knows name (d :: past) = true := by
  have hne : d ≠ .cleared := by
    rintro rfl
    cases hd
  rw [knows_cons_of_ne hne, hd]
  simp

/-! ## The discipline -/

/-- Loaders are asked as they should be.

* `asked`: a loader is asked for a name only where a partial tag of the name is come to, the name is
  not known, and the loader is the one that was given last; and its reply is taken for what it is.
* `spared`: for a name that came to be known no loader is asked until everything is forgotten, not
  even one that was given later.
* `again`: after a loader gave nothing, failed, or gave what cannot be read, the next tag of the
  name has the loader asked again that was given last, if the name did not come to be known
  otherwise. -/
structure Disciplined (past : List Dealing) : Prop where
  asked : ∀ later name l reply earlier, past = later ++ .sought name (.asked l reply) :: earlier →
    earlier.head? = some (.came name) ∧ knows name earlier = false ∧ lastGiven earlier = some l ∧
      Replies l name reply
  spared : ∀ later name finding between d earlier,
    past = later ++ .sought name finding :: (between ++ d :: earlier) → d.registers = some name →
      .cleared ∉ between → finding = .known
  again : ∀ later name finding between l reply earlier,
    past = later ++ .sought name finding :: (between ++ .sought name (.asked l reply) :: earlier) →
      (∀ t, reply ≠ .loaded t) → (∀ d ∈ between, d.registers ≠ some name) →
        ∃ l' reply', finding = .asked l' reply' ∧ Replies l' name reply' ∧
          lastGiven (between ++ .sought name (.asked l reply) :: earlier) = some l'

namespace Orderly

theorem of_append (later : List Dealing) (h : Orderly (later ++ earlier)) : Orderly earlier := by
  induction later with
  | nil => exact h
  | cons d later ih =>
    rw [List.cons_append] at h
    generalize hrest : later ++ earlier = rest at h
    have hpast : Orderly rest := by cases h <;> assumption
    exact ih (hrest ▸ hpast)

theorem due (later : List Dealing) (h : Orderly (later ++ .sought name finding :: earlier)) :
    earlier.head? = some (.came name) ∧
      Due name (knows name earlier) (lastGiven earlier) finding := by
  cases of_append later h with
  | sought hdue _ => exact ⟨rfl, hdue⟩

/-- Once a loader was given there always is one. -/
theorem isSome_lastGiven_append (between : List Dealing) (h : (lastGiven earlier).isSome = true) :
    (lastGiven (between ++ earlier)).isSome = true := by
  unfold lastGiven at h ⊢
  rw [List.findSome?_append, Option.isSome_or, h, Bool.or_true]

theorem knows_asked (hreply : ∀ t, reply ≠ .loaded t) (past : List Dealing) :
    knows name (.sought name (.asked l reply) :: past) = knows name past := by
  cases reply with
  | loaded t => exact absurd rfl (hreply t)
  | _ => rfl

/-- **Loaders are asked as they should be** in a past where all that was found is due. -/
theorem disciplined (h : Orderly past) : Disciplined past where
  asked later name l reply earlier heq := by
    subst heq
    obtain ⟨hcame, hdue⟩ := due later h
    exact ⟨hcame, hdue.of_asked⟩
  spared later name finding between d earlier heq hd hbetween := by
    subst heq
    obtain ⟨-, hdue⟩ := due later h
    rw [knows_append hbetween (knows_of_registers hd earlier)] at hdue
    cases hdue
    rfl
  again later name finding between l reply earlier heq hreply hbetween := by
    subst heq
    have hrest : Orderly (.sought name (.asked l reply) :: earlier) :=
      of_append (later ++ .sought name finding :: between) (by simpa using h)
    obtain ⟨hnot, hl, -⟩ := (due [] hrest).2.of_asked
    obtain ⟨-, hdue⟩ := due later h
    have hgiven : (lastGiven (.sought name (.asked l reply) :: earlier)).isSome = true := by
      show (lastGiven earlier).isSome = true
      rw [hl]
      rfl
    have hlast := isSome_lastGiven_append between hgiven
    have hknown : knows name (.sought name (.asked l reply) :: earlier) = false := by
      rw [knows_asked hreply]
      exact hnot
    rw [knows_append_eq_false hbetween hknown] at hdue
    generalize lastGiven (between ++ .sought name (.asked l reply) :: earlier) = loader
      at hdue hlast ⊢
    cases hdue with
    | unasked => cases hlast
    | asked hreply => exact ⟨_, _, rfl, hreply, rfl⟩

end Orderly

/-! ## A writer and its past -/

/-- The past tells what a writer knows and which loader it has. -/
structure Told (w : Writer) (past : List Dealing) : Prop where
  partials : ∀ name, w.partials.has name = knows name past
  loader : w.loader = lastGiven past
  orderly : Orderly past

variable {w w' : Writer} {settings : Settings} {delimiters : Delimiters.Spec} {t : String}
  {given : Compiled × Writer}

namespace Told

theorem new (escape : Option (String → String)) : Told (Writer.new escape) [] :=
  ⟨fun _ => rfl, rfl, .nil⟩

theorem of_eq (h : Told w past) (hpartials : w'.partials = w.partials)
    (hloader : w'.loader = w.loader) : Told w' past :=
  ⟨fun name => hpartials ▸ h.partials name, hloader.trans h.loader, h.orderly⟩

theorem compile (h : Told w past) (hc : w.compile delimiters t = .ok given) :
    Told given.2 past :=
  h.of_eq (Writer.partials_of_compile hc) (Writer.same_of_compile hc).2.1

theorem give (h : Told w past) (l : Loader) : Told { w with loader := some l } (.given l :: past) :=
  ⟨h.partials, rfl, .given l h.orderly⟩

theorem came (h : Told w past) (name : String) : Told w (.came name :: past) :=
  ⟨h.partials, h.loader, .came name h.orderly⟩

theorem clear (h : Told w past) : Told w.clear (.cleared :: past) :=
  ⟨fun _ => rfl, h.loader, .cleared h.orderly⟩

/-- What a writer knows once a name is registered. -/
theorem has_insert (h : ∀ key, w.partials.has key = knows key past) (c : Compiled)
    (hd : d.registers = some name) (key : String) :
    (w.partials.insert name c).has key = knows key (d :: past) := by
  have hne : d ≠ .cleared := by
    rintro rfl
    cases hd
  rw [knows_cons_of_ne hne, hd, ← h key, Table.has, Table.find?_insert]
  by_cases hkey : key = name
  · simp [hkey]
  · simp [hkey, Ne.symm hkey, Table.has]

theorem register (h : Told w past) (hc : w.compile delimiters t = .ok given)
    (name : String) :
    Told { given.2 with partials := given.2.partials.insert name given.1 }
      (.registered name t :: past) :=
  ⟨has_insert (h.compile hc).partials given.1 rfl, (h.compile hc).loader,
    .registered name t h.orderly⟩

/-- Looking for a partial comes to what is due. -/
theorem fetch (h : Told w (.came name :: past)) (hfound : Found settings name w finding w') :
    Told w' (.sought name finding :: .came name :: past) := by
  have hknown : w.partials.has name = knows name past := h.partials name
  have hloader : w.loader = lastGiven past := h.loader
  have sought (hdue : Due name (w.partials.has name) w.loader finding) :
      Orderly (.sought name finding :: .came name :: past) := by
    rw [hknown, hloader] at hdue
    exact .sought hdue h.orderly
  have asked {l : Loader} {reply : Reply} (hp : w.partials.find? name = none)
      (hl : w.loader = some l) (hreply : Replies l name reply) :
      Due name (w.partials.has name) w.loader (.asked l reply) := by
    rw [hl, Table.has, hp]
    exact .asked hreply
  cases hfound with
  | known hp =>
    refine ⟨h.partials, h.loader, sought ?_⟩
    rw [Table.has, hp]
    exact .known w.loader
  | unasked hp hl =>
    refine ⟨h.partials, h.loader, sought ?_⟩
    rw [Table.has, hp, hl]
    exact .unasked
  | failed hp hl hload => exact ⟨h.partials, h.loader, sought (asked hp hl (.failed hload))⟩
  | absent hp hl hload => exact ⟨h.partials, h.loader, sought (asked hp hl (.absent hload))⟩
  | unreadable hp hl hload hc =>
    have hread := (Writer.compile_eq_error_iff.1 hc).2
    exact ⟨h.partials, h.loader, sought (asked hp hl (.unreadable hload hread))⟩
  | loaded hp hl hload hc =>
    exact ⟨has_insert (h.compile hc).partials _ rfl, (h.compile hc).loader,
      sought (asked hp hl (.loaded hload))⟩

end Told

/-! ## Rendering -/

/-- Some dealings were noted between two states, and what a loader was asked in them was recorded.
-/
structure Noted (new : List Dealing) (s s' : State Watch) : Prop where
  past : s'.writer.past = new ++ s.writer.past
  log : s'.log.filterMap Event.loaded? =
    s.log.filterMap Event.loaded? ++ (new.filterMap Dealing.asked?).reverse

variable {s s' s'' : State Watch} {new new' : List Dealing}

theorem Noted.of_eq (hpast : s'.writer.past = s.writer.past)
    (hlog : s'.log.filterMap Event.loaded? = s.log.filterMap Event.loaded?) : Noted [] s s' :=
  ⟨hpast, by rw [hlog]; exact (List.append_nil _).symm⟩

theorem Noted.trans (h : Noted new s s') (h' : Noted new' s' s'') : Noted (new' ++ new) s s'' := by
  constructor
  · rw [h'.past, h.past, List.append_assoc]
  · rw [h'.log, h.log, List.filterMap_append, List.reverse_append, List.append_assoc]

end Watch

namespace Judgement

open Watch

variable {α β : Type} {scope : Scope} {settings : Settings} {m : Render Watch α} {Q : α → Prop}
  {loaders : List Loader}

/-- A computation goes on with the past of the writer, and gives some loaders. -/
def dealing (loaders : List Loader) : Judgement Watch := fun _ _ m Q =>
  ∀ s, Told s.writer.writer s.writer.past →
    Told (m.runFrom s).2.writer.writer (m.runFrom s).2.writer.past ∧
      (∃ new, Noted new s (m.runFrom s).2 ∧ new.filterMap Dealing.given? = loaders) ∧
      ∀ a, (m.runFrom s).1 = .ok a → Q a

/-- A computation that changes neither the writer nor its past, and asks nothing. -/
theorem dealing_of_eq (hwriter : ∀ s, (m.runFrom s).2.writer.writer = s.writer.writer)
    (hpast : ∀ s, (m.runFrom s).2.writer.past = s.writer.past)
    (hlog : ∀ s, (m.runFrom s).2.log.filterMap Event.loaded? = s.log.filterMap Event.loaded?)
    (hQ : ∀ s a, (m.runFrom s).1 = .ok a → Q a) : dealing [] α scope m Q := by
  intro s hs
  refine ⟨?_, ⟨[], Noted.of_eq (hpast s) (hlog s), rfl⟩, hQ s⟩
  rw [hwriter s, hpast s]
  exact hs

theorem dealing_pure {a : α} (ha : Q a) : dealing [] α scope (pure a) Q := by
  refine dealing_of_eq (fun _ => rfl) (fun _ => rfl) (fun _ => rfl) ?_
  rintro s _ ⟨⟩
  exact ha

theorem dealing_throw (e : Error) : dealing [] α scope (throw e) Q :=
  dealing_of_eq (fun _ => rfl) (fun _ => rfl) (fun _ => rfl) nofun

theorem dealing_get : dealing [] (State Watch) scope get fun _ => True :=
  dealing_of_eq (fun _ => rfl) (fun _ => rfl) (fun _ => rfl) fun _ _ _ => trivial

/-- What is done after the loaders were given gives none. -/
theorem dealing_bind {k : α → Render Watch β} {R : β → Prop} (hm : dealing loaders α scope m Q)
    (hk : ∀ a, Q a → dealing [] β scope (k a) R) : dealing loaders β scope (m >>= k) R := by
  intro s hs
  obtain ⟨htold, ⟨new, hnotes, hgiven⟩, hQ⟩ := hm s hs
  rw [runFrom_bind]
  rcases hr : m.runFrom s with ⟨x, s'⟩
  rw [hr] at htold hnotes hQ
  cases x with
  | error e => exact ⟨htold, ⟨new, hnotes, hgiven⟩, nofun⟩
  | ok a =>
    obtain ⟨htold', ⟨new', hnotes', hgiven'⟩, hR⟩ := hk a (hQ a rfl) s' htold
    refine ⟨htold', ⟨new' ++ new, hnotes.trans hnotes', ?_⟩, hR⟩
    rw [List.filterMap_append, hgiven', hgiven]
    rfl

theorem dealing_compile (t : String) :
    dealing [] Compiled scope (onWriter (Render.compile settings t)) fun _ => True := by
  intro s hs
  cases hc : s.writer.writer.compile settings.delimiters t with
  | error e =>
    rw [Watch.runFrom_compile_error hc]
    exact ⟨hs, ⟨[], Noted.of_eq rfl rfl, rfl⟩, fun _ _ => trivial⟩
  | ok given =>
    rw [Watch.runFrom_compile_ok hc]
    exact ⟨hs.compile hc, ⟨[], Noted.of_eq rfl rfl, rfl⟩, fun _ _ => trivial⟩

theorem dealing_blank (v : Value) :
    dealing [] Unit scope (onWriter (acceptBlank settings v)) fun _ => True := by
  intro s hs
  obtain ⟨r, w, hrun, hw⟩ :=
    runFrom_acceptBlank settings v ⟨s.writer.writer, s.memo, s.tally, s.log⟩
  have hrun' : (onWriter (acceptBlank settings v)).runFrom s =
      (r, { s with writer := { s.writer with writer := w } }) := by
    show onWriter (acceptBlank settings v) s = _
    rw [onWriter, hrun]
  rw [hrun']
  refine ⟨?_, ⟨[], Noted.of_eq rfl rfl, rfl⟩, fun _ _ => trivial⟩
  rcases hw with rfl | rfl
  · exact hs
  · exact hs.of_eq rfl rfl

theorem dealing_came (name : String) : dealing [] Unit scope (came name) fun _ => True := by
  intro s hs
  refine ⟨hs.came name, ⟨[.came name], ⟨rfl, ?_⟩, rfl⟩, fun _ _ => trivial⟩
  exact (List.append_nil _).symm

theorem dealing_fetch (name : String) :
    dealing [] Unit scope (do came name; Watch.fetch settings name) fun _ => True := by
  intro s hs
  obtain ⟨r, finding, w, hfound, hrun⟩ := Watch.runFrom_fetch settings name
    { s with writer := s.writer.dealt (.came name) }
  have hrun' : (do came name; Watch.fetch settings name : Render Watch Unit).runFrom s = _ := hrun
  rw [hrun']
  refine ⟨(hs.came name).fetch hfound,
    ⟨[.sought name finding, .came name], ⟨rfl, ?_⟩, ?_⟩, fun _ _ => trivial⟩
  · show (s.log ++ questions name finding).filterMap Event.loaded? = _
    rw [List.filterMap_append]
    cases finding <;> rfl
  · cases finding <;> rfl

theorem dealing_register (name t : String) :
    dealing [] Unit scope (Watch.register settings name t) fun _ => True := by
  intro s hs
  cases hc : s.writer.writer.compile settings.delimiters t with
  | error e =>
    rw [Watch.runFrom_register_error hc]
    exact ⟨hs, ⟨[], Noted.of_eq rfl rfl, rfl⟩, fun _ _ => trivial⟩
  | ok given =>
    rw [Watch.runFrom_register_ok hc]
    refine ⟨hs.register hc name, ⟨[.registered name t], ⟨rfl, ?_⟩, rfl⟩, fun _ _ => trivial⟩
    exact (List.append_nil _).symm

theorem dealing_looking {name : String} {way : Way} {m : Render Watch Value} {Q : Value → Prop}
    (h : dealing [] Value scope m Q) : dealing [] Value scope (looking name way m) Q := by
  intro s hs
  obtain ⟨htold, ⟨new, hnotes, hgiven⟩, hQ⟩ := h { s with writer := s.writer.calling name way }
    (by rw [calling_writer, calling_past]; exact hs)
  have hpast := hnotes.past
  rw [calling_past] at hpast
  exact ⟨htold, ⟨new, ⟨hpast, hnotes.log⟩, hgiven⟩, hQ⟩

theorem dealing_lookup {d : Deeper Watch} {name : String}
    (happly : ∀ callee args, dealing [] Value scope (d.apply scope callee args) fun _ => True) :
    dealing [] Value scope (Watch.notes.lookup d scope name) fun _ => True := by
  have keep (v : Value) :
      dealing [] Value scope (do remember name v; return v) fun _ => True :=
    dealing_of_eq (fun _ => rfl) (fun _ => rfl) (fun _ => rfl) fun _ _ _ => trivial
  unfold Notes.lookup
  refine dealing_bind dealing_get fun s _ => ?_
  cases s.memo.find? name with
  | some v => exact dealing_looking (dealing_pure trivial)
  | none =>
    dsimp only
    cases scope.resolve name with
    | error e => exact dealing_looking (dealing_throw e)
    | ok found =>
      dsimp only
      by_cases hinstant : (found.isCallable && found.required == 0) = true
      · rw [if_pos hinstant]
        exact dealing_bind (dealing_looking (happly found [])) fun v _ => keep v
      · rw [if_neg hinstant]
        refine dealing_bind (Q := fun _ => True) (dealing_looking ?_) fun v _ => keep v
        exact dealing_pure trivial

theorem oversees_dealing (settings : Settings) : (dealing []).Oversees settings where
  result _ _ _ := dealing_pure
  error _ e _ := dealing_throw e
  andThen _ _ _ _ _ := dealing_bind
  tallied _ _ _ hQ := dealing_of_eq (fun _ => rfl) (fun _ => rfl) (fun _ => rfl) fun s => hQ s.tally
  recorded scope label args := by
    unfold recordCall
    refine dealing_bind dealing_get fun s _ => ?_
    dsimp only
    split
    · refine dealing_of_eq (fun _ => rfl) (fun _ => rfl) (fun s => ?_) fun _ _ _ => trivial
      show (s.log ++ [Event.called label _]).filterMap Event.loaded? = _
      rw [List.filterMap_append]
      exact List.append_nil _
    · exact dealing_throw .unwritable
  reading _ := dealing_get
  compile _ := dealing_compile
  blank _ := dealing_blank
  came _ := dealing_came
  fetch _ := dealing_fetch
  child scope v m h s hs := by
    obtain ⟨htold, ⟨new, hnotes, hgiven⟩, hQ⟩ := h { s with
      writer := { s.writer with
        here := s.writer.scopes.length
        scopes := s.writer.scopes ++ [scope.push v] }
      memo := ∅ } hs
    exact ⟨htold, ⟨new, ⟨hnotes.past, hnotes.log⟩, hgiven⟩, hQ⟩
  lookup _ _ _ := dealing_lookup

end Judgement

/-- The loaders among some partials. -/
def Partials.loaders : Partials → List Loader
  | .loader l => [l]
  | .none | .named _ => []

namespace Judgement

open Watch

variable {scope : Scope} {settings : Settings}

/-- Taking over partials gives the loader that there is among them. -/
theorem dealing_accept (partials : Partials) :
    dealing partials.loaders Unit scope (Watch.accept settings partials) fun _ => True := by
  cases partials with
  | none => exact dealing_pure trivial
  | loader l =>
    intro s hs
    refine ⟨hs.give l, ⟨[.given l], ⟨rfl, ?_⟩, rfl⟩, fun _ _ => trivial⟩
    exact (List.append_nil _).symm
  | named templates =>
    induction templates with
    | nil => exact dealing_pure trivial
    | cons entry templates ih =>
      exact dealing_bind (dealing_register entry.1 entry.2) fun _ _ => ih

/-- **Calling a function gives the writer the loader that is passed,** and otherwise goes on with
the past. -/
theorem dealing_renderCompiled (settings : Settings) (limit : Nat) (c : Compiled)
    (partials : Partials) : dealing partials.loaders String scope
      (Watch.notes.renderCompiled settings limit c partials scope)
      fun _ => True := by
  have h := oversees_dealing settings
  unfold Notes.renderCompiled
  refine dealing_bind (dealing_accept partials) fun _ _ => ?_
  exact h.renderAll (h.below limit) scope c.nodes

/-- **Rendering gives the writer the loader that is passed,** if the template can be read. -/
theorem dealing_template (settings : Settings) (limit : Nat) (text : String) (partials : Partials)
    {s : State Watch} (hs : Told s.writer.writer s.writer.past) :
    let left := ((Watch.notes.template settings limit text partials scope).runFrom s).2
    Told left.writer.writer left.writer.past ∧ ∃ new, Noted new s left ∧
      new.filterMap Dealing.given? =
        if (s.writer.writer.compile settings.delimiters text).isOk then partials.loaders
        else [] := by
  have hcompile : notes.compile settings text = onWriter (Render.compile settings text) := rfl
  dsimp only
  rw [Notes.template, hcompile, runFrom_bind]
  cases hc : s.writer.writer.compile settings.delimiters text with
  | error e =>
    rw [Watch.runFrom_compile_error hc]
    exact ⟨hs, [], Noted.of_eq rfl rfl, rfl⟩
  | ok given =>
    rw [Watch.runFrom_compile_ok hc]
    have hcall : dealing partials.loaders String scope
        (Watch.notes.renderCompiled settings limit given.1 partials scope) fun _ => True :=
      dealing_renderCompiled settings limit given.1 partials
    obtain ⟨htold, ⟨new, hnotes, hgiven⟩, -⟩ :=
      hcall { s with writer := { s.writer with writer := given.2 } } (hs.compile hc)
    exact ⟨htold, new, ⟨hnotes.past, hnotes.log⟩, hgiven⟩

end Judgement

end Mustache
