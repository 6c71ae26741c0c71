import Mustache.Proofs.Render.Chronicle

/-!
# What a writer knows, by what was done with it

What a writer knows can be told from what was done with it since everything was last forgotten.

- A template is known just if it was compiled. The function that it has is the one that compiling it
  gave the first time, and has the tree that reading with the delimiters of that time gives.
  Compiling it again gives the same function, whatever the delimiters are then.
- A partial is known just if it was registered. It is the function that the writer has for the
  template that was registered last.

After everything has been forgotten, no function is given that was given before.

**Idea.** `Accounts` says the first two of a writer and its past, and `Sound` of all moments of the
past too. A deed adds one moment, so it is enough to account for the writer after it
(`Sound.note`). A function is told from others by its number, and one that is new has a number that
is greater than all before.

Main statement: `Chronicle.Sound.stable`.
-/

namespace Mustache

namespace Deed

/-- Whether a deed is that everything was forgotten. -/
def isClear : Deed → Bool
  | .clear => true
  | _ => false

/-- The function that a deed gave. -/
def given? : Deed → Option Compiled
  | .compile _ _ c => some c
  | .assemble c => some c
  | _ => none

/-- If a deed is that a template was compiled: with which delimiters, and what that gave. -/
def compileOf (t : String) : Deed → Option (Delimiters.Spec × Compiled)
  | .compile u spec c => if u = t then some (spec, c) else none
  | _ => none

/-- If a deed is that a name was registered: with which template. -/
def sourceOf (name : String) : Deed → Option String
  | .register key t => if key = name then some t else none
  | _ => none

end Deed

namespace Moment

/-- What was done since everything was last forgotten, the last deed first. -/
def sinceClear (past : List Moment) : List Moment := past.takeWhile fun m => !m.deed.isClear

/-- How a template was compiled first since everything was last forgotten. -/
def firstCompiled (past : List Moment) (t : String) : Option (Delimiters.Spec × Compiled) :=
  (sinceClear past).reverse.findSome? (·.deed.compileOf t)

/-- The template that a name was registered with last, since everything was last forgotten. -/
def lastRegistered (past : List Moment) (name : String) : Option String :=
  (sinceClear past).findSome? (·.deed.sourceOf name)

variable {past later earlier : List Moment} {m x : Moment} {t name : String}
  {spec : Delimiters.Spec} {c : Compiled}

theorem sinceClear_cons (h : m.deed.isClear = false) :
    sinceClear (m :: past) = m :: sinceClear past := by
  simp [sinceClear, h]

theorem sinceClear_clear (w : Writer) : sinceClear (⟨.clear, w⟩ :: past) = [] := rfl

theorem firstCompiled_cons (h : m.deed.isClear = false) :
    firstCompiled (m :: past) t = (firstCompiled past t).or (m.deed.compileOf t) := by
  rw [firstCompiled, sinceClear_cons h, List.reverse_cons, List.findSome?_append,
    List.findSome?_singleton, firstCompiled]

theorem lastRegistered_cons (h : m.deed.isClear = false) :
    lastRegistered (m :: past) name = (m.deed.sourceOf name).or (lastRegistered past name) := by
  rw [lastRegistered, sinceClear_cons h, List.findSome?_cons, lastRegistered]
  cases m.deed.sourceOf name <;> rfl

theorem exists_of_firstCompiled (h : firstCompiled past t = some (spec, c)) :
    ∃ m ∈ sinceClear past, m.deed = .compile t spec c := by
  obtain ⟨m, hm, hd⟩ := List.exists_of_findSome?_eq_some h
  refine ⟨m, List.mem_reverse.1 hm, ?_⟩
  cases hdeed : m.deed with
  | compile u spec' c' =>
    rw [hdeed, Deed.compileOf] at hd
    split at hd
    · next hu =>
      cases hd
      rw [hu]
    · cases hd
  | _ =>
    rw [hdeed] at hd
    cases hd

/-- What was done since everything was last forgotten was done since it was forgotten any time. -/
theorem mem_later_of_mem_sinceClear (hm : m.deed = .clear)
    (hx : x ∈ sinceClear (later ++ m :: earlier)) : x ∈ later := by
  induction later with
  | nil =>
    rw [List.nil_append, sinceClear, List.takeWhile_cons, hm] at hx
    cases hx
  | cons y later ih =>
    rw [List.cons_append, sinceClear, List.takeWhile_cons] at hx
    split at hx
    · rcases List.mem_cons.1 hx with rfl | hx
      · exact List.mem_cons_self
      · exact List.mem_cons_of_mem y (ih hx)
    · cases hx

end Moment

open Moment

/-- What a writer knows is told by what was done with it. -/
structure Accounts (past : List Moment) (w : Writer) : Prop where
  /-- Each template has the function that compiling it gave first, with the tree that reading gave
  then. -/
  templates : ∀ t c, w.templates.find? t = some c → ∃ spec,
    firstCompiled past t = some (spec, c) ∧ c.template = t ∧ Template.parseWith spec t = .ok c.nodes
  /-- All that compiling a template has given is this function. -/
  compiled : ∀ m ∈ sinceClear past, ∀ t spec c, m.deed = .compile t spec c →
    w.templates.find? t = some c
  /-- Each partial has the function of the template that was registered last. -/
  partials : ∀ name c, w.partials.find? name = some c → ∃ t,
    lastRegistered past name = some t ∧ w.templates.find? t = some c
  registered : ∀ name t, lastRegistered past name = some t → ∃ c, w.partials.find? name = some c
  /-- A value that is no text stands for an empty template if it is empty and was taken for one. -/
  blanks : ∀ v ∈ w.blanks, v.size? = some 0 ∧ ∃ m ∈ sinceClear past, ∃ spec,
    m.deed = .blank v spec ∧ ∃ d, spec.delimiters = .ok d

/-- What was done with a writer accounts for what it knows, now and at all times before. -/
structure Chronicle.Sound (ch : Chronicle) : Prop where
  now : Accounts ch.past ch.writer
  /-- Since the last deed, what the writer knows has not changed. -/
  last : ∀ m earlier, ch.past = m :: earlier → ch.writer.templates = m.writer.templates ∧
    ch.writer.blanks = m.writer.blanks ∧ ch.writer.partials = m.writer.partials
  always : ∀ later m earlier, ch.past = later ++ m :: earlier → Accounts (m :: earlier) m.writer
  cleared : ∀ m ∈ ch.past, m.deed = .clear →
    m.writer.templates = ∅ ∧ m.writer.blanks = [] ∧ m.writer.partials = ∅
  /-- After everything was forgotten, no function is given that was given before. -/
  apart : ∀ later m earlier, ch.past = later ++ m :: earlier → m.deed = .clear →
    ∀ x ∈ later, ∀ y ∈ earlier, ∀ c ∈ x.deed.given?, ∀ e ∈ y.deed.given?, c.number ≠ e.number
  /-- A number stands for one function. -/
  one : ∀ x ∈ ch.past, ∀ y ∈ ch.past, ∀ c ∈ x.deed.given?, ∀ e ∈ y.deed.given?,
    c.number = e.number → c = e
  below : ∀ x ∈ ch.past, ∀ c ∈ x.deed.given?, c.number < ch.writer.made

/-! ## Deeds -/

/-- How a deed that forgets nothing changes what a writer knows. -/
structure Deed.Changes (d : Deed) (w w' : Writer) : Prop where
  forgetsNothing : d.isClear = false
  kept : ∀ t c, w.templates.find? t = some c → w'.templates.find? t = some c
  added : ∀ t c, w'.templates.find? t = some c → w.templates.find? t = some c ∨
    w.templates.find? t = none ∧ ∃ spec, d = .compile t spec c ∧ c.template = t ∧
      Template.parseWith spec t = .ok c.nodes
  gives : ∀ t spec c, d = .compile t spec c → w'.templates.find? t = some c
  partials : ∀ name,
    (∃ t c, d.sourceOf name = some t ∧ w'.templates.find? t = some c ∧
      w'.partials.find? name = some c) ∨
    d.sourceOf name = none ∧ w'.partials.find? name = w.partials.find? name
  blanks : ∀ v ∈ w'.blanks, v ∈ w.blanks ∨
    v.size? = some 0 ∧ ∃ spec, d = .blank v spec ∧ ∃ delimiters, spec.delimiters = .ok delimiters

namespace Deed

variable {w w' : Writer} {t name : String} {spec : Delimiters.Spec} {c : Compiled} {v : Value}

theorem changes_compile (h : w.compile spec t = .ok (c, w')) :
    (compile t spec c).Changes w w' := by
  have hself := Writer.find?_of_compile h
  have gives : ∀ u spec' e, compile t spec c = compile u spec' e →
      w'.templates.find? u = some e := by
    rintro u spec' e ⟨⟩
    exact hself
  rcases Writer.compile_cases h with ⟨hf, rfl⟩ | ⟨nodes, hf, hp, rfl, rfl⟩
  · exact ⟨rfl, fun _ _ h => h, fun _ _ h => .inl h, gives, fun _ => .inr ⟨rfl, rfl⟩,
      fun _ h => .inl h⟩
  · refine ⟨rfl, fun u e he => ?_, fun u e he => ?_, gives, fun _ => .inr ⟨rfl, rfl⟩,
      fun _ h => .inl h⟩
    · have hu : u ≠ t := by
        rintro rfl
        rw [hf] at he
        cases he
      rw [Writer.keep, Table.find?_insert, if_neg hu]
      exact he
    · rcases Writer.find?_keep he with ⟨rfl, rfl⟩ | ⟨-, he⟩
      · exact .inr ⟨hf, spec, rfl, rfl, hp⟩
      · exact .inl he

theorem changes_register (h : w.templates.find? t = some c) :
    (register name t).Changes w { w with partials := w.partials.insert name c } := by
  refine ⟨rfl, fun _ _ h => h, fun _ _ h => .inl h, (by rintro _ _ _ ⟨⟩), fun key => ?_,
    fun _ h => .inl h⟩
  by_cases hkey : key = name
  · refine .inl ⟨t, c, ?_, h, ?_⟩
    · rw [sourceOf, if_pos hkey.symm]
    · rw [Table.find?_insert, if_pos hkey]
  · refine .inr ⟨?_, ?_⟩
    · rw [sourceOf, if_neg (Ne.symm hkey)]
    · rw [Table.find?_insert, if_neg hkey]

theorem changes_blank (hv : v.size? = some 0) (hd : ∃ d, spec.delimiters = .ok d) :
    (blank v spec).Changes w (w.keepBlank v) := by
  refine ⟨rfl, fun _ _ h => h, fun _ _ h => .inl h, (by rintro _ _ _ ⟨⟩), fun _ => .inr ⟨rfl, rfl⟩,
    fun u hu => ?_⟩
  rcases List.mem_cons.1 hu with rfl | hu
  · exact .inr ⟨hv, spec, rfl, hd⟩
  · exact .inl hu

theorem changes_knownBlank : (blank v spec).Changes w w :=
  ⟨rfl, fun _ _ h => h, fun _ _ h => .inl h, (by rintro _ _ _ ⟨⟩), fun _ => .inr ⟨rfl, rfl⟩,
    fun _ h => .inl h⟩

theorem changes_assemble (nodes : List Node) :
    (assemble (w.assemble t nodes).1).Changes w (w.assemble t nodes).2 :=
  ⟨rfl, fun _ _ h => h, fun _ _ h => .inl h, (by rintro _ _ _ ⟨⟩), fun _ => .inr ⟨rfl, rfl⟩,
    fun _ h => .inl h⟩

end Deed

namespace Accounts

variable {past : List Moment} {w w' : Writer} {d : Deed} {t : String}

/-- A writer that knows nothing, after everything was forgotten or before anything was done. -/
theorem of_empty (ht : w.templates = ∅) (hb : w.blanks = []) (hp : w.partials = ∅)
    (hpast : sinceClear past = []) : Accounts past w where
  templates t c h := by
    rw [ht] at h
    cases h
  compiled m h := by
    rw [hpast] at h
    cases h
  partials name c h := by
    rw [hp] at h
    cases h
  registered name t h := by
    rw [lastRegistered, hpast] at h
    cases h
  blanks v h := by
    rw [hb] at h
    cases h

theorem firstCompiled_eq_none (h : Accounts past w) (hf : w.templates.find? t = none) :
    firstCompiled past t = none := by
  cases hfirst : firstCompiled past t with
  | none => rfl
  | some first =>
    obtain ⟨m, hm, hdeed⟩ := exists_of_firstCompiled hfirst
    rw [h.compiled m hm t first.1 first.2 hdeed] at hf
    cases hf

theorem change (h : Accounts past w) (hd : d.Changes w w') : Accounts (⟨d, w'⟩ :: past) w' where
  templates t c hc := by
    rw [firstCompiled_cons hd.forgetsNothing]
    rcases hd.added t c hc with hold | ⟨hf, spec, hdeed, ht, hp⟩
    · obtain ⟨spec, hfirst, hrest⟩ := h.templates t c hold
      rw [hfirst]
      exact ⟨spec, rfl, hrest⟩
    · rw [h.firstCompiled_eq_none hf, hdeed, Deed.compileOf, if_pos rfl]
      exact ⟨spec, rfl, ht, hp⟩
  compiled x hx t spec c hdeed := by
    rw [sinceClear_cons hd.forgetsNothing] at hx
    rcases List.mem_cons.1 hx with rfl | hx
    · exact hd.gives t spec c hdeed
    · exact hd.kept t c (h.compiled x hx t spec c hdeed)
  partials name c hc := by
    rw [lastRegistered_cons hd.forgetsNothing]
    rcases hd.partials name with ⟨t, e, hsource, ht, hp⟩ | ⟨hsource, hp⟩
    · rw [hsource]
      exact ⟨t, rfl, ht.trans (hp.symm.trans hc)⟩
    · rw [hsource]
      obtain ⟨t, hlast, hf⟩ := h.partials name c (hp.symm.trans hc)
      exact ⟨t, hlast, hd.kept t c hf⟩
  registered name t hlast := by
    rw [lastRegistered_cons hd.forgetsNothing] at hlast
    rcases hd.partials name with ⟨u, e, -, -, hp⟩ | ⟨hsource, hp⟩
    · exact ⟨e, hp⟩
    · rw [hsource] at hlast
      rw [hp]
      exact h.registered name t hlast
  blanks v hv := by
    rw [sinceClear_cons hd.forgetsNothing]
    rcases hd.blanks v hv with hold | ⟨hsize, spec, hdeed, hsound⟩
    · obtain ⟨hsize, x, hx, hrest⟩ := h.blanks v hold
      exact ⟨hsize, x, List.mem_cons_of_mem _ hx, hrest⟩
    · exact ⟨hsize, _, List.mem_cons_self, spec, hdeed, hsound⟩

end Accounts

/-! ## Moments -/

namespace Chronicle.Sound

variable {ch : Chronicle} {w' : Writer} {d : Deed} {settings : Settings}

theorem new (escape : Option (String → String)) : Sound ⟨Writer.new escape, []⟩ where
  now := .of_empty rfl rfl rfl rfl
  last _ _ h := nomatch h
  always _ _ _ h := nomatch (List.append_eq_nil_iff.1 h.symm).2
  cleared _ h := nomatch h
  apart _ _ _ h := nomatch (List.append_eq_nil_iff.1 h.symm).2
  one _ h := nomatch h
  below _ h := nomatch h

/-- A function that a deed gives is new, or was given since everything was last forgotten. -/
def Fresh (ch : Chronicle) (d : Deed) (w' : Writer) : Prop :=
  ∀ c ∈ d.given?, c.number < w'.made ∧
    (ch.writer.made ≤ c.number ∨ ∃ m ∈ sinceClear ch.past, c ∈ m.deed.given?)

/-- A function that is given now and was given before is the same as then. -/
theorem same_of_fresh (h : ch.Sound) (hfresh : Fresh ch d w') {y : Moment} (hy : y ∈ ch.past)
    {c e : Compiled} (hc : c ∈ d.given?) (he : e ∈ y.deed.given?) (hn : c.number = e.number) :
    c = e := by
  rcases (hfresh c hc).2 with hnew | ⟨m, hm, hgiven⟩
  · have hless := h.below y hy e he
    omega
  · exact h.one m (List.takeWhile_subset _ hm) y hy c hgiven e he hn

/-- A function that is given now was not given before everything was forgotten. -/
theorem ne_of_fresh (h : ch.Sound) (hfresh : Fresh ch d w') {later earlier : List Moment}
    {m y : Moment} (hpast : ch.past = later ++ m :: earlier) (hm : m.deed = .clear)
    (hy : y ∈ earlier) {c e : Compiled} (hc : c ∈ d.given?) (he : e ∈ y.deed.given?) :
    c.number ≠ e.number := by
  rcases (hfresh c hc).2 with hnew | ⟨z, hz, hgiven⟩
  · have hy' : y ∈ ch.past := by
      rw [hpast]
      exact List.mem_append_right _ (List.mem_cons_of_mem m hy)
    have hless := h.below y hy' e he
    omega
  · rw [hpast] at hz
    exact h.apart later m earlier hpast hm z (mem_later_of_mem_sinceClear hm hz) y hy c hgiven e he

/-- **A deed adds one moment.** The writer after it has to be accounted for, and a function that it
gives has to be new or given since everything was last forgotten. -/
theorem note (h : ch.Sound) (hacc : Accounts (⟨d, w'⟩ :: ch.past) w')
    (hmade : ch.writer.made ≤ w'.made) (hfresh : Fresh ch d w')
    (hclear : d = .clear → w'.templates = ∅ ∧ w'.blanks = [] ∧ w'.partials = ∅) :
    ((ch.withWriter w').note d).Sound where
  now := hacc
  last := by
    rintro m earlier ⟨⟩
    exact ⟨rfl, rfl, rfl⟩
  always later m earlier hpast := by
    rcases List.cons_eq_append_iff.1 hpast with ⟨-, hm⟩ | ⟨later', -, hcut⟩
    · cases hm
      exact hacc
    · exact h.always later' m earlier hcut
  cleared m hm hdeed := by
    rcases List.mem_cons.1 hm with rfl | hm
    · exact hclear hdeed
    · exact h.cleared m hm hdeed
  apart later m earlier hpast hdeed x hx y hy c hc e he := by
    rcases List.cons_eq_append_iff.1 hpast with ⟨rfl, -⟩ | ⟨later', rfl, hcut⟩
    · cases hx
    · rcases List.mem_cons.1 hx with rfl | hx
      · exact h.ne_of_fresh hfresh hcut hdeed hy hc he
      · exact h.apart later' m earlier hcut hdeed x hx y hy c hc e he
  one x hx y hy c hc e he hn := by
    rcases List.mem_cons.1 hx with rfl | hx
    · rcases List.mem_cons.1 hy with rfl | hy
      · exact Option.mem_unique hc he
      · exact h.same_of_fresh hfresh hy hc he hn
    · rcases List.mem_cons.1 hy with rfl | hy
      · exact (h.same_of_fresh hfresh hx he hc hn.symm).symm
      · exact h.one x hx y hy c hc e he hn
  below x hx c hc := by
    rcases List.mem_cons.1 hx with rfl | hx
    · exact (hfresh c hc).1
    · exact Nat.lt_of_lt_of_le (h.below x hx c hc) hmade

theorem withLoader (h : ch.Sound) (loader : Loader) : (ch.withLoader loader).Sound where
  now := ⟨h.now.templates, h.now.compiled, h.now.partials, h.now.registered, h.now.blanks⟩
  last := h.last
  always := h.always
  cleared := h.cleared
  apart := h.apart
  one := h.one
  below := h.below

theorem compile (h : ch.Sound) {spec : Delimiters.Spec} {t : String} {c : Compiled} {w' : Writer}
    (hc : ch.writer.compile spec t = .ok (c, w')) :
    ((ch.withWriter w').note (.compile t spec c)).Sound := by
  have hacc := h.now.change (Deed.changes_compile hc)
  rcases Writer.compile_cases hc with ⟨hf, rfl⟩ | ⟨nodes, -, -, rfl, rfl⟩
  · -- The function is known, so compiling the template gave it before.
    refine h.note hacc (Nat.le_refl _) ?_ nofun
    rintro e ⟨⟩
    obtain ⟨first, hfirst, -⟩ := h.now.templates t c hf
    obtain ⟨m, hm, hdeed⟩ := exists_of_firstCompiled hfirst
    have hgiven : c ∈ m.deed.given? := by
      rw [hdeed]
      rfl
    exact ⟨h.below m (List.takeWhile_subset _ hm) c hgiven, .inr ⟨m, hm, hgiven⟩⟩
  · refine h.note hacc (Nat.le_succ _) ?_ nofun
    rintro e ⟨⟩
    exact ⟨Nat.lt_succ_self _, .inl (Nat.le_refl _)⟩

/-- **All that rendering does is accounted for.** -/
theorem stable (settings : Settings) : Stable settings Sound where
  compiled _ _ _ _ h hc := h.compile hc
  registered _ _ _ _ h hc :=
    h.note (h.now.change (Deed.changes_register hc)) (Nat.le_refl _) nofun nofun
  blank _ _ h hv hd := h.note (h.now.change (Deed.changes_blank hv hd)) (Nat.le_refl _) nofun nofun
  knownBlank _ _ h _ := h.note (h.now.change Deed.changes_knownBlank) (Nat.le_refl _) nofun nofun

theorem assemble (h : ch.Sound) (t : String) (nodes : List Node) :
    ((ch.withWriter (ch.writer.assemble t nodes).2).note
      (.assemble (ch.writer.assemble t nodes).1)).Sound := by
  refine h.note (h.now.change (Deed.changes_assemble nodes)) (Nat.le_succ _) ?_ nofun
  rintro c ⟨⟩
  exact ⟨Nat.lt_succ_self _, .inl (Nat.le_refl _)⟩

theorem clear (h : ch.Sound) : ((ch.withWriter ch.writer.clear).note .clear).Sound :=
  h.note (.of_empty rfl rfl rfl (sinceClear_clear _)) (Nat.le_refl _) nofun fun _ => ⟨rfl, rfl, rfl⟩

end Chronicle.Sound

end Mustache
