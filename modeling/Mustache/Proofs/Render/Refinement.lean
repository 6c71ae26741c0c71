import Mathlib.Data.List.Forall2
import Mustache.Proofs.Render.Alike
import Mustache.Proofs.Render.Registry

/-!
# The writer refines the registry

Rendering with a writer comes to the same as rendering without caches.

**Idea.** What a writer keeps of a template is what reading the template anew gives, since the
delimiters stay the same (`Writer.Sound`), and of each partial it knows the template whose text is
the source that the registry keeps (`Writer.Mirrors`). Every operation of the writer keeps that up
and agrees with the one of the registry, and so does all rendering, which does not see the store. A
compiled template that was given out is known by its number: numbers are never used twice, so that
it is met again just as long as the writer keeps it (`Handle.Fits`).

Main statements: `alike_deeper`, `agree_template` and `agree_handle`.
-/

namespace Mustache

open Render

/-! ## Values that stand for an empty template -/

namespace Value

theorem measure_eq_zero_iff (v : Value) : v.measure = .ok (.int 0) ↔ v.size? = some 0 := by
  rw [measure]
  cases v.size? with
  | none => simp
  | some n =>
    by_cases hn : Range.sizeLimit ≤ n
    · have : n ≠ 0 := by
        have : 0 < Range.sizeLimit := by decide
        omega
      simp [hn, this]
    · simp [hn]

/-- What is the same key as an empty value is empty too. -/
theorem size?_of_sameKey {v w : Value} (hw : w.size? = some 0) (h : v.sameKey w = true) :
    v.size? = some 0 := by
  cases w with
  | str s => cases v <;> simp_all [sameKey, asInt?, size?]
  | bytes b => cases v <;> simp_all [sameKey, asInt?, size?]
  | tuple ys =>
    cases v with
    | tuple xs => cases xs <;> cases ys <;> simp_all [sameKey, sameKeys, size?]
    | _ => simp_all [sameKey, asInt?, size?]
  | range start stop step =>
    cases v with
    | range a b c => simp_all [sameKey, sameRange, size?]
    | _ => simp_all [sameKey, asInt?, size?]
  | byteArray b => cases v <;> simp_all [sameKey, asInt?, size?]
  | list ys => cases v <;> simp_all [sameKey, asInt?, size?]
  | set ys => cases v <;> simp_all [sameKey, asInt?, size?]
  | dict es => cases v <;> simp_all [sameKey, asInt?, size?]
  | _ => simp [size?] at hw

end Value

/-! ## What a writer keeps -/

namespace Writer

/-- All that a writer knows could be found out again: its templates and partials have the trees that
reading them gives, no two templates have the same number, and what stands for an empty template is
empty. -/
structure Sound (spec : Delimiters.Spec) (w : Writer) : Prop where
  parsed : ∀ t c, w.templates.find? t = some c →
    c.template = t ∧ c.number < w.made ∧ Template.parseWith spec t = .ok c.nodes
  injective : ∀ t c u e, w.templates.find? t = some c → w.templates.find? u = some e →
    c.number = e.number → t = u
  partials : ∀ name c, w.partials.find? name = some c →
    Template.parseWith spec c.template = .ok c.nodes
  blanks : ∀ v ∈ w.blanks, v.size? = some 0 ∧ ∃ d, spec.delimiters = .ok d

/-- A writer and a registry escape alike, have the same loader, and know the same partials. -/
structure Mirrors (w : Writer) (r : Registry) : Prop where
  escape : w.escape = r.escape
  loader : w.loader = r.loader
  sources : ∀ name, (w.partials.find? name).map (·.template) = r.sources.find? name

/-- A compiled template is not, or no longer, what the writer would give for any template. -/
def Outdated (w : Writer) (c : Compiled) : Prop :=
  ∀ t e, w.templates.find? t = some e → e.number ≠ c.number

end Writer

/-- A handle stands for a compiled template of a writer. -/
def Handle.Fits (spec : Delimiters.Spec) (w : Writer) (c : Compiled) : Handle → Prop
  | .read t current => c.template = t ∧ Template.parseWith spec t = .ok c.nodes ∧
      if current then w.templates.find? t = some c else w.Outdated c
  | .assembled t nodes => c.template = t ∧ c.nodes = nodes ∧ w.Outdated c

/-- A writer stands for a registry, and the compiled templates that were given out for handles. -/
structure Refines (spec : Delimiters.Spec) (given : List (Nat × Compiled)) (handles : List Handle)
    (w : Writer) (r : Registry) : Prop where
  sound : w.Sound spec
  mirrors : w.Mirrors r
  handles : List.Forall₂ (fun g h => g.1 = 0 ∧ g.2.number < w.made ∧ Handle.Fits spec w g.2 h)
    given handles

variable {spec : Delimiters.Spec} {given : List (Nat × Compiled)} {handles : List Handle}
  {w : Writer} {r : Registry} {t : String} {nodes : List Node}

/-- A writer that knows nothing. -/
theorem Writer.sound_of_empty (ht : w.templates = ∅) (hp : w.partials = ∅) (hb : w.blanks = []) :
    w.Sound spec := by
  have unknown (t : String) (c : Compiled) : w.templates.find? t ≠ some c := by
    rw [ht]
    exact fun h => (by cases h)
  refine ⟨fun t c h => absurd h (unknown t c), fun t c _ _ h => absurd h (unknown t c), ?_, ?_⟩
  · intro name c h
    rw [hp] at h
    cases h
  · simp [hb]

theorem refines_new (spec : Delimiters.Spec) (escape : Option (String → String)) :
    Refines spec [] [] (Writer.new escape) ⟨escape, ∅, none⟩ where
  sound := Writer.sound_of_empty rfl rfl rfl
  mirrors := ⟨rfl, rfl, fun _ => rfl⟩
  handles := .nil

/-! ### Compiling -/

theorem Writer.compile_known {c : Compiled} (h : w.templates.find? t = some c) :
    w.compile spec t = .ok (c, w) := by
  rw [Writer.compile, h]

/-- The writer after it has compiled a template that it did not know. -/
def Writer.keep (w : Writer) (t : String) (nodes : List Node) : Writer :=
  { w with templates := w.templates.insert t ⟨w.made, t, nodes⟩, made := w.made + 1 }

theorem Writer.compile_new (h : w.templates.find? t = none)
    (hp : Template.parseWith spec t = .ok nodes) :
    w.compile spec t = .ok (⟨w.made, t, nodes⟩, w.keep t nodes) := by
  rw [Writer.compile, h, hp]
  rfl

/-- Compiling gives what is known, or makes a new function and keeps it. -/
theorem Writer.compile_cases {c : Compiled} {w' : Writer} (h : w.compile spec t = .ok (c, w')) :
    (w.templates.find? t = some c ∧ w' = w) ∨
      ∃ nodes, w.templates.find? t = none ∧ Template.parseWith spec t = .ok nodes ∧
        c = ⟨w.made, t, nodes⟩ ∧ w' = w.keep t nodes := by
  cases hf : w.templates.find? t with
  | some e =>
    rw [Writer.compile_known hf] at h
    cases h
    exact .inl ⟨rfl, rfl⟩
  | none =>
    cases hp : Template.parseWith spec t with
    | error e =>
      rw [Writer.compile, hf, hp] at h
      cases h
    | ok nodes =>
      rw [Writer.compile_new hf hp] at h
      cases h
      exact .inr ⟨nodes, rfl, rfl, rfl, rfl⟩

theorem Writer.find?_keep_self : (w.keep t nodes).templates.find? t = some ⟨w.made, t, nodes⟩ := by
  rw [Writer.keep, Table.find?_insert, if_pos rfl]

/-- What was compiled is known. -/
theorem Writer.find?_of_compile {c : Compiled} {w' : Writer} (h : w.compile spec t = .ok (c, w')) :
    w'.templates.find? t = some c := by
  rcases Writer.compile_cases h with ⟨hf, rfl⟩ | ⟨nodes, -, -, rfl, rfl⟩
  · exact hf
  · exact Writer.find?_keep_self

theorem Writer.compile_of_compilePartial_error {name : String} {e : TemplateError}
    (h : w.compilePartial spec name t = .error e) : w.compile spec t = .error e := by
  rw [Writer.compilePartial] at h
  cases hc : w.compile spec t with
  | error e' =>
    rw [hc] at h
    exact h
  | ok given =>
    rw [hc] at h
    cases h

theorem Writer.compile_of_compilePartial_ok {name : String} {given : Compiled × Writer}
    (h : w.compilePartial spec name t = .ok given) :
    ∃ w', w.compile spec t = .ok (given.1, w') ∧
      given.2 = { w' with partials := w'.partials.insert name given.1 } := by
  rw [Writer.compilePartial] at h
  cases hc : w.compile spec t with
  | error e' =>
    rw [hc] at h
    cases h
  | ok given' =>
    rw [hc] at h
    cases h
    exact ⟨given'.2, rfl, rfl⟩

/-- Compiling fails just if the template is not known and cannot be read. -/
theorem Writer.compile_eq_error_iff {e : TemplateError} : w.compile spec t = .error e ↔
    w.templates.find? t = none ∧ Template.parseWith spec t = .error e := by
  constructor
  · intro h
    cases hf : w.templates.find? t with
    | some c =>
      rw [Writer.compile_known hf] at h
      cases h
    | none =>
      cases hp : Template.parseWith spec t with
      | error e' =>
        rw [Writer.compile, hf, hp] at h
        exact ⟨rfl, congrArg _ (Except.error.inj h)⟩
      | ok nodes =>
        rw [Writer.compile_new hf hp] at h
        cases h
  · rintro ⟨hf, hp⟩
    rw [Writer.compile, hf, hp]
    rfl

/-- What cannot be read is not known, and so not compiled. -/
theorem Writer.Sound.compile_error (h : w.Sound spec) {e : TemplateError}
    (hp : Template.parseWith spec t = .error e) : w.compile spec t = .error e := by
  refine Writer.compile_eq_error_iff.2 ⟨?_, hp⟩
  cases hf : w.templates.find? t with
  | none => rfl
  | some c =>
    have := (h.parsed t c hf).2.2
    rw [hp] at this
    cases this

/-- Numbering a template that is not kept. -/
theorem Refines.assemble (h : Refines spec given handles w r) :
    Refines spec given handles { w with made := w.made + 1 } r where
  sound :=
    ⟨fun t c hc =>
      let ⟨ht, hn, hp⟩ := h.sound.parsed t c hc
      ⟨ht, Nat.lt_succ_of_lt hn, hp⟩, h.sound.injective, h.sound.partials, h.sound.blanks⟩
  mirrors := ⟨h.mirrors.escape, h.mirrors.loader, h.mirrors.sources⟩
  handles := h.handles.imp fun _ _ ⟨hw, hn, hf⟩ => ⟨hw, Nat.lt_succ_of_lt hn, hf⟩

theorem Writer.find?_keep {u : String} {e : Compiled}
    (h : (w.keep t nodes).templates.find? u = some e) :
    (u = t ∧ e = ⟨w.made, t, nodes⟩) ∨ (u ≠ t ∧ w.templates.find? u = some e) := by
  rw [Writer.keep, Table.find?_insert] at h
  by_cases hu : u = t
  · rw [if_pos hu, Option.some.injEq] at h
    exact Or.inl ⟨hu, h.symm⟩
  · rw [if_neg hu] at h
    exact Or.inr ⟨hu, h⟩

/-- The new number is greater than all those that are used. -/
theorem Writer.Sound.keep (h : w.Sound spec) (hp : Template.parseWith spec t = .ok nodes) :
    (w.keep t nodes).Sound spec := by
  have other (u : String) (e : Compiled) (he : w.templates.find? u = some e) : e.number ≠ w.made :=
    Nat.ne_of_lt (h.parsed u e he).2.1
  refine ⟨?_, ?_, h.partials, h.blanks⟩
  · intro u e he
    rcases Writer.find?_keep he with ⟨rfl, rfl⟩ | ⟨-, he⟩
    · exact ⟨rfl, Nat.lt_succ_self _, hp⟩
    · obtain ⟨ht, hn, hp⟩ := h.parsed u e he
      exact ⟨ht, Nat.lt_succ_of_lt hn, hp⟩
  · intro u e v k he hk hn
    rcases Writer.find?_keep he with ⟨hu, rfl⟩ | ⟨-, he'⟩
    · rcases Writer.find?_keep hk with ⟨hv, -⟩ | ⟨-, hk'⟩
      · rw [hu, hv]
      · exact absurd hn.symm (other v k hk')
    · rcases Writer.find?_keep hk with ⟨-, rfl⟩ | ⟨-, hk'⟩
      · exact absurd hn (other u e he')
      · exact h.injective u e v k he' hk' hn

theorem Writer.Outdated.keep {c : Compiled} (ho : w.Outdated c) (hc : c.number < w.made) :
    (w.keep t nodes).Outdated c := by
  intro u e he
  rcases Writer.find?_keep he with ⟨-, rfl⟩ | ⟨-, he⟩
  · exact Nat.ne_of_gt hc
  · exact ho u e he

theorem Handle.Fits.keep {c : Compiled} {handle : Handle} (h : handle.Fits spec w c)
    (hc : c.number < w.made) (hf : w.templates.find? t = none) :
    handle.Fits spec (w.keep t nodes) c := by
  cases handle with
  | assembled u own => exact ⟨h.1, h.2.1, h.2.2.keep hc⟩
  | read u current =>
    obtain ⟨hu, hparse, hkept⟩ := h
    refine ⟨hu, hparse, ?_⟩
    cases current with
    | false => exact Writer.Outdated.keep hkept hc
    | true =>
      have hne : u ≠ t := by
        rintro rfl
        rw [if_pos rfl, hf] at hkept
        cases hkept
      rw [if_pos rfl, Writer.keep, Table.find?_insert, if_neg hne]
      exact hkept

theorem Refines.keep (h : Refines spec given handles w r) (hf : w.templates.find? t = none)
    (hp : Template.parseWith spec t = .ok nodes) :
    Refines spec given handles (w.keep t nodes) r where
  sound := h.sound.keep hp
  mirrors := ⟨h.mirrors.escape, h.mirrors.loader, h.mirrors.sources⟩
  handles := h.handles.imp fun _ _ ⟨hx, hn, hfits⟩ => ⟨hx, Nat.lt_succ_of_lt hn, hfits.keep hn hf⟩

/-- **Compiling gives what reading anew does,** and the writer knows it then. -/
theorem Refines.compile (h : Refines spec given handles w r)
    (hp : Template.parseWith spec t = .ok nodes) :
    ∃ c w', w.compile spec t = .ok (c, w') ∧ c.template = t ∧ c.nodes = nodes ∧
      w'.templates.find? t = some c ∧ Refines spec given handles w' r := by
  cases hf : w.templates.find? t with
  | none =>
    exact ⟨_, _, Writer.compile_new hf hp, rfl, rfl, Writer.find?_keep_self, h.keep hf hp⟩
  | some c =>
    obtain ⟨ht, -, hparse⟩ := h.sound.parsed t c hf
    rw [hp, Except.ok.injEq] at hparse
    exact ⟨c, w, Writer.compile_known hf, ht, hparse.symm, hf, h⟩

/-- Making a template the partial of a name. -/
theorem Refines.register (h : Refines spec given handles w r) {c : Compiled} (hc : c.template = t)
    (hp : Template.parseWith spec t = .ok c.nodes) (name : String) :
    Refines spec given handles { w with partials := w.partials.insert name c }
      { r with sources := r.sources.insert name t } where
  sound := by
    refine ⟨h.sound.parsed, h.sound.injective, fun key e he => ?_, h.sound.blanks⟩
    rw [Table.find?_insert] at he
    split at he
    · cases he
      rwa [hc]
    · exact h.sound.partials key e he
  mirrors := by
    refine ⟨h.mirrors.escape, h.mirrors.loader, fun key => ?_⟩
    rw [Table.find?_insert, Table.find?_insert]
    split
    · rw [Option.map_some, hc]
    · exact h.mirrors.sources key
  handles := h.handles

theorem Refines.keepBlank (h : Refines spec given handles w r) {v : Value} (hv : v.size? = some 0)
    (hd : ∃ d, spec.delimiters = .ok d) : Refines spec given handles (w.keepBlank v) r where
  sound :=
    ⟨h.sound.parsed, h.sound.injective, h.sound.partials,
      List.forall_mem_cons.2 ⟨⟨hv, hd⟩, h.sound.blanks⟩⟩
  mirrors := ⟨h.mirrors.escape, h.mirrors.loader, h.mirrors.sources⟩
  handles := h.handles

theorem Refines.setLoader (h : Refines spec given handles w r) (loader : Loader) :
    Refines spec given handles { w with loader := some loader }
      { r with loader := some loader } where
  sound := ⟨h.sound.parsed, h.sound.injective, h.sound.partials, h.sound.blanks⟩
  mirrors := ⟨h.mirrors.escape, rfl, h.mirrors.sources⟩
  handles := h.handles

/-- Forgetting makes all handles outdated. -/
theorem Refines.clear (h : Refines spec given handles w r) :
    Refines spec given (handles.map Handle.outdate) w.clear { r with sources := ∅ } where
  sound := Writer.sound_of_empty rfl rfl rfl
  mirrors := ⟨h.mirrors.escape, h.mirrors.loader, fun _ => rfl⟩
  handles := by
    rw [List.forall₂_map_right_iff]
    refine h.handles.imp fun g handle ⟨hx, hn, hfits⟩ => ⟨hx, hn, ?_⟩
    have outdated : w.clear.Outdated g.2 := fun _ _ h => (by cases h)
    cases handle with
    | read u current => exact ⟨hfits.1, hfits.2.1, outdated⟩
    | assembled u own => exact ⟨hfits.1, hfits.2.1, outdated⟩

/-- Making a template a partial is compiling it first. -/
theorem Refines.compilePartial (h : Refines spec given handles w r)
    (hp : Template.parseWith spec t = .ok nodes) (name : String) :
    ∃ c w', w.compilePartial spec name t = .ok (c, w') ∧ w'.templates.find? t = some c ∧
      Refines spec given handles w' { r with sources := r.sources.insert name t } := by
  obtain ⟨c, w', hc, ht, hn, hf, hw⟩ := h.compile hp
  refine ⟨c, { w' with partials := w'.partials.insert name c }, ?_, hf, hw.register ht ?_ name⟩
  · rw [Writer.compilePartial, hc]
    rfl
  · rw [hn, hp]

theorem Writer.Sound.compilePartial_error (h : w.Sound spec) {e : TemplateError}
    (hp : Template.parseWith spec t = .error e) (name : String) :
    w.compilePartial spec name t = .error e := by
  rw [Writer.compilePartial, h.compile_error hp]
  rfl

/-! ## Rendering with a writer and with a registry -/

theorem Registry.read_eq_pure {settings : Settings}
    (hp : Template.parseWith settings.delimiters t = .ok nodes) :
    Registry.read settings t = pure nodes := by
  rw [Registry.read, hp]

theorem Registry.read_eq_throw {settings : Settings} {e : TemplateError}
    (hp : Template.parseWith settings.delimiters t = .error e) :
    Registry.read settings t = throw (.template e) := by
  rw [Registry.read, hp]

/-- Compiling and reading come to the same template. -/
theorem agree_compile (settings : Settings) (t : String) :
    Agree (Refines settings.delimiters given handles)
      (fun c nodes => c.template = t ∧ c.nodes = nodes) (compile settings t)
      (Registry.read settings t) := by
  intro s s' hs
  rw [compile, runFrom_get_bind]
  cases hp : Template.parseWith settings.delimiters t with
  | error e =>
    rw [hs.store.sound.compile_error hp, Registry.read_eq_throw hp]
    exact ⟨.error _, hs⟩
  | ok nodes =>
    obtain ⟨c, w, hc, ht, hn, -, hw⟩ := hs.store.compile hp
    rw [hc, Registry.read_eq_pure hp]
    exact ⟨.ok ⟨ht, hn⟩, hw, hs.memo, hs.tally, hs.log⟩

theorem agree_register (settings : Settings) (name t : String) :
    Agree (Refines settings.delimiters given handles) Eq (register settings name t)
      (Registry.register settings name t) := by
  intro s s' hs
  rw [register, Registry.register, runFrom_get_bind]
  cases hp : Template.parseWith settings.delimiters t with
  | error e =>
    rw [hs.store.sound.compilePartial_error hp, Registry.read_eq_throw hp]
    exact ⟨.error _, hs⟩
  | ok nodes =>
    obtain ⟨c, w, hc, -, hw⟩ := hs.store.compilePartial hp name
    rw [hc, Registry.read_eq_pure hp]
    exact ⟨.ok rfl, hw, hs.memo, hs.tally, hs.log⟩

theorem agree_accept (settings : Settings) (partials : Partials) :
    Agree (Refines settings.delimiters given handles) Eq (accept settings partials)
      (Registry.accept settings partials) := by
  cases partials with
  | none => exact agree_pure rfl
  | named templates =>
    induction templates with
    | nil => exact agree_pure rfl
    | cons entry templates ih =>
      exact (agree_register settings entry.1 entry.2).bindEq fun _ => ih
  | loader loader =>
    exact agree_modify fun _ _ hs => ⟨hs.store.setLoader loader, hs.memo, hs.tally, hs.log⟩

theorem agree_fetch (settings : Settings) (name : String) :
    Agree (Refines settings.delimiters given handles) Eq (fetch settings name)
      (Registry.fetch settings name) := by
  refine agree_get_bind fun s s' hs => ?_
  have hsource := hs.store.mirrors.sources name
  dsimp only
  rw [hs.store.mirrors.loader]
  cases hp : s.writer.partials.find? name with
  | some c =>
    rw [hp, Option.map_some] at hsource
    rw [← hsource]
    exact agree_pure rfl
  | none =>
    rw [hp, Option.map_none] at hsource
    rw [← hsource]
    cases s'.writer.loader with
    | none => exact agree_pure rfl
    | some loader =>
      refine (agree_record _).bindEq fun _ => (agree_ofExcept _).bindEq fun found => ?_
      cases found with
      | none => exact agree_pure rfl
      | some template => exact agree_register settings name template

section Levels

variable {settings : Settings} {d : Deeper Writer} {d' : Deeper Registry}

theorem agree_expand (hd : d.Alike (Refines settings.delimiters given handles) d') (scope : Scope)
    (name : String) :
    Agree (Refines settings.delimiters given handles) Eq (expand settings d scope name)
      (Registry.expand settings d' scope name) := by
  refine (agree_fetch settings name).bindEq fun _ => agree_get_bind fun s s' hs => ?_
  have hsource := hs.store.mirrors.sources name
  cases hp : s.writer.partials.find? name with
  | none =>
    rw [hp, Option.map_none] at hsource
    rw [← hsource]
    exact agree_pure rfl
  | some c =>
    rw [hp, Option.map_some] at hsource
    rw [← hsource]
    -- The partial was read when it was registered, so it can be read again.
    show Agree _ _ _ (Registry.read settings c.template >>= _)
    rw [Registry.read_eq_pure (hs.store.sound.partials name c hp), pure_bind]
    exact Node.agree_renderAll hd c.template scope c.nodes

/-- A value that is known was empty, and the delimiters sound when it was met. -/
theorem agree_acceptBlank (settings : Settings) (v : Value) :
    Agree (Refines settings.delimiters given handles) Eq (acceptBlank settings v)
      (Registry.readBlank settings v) := by
  refine agree_get_bind_left fun s s' hs => ?_
  dsimp only
  rw [Registry.readBlank]
  cases hk : v.canBeKey with
  | false => exact agree_throw _
  | true =>
    cases hb : s.writer.knowsBlank v with
    | true =>
      obtain ⟨u, hu, hsame⟩ := List.any_eq_true.1 hb
      obtain ⟨hempty, d, hd⟩ := hs.store.sound.blanks u hu
      have hv := (Value.measure_eq_zero_iff v).2 (Value.size?_of_sameKey hempty hsame)
      rw [hd, hv]
      exact agree_pure rfl
    | false =>
      cases hd : settings.delimiters.delimiters with
      | error e => exact agree_throw _
      | ok d =>
        refine (agree_ofExcept_ok v.measure).bind fun n _ hn => ?_
        obtain ⟨hm, rfl⟩ := hn
        cases n with
        | int m =>
          match m with
          | 0 =>
            have hv := (Value.measure_eq_zero_iff v).1 hm
            exact agree_modify fun _ _ hs =>
              ⟨hs.store.keepBlank hv ⟨d, hd⟩, hs.memo, hs.tally, hs.log⟩
          | .ofNat (k + 1) => exact agree_throw _
          | .negSucc k => exact agree_throw _
        | _ => exact agree_throw _

theorem agree_sourceText (hd : d.Alike (Refines settings.delimiters given handles) d')
    (scope : Scope) (v : Value) :
    Agree (Refines settings.delimiters given handles) Eq (sourceText settings d scope v)
      (Registry.sourceText settings d' scope v) := by
  have blank (v : Value) : Agree (Refines settings.delimiters given handles) Eq
      (do acceptBlank settings v; return "") (do Registry.readBlank settings v; return "") :=
    (agree_acceptBlank settings v).bindEq fun _ => agree_pure rfl
  cases v with
  | str template =>
    refine (agree_compile settings template).bind fun c nodes hc => ?_
    obtain ⟨ht, rfl⟩ := hc
    rw [ht]
    exact Node.agree_renderAll hd template scope c.nodes
  | _ => exact blank _

/-- On every level, what is reached with the writer is what is reached with the registry. -/
theorem alike_deeper (settings : Settings) (n : Nat) :
    (deeper settings n).Alike (Refines settings.delimiters given handles)
      (Registry.deeper settings n) := by
  have escape (w : Writer) (r : Registry) (h : Refines settings.delimiters given handles w r) :
      w.escaping settings = r.escaping settings := by
    rw [Writer.escaping, Registry.escaping, h.mirrors.escape]
  induction n with
  | zero => exact ⟨escape, fun _ => agree_applyFlat, fun _ _ => agree_throw _⟩
  | succ n ih =>
    refine ⟨escape, fun scope callee args => ?_, fun scope name => agree_expand ih scope name⟩
    exact agree_apply ih (agree_sourceText ih scope) scope callee args

theorem agree_call (settings : Settings) (n : Nat) (c : Compiled) (partials : Partials)
    (scope : Scope) :
    Agree (Refines settings.delimiters given handles) Eq (call settings n c partials scope)
      (Registry.call settings n c.template c.nodes partials scope) :=
  (agree_accept settings partials).bindEq fun _ =>
    Node.agree_renderAll (alike_deeper settings n) c.template scope c.nodes

theorem agree_template (settings : Settings) (n : Nat) (text : String) (partials : Partials)
    (scope : Scope) :
    Agree (Refines settings.delimiters given handles) Eq (template settings n text partials scope)
      (Registry.template settings n text partials scope) := by
  refine (agree_compile settings text).bind fun c nodes hc => ?_
  obtain ⟨rfl, rfl⟩ := hc
  exact agree_call settings n c partials scope

/-- A compiled template renders what its handle stands for, whether or not it was forgotten. -/
theorem agree_handle {settings : Settings} (n : Nat) {c : Compiled} {handle : Handle}
    (hfits : handle.Fits settings.delimiters w c) (partials : Partials) (scope : Scope) :
    Agree (Refines settings.delimiters given handles) Eq (call settings n c partials scope)
      (handle.call settings n partials scope) := by
  cases handle with
  | assembled u own =>
    obtain ⟨rfl, rfl, -⟩ := hfits
    exact agree_call settings n c partials scope
  | read u current =>
    obtain ⟨rfl, hp, -⟩ := hfits
    rw [Handle.call, Registry.template, Registry.read_eq_pure hp, pure_bind]
    exact agree_call settings n c partials scope

end Levels

/-! ## Handles -/

theorem findIdx?_eq_of_forall₂ {α β : Type} {p : α → Bool} {q : β → Bool} {l : List α}
    {l' : List β} (h : List.Forall₂ (fun a b => p a = q b) l l') :
    l.findIdx? p = l'.findIdx? q := by
  induction h with
  | nil => rfl
  | cons hab _ ih => rw [List.findIdx?_cons, List.findIdx?_cons, hab, ih]

theorem getElem?_of_forall₂ {α β : Type} {S : α → β → Prop} {l : List α} {l' : List β}
    (h : List.Forall₂ S l l') (n : Nat) :
    (l[n]? = none ∧ l'[n]? = none) ∨ ∃ a b, l[n]? = some a ∧ l'[n]? = some b ∧ S a b := by
  induction h generalizing n with
  | nil => exact Or.inl ⟨rfl, rfl⟩
  | @cons a b l l' hab _ ih =>
    cases n with
    | zero => exact Or.inr ⟨a, b, rfl, rfl, hab⟩
    | succ n => exact ih n

/-- **A template is met again** just as long as its handle is current. -/
theorem Refines.findIdx?_eq (h : Refines spec given handles w r) {c : Compiled}
    (hc : w.templates.find? t = some c) :
    given.findIdx? (fun g => g.1 == 0 && g.2.number == c.number) =
      handles.findIdx? (Handle.isCurrent t) := by
  refine findIdx?_eq_of_forall₂ (h.handles.imp ?_)
  rintro ⟨x, e⟩ handle ⟨rfl, hn, hfits⟩
  show (0 == 0 && e.number == c.number) = Handle.isCurrent t handle
  rw [Bool.eq_iff_iff, beq_self_eq_true, Bool.true_and, beq_iff_eq]
  cases handle with
  | assembled u own => exact ⟨fun he => absurd he.symm (hfits.2.2 t c hc), fun h => (by cases h)⟩
  | read u current =>
    obtain ⟨-, -, hkept⟩ := hfits
    cases current with
    | false => exact ⟨fun he => absurd he.symm (hkept t c hc), fun h => (by cases h)⟩
    | true =>
      rw [if_pos rfl] at hkept
      simp only [Handle.isCurrent, Bool.true_and, beq_iff_eq]
      constructor
      · exact fun he => h.sound.injective u e t c hkept hc he
      · rintro rfl
        rw [hkept, Option.some.injEq] at hc
        exact congrArg Compiled.number hc

end Mustache
