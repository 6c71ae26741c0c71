import Mustache.Proofs.Render.Refinement
import Mustache.Proofs.Session.Steps

/-!
# Partials given at once and partials loaded on demand

Partials can be given with a template, all of them at once, or a loader can be given that is asked
for a partial when a tag refers to it. If both ways offer the same sources, and all of these can be
read, it makes no difference which one is taken: not for the text or the error, and not for the
calls that are recorded. Only the questions to the loader are recorded with the one and not with the
other.

**Idea.** Writers come to the same as registries, so that it is enough to compare two of these. One
has all the sources. The other one has some of them, those that were asked for so far, and its
loader has all (`Registry.Supplied`). Where a partial is put in, the second one asks for the source
if it does not have it, and from there on both have it; everywhere else they are the same.

Main statement: `Session.render_named_eq_onDemand`.
-/

namespace Mustache

open Render

/-- Whether an event is a call, and not a question to the loader. -/
def Event.isCall : Event → Bool
  | .called _ _ => true
  | .loaded _ => false

/-- The loader of listed sources. Of several under one name, it gives the last. -/
def Loader.ofList (sources : List (String × String)) : Loader :=
  ⟨fun name => .ok ((Table.ofList sources).find? name)⟩

namespace Render

/-- The first records are those of the calls among the second ones. -/
def AreCallsOf (l l' : List Event) : Prop := l = l'.filter Event.isCall

instance : CallRelation AreCallsOf where
  append label arguments h := by
    rw [AreCallsOf] at h ⊢
    rw [List.filter_append, ← h]
    rfl

theorem AreCallsOf.load {l l' : List Event} (h : AreCallsOf l l') (name : String) :
    AreCallsOf l (l' ++ [.loaded name]) := by
  rw [AreCallsOf] at h ⊢
  rw [List.filter_append, ← h]
  exact (List.append_nil l).symm

end Render

namespace Registry

/-- One registry has all sources, and needs no loader; the loader of the other one has all sources,
and it has some of them itself. -/
structure Supplied (sources : Table String) (r r' : Registry) : Prop where
  escape : r.escape = r'.escape
  noLoader : r.loader = none
  all : ∀ name, r.sources.find? name = sources.find? name
  loader : r'.loader = some ⟨fun name => .ok (sources.find? name)⟩
  known : ∀ name t, r'.sources.find? name = some t → sources.find? name = some t

variable {settings : Settings} {sources : Table String} {r r' : Registry} {name t : String}
  {L : List Event → List Event → Prop} {R : Registry → Registry → Prop}

theorem Supplied.insert (h : Supplied sources r r') (ht : sources.find? name = some t) :
    Supplied sources r { r' with sources := r'.sources.insert name t } where
  escape := h.escape
  noLoader := h.noLoader
  all := h.all
  loader := h.loader
  known key u hu := by
    rw [Table.find?_insert] at hu
    by_cases hk : key = name
    · rw [if_pos hk] at hu
      rwa [hk, ← hu]
    · rw [if_neg hk] at hu
      exact h.known key u hu

/-! ## Registries alone -/

theorem agree_read (t : String) : AgreeUpTo L R Eq (read settings t) (read settings t) := by
  rw [read]
  cases Template.parseWith settings.delimiters t with
  | error e => exact agree_throw _
  | ok nodes => exact agree_pure rfl

theorem agree_readBlank (v : Value) :
    AgreeUpTo L R Eq (readBlank settings v) (readBlank settings v) := by
  rw [readBlank]
  by_cases hk : (!v.canBeKey) = true
  · rw [if_pos hk]
    exact agree_throw _
  rw [if_neg hk]
  cases settings.delimiters.delimiters with
  | error e => exact agree_throw _
  | ok d =>
    refine (agree_ofExcept v.measure).bindEq fun n => ?_
    split
    · exact agree_pure rfl
    · exact agree_throw _

theorem agree_sourceText {d d' : Deeper Registry} (hd : d.AlikeUpTo L R d') (scope : Scope)
    (v : Value) :
    AgreeUpTo L R Eq (sourceText settings d scope v) (sourceText settings d' scope v) := by
  have blank (v : Value) : AgreeUpTo L R Eq (do readBlank settings v; return "")
      (do readBlank settings v; return "") :=
    (agree_readBlank v).bindEq fun _ => agree_pure rfl
  cases v with
  | str t => exact (agree_read t).bindEq fun nodes => Node.agree_renderAll hd t scope nodes
  | _ => exact blank _

/-! ## Partials -/

/-- A registry that has all sources asks for none. -/
theorem Supplied.fetch_all {s : State Registry} (h : Supplied sources s.writer r') :
    (fetch settings name).runFrom s = (.ok (), s) := by
  rw [fetch, runFrom_get_bind]
  dsimp only
  rw [h.noLoader]
  cases s.writer.sources.find? name <;> rfl

theorem runFrom_register {nodes : List Node}
    (hp : Template.parseWith settings.delimiters t = .ok nodes) (s : State Registry) :
    (register settings name t).runFrom s =
      (.ok (),
        { s with writer := { s.writer with sources := s.writer.sources.insert name t } }) := by
  rw [register, read_eq_pure hp]
  rfl

/-- Fetching from a loader of all sources gives the source of a name, if there is one. Afterwards
the registry has it. -/
theorem Supplied.fetch_known
    (hread : ∀ name t, sources.find? name = some t →
      ∃ nodes, Template.parseWith settings.delimiters t = .ok nodes)
    {s s' : State Registry} (hs : State.AlikeUpTo AreCallsOf (Supplied sources) s s')
    (name : String) :
    ∃ s'', (fetch settings name).runFrom s' = (.ok (), s'') ∧
      State.AlikeUpTo AreCallsOf (Supplied sources) s s'' ∧
      s''.writer.sources.find? name = sources.find? name := by
  rw [fetch, runFrom_get_bind]
  dsimp only
  rw [hs.store.loader]
  cases hknown : s'.writer.sources.find? name with
  | some t => exact ⟨s', rfl, hs, hknown.trans (hs.store.known name t hknown).symm⟩
  | none =>
    dsimp only
    cases hfind : sources.find? name with
    | none => exact ⟨_, rfl, ⟨hs.store, hs.memo, hs.tally, hs.log.load name⟩, hknown⟩
    | some t =>
      obtain ⟨nodes, hp⟩ := hread name t hfind
      refine ⟨_, runFrom_register hp { s' with log := s'.log ++ [.loaded name] },
        ⟨hs.store.insert hfind, hs.memo, hs.tally, hs.log.load name⟩, ?_⟩
      rw [Table.find?_insert, if_pos rfl]

theorem agree_expand_onDemand
    (hread : ∀ name t, sources.find? name = some t →
      ∃ nodes, Template.parseWith settings.delimiters t = .ok nodes)
    {d d' : Deeper Registry} (hd : d.AlikeUpTo AreCallsOf (Supplied sources) d') (scope : Scope)
    (name : String) :
    AgreeUpTo AreCallsOf (Supplied sources) Eq (expand settings d scope name)
      (expand settings d' scope name) := by
  intro s s' hs
  obtain ⟨s'', hfetch, hs', hfind⟩ := Supplied.fetch_known hread hs name
  rw [expand, expand, runFrom_bind, runFrom_bind, hs.store.fetch_all, hfetch]
  dsimp only
  rw [runFrom_get_bind, runFrom_get_bind, hfind, hs'.store.all]
  cases sources.find? name with
  | none => exact agree_pure rfl s s'' hs'
  | some t =>
    exact ((agree_read t).bindEq fun nodes => Node.agree_renderAll hd t scope nodes) s s'' hs'

/-- On every level, it does not matter where sources come from. -/
theorem alike_deeper_onDemand
    (hread : ∀ name t, sources.find? name = some t →
      ∃ nodes, Template.parseWith settings.delimiters t = .ok nodes) (n : Nat) :
    (deeper settings n).AlikeUpTo AreCallsOf (Supplied sources) (deeper settings n) := by
  have escape (r r' : Registry) (h : Supplied sources r r') :
      r.escaping settings = r'.escaping settings := by
    rw [escaping, escaping, h.escape]
  induction n with
  | zero => exact ⟨escape, fun _ => agree_applyFlat, fun _ _ => agree_throw _⟩
  | succ n ih =>
    refine ⟨escape, fun scope callee args => ?_, fun scope name => ?_⟩
    · exact agree_apply ih (agree_sourceText ih scope) scope callee args
    · exact agree_expand_onDemand hread ih scope name

/-! ## Templates -/

/-- Taking over sources that can all be read leaves them in the registry. -/
theorem runFrom_accept_named {entries : List (String × String)}
    (hread : ∀ entry ∈ entries, ∃ nodes, Template.parseWith settings.delimiters entry.2 = .ok nodes)
    (s : State Registry) :
    (accept settings (.named entries)).runFrom s =
      (.ok (), { s with writer := { s.writer with
        sources :=
          entries.foldl (fun table (name, t) => table.insert name t) s.writer.sources } }) := by
  induction entries generalizing s with
  | nil => rfl
  | cons entry entries ih =>
    obtain ⟨⟨nodes, hp⟩, hentries⟩ := List.forall_mem_cons.1 hread
    show (register settings entry.1 entry.2 >>= fun _ =>
      accept settings (.named entries)).runFrom s = _
    rw [runFrom_bind, runFrom_register hp]
    exact ih hentries _

/-- From a registry that has nothing, it does not matter where sources come from. -/
theorem template_named_eq_onDemand {entries : List (String × String)}
    (hread : ∀ entry ∈ entries, ∃ nodes, Template.parseWith settings.delimiters entry.2 = .ok nodes)
    (n : Nat) (text : String) (scope : Scope) {s : State Registry}
    (hsources : s.writer.sources = ∅) (hloader : s.writer.loader = none) (hlog : s.log = []) :
    let atOnce := (template settings n text (.named entries) scope).runFrom s
    let onDemand := (template settings n text (.loader (Loader.ofList entries)) scope).runFrom s
    atOnce.1 = onDemand.1 ∧ AreCallsOf atOnce.2.log onDemand.2.log := by
  intro atOnce onDemand
  simp only [atOnce, onDemand, template, runFrom_bind]
  cases hp : Template.parseWith settings.delimiters text with
  | error e =>
    rw [read_eq_throw hp]
    refine ⟨rfl, ?_⟩
    show s.log = s.log.filter Event.isCall
    rw [hlog, List.filter_nil]
  | ok nodes =>
    rw [read_eq_pure hp]
    show ((call settings n text nodes (.named entries) scope).runFrom s).1 =
        ((call settings n text nodes (.loader (Loader.ofList entries)) scope).runFrom s).1 ∧
      AreCallsOf ((call settings n text nodes (.named entries) scope).runFrom s).2.log
        ((call settings n text nodes (.loader (Loader.ofList entries)) scope).runFrom s).2.log
    have htable : ∀ name t, (Table.ofList entries).find? name = some t →
        ∃ nodes, Template.parseWith settings.delimiters t = .ok nodes :=
      fun name t h => hread (name, t) (Table.mem_of_find?_ofList h)
    have hsupplied : Supplied (Table.ofList entries)
        { s.writer with sources := Table.ofList entries }
        { s.writer with loader := some (Loader.ofList entries) } :=
      ⟨rfl, hloader, fun _ => rfl, rfl, fun name t h => by
        rw [hsources] at h
        cases h⟩
    rw [call, call, runFrom_bind, runFrom_bind, runFrom_accept_named hread, hsources]
    obtain ⟨hresult, hstate⟩ := Node.agree_renderAll (alike_deeper_onDemand htable n) text scope
      nodes { s with writer := { s.writer with sources := Table.ofList entries } }
      { s with writer := { s.writer with loader := some (Loader.ofList entries) } }
      ⟨hsupplied, rfl, rfl, by rw [AreCallsOf, hlog, List.filter_nil]⟩
    exact ⟨hresult.eq, hstate.log⟩

end Registry

/-- **Partials may be given at once or loaded on demand.** With a new writer, sources that can all
be read give the same text or the same error either way, and the same calls are recorded; only the
questions to the loader are recorded besides. -/
theorem Session.render_named_eq_onDemand {s : Session} {n : Nat} {escape : Option (String → String)}
    (hw : s.writers[n]? = some (Writer.new escape)) {entries : List (String × String)}
    (hread : ∀ entry ∈ entries,
      ∃ nodes, Template.parseWith s.settings.delimiters entry.2 = .ok nodes)
    (text : String) (view : View) :
    let atOnce := (s.step (.render n text view (.named entries))).1
    let onDemand := (s.step (.render n text view (.loader (Loader.ofList entries)))).1
    atOnce.result = onDemand.result ∧ atOnce.log = onDemand.log.filter Event.isCall := by
  intro atOnce onDemand
  simp only [atOnce, onDemand, Session.step]
  cases hc : s.contextOf view with
  | none =>
    rw [run_of_not_there (.inr hc), run_of_not_there (.inr hc)]
    exact ⟨rfl, rfl⟩
  | some c =>
    -- Either way the writer is compared with its registry, and the registries with each other.
    have written (partials : Partials) :=
      agree_template s.settings depthLimit text partials c.scope
        ⟨Writer.new escape, c.memo, s.tally, []⟩ ⟨⟨escape, ∅, none⟩, c.memo, s.tally, []⟩
        ⟨refines_new s.settings.delimiters escape, rfl, rfl, rfl⟩
    obtain ⟨hresult, hlog⟩ := Registry.template_named_eq_onDemand hread depthLimit text c.scope
      (s := ⟨⟨escape, ∅, none⟩, c.memo, s.tally, []⟩) rfl rfl rfl
    obtain ⟨hresult₁, hleft₁⟩ := written (.named entries)
    obtain ⟨hresult₂, hleft₂⟩ := written (.loader (Loader.ofList entries))
    rw [run_eq hw hc, run_eq hw hc]
    refine ⟨congrArg (Answer.rendered <$> ·) ?_, ?_⟩
    · exact hresult₁.eq.trans (hresult.trans hresult₂.eq.symm)
    · exact hleft₁.log.trans (hlog.trans (congrArg (·.filter Event.isCall) hleft₂.log.symm))

/-- A partial in a partial, for each item of a section that a function renders again, and a partial
that there is none of. -/
theorem Session.render_named_eq_onDemand_nested :
    let entries := [("a", "<\x7b\x7b>b\x7d\x7d>"), ("b", "\x7b\x7b.\x7d\x7d")]
    let text := "\x7b\x7b#wrap\x7d\x7d\x7b\x7b#xs\x7d\x7d\x7b\x7b>a\x7d\x7d\x7b\x7b/xs\x7d\x7d" ++
      "\x7b\x7b/wrap\x7d\x7d\x7b\x7b>c\x7d\x7d"
    let wrap : Function := .mk 0 (some "wrap")
      ⟨[], [⟨"text", false⟩, ⟨"render", false⟩], none, [], none⟩
      (.call (.argument "render") [.argument "text"])
    let view : View := .value (.dict
      [(.str "wrap", .function wrap none), (.str "xs", .list [.int 1, .int 2])])
    start.writers[0]? = some (Writer.new none) ∧
      (∀ entry ∈ entries,
        ∃ nodes, Template.parseWith start.settings.delimiters entry.2 = .ok nodes) ∧
      (start.step (.render 0 text view (.named entries))).1.result =
        (start.step (.render 0 text view (.loader (Loader.ofList entries)))).1.result ∧
      (start.step (.render 0 text view (.named entries))).1.log =
        (start.step (.render 0 text view (.loader (Loader.ofList entries)))).1.log.filter
          Event.isCall := by
  intro entries text wrap view
  have hw : start.writers[0]? = some (Writer.new none) := rfl
  have ha : Template.parseWith start.settings.delimiters "<\x7b\x7b>b\x7d\x7d>" =
      .ok [.leaf ⟨.text, "<", 0, 1⟩, .leaf ⟨.partialTag, "b", 1, 7⟩, .leaf ⟨.text, ">", 7, 8⟩] := by
    with_unfolding_all rfl
  have hb : Template.parseWith start.settings.delimiters "\x7b\x7b.\x7d\x7d" =
      .ok [.leaf ⟨.nameTag, ".", 0, 5⟩] := by with_unfolding_all rfl
  have hread : ∀ entry ∈ entries,
      ∃ nodes, Template.parseWith start.settings.delimiters entry.2 = .ok nodes := by
    simp only [entries, List.forall_mem_cons, List.not_mem_nil]
    exact ⟨⟨_, ha⟩, ⟨_, hb⟩, fun _ h => nomatch h⟩
  exact ⟨hw, hread, render_named_eq_onDemand hw hread text view⟩

end Mustache
