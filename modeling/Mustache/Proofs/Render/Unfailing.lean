import Mustache.Proofs.Render.Supply
import Mustache.Proofs.Value.Modest
import Mustache.Session

/-!
# Rendering does not fail

Names that lead nowhere, through texts and numbers, or to what is private are no errors: they lead
to null, and null is put out as nothing. So where the views are plain and every source can be read,
rendering gives a text, whatever names the tags have. Four things are left at which it can fail. A
name may lead to the method of a set, which is called, and most methods need an argument; a number
may be too long to be read in a name or to be written, a sequence too long to be measured, and
partials may be nested more deeply than there are levels.

**Idea.** Without methods, long numbers and long sequences, looking up and writing down do not fail,
and neither does finding a partial. What is left is the error on the lowest level, and a partial tag
is there only if as many are nested above it as there are levels (`Nests`).

Main statement: `Render.template_unfailing`.
-/

namespace Mustache

open Render

namespace Writer

/-- Partial tags are nested inside the one of a tree: a number of them, each in a tree that may be
put in for the one before. -/
def Nests (spec : Delimiters.Spec) (w : Writer) (partials : Partials) : Nat → List Node → Prop
  | 0, ns => ∃ t, .leaf t ∈ Node.preorder ns ∧ t.kind = .partialTag
  | n + 1, ns => ∃ t, .leaf t ∈ Node.preorder ns ∧ t.kind = .partialTag ∧
      ∃ ms, w.MayPutIn spec partials t.value ms ∧ Nests spec w partials n ms

/-- Getting partials does not fail: those that are given by name can be read, and the loader that is
in place gives nothing or what can be read. -/
structure Readable (spec : Delimiters.Spec) (w : Writer) (partials : Partials) : Prop where
  listed : ∀ entry ∈ partials.listed, ∃ ns, w.treeOf spec entry.2 = .ok ns
  loaded : ∀ l, partials.loaderAfter w.loader = some l → ∀ name, ∃ found, l.load name = .ok found ∧
    ∀ t ∈ found, ∃ ns, w.treeOf spec t = .ok ns

end Writer

/-- No name that is looked up in a tree has a number with too many digits in it, or, if there are
sets, the name of a method. -/
def Node.HaveSafeNames (sets : Bool) (ns : List Node) : Prop :=
  ∀ x ∈ preorder ns, x.LooksUp →
    Value.IsShortName x.token.value ∧ Value.LeadsToData sets x.token.value

theorem Node.haveSafeNames_of_length {sets : Bool} {ns : List Node}
    (hlength : ∀ x ∈ preorder ns, x.token.value.toList.length ≤ Error.maxDigits)
    (hdata : ∀ x ∈ preorder ns, Value.LeadsToData sets x.token.value) : HaveSafeNames sets ns :=
  fun x hx _ => ⟨Value.isShortName_of_length (hlength x hx), hdata x hx⟩

/-- Plain and modest data is put out as a text. -/
theorem Value.exists_shown {v : Value} (h : v.isModest = true) : ∃ text, shown v = .ok text := by
  have hwritten : ∃ text, v.written = .ok text :=
    ⟨v.text, written_eq_ok_iff.2 ⟨isWritable_of_isModest v h, rfl⟩⟩
  cases v with
  | null => exact ⟨"", rfl⟩
  | _ => exact hwritten

namespace Judgement

variable {settings : Settings} {w₀ : Writer} {partials : Partials} {sets : Bool}

/-- The judgement that a computation ends well, or in the error that no level is left, and this only
if partial tags are nested as deeply as there are levels. -/
abbrev endsWell (settings : Settings) (w₀ : Writer) (partials : Partials) (n : Nat)
    (ns : List Node) : Judgement Writer :=
  ends (w₀.Serves settings.delimiters partials (partials.loaderAfter w₀.loader))
    fun e => e = .tooDeep ∧ w₀.Nests settings.delimiters partials n ns

theorem covers_endsWell (sets : Bool) (deeper : Deeper Writer) (n : Nat) (ns : List Node) :
    (endsWell settings w₀ partials n ns).Covers deeper
      (fun scope => ∀ v ∈ scope.views, v.isData sets = true ∧ v.isModest = true)
      (fun v => v.isData sets = true ∧ v.isModest = true)
      fun name => Value.IsShortName name ∧ Value.LeadsToData sets name := by
  refine covers_ends (fun v hv => Value.isCallable_of_isData hv.1)
    (fun v hv item hitem =>
      ⟨Value.isData_items hv.1 item hitem, Value.isModest_items hv.2 item hitem⟩)
    (fun t v hv => ⟨Value.isData_current v hv.1, Value.isModest_current v hv.2⟩)
    (fun scope name hscope hname => ends_lookup (fun v hv => ?_) fun e he => ?_) fun v e hv he => ?_
  · have hdata := Scope.isData_of_leadsToData (fun u hu => (hscope u hu).1) hname.2 hv
    exact ⟨⟨hdata, Scope.isModest_resolve (fun u hu => (hscope u hu).2) hv⟩,
      Value.isCallable_of_isData hdata⟩
  · rcases Scope.resolve_error he with ⟨segment, hsegment, hlong, -⟩ | ⟨hlarge, -⟩
    · exact absurd (hname.1 segment hsegment) hlong
    · exact absurd (fun u hu => (hscope u hu).2) hlarge
  · obtain ⟨text, htext⟩ := Value.exists_shown hv.2
    rw [htext] at he
    cases he

/-- Finding a partial does not fail, and gives one that may be put in. -/
theorem endsWell_supply (hread : w₀.Readable settings.delimiters partials) (n : Nat)
    (ns : List Node) (scope : Scope) (name : String) :
    endsWell settings w₀ partials n ns (Option Compiled) scope (supply settings name) fun found =>
      ∀ c ∈ found, w₀.MayPutIn settings.delimiters partials name c.nodes := by
  refine (Writer.lasting_serves settings w₀ partials).ends_supply
    (fun w c hw hc => hw.partials name c hc) (fun s e s' hs hfetched => ?_) scope
  exfalso
  cases hfetched with
  | failed hp hl hload =>
    obtain ⟨found, hfound, -⟩ := hread.loaded _ (hs.loader.symm.trans hl) name
    rw [hload] at hfound
    cases hfound
  | unreadable hp hl hload hc =>
    obtain ⟨found, hfound, hreads⟩ := hread.loaded _ (hs.loader.symm.trans hl) name
    obtain rfl := Except.ok.inj (hfound.symm.trans hload)
    obtain ⟨ms, hms⟩ := hreads _ rfl
    rw [Writer.compile_eq_error_iff_treeOf, hs.trees, hms] at hc
    cases hc

/-- **On every level rendering ends well.** -/
theorem endsWell_renderAll (hread : w₀.Readable settings.delimiters partials)
    (hshort : ∀ name ms, w₀.MayPutIn settings.delimiters partials name ms →
      Node.HaveSafeNames sets ms)
    (n : Nat) {scope : Scope} (hscope : ∀ v ∈ scope.views, v.isData sets = true ∧ v.isModest = true)
    (template : String) {ns : List Node} (hns : Node.HaveSafeNames sets ns) :
    endsWell settings w₀ partials n ns String scope
      (Node.renderAll (deeper settings n) template scope ns) fun _ => True := by
  induction n generalizing scope template ns with
  | zero =>
    refine (covers_endsWell sets _ 0 ns).renderAll scope ns hscope hns
      fun scope t _ ht hpartial => ?_
    refine ends_of_gives (gives_throw .tooDeep) (fun _ _ => trivial) ?_
    rintro _ ⟨⟩
    exact ⟨rfl, t, ht, hpartial⟩
  | succ n ih =>
    refine (covers_endsWell sets _ (n + 1) ns).renderAll scope ns hscope hns
      fun scope t hscope ht hpartial => ?_
    show endsWell settings w₀ partials (n + 1) ns String scope
      (expand settings (deeper settings n) scope t.value) fun _ => True
    rw [expand_eq]
    refine ends_bind (endsWell_supply hread (n + 1) ns scope t.value) fun found hfound => ?_
    cases found with
    | none => exact (covers_endsWell sets (deeper settings n) (n + 1) ns).result scope "" _ trivial
    | some c =>
      have hc := hfound c rfl
      refine ends_mono (ih hscope c.template (hshort t.value c.nodes hc)) ?_
      rintro _ ⟨rfl, hnests⟩
      exact ⟨rfl, t, ht, hpartial, c.nodes, hc, hnests⟩

end Judgement

namespace Render

/-- **Rendering plain data gives a text.** Where a template and all partials can be read, no number
and no sequence is too long, and no name holds that of a method if there are sets, the only error is
that no level is left, and this only where partial tags are nested as deeply as there are levels. -/
theorem template_unfailing (settings : Settings) (limit : Nat) (partials : Partials) {text : String}
    {s : State Writer} {ns : List Node} {scope : Scope} {sets : Bool}
    (htext : s.writer.treeOf settings.delimiters text = .ok ns)
    (hread : s.writer.Readable settings.delimiters partials)
    (hdata : scope.IsData sets) (hmodest : scope.IsModest) (hns : Node.HaveSafeNames sets ns)
    (hshort : ∀ name ms, s.writer.MayPutIn settings.delimiters partials name ms →
      Node.HaveSafeNames sets ms)
    (hmemo : ∀ name v, s.memo.find? name = some v → scope.Recalls name v) :
    (∃ out, ((template settings limit text partials scope).runFrom s).1 = .ok out) ∨
      ((template settings limit text partials scope).runFrom s).1 = .error .tooDeep ∧
        s.writer.Nests settings.delimiters partials limit ns := by
  have hprepared := prepared settings text partials s
  rw [template_eq, runFrom_bind]
  generalize (prepare settings text partials).runFrom s = o at hprepared
  obtain ⟨r, s'⟩ := o
  cases hprepared with
  | unreadable herror =>
    rw [htext] at herror
    cases herror
  | refused hentry herror =>
    obtain ⟨ms, hms⟩ := hread.listed _ hentry
    rw [hms] at herror
    cases herror
  | @ready c s' hnodes hsame hserves =>
    obtain rfl := Except.ok.inj (htext.symm.trans hnodes)
    have hkeeps : Keeps (s.writer.Serves settings.delimiters partials
        (partials.loaderAfter s.writer.loader)) scope s' :=
      ⟨hserves, fun name v hv => hmemo name v (hsame ▸ hv)⟩
    obtain ⟨-, -, herror⟩ := Judgement.endsWell_renderAll hread hshort limit
      (fun v hv => ⟨hdata v hv, hmodest v hv⟩) c.template hns s' hkeeps
    dsimp only
    cases hr : ((Node.renderAll (deeper settings limit) c.template scope c.nodes).runFrom s').1 with
    | ok out => exact .inl ⟨out, rfl⟩
    | error e =>
      obtain ⟨rfl, hnests⟩ := herror e hr
      exact .inr ⟨rfl, hnests⟩

/-- Names with dots in a row, private ones, a number past the end of a list, and names into a set,
and a partial with such names, with a tag for a partial that is not there. -/
theorem template_unfailing_oddNames :
    let text := "\x7b\x7ba..\x7d\x7d\x7b\x7bl.9.0\x7d\x7d\x7b\x7bs.0\x7d\x7d\x7b\x7b>p\x7d\x7d"
    let inner :=
      "\x7b\x7b#l\x7d\x7d\x7b\x7b_x.0\x7d\x7d\x7b\x7b.\x7d\x7d\x7b\x7b/l\x7d\x7d\x7b\x7b>q\x7d\x7d"
    let scope := Scope.ofView (.dict [(.str "a", .null), (.str "l", .list [.int 7]),
      (.str "s", .set (.given 0) [.int 1])])
    let result := ((template Session.defaults 2 text (.named [("p", inner)]) scope).runFrom
      ⟨Writer.new none, ∅, ∅, []⟩).1
    result.toOption = some "7" ∧
      ∃ ns, (Writer.new none).treeOf Session.defaults.delimiters text = .ok ns ∧
        ((∃ out, result = .ok out) ∨ result = .error .tooDeep ∧
          (Writer.new none).Nests Session.defaults.delimiters (.named [("p", inner)]) 2 ns) := by
  intro text inner scope result
  have htext : Template.parse .braces
      "\x7b\x7ba..\x7d\x7d\x7b\x7bl.9.0\x7d\x7d\x7b\x7bs.0\x7d\x7d\x7b\x7b>p\x7d\x7d" =
        .ok [.leaf ⟨.nameTag, "a..", 0, 7⟩, .leaf ⟨.nameTag, "l.9.0", 7, 16⟩,
          .leaf ⟨.nameTag, "s.0", 16, 23⟩, .leaf ⟨.partialTag, "p", 23, 29⟩] := by
    with_unfolding_all rfl
  have hinner : Template.parse .braces
      "\x7b\x7b#l\x7d\x7d\x7b\x7b_x.0\x7d\x7d\x7b\x7b.\x7d\x7d\x7b\x7b/l\x7d\x7d\x7b\x7b>q\x7d\x7d" =
        .ok [.block ⟨.sectionTag, "l", 0, 6⟩
          [.leaf ⟨.nameTag, "_x.0", 6, 14⟩, .leaf ⟨.nameTag, ".", 14, 19⟩] 19,
          .leaf ⟨.partialTag, "q", 25, 31⟩] := by
    with_unfolding_all rfl
  have htree (t : String) : (Writer.new none).treeOf Session.defaults.delimiters t =
      Template.parse .braces t := rfl
  rw [← htree] at htext hinner
  refine ⟨by decide +kernel, _, htext, template_unfailing Session.defaults 2 _ htext
    ⟨?_, nofun⟩ (?_ : Scope.IsData true _) ?_ ?_ ?_ nofun⟩
  · intro entry hentry
    obtain rfl := List.mem_singleton.1 hentry
    exact ⟨_, hinner⟩
  · exact Scope.isData_ofView.2 (by decide)
  · intro v hv
    obtain rfl := List.mem_singleton.1 hv
    decide +kernel
  · exact Node.haveSafeNames_of_length (by decide) fun x hx _ =>
      (by decide +kernel : ∀ x ∈ Node.preorder _, Value.IsMethodless x.token.value) x hx
  · rintro name ms (⟨c, hc, -⟩ | ⟨t, ht | ⟨l, hl, -⟩, hms⟩)
    · cases hc
    · obtain ⟨rfl, rfl⟩ := Prod.mk.inj (List.mem_singleton.1 ht)
      obtain rfl := Except.ok.inj (hinner.symm.trans hms)
      exact Node.haveSafeNames_of_length (by decide) fun x hx _ =>
        (by decide +kernel : ∀ x ∈ Node.preorder _, Value.IsMethodless x.token.value) x hx
    · cases hl

/-- A range with more items than can be measured has an item under every number, but none can be
come to; and a set has a method for adding an item, but none is given: rendering plain data fails,
though the templates can be read. -/
theorem template_fails_of_large :
    let scope := Scope.ofView (.dict [(.str "r", .range 0 9223372036854775808 1),
      (.str "s", .set (.given 0) [.int 1])])
    let result text := ((template Session.defaults 1 text .none scope).runFrom
      ⟨Writer.new none, ∅, ∅, []⟩).1
    scope.IsPlain ∧
      (∃ ns, Template.parse .braces "\x7b\x7br.0\x7d\x7d" = .ok ns) ∧
      (result "\x7b\x7br.0\x7d\x7d").toOption = none ∧
      (∃ ns, Template.parse .braces "\x7b\x7bs.add\x7d\x7d" = .ok ns) ∧
      (result "\x7b\x7bs.add\x7d\x7d").toOption = none := by
  intro scope result
  exact ⟨Scope.isData_ofView.2 (by decide), ⟨_, by with_unfolding_all rfl⟩, by decide +kernel,
    ⟨_, by with_unfolding_all rfl⟩, by decide +kernel⟩

end Render

end Mustache
