import Mustache.Proofs.Render.Iterations
import Mustache.Proofs.Session.Inlining
import Mustache.Proofs.Template.Enclosing

/-!
# Sections over lists

A template is put inside a section, and what stands under the section's name in the view is a list.
What the section renders for one item does not depend on the other ones: for two lists in a row it
gives what it gives for the first, and then what it gives for the second. If a name that is looked
up in the section can lead to the list itself, or to the method of a set, which may take an item out
of it, there is no telling; and neither is there if the section is not written as it is meant,
because its name is not what its tags say, or its closing tag stands where other delimiters are in
force.

**Idea.** A new writer draws all it knows from the partials that are given, so rendering comes to a
function of the view (`Stocked.rendering_cases`), or it fails before the view is looked at. The
section is all of its template and holds the tags of what was put in (`Template.parse_enclosed`),
and there the items are rendered apart (`Node.gives_section`, `Node.plainAll_section`).

Main statement: `Session.items_apart`.
-/

namespace Mustache

open Render

/-! ## Partials that cannot be read -/

/-- Partials that are accepted can be read. -/
theorem Render.readable_of_accept {settings : Settings} {escape : String → String}
    {given : List (String × String)} {tally : Tally} {partials : Partials} {s : State Writer}
    (hs : DrawsAnew settings escape given none tally s)
    (h : ((accept settings partials).runFrom s).1 = .ok ()) :
    ∀ e ∈ partials.listed, ∃ ns, Template.parseWith settings.delimiters e.2 = .ok ns := by
  cases partials with
  | none | loader l => exact fun _ he => nomatch he
  | named entries =>
    change ∀ e ∈ entries, _
    induction entries generalizing given s with
    | nil => exact fun _ he => nomatch he
    | cons e entries ih =>
      obtain ⟨name, text⟩ := e
      change ((register settings name text >>= fun _ =>
        accept settings (.named entries)).runFrom s).1 = .ok () at h
      cases hc : s.writer.compile settings.delimiters text with
      | error x =>
        rw [runFrom_bind, runFrom_register_error hc] at h
        cases h
      | ok found =>
        obtain ⟨c, w⟩ := found
        obtain ⟨hw, rfl, hparse⟩ := hs.store.compile hc
        rw [runFrom_bind, runFrom_register_ok hc] at h
        have hnext : DrawsAnew settings escape (given ++ [(name, c.template)]) none tally
            { s with writer := { w with partials := w.partials.insert name c } } :=
          ⟨hw.register hparse name, hs.memo, hs.tally⟩
        exact List.forall_mem_cons.2 ⟨⟨_, hparse⟩, ih hnext h⟩

/-- Preparing to render succeeds only if the template and the partials can be read. -/
theorem Render.readable_of_prepare {settings : Settings} {escape : String → String}
    {given : List (String × String)} {tally : Tally} {partials : Partials} {t : String}
    {s s' : State Writer} {c : Compiled} (hs : DrawsAnew settings escape given none tally s)
    (h : (prepare settings t partials).runFrom s = (.ok c, s')) :
    (∃ ns, Template.parseWith settings.delimiters t = .ok ns) ∧
      ∀ e ∈ partials.listed, ∃ ns, Template.parseWith settings.delimiters e.2 = .ok ns := by
  rw [prepare, runFrom_bind] at h
  cases hc : s.writer.compile settings.delimiters t with
  | error x =>
    rw [runFrom_compile_error hc] at h
    cases h
  | ok found =>
    obtain ⟨c', w⟩ := found
    obtain ⟨hw, -, hparse⟩ := hs.store.compile hc
    rw [runFrom_compile_ok hc] at h
    dsimp only at h
    rw [runFrom_bind] at h
    refine ⟨⟨_, hparse⟩,
      readable_of_accept (s := { s with writer := w }) ⟨hw, hs.memo, hs.tally⟩ ?_⟩
    rcases hr : (accept settings partials).runFrom { s with writer := w } with ⟨r, s₁⟩
    rw [hr] at h
    cases r with
    | error e => cases h
    | ok _ => rfl

/-- The text of an answer, if it is one. -/
def Answer.text : Answer → Except Error String
  | .rendered text => .ok text
  | _ => .error .mismatch

namespace Session

/-- The text that the first writer of a session renders for a view. -/
def rendering (s : Session) (t : String) (partials : Partials) (view : Value) :
    Except Error String :=
  (s.step (.render 0 t (.value view) partials)).1.result >>= Answer.text

variable {settings : Settings} {escape : Option (String → String)}
  {given : List (String × String)} {s : Session} {partials : Partials} {t : String}

theorem rendering_eq (x : Except Error String) : (Answer.rendered <$> x) >>= Answer.text = x := by
  cases x <;> rfl

/-- Rendering with a new writer fails before the view is looked at, or it comes to what the tree of
the template comes to. -/
theorem Stocked.rendering_cases (h : s.Stocked settings escape given) (t : String)
    (partials : Partials) :
    (∃ e, ∀ view, s.rendering t partials view = .error e) ∨
      ∃ ns, Template.parseWith settings.delimiters t = .ok ns ∧ ∀ view x,
        Gives (Rests (Writer.Draws settings (escape.getD settings.escape)
            (given ++ partials.listed) (partials.loaderAfter none)) s.tally (Scope.ofView view))
          (Node.renderAll (deeper settings depthLimit) t (Scope.ofView view) ns) x →
        s.rendering t partials view = x := by
  obtain ⟨w, hw, hdraws, -⟩ := h.writer
  rcases hr : (prepare settings t partials).runFrom ⟨w, ∅, s.tally, []⟩ with ⟨r, left⟩
  cases r with
  | error e =>
    refine .inl ⟨e, fun view => ?_⟩
    rw [rendering]
    show (Answer.rendered <$> (s.run 0 (.value view)
      (template s.settings depthLimit t partials)).1.result) >>= Answer.text = _
    rw [rendering_eq, run_eq hw (c := Context.ofView view) rfl, h.uses, template_eq]
    show ((prepare settings t partials >>= _).runFrom ⟨w, ∅, s.tally, []⟩).1 = _
    rw [runFrom_bind, hr]
  | ok c =>
    obtain ⟨⟨ns, ht⟩, hlisted⟩ := readable_of_prepare ⟨hdraws, rfl, rfl⟩ hr
    refine .inr ⟨ns, ht, fun view x hgives => ?_⟩
    obtain ⟨s', hs', hresult⟩ := h.render hlisted ht view
    rw [rendering, hresult, rendering_eq]
    exact (hgives s' (rests_of_empty hs'.store hs'.memo hs'.tally)).1

/-! ## Items -/

/-- A mapping with a list put in under a name. -/
def withItems (es : List (Value × Value)) (name : String) (items : List Value) : Value :=
  .dict (Value.putEntry es (.str name) (.list items))

/-- The items of the list under a name are rendered apart, be there sets in them or not: the text
for two lists in a row is the text for the first and then that for the second, and the text for some
items is made of the texts for each of them. Where rendering one of these fails, rendering all of
them fails in the same way. -/
structure ItemsApart (s : Session) (sets : Bool) (t : String) (partials : Partials)
    (es : List (Value × Value)) (name : String) : Prop where
  append : ∀ xs ys : List Value, (∀ v ∈ xs ++ ys, v.isData sets = true) →
    s.rendering t partials (withItems es name (xs ++ ys)) = do
      let first ← s.rendering t partials (withItems es name xs)
      let others ← s.rendering t partials (withItems es name ys)
      return first ++ others
  each : ∀ items : List Value, items ≠ [] → (∀ v ∈ items, v.isData sets = true) →
    s.rendering t partials (withItems es name items) =
      String.join <$> items.mapM fun item => s.rendering t partials (withItems es name [item])

/-- What is rendered item by item is rendered apart, and so is what fails before it comes to the
items. -/
theorem itemsApart_of_joinTexts {sets : Bool} {es : List (Value × Value)} {name : String}
    (h : (∃ e, ∀ view, s.rendering t partials view = .error e) ∨
      ∃ f : Value → Except Error String, ∀ items : List Value,
        (∀ v ∈ items, v.isData sets = true) →
        s.rendering t partials (withItems es name items) = joinTexts f items) :
    s.ItemsApart sets t partials es name := by
  rcases h with ⟨e, he⟩ | ⟨f, hf⟩
  · refine ⟨fun xs ys _ => ?_, fun items hne _ => ?_⟩
    · simp only [he]
      rfl
    · obtain ⟨item, items, rfl⟩ := List.exists_cons_of_ne_nil hne
      simp only [he, List.mapM_cons]
      rfl
  · refine ⟨fun xs ys hdata => ?_, fun items _ hdata => ?_⟩
    · obtain ⟨hxs, hys⟩ := List.forall_mem_append.1 hdata
      rw [hf _ hdata, hf _ hxs, hf _ hys, joinTexts_append]
    · have hone : ∀ item ∈ items, s.rendering t partials (withItems es name [item]) = f item := by
        intro item hitem
        rw [hf [item] (by simpa using hdata item hitem), joinTexts, joinTexts]
        cases f item with
        | error e => rfl
        | ok text => exact congrArg Except.ok String.append_empty
      rw [hf items hdata, ← joinTexts_eq_mapM, joinTexts_congr hone]

/-- **Iterations do not leak into each other.** In a session with one new writer and some partials,
let a text be put between the two tags of a section. The text can be read and leaves the delimiters
as they are, tags can hold the name of the section, and there are no dots in it. If no name that is
looked up in the text, or in a partial that it reaches, starts with the name of the section, and
none of them holds the name of a method if there are sets, then the items of a list under this name
are rendered apart, whatever else is in the view. -/
theorem items_apart {sets : Bool} {es : List (Value × Value)} {name body : String} {ms : List Node}
    (hbraces : settings.delimiters.delimiters = .ok .braces)
    (hgiven : ∀ e ∈ given, ∃ ks, Template.parseWith settings.delimiters e.2 = .ok ks)
    (hname : Delimiters.braces.Carries name.toList) (hdotless : '.' ∉ name.toList)
    (hbody : Template.parseWith settings.delimiters body = .ok ms)
    (hforce : Template.inForce .braces ((Node.preorder ms).map Node.token) = .ok .braces)
    (havoids : ∀ ns, Node.Involves settings (given ++ partials.listed) (partials.loaderAfter none)
      ms ns → Node.Avoids name ns)
    (hdata : Node.LeadToData settings (given ++ partials.listed) (partials.loaderAfter none) sets
      ms)
    (hes : ∀ e ∈ es, e.2.isData sets = true) :
    ((begun settings escape).after (registered given)).ItemsApart sets
      (Template.enclosed name body) partials es name := by
  have hread (text : String) :
      Template.parseWith settings.delimiters text = Template.parse .braces text := by
    rw [Template.parseWith, hbraces]
    rfl
  have hs : ((begun settings escape).after (registered given)).Stocked settings escape given :=
    stocked_after_registered stocked_begun hgiven
  refine itemsApart_of_joinTexts ((hs.rendering_cases _ partials).imp id ?_)
  rintro ⟨ns, hns, hrendering⟩
  rw [hread] at hns hbody
  rcases Template.parse_enclosed hname hbody hforce with
    ⟨t, children, close, hparse, hkind, rfl, k, htags⟩ | ⟨x, hx⟩
  · obtain rfl := Except.ok.inj (hns.symm.trans hparse)
    -- The children have the tags of the text, so they avoid the same names.
    have havoids' : ∀ ks, Node.Involves settings (given ++ partials.listed)
        (partials.loaderAfter none) children ks → Node.Avoids t.value ks := by
      intro ks hks
      rcases hks.of_tags htags with rfl | hms
      · exact (havoids ms .self).of_tags htags
      · exact havoids ks hms
    refine ⟨_, fun items hitems => (hrendering _ _ (Node.gives_section hdotless
      (hdata.of_tags htags) depthLimit hes hitems _)).trans
        (Node.plainAll_section hkind hdotless havoids' depthLimit items)⟩
  · rw [hx] at hns
    cases hns

/-- The text sets other delimiters and sets them back, and its partial looks up a name that is not
in the items. -/
theorem items_apart_delimiterSwitch :
    let s := (begun defaults none).after (registered [("p", "\x7b\x7by\x7d\x7d;")])
    let t := Template.enclosed "n" "\x7b\x7b=[ ]=\x7d\x7d[x][=\x7b\x7b \x7d\x7d=]\x7b\x7b>p\x7d\x7d"
    let item (k : Int) : Value := .dict [(.str "x", .int k)]
    let es : List (Value × Value) := [(.str "y", .int 7), (.str "s", .set (.given 0) [.int 8])]
    s.ItemsApart true t .none es "n" ∧
      (s.rendering t .none (withItems es "n" [item 1, item 2])).toOption = some "17;27;" := by
  intro s t item es
  let ms : List Node := [.leaf ⟨.delimiterTag, "[ ]", 0, 9⟩, .leaf ⟨.nameTag, "x", 9, 12⟩,
    .leaf ⟨.delimiterTag, "\x7b\x7b \x7d\x7d", 12, 21⟩, .leaf ⟨.partialTag, "p", 21, 27⟩]
  let ps : List Node := [.leaf ⟨.nameTag, "y", 0, 5⟩, .leaf ⟨.text, ";", 5, 6⟩]
  have hbody : Template.parse .braces
      "\x7b\x7b=[ ]=\x7d\x7d[x][=\x7b\x7b \x7d\x7d=]\x7b\x7b>p\x7d\x7d" = .ok ms := by
    with_unfolding_all rfl
  have hpartial : Template.parse .braces "\x7b\x7by\x7d\x7d;" = .ok ps := by
    with_unfolding_all rfl
  have hread (text : String) :
      Template.parseWith defaults.delimiters text = Template.parse .braces text := rfl
  rw [← hread] at hbody hpartial
  have hinvolved : ∀ ns, Node.Involves defaults [("p", "\x7b\x7by\x7d\x7d;")] none ms ns →
      ns = ms ∨ ns = ps := by
    intro ns hns
    induction hns with
    | self => exact .inl rfl
    | @reached ks js t _ ht hk htree ih =>
      rcases ih with rfl | rfl
      · obtain rfl : t = ⟨.partialTag, "p", 21, 27⟩ := by
          rcases (by simpa [ms, Node.preorder, Node.within] using ht :
            t = _ ∨ t = _ ∨ t = _ ∨ t = _) with rfl | rfl | rfl | hp
          · cases hk
          · cases hk
          · cases hk
          · exact hp
        rw [treeOfPartial_of_source rfl hpartial] at htree
        cases htree
        exact .inr rfl
      · rcases (by simpa [ps, Node.preorder, Node.within] using ht : t = _ ∨ t = _) with
          rfl | rfl <;> cases hk
  refine ⟨items_apart rfl ?_ ⟨by rintro c ⟨⟩; rfl, by decide⟩ (by decide) hbody rfl ?_ ?_
    (by decide), by decide +kernel⟩
  · intro e he
    obtain rfl := List.mem_singleton.1 he
    exact ⟨_, hpartial⟩
  · intro ns hns
    rcases hinvolved ns hns with rfl | rfl
    · simp [Node.Avoids, ms, Node.preorder, Node.within, Node.token, Node.LooksUp]
      decide
    · simp [Node.Avoids, ps, Node.preorder, Node.within, Node.token, Node.LooksUp]
      decide
  · intro ns hns x hx _ _
    have hmethodless : ∀ ks ∈ [ms, ps], ∀ x ∈ Node.preorder ks,
        Value.IsMethodless x.token.value := by decide +kernel
    rcases hinvolved ns hns with rfl | rfl
    · exact hmethodless ms (by simp) x hx
    · exact hmethodless ps (by simp) x hx

/-- Four sections with items that are not apart. In three of them no name is looked up. Behind the
first text other delimiters are in force, so that its closing tag leaves a brace behind. The second
name is dotted, and leads to another place in the view. The third one has a blank in front, which is
not read. In the fourth section each item takes one out of the same set. -/
theorem not_itemsApart_oddSections :
    let s := begun defaults none
    (∀ body ∈ ["\x7b\x7b=\x7b\x7b \x7d=\x7d\x7dx", "x"], ∃ ms,
      Template.parse .braces body = .ok ms ∧
        ∀ x ∈ Node.preorder ms, ¬ x.LooksUp ∧ x.token.kind ≠ .partialTag) ∧
    ¬ s.ItemsApart false (Template.enclosed "n" "\x7b\x7b=\x7b\x7b \x7d=\x7d\x7dx") .none [] "n" ∧
    ¬ s.ItemsApart false (Template.enclosed "a.b" "x") .none
      [(.str "a", .dict [(.str "b", .bool true)])] "a.b" ∧
    ¬ s.ItemsApart false (Template.enclosed " a" "x") .none [(.str "a", .bool true)] " a" ∧
    ¬ s.ItemsApart true (Template.enclosed "n" "\x7b\x7bs.pop\x7d\x7d") .none
      [(.str "s", .set (.given 0) [.int 1])] "n" := by
  intro s
  have fails {t name : String} {sets : Bool} {es : List (Value × Value)}
      (h : (s.rendering t .none (withItems es name [.int 1, .int 2])).toOption ≠ (do
        let first ← s.rendering t .none (withItems es name [.int 1])
        let others ← s.rendering t .none (withItems es name [.int 2])
        return first ++ others : Except Error String).toOption) :
      ¬ s.ItemsApart sets t .none es name := fun happly =>
    h (congrArg Except.toOption (happly.append [.int 1] [.int 2] (by cases sets <;> decide)))
  refine ⟨?_, fails (by decide +kernel), fails (by decide +kernel), fails (by decide +kernel),
    fails (by decide +kernel)⟩
  intro body hbody
  rcases List.mem_cons.1 hbody with rfl | hbody
  · refine ⟨[.leaf ⟨.delimiterTag, "\x7b\x7b \x7d", 0, 10⟩, .leaf ⟨.text, "x", 10, 11⟩],
      by with_unfolding_all rfl, ?_⟩
    simp [Node.preorder, Node.within, Node.LooksUp, Node.token]
  · obtain rfl := List.mem_singleton.1 hbody
    refine ⟨[.leaf ⟨.text, "x", 0, 1⟩], by with_unfolding_all rfl, ?_⟩
    simp [Node.preorder, Node.within, Node.LooksUp, Node.token]

end Session

end Mustache
