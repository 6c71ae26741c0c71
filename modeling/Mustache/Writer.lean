import Mustache.Template.Parse
import Mustache.Value.Key
import Mustache.Table
import Mustache.Error

/-!
# Writers

A writer keeps the templates that it has compiled, by their text, and the partials that it knows, by
name. It may have a way of escaping of its own, and a loader that is asked for partials it does not
know. An empty value that is no text can take the place of a template without anything in it; the
writer keeps those it has met too.

A template that is known is never parsed again, whatever delimiters are given; nothing is kept of a
template that fails to parse, which the types of `compile` and `compilePartial` say. `clear` forgets
templates and partials but not the loader.

The sections of a compiled template are compiled one by one, each when it is come to for the first
time, and kept from then on. Whatever sections were come to before, in whatever order, a section is
what its place in the tree says, with the template that it is part of (`Compiled.enterAll_eq`). So
rendering goes through the tree itself.
-/

namespace Mustache

/-- A template that has been compiled. The number tells it apart from every other one of its
writer. -/
structure Compiled where
  number : Nat
  template : String
  nodes : List Node

/-! ## Sections compiled on first use -/

/-- The nodes in the section at a place. A place tells which node to go to on each level. -/
def Node.inside (ns : List Node) : List Nat → Option (List Node)
  | [] => some ns
  | i :: place =>
    match ns[i]? with
    | some (.block _ children _) => inside children place
    | _ => none

theorem Node.inside_append {ns ms : List Node} {around : List Nat} (h : inside ns around = some ms)
    (place : List Nat) : inside ns (around ++ place) = inside ms place := by
  induction around generalizing ns with
  | nil =>
    cases h
    rfl
  | cons i around ih =>
    rw [inside] at h
    rw [List.cons_append, inside]
    split at h
    · exact ih h
    · cases h

/-- A section that was compiled: its nodes, and the template that its source is cut from. -/
structure CompiledSection where
  nodes : List Node
  template : String

/-- The sections that were compiled so far, by their places. -/
abbrev CompiledSections := List (List Nat × CompiledSection)

namespace CompiledSections

/-- The section at a place, which is compiled unless it was before. -/
def take (made : CompiledSections) (place : List Nat) (children : List Node) (template : String) :
    CompiledSection × CompiledSections :=
  match made.lookup place with
  | some c => (c, made)
  | none => (⟨children, template⟩, (place, ⟨children, template⟩) :: made)

/-- Goes into the section at a place, by way of the sections around it. What is compiled on the way
is compiled from what the section around it was compiled to. -/
def enter (made : CompiledSections) (around : List Nat) (c : CompiledSection) :
    List Nat → Option CompiledSection × CompiledSections
  | [] => (some c, made)
  | i :: place =>
    match c.nodes[i]? with
    | some (.block _ children _) =>
      let (c, made) := made.take (around ++ [i]) children c.template
      made.enter (around ++ [i]) c place
    | _ => (none, made)

/-- Each section that was compiled is the one at its place in a template. -/
def Sound (template : String) (ns : List Node) (made : CompiledSections) : Prop :=
  ∀ place c, made.lookup place = some c →
    Node.inside ns place = some c.nodes ∧ c.template = template

variable {template : String} {ns children : List Node} {made : CompiledSections} {place : List Nat}

theorem Sound.take (h : made.Sound template ns) (hplace : Node.inside ns place = some children) :
    (made.take place children template).1 = ⟨children, template⟩ ∧
      (made.take place children template).2.Sound template ns := by
  rw [CompiledSections.take]
  cases hfound : made.lookup place with
  | some c =>
    obtain ⟨nodes, kept⟩ := c
    obtain ⟨hnodes, rfl⟩ := h place _ hfound
    cases hplace.symm.trans hnodes
    exact ⟨rfl, h⟩
  | none =>
    refine ⟨rfl, fun other c hc => ?_⟩
    dsimp only at hc
    rw [List.lookup_cons] at hc
    split at hc
    · next heq =>
      cases hc
      rw [eq_of_beq heq]
      exact ⟨hplace, rfl⟩
    · exact h other c hc

theorem Sound.enter (h : made.Sound template ns) (around place : List Nat)
    (haround : Node.inside ns around = some children) :
    (made.enter around ⟨children, template⟩ place).1 =
        (Node.inside children place).map (⟨·, template⟩) ∧
      (made.enter around ⟨children, template⟩ place).2.Sound template ns := by
  induction place generalizing made around children with
  | nil => exact ⟨rfl, h⟩
  | cons i place ih =>
    rw [CompiledSections.enter, Node.inside]
    dsimp only
    split
    · next inner _ hi =>
      have hplace : Node.inside ns (around ++ [i]) = some inner := by
        rw [Node.inside_append haround, Node.inside, hi]
        rfl
      obtain ⟨hc, hmade⟩ := h.take hplace
      rw [hc]
      exact ih hmade _ hplace
    · exact ⟨rfl, h⟩

end CompiledSections

/-- Goes into the sections at some places, one after the other, and tells what they are. -/
def Compiled.enterAll (c : Compiled) (made : CompiledSections) :
    List (List Nat) → List (Option CompiledSection)
  | [] => []
  | place :: places =>
    let entered := made.enter [] ⟨c.nodes, c.template⟩ place
    entered.1 :: c.enterAll entered.2 places

/-- **What was compiled before cannot be seen:** a section is what stands at its place. -/
theorem Compiled.enterAll_eq (c : Compiled) (places : List (List Nat)) :
    c.enterAll [] places =
      places.map fun place => (Node.inside c.nodes place).map (⟨·, c.template⟩) := by
  suffices h : ∀ made : CompiledSections, made.Sound c.template c.nodes →
      c.enterAll made places =
        places.map fun place => (Node.inside c.nodes place).map (⟨·, c.template⟩) from
    h [] nofun
  induction places with
  | nil => exact fun _ _ => rfl
  | cons place places ih =>
    intro made hmade
    obtain ⟨hplace, hleft⟩ := hmade.enter [] place rfl
    rw [enterAll, List.map_cons, hplace, ih _ hleft]

/-! ## Writers -/

/-- Where partials come from that are not known: the template of a name, or nothing. -/
structure Loader where
  load : String → Except Error (Option String)

/-- What holds for all writers: the delimiters that are meant where none are given, and how text is
escaped by writers without a way of their own. -/
structure Settings where
  delimiters : Delimiters.Spec
  escape : String → String

/-- A writer. -/
structure Writer where
  escape : Option (String → String)
  templates : Table Compiled
  /-- The values other than texts that stand for an empty template. -/
  blanks : List Value
  partials : Table Compiled
  loader : Option Loader
  /-- How many templates have been compiled. -/
  made : Nat

namespace Writer

/-- A writer that knows nothing. -/
def new (escape : Option (String → String)) : Writer := ⟨escape, ∅, [], ∅, none, 0⟩

instance : Inhabited Writer := ⟨new none⟩

/-- How a writer escapes. -/
def escaping (w : Writer) (settings : Settings) : String → String :=
  w.escape.getD settings.escape

/-- Numbers a tree of nodes as a compiled template, without keeping it. -/
def assemble (w : Writer) (template : String) (nodes : List Node) : Compiled × Writer :=
  (⟨w.made, template, nodes⟩, { w with made := w.made + 1 })

/-- Compiles a template, unless it is known. -/
def compile (w : Writer) (delimiters : Delimiters.Spec) (template : String) :
    Except TemplateError (Compiled × Writer) :=
  match w.templates.find? template with
  | some c => .ok (c, w)
  | none => do
    let nodes ← Template.parseWith delimiters template
    let (c, w) := w.assemble template nodes
    return (c, { w with templates := w.templates.insert template c })

/-- Compiles a template and keeps it as the partial of a name. -/
def compilePartial (w : Writer) (delimiters : Delimiters.Spec) (name template : String) :
    Except TemplateError (Compiled × Writer) := do
  let (c, w) ← w.compile delimiters template
  return (c, { w with partials := w.partials.insert name c })

/-- Whether a value is known to stand for an empty template. -/
def knowsBlank (w : Writer) (v : Value) : Bool := w.blanks.any (v.sameKey ·)

/-- Keeps a value that stands for an empty template. -/
def keepBlank (w : Writer) (v : Value) : Writer := { w with blanks := v :: w.blanks }

/-- Forgets the templates and the partials. -/
def clear (w : Writer) : Writer := { w with templates := ∅, blanks := [], partials := ∅ }

end Writer

end Mustache
