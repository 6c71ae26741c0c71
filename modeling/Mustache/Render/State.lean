import Mustache.Context
import Mustache.Value.Tally
import Mustache.Writer

/-!
# Rendering with effects

Rendering may compile templates, ask the loader, call functions that count and methods that take
items out of sets, and remember what names stand for. A computation of the type `Render σ α` does so
on a `Render.State σ` and ends with a result or an error. What was done before an error stays done.
`σ` is what templates are kept in, which is a `Writer` wherever templates are compiled; what only
looks up, calls and joins leaves it open.

The memo of the state belongs to one context, the one that is being rendered in. `inChild` renders
in a context of its own and gives the memo back afterwards, error or not.
-/

namespace Mustache

/-- What is recorded: calls of labelled functions and questions to the loader. -/
inductive Event
  | called (label : String) (arguments : List (String × Value))
  | loaded (name : String)

/-- What rendering works on. -/
structure Render.State (σ : Type) where
  writer : σ
  memo : Table Value
  tally : Tally
  log : List Event

/-- A computation that renders. -/
abbrev Render (σ α : Type) : Type := ExceptT Error (StateM (Render.State σ)) α

namespace Render

variable {σ α : Type}

/-- Runs a computation from a state. -/
def runFrom (act : Render σ α) (s : State σ) : Except Error α × State σ := act s

/-- A result that was found without effects. -/
def ofExcept : Except Error α → Render σ α
  | .ok a => pure a
  | .error e => throw e

/-- Records an event. -/
def record (e : Event) : Render σ Unit := modify fun s => { s with log := s.log ++ [e] }

/-- Remembers what a name stands for. -/
def remember (name : String) (v : Value) : Render σ Unit :=
  modify fun s => { s with memo := s.memo.insert name v }

/-- Does something with the tally alone. -/
def onTally (f : Tally → Except Error α × Tally) : Render σ α := fun s =>
  let (result, tally) := f s.tally
  (result, { s with tally })

/-- Adds one to a counter and gives the sum. -/
def count (name : String) : Render σ Nat :=
  onTally fun t => (.ok (t.count name).1, (t.count name).2)

/-- What something makes of a value as it is by now. -/
def ofCurrent (f : Value → Except Error α) (v : Value) : Render σ α :=
  onTally fun t => (f (v.current t), t)

/-- A value as it is by now. -/
def current (v : Value) : Render σ Value := ofCurrent .ok v

/-- Works in a new context, with nothing remembered in it. -/
def inChild (act : Render σ α) : Render σ α := fun s =>
  let (result, s') := act.runFrom { s with memo := ∅ }
  (result, { s' with memo := s.memo })

/-- Joins what is rendered for each of some things. -/
def joinEach (f : α → Render σ String) : List α → Render σ String
  | [] => pure ""
  | a :: as => do
    let first ← f a
    let others ← joinEach f as
    return first ++ others

/-- Joins what is rendered for each of the integers from a start on, in steps of one size. -/
def joinRange (f : Value → Render σ String) (start step : Int) : Nat → Render σ String
  | 0 => pure ""
  | n + 1 => do
    let first ← f (.int start)
    let others ← joinRange f (start + step) step n
    return first ++ others

/-- Joins what is rendered for each item of a sequence. The integers of a range are made one by one,
as they are come to. -/
def joinItems (f : Value → Render σ String) : Value → Render σ String
  | .range start stop step => joinRange f start step (Range.size start stop step)
  | v => joinEach f v.items

theorem joinRange_eq_joinEach (f : Value → Render σ String) (start step : Int) (n : Nat) :
    joinRange f start step n =
      joinEach f ((List.range n).map fun i => .int (Range.item start step i)) := by
  induction n generalizing start with
  | zero => rfl
  | succ n ih =>
    have first : Range.item start step 0 = start := by simp [Range.item]
    have shift (i : Nat) : Range.item (start + step) step i = Range.item start step (i + 1) := by
      simp only [Range.item, Int.natCast_add, Int.add_mul]
      omega
    rw [List.range_succ_eq_map, List.map_cons, List.map_map, joinRange, joinEach, ih, first]
    simp only [shift, Function.comp_def, Nat.succ_eq_add_one]

theorem joinItems_eq_joinEach (f : Value → Render σ String) (v : Value) :
    joinItems f v = joinEach f v.items := by
  cases v with
  | range start stop step =>
    simp [joinItems, joinRange_eq_joinEach, Value.items, Range.items, Function.comp_def]
  | _ => rfl

/-- Compiles a template, unless the writer knows it. -/
def compile (settings : Settings) (template : String) : Render Writer Compiled := do
  let s ← get
  match s.writer.compile settings.delimiters template with
  | .error e => throw (.template e)
  | .ok (c, w) =>
    set { s with writer := w }
    return c

/-- Makes a template the partial of a name. -/
def register (settings : Settings) (name template : String) : Render Writer Unit := do
  let s ← get
  match s.writer.compilePartial settings.delimiters name template with
  | .error e => throw (.template e)
  | .ok (_, w) => set { s with writer := w }

/-- Asks the loader, if there is one, for a partial that is not known. What it gives is kept. -/
def fetch (settings : Settings) (name : String) : Render Writer Unit := do
  let w := (← get).writer
  match w.partials.find? name, w.loader with
  | none, some loader =>
    record (.loaded name)
    match ← ofExcept (loader.load name) with
    | none => return ()
    | some template => register settings name template
  | _, _ => return ()

end Render

/-- What partials may be given as. -/
inductive Partials
  | none
  | named (templates : List (String × String))
  | loader (loader : Loader)

namespace Render

/-- Takes over the partials that are given: named ones are compiled in order, and a loader is put in
the place of the one before. -/
def accept (settings : Settings) : Partials → Render Writer Unit
  | .none => pure ()
  | .named templates => templates.forM fun (name, template) => register settings name template
  | .loader loader =>
    modify fun s => { s with writer := { s.writer with loader := some loader } }

end Render

end Mustache
