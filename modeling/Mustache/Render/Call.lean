import Mustache.Render.State
import Mustache.Text.Upper
import Mustache.Value.Builtin
import Mustache.Value.SetMethod

/-!
# Calls

How arguments are bound to parameters, what an expression in the body of a function evaluates to,
and what the methods of sets do. Arguments are given by place only, so a parameter that takes its
argument by name gets none.

Bodies call other callables, and rendering calls callables and puts in partials. Either goes one
level deeper, and what is found there is handed in as `Deeper`, so that evaluation itself follows
the expression.
-/

namespace Mustache

/-- Binds arguments to the parameters that take them by place; an optional parameter without an
argument is null. Gives the bound parameters and the arguments left over. -/
def bindPlaces : List Param → List Value → Option (List (String × Value) × List Value)
  | [], args => some ([], args)
  | p :: ps, [] =>
    if p.optional then (bindPlaces ps []).map fun (bound, left) => ((p.name, .null) :: bound, left)
    else none
  | p :: ps, a :: args => (bindPlaces ps args).map fun (bound, left) => ((p.name, a) :: bound, left)

/-- Binds arguments to all parameters of a signature, unless they do not fit. -/
def Signature.bind (s : Signature) (args : List Value) : Option (List (String × Value)) := do
  let (bound, left) ← bindPlaces s.places args
  let rest ← match s.rest with
    | some name => some [(name, Value.tuple left)]
    | none => if left.isEmpty then some [] else none
  let (named, _) ← bindPlaces s.named []
  let namedRest := match s.namedRest with
    | some name => [(name, Value.dict [])]
    | none => []
  return bound ++ rest ++ named ++ namedRest

/-- What rendering and calling need beyond the tree that is gone through: how the writer escapes,
and, from the level below, applying a callable and rendering the partial of a name. The latter two
happen in the scope that is current. -/
structure Deeper (σ : Type) where
  escape : σ → String → String
  apply : Scope → Value → List Value → Render σ Value
  expand : Scope → String → Render σ String

/-- What the body of a function can refer to. -/
structure Frame where
  arguments : List (String × Value)
  owner : Option Object

variable {σ : Type}

mutual

/-- The value of an expression. Its parts are evaluated from left to right. -/
def Expr.eval (deeper : Deeper σ) (scope : Scope) (frame : Frame) : Expr → Render σ Value
  | .literal v => pure v
  | .argument name =>
    match frame.arguments.lookup name with
    | some v => pure v
    | none => throw .unbound
  | .join parts => do
    let text ← Expr.evalText deeper scope frame parts
    return .str text
  | .call callee args => do
    let f ← callee.eval deeper scope frame
    let vs ← Expr.evalAll deeper scope frame args
    deeper.apply scope f vs
  | .upper e => do
    match ← e.eval deeper scope frame with
    | .str s => return .str (Text.upper s)
    | _ => throw .noMember
  | .size e => do
    let v ← e.eval deeper scope frame
    Render.ofCurrent Value.measure v
  | .entry e key => do
    match ← e.eval deeper scope frame with
    | .dict entries =>
      if key.canBeKey then return (Value.entry? entries key).getD .null else throw .mismatch
    | _ => throw .noMember
  | .attribute name =>
    match frame.owner.bind (·.member? name) with
    | some v => pure v
    | none => throw .noMember
  | .count name => do
    let n ← Render.count name
    return .int n
  | .fail message => throw (.raised message)

/-- The values of some expressions. -/
def Expr.evalAll (deeper : Deeper σ) (scope : Scope) (frame : Frame) :
    List Expr → Render σ (List Value)
  | [] => pure []
  | e :: es => do
    let v ← e.eval deeper scope frame
    let vs ← Expr.evalAll deeper scope frame es
    return v :: vs

/-- The texts of some expressions, joined. Each value is written before the next one is found. -/
def Expr.evalText (deeper : Deeper σ) (scope : Scope) (frame : Frame) :
    List Expr → Render σ String
  | [] => pure ""
  | e :: es => do
    let v ← e.eval deeper scope frame
    let first ← Render.ofCurrent Value.written v
    let others ← Expr.evalText deeper scope frame es
    return first ++ others

end

/-- Records the call of a labelled function. Its arguments are written down as they are by now, so
they must be such that they can be. -/
def Render.recordCall (label : String) (arguments : List (String × Value)) : Render σ Unit := do
  let tally := (← get).tally
  let arguments := arguments.map fun a => (a.1, a.2.current tally)
  if arguments.all fun a => a.2.isWritable then record (.called label arguments)
  else throw .unwritable

/-- Calls a function: binds its arguments, records the call if the function is labelled, and
evaluates its body. -/
def Function.invoke (deeper : Deeper σ) (scope : Scope) (f : Function) (owner : Option Object)
    (args : List Value) : Render σ Value :=
  match f.signature.bind args with
  | none => throw .mismatch
  | some bound => do
    match f.label with
    | some label => Render.recordCall label bound
    | none => pure ()
    f.body.eval deeper scope ⟨bound, owner⟩

/-- What a method of a set gives that is called without arguments, and what it leaves of the set. -/
def SetMethod.perform (m : SetMethod) (identity : SetId) (items : List Value) (t : Tally) :
    Except Error Value × Tally :=
  let remaining := t.remaining identity items
  match m.effect with
  | .refused => (.error .mismatch, t)
  | .takesFirst =>
    match remaining with
    | [] => (.error .emptySet, t)
    | item :: others => (.ok item, t.leave identity others.length)
  | .takesAll => (.ok .null, t.leave identity 0)
  | .copies => (.ok (.set (.made t.made) remaining), { t with made := t.made + 1 })
  | .nothing => (.ok .null, t)

/-- What a method gives is nothing, an item that is left, or a set of the items that are left. -/
theorem SetMethod.perform_eq_ok {m : SetMethod} {identity : SetId} {items : List Value} {t : Tally}
    {v : Value} (h : (m.perform identity items t).1 = .ok v) :
    v = .null ∨ v ∈ t.remaining identity items ∨
      v = .set (.made t.made) (t.remaining identity items) := by
  unfold perform at h
  dsimp only at h
  split at h
  · cases h
  · split at h
    · cases h
    · next item others heq =>
      cases h
      exact .inr (.inl (heq ▸ List.mem_cons_self))
  · exact .inl (Except.ok.inj h).symm
  · exact .inr (.inr (Except.ok.inj h).symm)
  · exact .inl (Except.ok.inj h).symm

end Mustache
