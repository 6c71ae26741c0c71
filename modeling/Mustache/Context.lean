import Mustache.Value.Path
import Mustache.Table

/-!
# Scopes and contexts

Names are looked up in a chain of views: the innermost one first, then those around it. A whole
dotted name is tried in one view before the next one is; the name `.` is the innermost view itself.

A context is a scope that remembers what was found under each name.
-/

namespace Mustache

/-- A view and the views around it, from the inside out. -/
structure Scope where
  view : Value
  outer : List Value

namespace Scope

/-- The scope of a view alone. -/
def ofView (v : Value) : Scope := ⟨v, []⟩

/-- The scope of a view inside a scope. -/
def push (s : Scope) (v : Value) : Scope := ⟨v, s.view :: s.outer⟩

/-- All views of a scope, from the inside out. -/
def views (s : Scope) : List Value := s.view :: s.outer

/-- What a dotted name leads to in the first of some views where it leads anywhere. -/
def resolveIn (name : String) : List Value → Except Error Value
  | [] => .ok .null
  | v :: vs => do
    let found ← v.resolve name
    if found.isNull then resolveIn name vs else return found

/-- What a name leads to in a scope, callables not being called. -/
def resolve (s : Scope) (name : String) : Except Error Value :=
  if name = "." then .ok s.view else resolveIn name s.views

end Scope

/-- A scope and what was found under the names looked up in it. -/
structure Context where
  scope : Scope
  memo : Table Value

namespace Context

/-- The context of a scope in which nothing was looked up. -/
def ofScope (s : Scope) : Context := ⟨s, ∅⟩

/-- The context of a view alone. -/
def ofView (v : Value) : Context := ofScope (Scope.ofView v)

/-- The context of a view inside a context. -/
def push (c : Context) (v : Value) : Context := ofScope (c.scope.push v)

/-- The context with everything forgotten. -/
def forget (c : Context) : Context := ofScope c.scope

end Context

end Mustache
