import Mustache.Proofs.Render.Alike
import Mustache.Render.Depth

/-!
# Calls whose arguments fit

A function that is found in a view is called from three places: where its name is looked up, if it
needs no arguments, and else by the variable or the section of its name. Each place counts the
parameters that must be given an argument by place and hands over as many arguments. So the
arguments fit, whatever other parameters the function has, unless one of these must be given an
argument by name. Each argument goes to the parameter that it is for, and the parameters that need
none keep what they are without one.

**Idea.** The parameters that must be given an argument by place stand before those that need none
(`Signature.Legal`), so that as many arguments as there are of the former fill them and no others
(`Signature.bind_eq`). What is left for a call to go wrong is in the body of the function
(`Function.Performs`).

Main statement: `Render.calls_bind`.
-/

namespace Mustache

/-! ## Binding as many arguments as are required -/

theorem bindPlaces_optional {ps : List Param} (h : ∀ p ∈ ps, p.optional = true) :
    bindPlaces ps [] = some (ps.map fun p => (p.name, .null), []) := by
  induction ps with
  | nil => rfl
  | cons p ps ih =>
    obtain ⟨hp, hps⟩ := List.forall_mem_cons.1 h
    rw [bindPlaces, if_pos hp, ih hps]
    rfl

/-- As many parameters as there are arguments take one each, and those behind them take none. -/
theorem bindPlaces_append {ps : List Param} {args : List Value} (h : args.length = ps.length)
    (qs : List Param) :
    bindPlaces (ps ++ qs) args = (bindPlaces qs []).map fun (bound, left) =>
      ((ps.zip args).map (fun (p, a) => (p.name, a)) ++ bound, left) := by
  induction ps generalizing args with
  | nil =>
    obtain rfl := List.length_eq_zero_iff.1 h
    simp
  | cons p ps ih =>
    cases args with
    | nil => cases h
    | cons a args =>
      rw [List.cons_append, bindPlaces, ih (Nat.succ.inj h), Option.map_map]
      rfl

namespace Signature

variable {s : Signature} {args : List Value}

/-- The parameters that must be given an argument by place, in order. -/
def requiredPlaces (s : Signature) : List Param := s.places.filter (!·.optional)

/-- The parameters that take an argument by place and need none, in order. -/
def optionalPlaces (s : Signature) : List Param := s.places.filter (·.optional)

/-- The names of all parameters, in order. -/
def names (s : Signature) : List String :=
  s.places.map (·.name) ++ s.rest.toList ++ s.named.map (·.name) ++ s.namedRest.toList

/-- The signatures that functions can have: a parameter that takes its argument by place and needs
none is followed by no such one that must be given one, and no two parameters have the same name. -/
structure Legal (s : Signature) : Prop where
  ordered : s.places.Pairwise fun p q => p.optional = true → q.optional = true
  distinct : s.names.Nodup

/-- No parameter must be given an argument by name. -/
def NeedsNoNames (s : Signature) : Prop := ∀ p ∈ s.named, p.optional = true

instance (s : Signature) : Decidable s.NeedsNoNames :=
  inferInstanceAs (Decidable (∀ p ∈ s.named, p.optional = true))

/-- `s.Fills args bound`: all parameters are bound, the ones that must be given an argument by place
to the arguments in order, and every other one to what it is without an argument. -/
structure Fills (s : Signature) (args : List Value) (bound : List (String × Value)) : Prop where
  names : bound.map Prod.fst = s.names
  required : ∀ (i : Nat) (p : Param) (a : Value), s.requiredPlaces[i]? = some p →
    args[i]? = some a → bound.lookup p.name = some a
  optional : ∀ p ∈ s.places ++ s.named, p.optional = true → bound.lookup p.name = some .null
  rest : ∀ name ∈ s.rest, bound.lookup name = some (.tuple [])
  namedRest : ∀ name ∈ s.namedRest, bound.lookup name = some (.dict [])

/-- Where those that need no argument come last, the parameters are those that must be given one and
then those that need none. -/
theorem filter_append_filter {ps : List Param}
    (h : ps.Pairwise fun p q => p.optional = true → q.optional = true) :
    ps.filter (!·.optional) ++ ps.filter (·.optional) = ps := by
  induction ps with
  | nil => rfl
  | cons p ps ih =>
    obtain ⟨hp, hps⟩ := List.pairwise_cons.1 h
    cases ho : p.optional with
    | false => simp [ho, ih hps]
    | true =>
      have hall : ∀ q ∈ ps, q.optional = true := fun q hq => hp q hq ho
      have hnone : ps.filter (!·.optional) = [] :=
        List.filter_eq_nil_iff.2 fun q hq => by simp [hall q hq]
      have hself : ps.filter (·.optional) = ps := List.filter_eq_self.2 hall
      simp [ho, hnone, hself]

theorem length_requiredPlaces (s : Signature) : s.requiredPlaces.length = s.required := rfl

theorem Legal.places_eq (h : s.Legal) : s.places = s.requiredPlaces ++ s.optionalPlaces :=
  (filter_append_filter h.ordered).symm

/-- What the parameters are bound to by as many arguments as are required. -/
def bound (s : Signature) (args : List Value) : List (String × Value) :=
  (s.requiredPlaces.zip args).map (fun (p, a) => (p.name, a)) ++
    s.optionalPlaces.map (fun p => (p.name, .null)) ++
    s.rest.toList.map (fun name => (name, .tuple [])) ++
    s.named.map (fun p => (p.name, .null)) ++
    s.namedRest.toList.map (fun name => (name, .dict []))

/-- **As many arguments as are required fit.** -/
theorem bind_eq (h : s.Legal) (hnamed : s.NeedsNoNames) (hargs : args.length = s.required) :
    s.bind args = some (s.bound args) := by
  have hoptional : ∀ p ∈ s.optionalPlaces, p.optional = true := fun p hp => (List.mem_filter.1 hp).2
  have hplaces : bindPlaces s.places args =
      some ((s.requiredPlaces.zip args).map (fun (p, a) => (p.name, a)) ++
        s.optionalPlaces.map fun p => (p.name, .null), []) := by
    rw [h.places_eq, bindPlaces_append (hargs.trans s.length_requiredPlaces.symm),
      bindPlaces_optional hoptional]
    rfl
  rw [bind, hplaces, bindPlaces_optional hnamed, bound]
  cases s.rest <;> cases s.namedRest <;> simp

theorem map_fst_bound (h : s.Legal) (hargs : args.length = s.required) :
    (s.bound args).map Prod.fst = s.names := by
  have hzip : (s.requiredPlaces.zip args).map (fun x => x.1.name) =
      s.requiredPlaces.map (·.name) := by
    have hfst : (s.requiredPlaces.zip args).map Prod.fst = s.requiredPlaces :=
      List.map_fst_zip (Nat.le_of_eq hargs.symm)
    conv_rhs => rw [← hfst, List.map_map]
    rfl
  simp [bound, names, h.places_eq, Function.comp_def, hzip]

/-- Where no two entries have the same name, each is found under its own. -/
theorem lookup_of_mem {l : List (String × Value)} (hl : (l.map Prod.fst).Nodup) {name : String}
    {v : Value} (hmem : (name, v) ∈ l) : l.lookup name = some v := by
  obtain ⟨before, after, rfl⟩ := List.append_of_mem hmem
  refine List.lookup_eq_some_iff.2 ⟨before, after, rfl, fun p hp => ?_⟩
  rw [List.map_append, List.nodup_append] at hl
  have hne := hl.2.2 p.1 (List.mem_map_of_mem hp) name (by simp)
  simpa using hne.symm

/-- **Each argument goes to the parameter that it is for.** -/
theorem fills_bound (h : s.Legal) (hargs : args.length = s.required) :
    s.Fills args (s.bound args) := by
  have hnames := map_fst_bound h hargs
  have hlookup {name : String} {v : Value} (hmem : (name, v) ∈ s.bound args) :
      (s.bound args).lookup name = some v :=
    lookup_of_mem (by rw [hnames]; exact h.distinct) hmem
  refine ⟨hnames, fun i p a hp ha => hlookup ?_, fun p hp ho => hlookup ?_,
    fun name hname => hlookup ?_, fun name hname => hlookup ?_⟩
  · have hzip : (p, a) ∈ s.requiredPlaces.zip args :=
      List.mem_of_getElem? (List.getElem?_zip_eq_some.2 ⟨hp, ha⟩)
    have hentry := List.mem_map_of_mem (f := fun x : Param × Value => (x.1.name, x.2)) hzip
    simp only [bound, List.mem_append]
    exact .inl (.inl (.inl (.inl hentry)))
  · have hentry (ps : List Param) (hps : p ∈ ps) :
        (p.name, Value.null) ∈ ps.map fun p => (p.name, Value.null) :=
      List.mem_map_of_mem (f := fun p : Param => (p.name, Value.null)) hps
    simp only [bound, List.mem_append]
    rcases List.mem_append.1 hp with hp | hp
    · exact .inl (.inl (.inl (.inr (hentry _ (List.mem_filter.2 ⟨hp, ho⟩)))))
    · exact .inl (.inr (hentry _ hp))
  · simp [bound, Option.mem_def.1 hname]
  · simp [bound, Option.mem_def.1 hname]

end Signature

/-! ## Calls -/

variable {σ α : Type} {f : Function} {owner : Option Object} {inner : Deeper σ} {scope : Scope}
  {args : List Value}

open Render

/-- What a function does when its arguments are bound: the call is recorded if the function is
labelled, and the body is evaluated. -/
def Function.perform (deeper : Deeper σ) (scope : Scope) (f : Function) (owner : Option Object)
    (bound : List (String × Value)) : Render σ Value := do
  match f.label with
  | some label => recordCall label bound
  | none => pure ()
  f.body.eval deeper scope ⟨bound, owner⟩

theorem Function.invoke_of_bind {bound : List (String × Value)}
    (h : f.signature.bind args = some bound) :
    f.invoke inner scope owner args = f.perform inner scope owner bound := by
  rw [invoke, h]
  rfl

/-- `f.Performs owner inner scope args s next outcome`: the outcome is that of a call of the
function with these arguments from the state `s`, followed by `next`. The arguments are bound, each
to the parameter that it is for, and if something does not fit, this is found by the function's own
body. -/
def Function.Performs (f : Function) (owner : Option Object) (inner : Deeper σ) (scope : Scope)
    (args : List Value) (s : State σ) (next : Value → Render σ α)
    (outcome : Except Error α × State σ) : Prop :=
  ∃ bound, f.signature.bind args = some bound ∧ f.signature.Fills args bound ∧
    outcome = (f.perform inner scope owner bound >>= next).runFrom s ∧
    (outcome.1 = .error .mismatch →
      ∃ t, (f.body.eval inner scope ⟨bound, owner⟩).runFrom t = (.error .mismatch, outcome.2))

/-- Recording a call fails only if an argument cannot be written. -/
theorem runFrom_recordCall_ne (label : String) (bound : List (String × Value)) (s : State σ) :
    ((recordCall label bound).runFrom s).1 ≠ .error .mismatch := by
  rw [recordCall, runFrom_get_bind]
  dsimp only
  split <;> exact fun h => by cases h

/-- If something does not fit in a call, it is in the function's own body. -/
theorem Function.exists_of_perform_mismatch {bound : List (String × Value)} {s s' : State σ}
    (h : (f.perform inner scope owner bound).runFrom s = (.error .mismatch, s')) :
    ∃ t, (f.body.eval inner scope ⟨bound, owner⟩).runFrom t = (.error .mismatch, s') := by
  rw [perform] at h
  cases hlabel : f.label with
  | none =>
    rw [hlabel] at h
    exact ⟨s, h⟩
  | some label =>
    rw [hlabel, runFrom_bind] at h
    rcases hrecord : (recordCall label bound : Render σ Unit).runFrom s with ⟨r, t⟩
    simp only [hrecord] at h
    cases r with
    | ok => exact ⟨t, h⟩
    | error e =>
      obtain rfl : e = .mismatch := Except.error.inj (congrArg Prod.fst h)
      exact absurd (congrArg Prod.fst hrecord) (runFrom_recordCall_ne label bound s)

theorem Function.performs (hlegal : f.signature.Legal) (hnamed : f.signature.NeedsNoNames)
    (hargs : args.length = f.signature.required) {next : Value → Render σ α}
    (hnext : ∀ v s, ((next v).runFrom s).1 ≠ .error .mismatch) (s : State σ) :
    f.Performs owner inner scope args s next
      ((f.invoke inner scope owner args >>= next).runFrom s) := by
  have hbind := Signature.bind_eq hlegal hnamed hargs
  refine ⟨_, hbind, Signature.fills_bound hlegal hargs, by rw [invoke_of_bind hbind], ?_⟩
  rw [invoke_of_bind hbind, runFrom_bind]
  rcases hperform : (f.perform inner scope owner (f.signature.bound args)).runFrom s with ⟨r, t⟩
  cases r with
  | ok v => exact fun h => absurd h (hnext v t)
  | error e =>
    rintro ⟨⟩
    exact exists_of_perform_mismatch hperform

/-! ## Where functions are called from -/

namespace Render

variable {d : Deeper σ} {name : String} {s : State σ}

/-- Showing a value fails only if it cannot be written. -/
theorem runFrom_shown_ne (v : Value) (s : State σ) :
    ((ofCurrent shown v).runFrom s).1 ≠ .error .mismatch := by
  show shown (v.current s.tally) ≠ _
  generalize v.current s.tally = v
  have hwritten : v.written ≠ .error .mismatch := by
    rw [Value.written, Value.writable]
    split <;> exact nofun
  cases v with
  | null => exact nofun
  | _ => exact hwritten

/-- What is found under a name that was not looked up before is called if it needs no arguments, and
what it gives is remembered. -/
theorem runFrom_lookup_unknown {v : Value} (hmemo : s.memo.find? name = none)
    (hfound : scope.resolve name = .ok v) :
    (lookup d scope name).runFrom s =
      ((if v.isCallable && v.required == 0 then d.apply scope v [] else pure v) >>= fun v => do
        remember name v
        return v).runFrom s := by
  rw [lookup, runFrom_get_bind]
  simp only [hmemo, hfound]
  rw [show (ofExcept (.ok v) : Render σ Value) = pure v from rfl, pure_bind]
  split <;> rfl

/-- A function that needs no arguments is called where it is looked up. -/
theorem runFrom_lookup_call (hmemo : s.memo.find? name = none)
    (hfound : scope.resolve name = .ok (.function f owner)) (hf : f.signature.required = 0) :
    (lookup d scope name).runFrom s =
      (d.apply scope (.function f owner) [] >>= fun v => do
        remember name v
        return v).runFrom s := by
  have hcalled : ((Value.function f owner).isCallable &&
      (Value.function f owner).required == 0) = true := by
    simp [Value.isCallable, Value.kind, Value.required, hf]
  rw [runFrom_lookup_unknown hmemo hfound, if_pos hcalled]

/-- A function that needs arguments is what its name stands for. -/
theorem runFrom_lookup_function (hmemo : ∀ v, s.memo.find? name = some v → v = .function f owner)
    (hfound : scope.resolve name = .ok (.function f owner)) (hf : f.signature.required ≠ 0) :
    (lookup d scope name).runFrom s =
      (.ok (.function f owner), { s with memo := s.memo.insert name (.function f owner) }) := by
  cases hm : s.memo.find? name with
  | some v =>
    obtain rfl := hmemo v hm
    rw [lookup, runFrom_get_bind, Table.insert_of_find? hm]
    simp only [hm]
    rfl
  | none =>
    have hcalled : ¬ ((Value.function f owner).isCallable &&
        (Value.function f owner).required == 0) = true := by
      simp [Value.required, hf]
    rw [runFrom_lookup_unknown hm hfound, if_neg hcalled]
    rfl

/-- A function that needs arguments is called by the variable of its name, with the view. -/
theorem runFrom_variableText_call
    (hmemo : ∀ v, s.memo.find? name = some v → v = .function f owner)
    (hfound : scope.resolve name = .ok (.function f owner)) (hf : f.signature.required ≠ 0) :
    (variableText d scope name).runFrom s =
      (d.apply scope (.function f owner) [scope.view] >>= ofCurrent shown).runFrom
        { s with memo := s.memo.insert name (.function f owner) } := by
  rw [variableText, runFrom_bind, runFrom_lookup_function hmemo hfound hf]
  rfl

/-- A function that needs arguments is called by a section of its name, with as many as it needs if
these are at most three. -/
theorem runFrom_section_call {t : Token} (ht : t.kind ≠ .invertedTag)
    (hmemo : ∀ v, s.memo.find? t.value = some v → v = .function f owner)
    (hfound : scope.resolve t.value = .ok (.function f owner)) (hf : f.signature.required ≠ 0)
    (template : String) (children : List Node) (close : Nat) :
    (Node.render d template scope (.block t children close)).runFrom s =
      (d.apply scope (.function f owner)
          (sectionArguments scope (source template t.stop close) f.signature.required) >>=
        ofCurrent shown).runFrom
          { s with memo := s.memo.insert t.value (.function f owner) } := by
  rw [Node.render, runFrom_bind, runFrom_lookup_function hmemo hfound hf]
  simp only [if_neg ht]
  rfl

/-- **Calls bind.** Let a function that can be written, and has no parameter that must be given an
argument by name, be found under a name. If it needs no arguments, it is called where it is looked
up; with one, it is called with the view by a variable and with its source by a section; and with
two or three it is called by a section with its source and the helper, and the view in front of
them. All these calls bind each argument to the parameter that it is for, and what does not fit is
in the function's own body. -/
theorem calls_bind {f : Function} {owner : Option Object} {scope : Scope} {name : String}
    (hlegal : f.signature.Legal) (hnamed : f.signature.NeedsNoNames)
    (hfound : scope.resolve name = .ok (.function f owner)) (settings : Settings) (n : Nat)
    (s : State Writer) :
    (f.signature.required = 0 → s.memo.find? name = none →
      f.Performs owner (deeper settings n) scope [] s
        (fun v => do
          remember name v
          return v)
        ((lookup (deeper settings (n + 1)) scope name).runFrom s)) ∧
    ((∀ v, s.memo.find? name = some v → v = .function f owner) →
      let called := { s with memo := s.memo.insert name (.function f owner) }
      (f.signature.required = 1 →
        f.Performs owner (deeper settings n) scope [scope.view] called (ofCurrent shown)
          ((variableText (deeper settings (n + 1)) scope name).runFrom s)) ∧
      ∀ (t : Token) (children : List Node) (close : Nat) (template : String),
        t.kind = .sectionTag → t.value = name →
        let text := source template t.stop close
        let outcome := (Node.render (deeper settings (n + 1)) template scope
          (.block t children close)).runFrom s
        let performs args := f.Performs owner (deeper settings n) scope args called
          (ofCurrent shown) outcome
        (f.signature.required = 1 → performs [.str text]) ∧
        (f.signature.required = 2 → performs [.str text, .renderer]) ∧
        (f.signature.required = 3 → performs [scope.view, .str text, .renderer])) := by
  refine ⟨fun hf hmemo => ?_, fun hmemo => ⟨fun hf => ?_, ?_⟩⟩
  · have hnext (v : Value) (s : State Writer) :
        ((remember name v >>= fun _ => return v : Render Writer Value).runFrom s).1 ≠
          .error .mismatch := by
      rintro ⟨⟩
    rw [runFrom_lookup_call hmemo hfound hf]
    have hargs : ([] : List Value).length = f.signature.required := hf.symm
    exact Function.performs hlegal hnamed hargs hnext s
  · rw [runFrom_variableText_call hmemo hfound (by omega)]
    have hargs : [scope.view].length = f.signature.required := hf.symm
    exact Function.performs hlegal hnamed hargs runFrom_shown_ne _
  · rintro t children close template ht rfl text outcome performs
    have hsection (hf : f.signature.required ≠ 0)
        (hargs : (sectionArguments scope text f.signature.required).length =
          f.signature.required) : performs (sectionArguments scope text f.signature.required) := by
      have hcall := runFrom_section_call (d := deeper settings (n + 1)) (by simp [ht]) hmemo hfound
        hf template children close
      show Function.Performs _ _ _ _ _ _ _ (Render.runFrom _ s)
      rw [hcall]
      exact Function.performs hlegal hnamed hargs runFrom_shown_ne _
    refine ⟨fun hf => ?_, fun hf => ?_, fun hf => ?_⟩ <;> rw [hf] at hsection <;>
      exact hsection (by decide) rfl

/-- A function with parameters of every kind. The one that must be given an argument gets the source
of the section, the one behind it and the rest get nothing. -/
theorem calls_bind_everyKind :
    let signature : Signature := ⟨[⟨"a", false⟩], [⟨"b", true⟩], some "c", [⟨"d", true⟩], some "e"⟩
    let f : Function := .mk 0 (some "f") signature (.join [.argument "a", .argument "c"])
    let scope := Scope.ofView (.dict [(.str "f", .function f none)])
    let settings : Settings := ⟨.braces, id⟩
    let s : State Writer := ⟨Writer.new none, ∅, ∅, []⟩
    let outcome := (Node.render (deeper settings 1) "\x7b\x7b#f\x7d\x7dx\x7b\x7b/f\x7d\x7d" scope
      (.block ⟨.sectionTag, "f", 0, 6⟩ [] 7)).runFrom s
    signature.Legal ∧ signature.NeedsNoNames ∧ outcome.1.toOption = some "x()" ∧
      f.Performs none (deeper settings 0) scope [.str "x"]
        { s with memo := s.memo.insert "f" (.function f none) } (ofCurrent shown)
        outcome := by
  intro signature f scope settings s outcome
  have hlegal : signature.Legal := ⟨by decide, by decide⟩
  have hnamed : signature.NeedsNoNames := by decide
  have hfound : scope.resolve "f" = .ok (.function f none) := rfl
  have hbinds := calls_bind (f := f) hlegal hnamed hfound settings 0 s
  exact ⟨hlegal, hnamed, by decide +kernel, ((hbinds.2 nofun).2 ⟨.sectionTag, "f", 0, 6⟩ [] 7
    "\x7b\x7b#f\x7d\x7dx\x7b\x7b/f\x7d\x7d" rfl rfl).1 rfl⟩

end Render

end Mustache
