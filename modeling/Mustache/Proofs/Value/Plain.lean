import Mathlib.Tactic.Common
import Mustache.Context
import Mustache.Json.Basic
import Mustache.Value.Tally

/-!
# Plain values

Data is plain if nothing in it can be called, at any depth. Sets are data too, but they have
methods, and their methods can be called: so a name may lead to a method of a set in plain data, and
to nothing else that can be called. Data is inert if it is plain and has no set in it. Then no name
leads to a callable in it, and it is always what it was.

The items of sequences, the items of sets, and the values of mappings are as plain as these are.
Keys cannot be come to.

**Idea.** The two notions are one (`Value.isData`), with or without sets, so what is shown of both
is shown once. Only following names and `current` tell them apart.

Main statements: `Scope.isFound_resolve`, `Scope.isInert_resolve`, `Value.current_of_isInert` and
`Json.isInert_toValue`.
-/

namespace Mustache

namespace Value

mutual

/-- Whether neither a value nor anything that stands in it can be called; there may be sets in it or
not. -/
def isData (sets : Bool) : Value → Bool
  | list items | tuple items => areData sets items
  | set _ items => sets && areData sets items
  | dict entries => areDataEntries sets entries
  | object o => isDataObject sets o
  | function _ _ | setMethod _ _ _ | builtin _ | renderer => false
  | _ => true

/-- Whether all of some values are data. -/
def areData (sets : Bool) : List Value → Bool
  | [] => true
  | v :: vs => isData sets v && areData sets vs

/-- Whether the value of an entry is data. -/
def isDataEntry (sets : Bool) : Value × Value → Bool
  | (_, v) => isData sets v

/-- Whether the values of all of some entries are data. -/
def areDataEntries (sets : Bool) : List (Value × Value) → Bool
  | [] => true
  | e :: es => isDataEntry sets e && areDataEntries sets es

/-- Whether an object has no function, and nothing but data as attributes. -/
def isDataObject (sets : Bool) : Object → Bool
  | .mk _ attributes methods _ _ call =>
    areDataAttributes sets attributes && methods.isEmpty && call.isNone

/-- Whether the value of an attribute is data. -/
def isDataAttribute (sets : Bool) : String × Value → Bool
  | (_, v) => isData sets v

/-- Whether the values of all of some attributes are data. -/
def areDataAttributes (sets : Bool) : List (String × Value) → Bool
  | [] => true
  | a :: as => isDataAttribute sets a && areDataAttributes sets as

end

/-- Whether a value is data with nothing in it that can be called, but for the methods that sets
have. -/
abbrev isPlain (v : Value) : Bool := v.isData true

/-- Whether a value is data without sets, so that nothing in it can be called at all. -/
abbrev isInert (v : Value) : Bool := v.isData false

variable {sets : Bool} {v w : Value} {t : Tally}

theorem areData_iff {vs : List Value} :
    areData sets vs = true ↔ ∀ v ∈ vs, v.isData sets = true := by
  induction vs with
  | nil => simp [areData]
  | cons v vs ih => rw [areData, Bool.and_eq_true, ih, List.forall_mem_cons]

theorem areDataEntries_iff {es : List (Value × Value)} :
    areDataEntries sets es = true ↔ ∀ e ∈ es, e.2.isData sets = true := by
  induction es with
  | nil => simp [areDataEntries]
  | cons e es ih => rw [areDataEntries, Bool.and_eq_true, ih, List.forall_mem_cons, isDataEntry]

theorem areDataAttributes_iff {as : List (String × Value)} :
    areDataAttributes sets as = true ↔ ∀ a ∈ as, a.2.isData sets = true := by
  induction as with
  | nil => simp [areDataAttributes]
  | cons a as ih =>
    rw [areDataAttributes, Bool.and_eq_true, ih, List.forall_mem_cons, isDataAttribute]

theorem isData_list {items : List Value} :
    (list items).isData sets = true ↔ ∀ v ∈ items, v.isData sets = true := by
  rw [isData, areData_iff]

theorem isData_tuple {items : List Value} :
    (tuple items).isData sets = true ↔ ∀ v ∈ items, v.isData sets = true := by
  rw [isData, areData_iff]

theorem isData_set {identity : SetId} {items : List Value} :
    (set identity items).isData sets = true ↔
      sets = true ∧ ∀ v ∈ items, v.isData sets = true := by
  rw [isData, Bool.and_eq_true, areData_iff]

theorem isData_dict {es : List (Value × Value)} :
    (dict es).isData sets = true ↔ ∀ e ∈ es, e.2.isData sets = true := by
  rw [isData, areDataEntries_iff]

theorem kind_ne_callable (h : v.isData sets = true) : v.kind ≠ .callable := by
  cases v with
  | object o =>
    obtain ⟨identity, attributes, methods, text, truth, call⟩ := o
    rw [isData, isDataObject, Bool.and_eq_true] at h
    obtain rfl : call = none := by simpa using h.2
    simp [kind, Object.call]
  | function f owner => simp [isData] at h
  | setMethod m identity items => simp [isData] at h
  | builtin b => simp [isData] at h
  | renderer => simp [isData] at h
  | _ => simp [kind]

theorem isCallable_of_isData (h : v.isData sets = true) : v.isCallable = false := by
  rw [isCallable, beq_eq_false_iff_ne]
  exact kind_ne_callable h

theorem isData_items (h : v.isData sets = true) : ∀ item ∈ v.items, item.isData sets = true := by
  cases v with
  | list items => exact isData_list.1 h
  | tuple items => exact isData_tuple.1 h
  | range start stop step =>
    intro item hitem
    obtain ⟨n, -, rfl⟩ := List.mem_map.1 hitem
    rfl
  | _ => simp [items]

/-! ## What is left of data -/

mutual

/-- Data stays data, whatever is taken out of sets. -/
theorem isData_current : ∀ v : Value, v.isData sets = true → (v.current t).isData sets = true
  | list items => fun h => by
    rw [current, isData]
    rw [isData] at h
    exact areData_currentAll items h
  | tuple items => fun h => by
    rw [current, isData]
    rw [isData] at h
    exact areData_currentAll items h
  | set identity items => fun h => by
    obtain ⟨hsets, hitems⟩ := isData_set.1 h
    rw [current, isData_set]
    exact ⟨hsets, fun v hv => hitems v ((t.remaining_suffix identity items).subset hv)⟩
  | dict entries => fun h => by
    rw [current, isData]
    rw [isData] at h
    exact areDataEntries_currentEntries entries h
  | null | bool _ | int _ | float _ | str _ | bytes _ | byteArray _ | range _ _ _ | object _
  | function _ _ | setMethod _ _ _ | builtin _ | renderer => fun h => h

theorem areData_currentAll :
    ∀ vs : List Value, areData sets vs = true → areData sets (currentAll t vs) = true
  | [], _ => rfl
  | v :: vs, h => by
    rw [areData, Bool.and_eq_true] at h
    rw [currentAll, areData, isData_current v h.1, areData_currentAll vs h.2]
    rfl

theorem areDataEntries_currentEntries : ∀ es : List (Value × Value),
    areDataEntries sets es = true → areDataEntries sets (currentEntries t es) = true
  | [], _ => rfl
  | e :: es, h => by
    rw [areDataEntries, Bool.and_eq_true] at h
    rw [currentEntries, areDataEntries, isDataEntry_currentEntry e h.1,
      areDataEntries_currentEntries es h.2]
    rfl

theorem isDataEntry_currentEntry : ∀ e : Value × Value,
    isDataEntry sets e = true → isDataEntry sets (currentEntry t e) = true
  | (_, v), h => isData_current v h

end

mutual

/-- Inert data never changes. -/
theorem current_of_isInert : ∀ v : Value, v.isInert = true → v.current t = v
  | list items => fun h => by
    rw [current, currentAll_of_areData items (by simpa [isData] using h)]
  | tuple items => fun h => by
    rw [current, currentAll_of_areData items (by simpa [isData] using h)]
  | set identity items => fun h => by cases (isData_set.1 h).1
  | dict entries => fun h => by
    rw [current, currentEntries_of_areData entries (by simpa [isData] using h)]
  | null | bool _ | int _ | float _ | str _ | bytes _ | byteArray _ | range _ _ _ | object _
  | function _ _ | setMethod _ _ _ | builtin _ | renderer => fun _ => rfl

theorem currentAll_of_areData :
    ∀ vs : List Value, areData false vs = true → currentAll t vs = vs
  | [], _ => rfl
  | v :: vs, h => by
    rw [areData, Bool.and_eq_true] at h
    rw [currentAll, current_of_isInert v h.1, currentAll_of_areData vs h.2]

theorem currentEntries_of_areData :
    ∀ es : List (Value × Value), areDataEntries false es = true → currentEntries t es = es
  | [], _ => rfl
  | e :: es, h => by
    rw [areDataEntries, Bool.and_eq_true] at h
    rw [currentEntries, currentEntry_of_isData e h.1, currentEntries_of_areData es h.2]

theorem currentEntry_of_isData :
    ∀ e : Value × Value, isDataEntry false e = true → currentEntry t e = e
  | (k, v), h => by rw [currentEntry, current_of_isInert v h]

end

/-! ## Names -/

/-- What a name may lead to in data: data, or the method of a set, if there are sets. -/
inductive IsFound (sets : Bool) : Value → Prop
  | data {v : Value} (h : v.isData sets = true) : IsFound sets v
  | method (m : SetMethod) (identity : SetId) {items : List Value} (hsets : sets = true)
      (hitems : ∀ v ∈ items, v.isData sets = true) : IsFound sets (setMethod m identity items)

theorem IsFound.isInert (h : IsFound false v) : v.isInert = true := by
  cases h with
  | data h => exact h
  | method m identity hsets hitems => cases hsets

theorem isData_itemAt {segment : List Char} {size : Nat} {item? : Nat → Option Value}
    (hitem : ∀ n, ∀ u ∈ item? n, u.isData sets = true) (h : itemAt segment size item? = .ok w) :
    w.isData sets = true := by
  rw [itemAt] at h
  split at h
  · cases h
    rfl
  · next n _ =>
    split at h
    · cases h
    · split at h
      · cases h
      · cases h
        cases hn : item? n with
        | none => rfl
        | some u => exact hitem n u hn

theorem isData_named? {es : List (Value × Value)} (hes : ∀ e ∈ es, e.2.isData sets = true)
    {name : String} : ∀ u ∈ named? es name, u.isData sets = true := by
  intro u hu
  rw [named?, Option.mem_def, Option.map_eq_some_iff] at hu
  obtain ⟨e, he, rfl⟩ := hu
  exact hes e (List.mem_of_find?_eq_some he)

theorem isData_member? {o : Object} (ho : isDataObject sets o = true) {name : String} :
    ∀ u ∈ o.member? name, u.isData sets = true := by
  obtain ⟨identity, attributes, methods, text, truth, call⟩ := o
  rw [isDataObject, Bool.and_eq_true, Bool.and_eq_true, areDataAttributes_iff,
    List.isEmpty_iff] at ho
  obtain ⟨⟨hattributes, rfl⟩, -⟩ := ho
  intro u hu
  rw [Object.member?] at hu
  cases hl : attributes.lookup name with
  | none => simp [Object.attributes, Object.methods, hl] at hu
  | some a =>
    obtain rfl : a = u := by simpa [Object.attributes, hl] using hu
    obtain ⟨before, after, rfl, -⟩ := List.lookup_eq_some_iff.1 hl
    exact hattributes (name, a) (by simp)

/-- What stands under a segment of a name in data, or in what a name leads to there. It is no method
unless the segment is the name of one. -/
theorem IsFound.get (hv : IsFound sets v) {segment : List Char} (h : v.get segment = .ok w) :
    w.isData sets = true ∨
      IsFound sets w ∧ SetMethod.ofName? (String.ofList segment) ≠ none := by
  have orNull {o : Option Value} (ho : ∀ u ∈ o, u.isData sets = true) :
      (o.getD null).isData sets = true := by
    cases o with
    | none => rfl
    | some u => exact ho u rfl
  cases hv with
  | method m identity hsets hitems =>
    cases h
    exact .inl rfl
  | data hv =>
    cases v with
    | dict es =>
      cases h
      exact .inl (orNull (isData_named? (isData_dict.1 hv)))
    | object o =>
      rw [Value.get] at h
      split at h <;> cases h
      · exact .inl rfl
      · exact .inl (orNull (isData_member? (by simpa [isData] using hv)))
    | set identity items =>
      obtain ⟨hsets, hitems⟩ := isData_set.1 hv
      rw [Value.get] at h
      split at h <;> cases h
      · next m hm => exact .inr ⟨.method m identity hsets hitems, hm ▸ Option.some_ne_none m⟩
      · exact .inl rfl
    | list items =>
      exact .inl (isData_itemAt (fun n u hu => isData_list.1 hv u (List.mem_of_getElem? hu)) h)
    | tuple items =>
      exact .inl (isData_itemAt (fun n u hu => isData_tuple.1 hv u (List.mem_of_getElem? hu)) h)
    | range start stop step =>
      refine .inl (isData_itemAt (fun n u hu => ?_) h)
      split at hu <;> cases hu
      rfl
    | _ =>
      cases h
      exact .inl rfl

theorem IsFound.foldlM_get {segments : List (List Char)} (hv : IsFound sets v)
    (h : segments.foldlM Value.get v = .ok w) : IsFound sets w := by
  induction segments generalizing v with
  | nil =>
    cases h
    exact hv
  | cons segment segments ih =>
    rw [List.foldlM_cons] at h
    cases hu : v.get segment with
    | error e => rw [hu] at h; cases h
    | ok u =>
      rw [hu] at h
      rcases hv.get hu with hdata | ⟨hfound, -⟩
      · exact ih (.data hdata) h
      · exact ih hfound h

/-- Names lead to data in data, or to methods of sets. -/
theorem isFound_resolve (hv : v.isData sets = true) {name : String} (h : v.resolve name = .ok w) :
    IsFound sets w := by
  rw [resolve_eq_foldlM] at h
  exact IsFound.foldlM_get (.data hv) h

/-- No segment of a name is the name of a set's method. -/
def IsMethodless (name : String) : Prop :=
  ∀ segment ∈ segments name.toList, SetMethod.ofName? (String.ofList segment) = none

instance : DecidablePred IsMethodless := fun name =>
  inferInstanceAs (Decidable (∀ segment ∈ segments name.toList,
    SetMethod.ofName? (String.ofList segment) = none))

/-- A name leads to data wherever it is looked up in data: there are no sets in it, or no segment of
the name is that of a method. -/
def LeadsToData (sets : Bool) (name : String) : Prop := sets = true → IsMethodless name

theorem isData_foldlM_get {segments : List (List Char)} (hv : v.isData sets = true)
    (hsegments : ∀ segment ∈ segments, SetMethod.ofName? (String.ofList segment) = none)
    (h : segments.foldlM get v = .ok w) : w.isData sets = true := by
  induction segments generalizing v with
  | nil =>
    cases h
    exact hv
  | cons segment segments ih =>
    obtain ⟨hsegment, hsegments⟩ := List.forall_mem_cons.1 hsegments
    rw [List.foldlM_cons] at h
    cases hu : v.get segment with
    | error e => rw [hu] at h; cases h
    | ok u =>
      rw [hu] at h
      rcases (IsFound.data hv).get hu with hdata | ⟨-, hmethod⟩
      · exact ih hdata hsegments h
      · exact absurd hsegment hmethod

/-- Names without the name of a method lead to data. -/
theorem isData_resolve (hv : v.isData sets = true) {name : String} (hname : IsMethodless name)
    (h : v.resolve name = .ok w) : w.isData sets = true := by
  rw [resolve_eq_foldlM] at h
  exact isData_foldlM_get hv hname h

end Value

namespace Scope

variable {sets : Bool} {scope : Scope} {name : String} {w : Value}

/-- All views of a scope are data. -/
def IsData (sets : Bool) (scope : Scope) : Prop := ∀ v ∈ scope.views, v.isData sets = true

/-- All views of a scope are plain. -/
abbrev IsPlain (scope : Scope) : Prop := scope.IsData true

/-- All views of a scope are inert. -/
abbrev IsInert (scope : Scope) : Prop := scope.IsData false

theorem isData_ofView {v : Value} : (ofView v).IsData sets ↔ v.isData sets = true := by
  simp [IsData, ofView, views]

theorem IsData.push (h : scope.IsData sets) {v : Value} (hv : v.isData sets = true) :
    (scope.push v).IsData sets :=
  List.forall_mem_cons.2 ⟨hv, h⟩

theorem forall_of_resolveIn {P : Value → Prop} {views : List Value} (hnull : P .null)
    (hviews : ∀ v ∈ views, ∀ w, v.resolve name = .ok w → P w)
    (h : resolveIn name views = .ok w) : P w := by
  induction views with
  | nil =>
    cases h
    exact hnull
  | cons v views ih =>
    obtain ⟨hv, hviews⟩ := List.forall_mem_cons.1 hviews
    rw [resolveIn] at h
    cases hu : v.resolve name with
    | error e => rw [hu] at h; cases h
    | ok u =>
      rw [hu] at h
      change (if u.isNull then resolveIn name views else pure u) = _ at h
      split at h
      · exact ih hviews h
      · cases h
        exact hv w hu

/-- Names lead to data, or to methods of sets, where the views are data. -/
theorem isFound_resolve (hscope : scope.IsData sets) (h : scope.resolve name = .ok w) :
    Value.IsFound sets w := by
  rw [resolve] at h
  split at h
  · cases h
    exact .data (hscope _ List.mem_cons_self)
  · exact forall_of_resolveIn (.data rfl)
      (fun v hv u hu => Value.isFound_resolve (hscope v hv) hu) h

/-- Names without the name of a method lead to data where the views are. -/
theorem isData_resolve (hscope : scope.IsData sets) (hname : Value.IsMethodless name)
    (h : scope.resolve name = .ok w) : w.isData sets = true := by
  rw [resolve] at h
  split at h
  · cases h
    exact hscope _ List.mem_cons_self
  · exact forall_of_resolveIn (P := fun v => v.isData sets = true) rfl
      (fun v hv u hu => Value.isData_resolve (hscope v hv) hname hu) h

/-- Names lead to inert values where the views are inert. -/
theorem isInert_resolve (hscope : scope.IsInert) (h : scope.resolve name = .ok w) :
    w.isInert = true :=
  (isFound_resolve hscope h).isInert

theorem isData_of_leadsToData (hscope : scope.IsData sets) (hname : Value.LeadsToData sets name)
    (h : scope.resolve name = .ok w) : w.isData sets = true := by
  cases sets with
  | false => exact isInert_resolve hscope h
  | true => exact isData_resolve hscope (hname rfl) h

end Scope

namespace Json

mutual

/-- The data of JSON documents is inert. -/
theorem isInert_toValue : ∀ j : Json, j.toValue.isInert = true
  | null | bool _ | int _ | float _ | str _ => rfl
  | arr items => by
    rw [toValue, Value.isInert, Value.isData]
    exact areData_toValues items
  | obj members => by
    rw [toValue, Value.isInert, Value.isData]
    exact areDataEntries_toEntries members

theorem areData_toValues : ∀ js : List Json, Value.areData false (toValues js) = true
  | [] => rfl
  | j :: js => by
    rw [toValues, Value.areData, areData_toValues js, Bool.and_true]
    exact isInert_toValue j

theorem areDataEntries_toEntries :
    ∀ members : List (String × Json), Value.areDataEntries false (toEntries members) = true
  | [] => rfl
  | m :: ms => by
    rw [toEntries, Value.areDataEntries, isDataEntry_toEntry m, areDataEntries_toEntries ms]
    rfl

theorem isDataEntry_toEntry : ∀ m : String × Json, Value.isDataEntry false (toEntry m) = true
  | (_, j) => by
    rw [toEntry, Value.isDataEntry]
    exact isInert_toValue j

end

end Json

end Mustache
