import Mustache.Proofs.Value.Plain

/-!
# Views that differ in one entry

Two mappings that differ in what stands under one name are the same for every other name. Here this
is followed from the mapping to the scopes that have it as their outermost view: a name leads to the
same value in both, or it is the name of the entry itself, in a scope where no view further inside
says anything under it.

What is put in has nothing under any name of its own (`Value.IsBlind`), so that longer names, which
lead through the entry, lead nowhere in both.

Main statements: `Value.named?_putEntry`, `Value.resolve_putEntry` and `Scope.resolve_around`.
-/

namespace Mustache

namespace Value

/-! ## One entry -/

theorem sameKey_str (v : Value) (name : String) :
    sameKey v (.str name) = match v with
      | .str s => s == name
      | _ => false := by
  cases v <;> simp [sameKey, asInt?]

theorem named?_eq (es : List (Value × Value)) (name : String) :
    named? es name = entry? es (.str name) := by
  rw [named?, entry?]
  congr 2
  funext e
  cases e.1 <;> simp [sameKey_str]

theorem eq_of_sameKey_str {v : Value} {name key : String} (h : sameKey v (.str name) = true)
    (h' : sameKey v (.str key) = true) : name = key := by
  rw [sameKey_str] at h h'
  cases v with
  | str s => exact (beq_iff_eq.1 h).symm.trans (beq_iff_eq.1 h')
  | _ => cases h

/-- What stands under a name after an entry was put in. -/
theorem named?_putEntry (es : List (Value × Value)) (key name : String) (v : Value) :
    named? (putEntry es (.str key) v) name = if name = key then some v else named? es name := by
  rw [named?_eq, named?_eq, putEntry]
  split
  · next hany =>
    set f : Value × Value → Value × Value := fun e => if sameKey e.1 (.str key) then (e.1, v) else e
    have hkey (e : Value × Value) : (f e).1 = e.1 := by
      simp only [f]
      split <;> rfl
    -- The keys stay as they are, so the entry that is found is the one in the same place.
    have hfind : entry? (es.map f) (.str name) =
        (es.find? fun e => sameKey e.1 (.str name)).map fun e => (f e).2 := by
      rw [ entry?, List.find?_map, Option.map_map]
      simp only [Function.comp_def, hkey]
    rw [hfind, entry?]
    split
    · next h =>
      obtain ⟨e, he, hsame⟩ := List.any_eq_true.1 hany
      cases hf : es.find? fun e => sameKey e.1 (.str name) with
      | none =>
        rw [List.find?_eq_none] at hf
        exact absurd (h ▸ hsame) (hf e he)
      | some e =>
        have hsame := List.find?_some hf
        rw [h] at hsame
        simp [f, hsame]
    · next h =>
      refine Option.map_congr fun e he => ?_
      have hfound : sameKey e.1 (.str name) = true := by simpa using List.find?_some he
      have hother : sameKey e.1 (.str key) ≠ true := fun hsame =>
        h (eq_of_sameKey_str hfound hsame)
      simp [f, hother]
  · next hany =>
    rw [ entry?, List.find?_append, entry?]
    split
    · next h =>
      have hnone : es.find? (fun e => sameKey e.1 (.str name)) = none := by
        rw [List.find?_eq_none]
        intro e he hsame
        exact hany (List.any_eq_true.2 ⟨e, he, h ▸ hsame⟩)
      rw [hnone]
      simp [sameKey_str, h]
    · next h =>
      simp [sameKey_str, Ne.symm h]

theorem forall_mem_putEntry {es : List (Value × Value)} {key v : Value} {P : Value → Prop}
    (hes : ∀ e ∈ es, P e.2) (hv : P v) : ∀ e ∈ putEntry es key v, P e.2 := by
  intro e he
  rw [putEntry] at he
  split at he
  · obtain ⟨e', he', rfl⟩ := List.mem_map.1 he
    split
    · exact hv
    · exact hes e' he'
  · rcases List.mem_append.1 he with he | he
    · exact hes e he
    · rw [List.mem_singleton.1 he]
      exact hv

/-! ## Names that lead into the mapping -/

/-- Nothing stands under any name in a value. -/
def IsBlind (v : Value) : Prop := ∀ segment, v.get segment = .ok .null

theorem segments_ne_nil (s : List Char) : segments s ≠ [] := by
  cases s with
  | nil => simp [segments]
  | cons c r =>
    rw [segments]
    split
    · simp
    · split <;> simp

theorem eq_of_segments_eq_singleton {s segment : List Char} (h : segments s = [segment]) :
    segment = s := by
  induction s generalizing segment with
  | nil =>
    cases h
    rfl
  | cons c r ih =>
    rw [segments] at h
    split at h
    · simp [segments_ne_nil] at h
    · split at h
      · next hr => exact absurd hr (segments_ne_nil r)
      · next s ss hr =>
        obtain ⟨rfl, rfl⟩ := List.cons.inj h
        rw [ih hr]

/-- In a mapping with an entry put in, the entry's name leads to the entry, unless there are dots in
it; every other name leads where it does whatever was put in, and to what names lead to in data. -/
theorem resolve_putEntry {sets : Bool} {es : List (Value × Value)}
    (hes : ∀ e ∈ es, e.2.isData sets = true) (key name : String) :
    (name = key ∧ ∀ v, (dict (putEntry es (.str key) v)).resolve name = .ok v) ∨
      ∃ x, (∀ v, IsBlind v → (dict (putEntry es (.str key) v)).resolve name = x) ∧
        ∀ w, x = .ok w → IsFound sets w := by
  have hget (v : Value) (segment : List Char) : (dict (putEntry es (.str key) v)).get segment =
      .ok ((if String.ofList segment = key then some v
        else named? es (String.ofList segment)).getD .null) := by
    rw [get, named?_putEntry]
  have hnull {rest : List (List Char)} {w : Value} (h : rest.foldlM get null = .ok w) :
      IsFound sets w := IsFound.foldlM_get (.data rfl) h
  simp only [resolve_eq_foldlM]
  cases hsegments : segments name.toList with
  | nil => exact absurd hsegments (segments_ne_nil _)
  | cons segment rest =>
    by_cases hkey : String.ofList segment = key
    · cases rest with
      | nil =>
        refine .inl ⟨?_, fun v => ?_⟩
        · rw [← hkey, eq_of_segments_eq_singleton hsegments, String.ofList_toList]
        · rw [List.foldlM_cons, hget, if_pos hkey]
          rfl
      | cons next rest =>
        refine .inr ⟨rest.foldlM get null, fun v hv => ?_, fun w => hnull⟩
        rw [List.foldlM_cons, hget, if_pos hkey]
        show (next :: rest).foldlM get v = _
        rw [List.foldlM_cons, hv]
        rfl
    · refine .inr ⟨rest.foldlM get ((named? es (String.ofList segment)).getD .null),
        fun v _ => ?_, fun w hw => IsFound.foldlM_get (.data ?_) hw⟩
      · rw [List.foldlM_cons, hget, if_neg hkey]
        rfl
      · cases hn : named? es (String.ofList segment) with
        | none => rfl
        | some u => exact isData_named? hes u hn

end Value

/-! ## Scopes around a view -/

namespace Scope

/-- The scope whose outermost view is `v`, with some views inside it, the innermost one first. -/
def around (inner : List Value) (v : Value) : Scope :=
  match inner with
  | [] => ofView v
  | w :: ws => ⟨w, ws ++ [v]⟩

theorem views_around (inner : List Value) (v : Value) : (around inner v).views = inner ++ [v] := by
  cases inner <;> rfl

theorem push_around (inner : List Value) (v w : Value) :
    (around inner v).push w = around (w :: inner) v := by
  cases inner <;> rfl

/-- In scopes around a mapping with an entry put in, a name leads to the entry, or where it does
whatever was put in. -/
theorem resolve_around {sets : Bool} {es : List (Value × Value)}
    (hes : ∀ e ∈ es, e.2.isData sets = true) {inner : List Value}
    (hinner : ∀ w ∈ inner, w.isData sets = true) {key name : String} (hname : name ≠ ".") :
    (name = key ∧ ∀ v, v.isNull = false →
        (around inner (.dict (Value.putEntry es (.str key) v))).resolve name = .ok v) ∨
      ∃ x, (∀ v, v.IsBlind →
          (around inner (.dict (Value.putEntry es (.str key) v))).resolve name = x) ∧
        ∀ w, x = .ok w → Value.IsFound sets w := by
  simp only [resolve, if_neg hname, views_around]
  induction inner with
  | nil =>
    rcases Value.resolve_putEntry hes key name with ⟨rfl, hentry⟩ | ⟨x, hx, hplain⟩
    · refine .inl ⟨rfl, fun v hv => ?_⟩
      rw [List.nil_append, resolveIn, hentry v]
      show (if v.isNull then _ else _) = _
      rw [hv]
      rfl
    · refine .inr ⟨x >>= fun w => if w.isNull then .ok .null else .ok w, fun v hv => ?_, ?_⟩
      · rw [List.nil_append, resolveIn, hx v hv]
        rfl
      · intro w hw
        cases x with
        | error e => cases hw
        | ok u =>
          change (if u.isNull then Except.ok Value.null else .ok u) = .ok w at hw
          split at hw
          · cases hw
            exact .data rfl
          · cases hw
            exact hplain w rfl
  | cons u inner ih =>
    obtain ⟨hu, hinner⟩ := List.forall_mem_cons.1 hinner
    simp only [List.cons_append, resolveIn]
    cases hr : u.resolve name with
    | error e =>
      refine .inr ⟨.error e, fun _ _ => rfl, fun w hw => ?_⟩
      cases hw
    | ok w =>
      by_cases hw : w.isNull = true
      · simp only [bind, Except.bind, hw, if_true]
        exact ih hinner
      · simp only [bind, Except.bind, hw]
        refine .inr ⟨.ok w, fun _ _ => rfl, fun w' hw' => ?_⟩
        cases hw'
        exact Value.isFound_resolve hu hr

end Scope

end Mustache
