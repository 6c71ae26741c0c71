import Mustache.Proofs.Value.Nearest
import Mustache.Value.Tally
import Mustache.Value.Written

/-!
# Modest values

A value is modest if no integer in it has more digits than are ever written, and no sequence in it
has more items than can be measured. Where a value is modest, and no segment of a name is a number
with more digits than are ever read, following the name into the value does not fail, and what it
leads to is modest and can be written. Nothing but long numbers and long sequences makes following a
name fail.

Main statements: `Value.isWritable_of_isModest`, `Value.resolve_error` and `Scope.resolve_error`.
-/

namespace Mustache

/-! ## Ranges -/

namespace Range

/-- The items of a range stand between its ends. -/
theorem natAbs_item_le {start stop step : Int} {place : Nat} (h : place < size start stop step) :
    (item start step place).natAbs ≤ max start.natAbs stop.natAbs := by
  -- A step further than the item is at most the bound that the size is rounded up from.
  have further {d s : Int} (hs : 0 < s) (hplace : place < ((d + s - 1) / s).toNat) :
      (place : Int) * s + 1 ≤ d := by
    have hnext : (place : Int) + 1 ≤ (d + s - 1) / s := by omega
    have hproduct := Int.mul_le_mul_of_nonneg_right hnext (Int.le_of_lt hs)
    have hdiv := Int.ediv_mul_le (d + s - 1) (Int.ne_of_gt hs)
    rw [Int.add_mul] at hproduct
    omega
  rw [size] at h
  rw [item]
  split at h
  · next hpos =>
    have hle := further hpos h
    have hnonneg := Int.mul_nonneg (Int.natCast_nonneg place) (Int.le_of_lt hpos)
    omega
  · split at h
    · next hneg =>
      have hpos : 0 < -step := by omega
      have hle := further hpos (d := start - stop) (by simpa [Int.sub_eq_add_neg] using h)
      have hnonneg := Int.mul_nonneg (Int.natCast_nonneg place) (Int.le_of_lt hpos)
      rw [Int.mul_neg] at hle hnonneg
      omega
    · omega

end Range

namespace Value

mutual

/-- Whether no integer in a value has too many digits, and no sequence too many items. -/
def isModest : Value → Bool
  | int n => isShort n
  | list items | tuple items => decide (items.length < Range.sizeLimit) && areModest items
  | set _ items => areModest items
  | range start stop step =>
    isShort start && isShort stop && isShort step &&
      decide (Range.size start stop step < Range.sizeLimit)
  | dict entries => areEntriesModest entries
  | object o => isModestObject o
  | _ => true

/-- Whether all of some values are modest. -/
def areModest : List Value → Bool
  | [] => true
  | v :: vs => isModest v && areModest vs

/-- Whether the key and the value of an entry are modest. -/
def isEntryModest : Value × Value → Bool
  | (k, v) => isModest k && isModest v

/-- Whether all of some entries are modest. -/
def areEntriesModest : List (Value × Value) → Bool
  | [] => true
  | e :: es => isEntryModest e && areEntriesModest es

/-- Whether an object has only modest attributes. -/
def isModestObject : Object → Bool
  | .mk _ attributes _ _ _ _ => areAttributesModest attributes

/-- Whether the value of an attribute is modest. -/
def isAttributeModest : String × Value → Bool
  | (_, v) => isModest v

/-- Whether the values of all of some attributes are modest. -/
def areAttributesModest : List (String × Value) → Bool
  | [] => true
  | a :: as => isAttributeModest a && areAttributesModest as

end

theorem areModest_iff {vs : List Value} : areModest vs = true ↔ ∀ v ∈ vs, v.isModest = true := by
  induction vs with
  | nil => simp [areModest]
  | cons v vs ih => rw [areModest, Bool.and_eq_true, ih, List.forall_mem_cons]

theorem areEntriesModest_iff {es : List (Value × Value)} :
    areEntriesModest es = true ↔ ∀ e ∈ es, e.1.isModest = true ∧ e.2.isModest = true := by
  induction es with
  | nil => simp [areEntriesModest]
  | cons e es ih =>
    rw [areEntriesModest, Bool.and_eq_true, ih, List.forall_mem_cons, isEntryModest,
      Bool.and_eq_true]

theorem areAttributesModest_iff {as : List (String × Value)} :
    areAttributesModest as = true ↔ ∀ a ∈ as, a.2.isModest = true := by
  induction as with
  | nil => simp [areAttributesModest]
  | cons a as ih =>
    rw [areAttributesModest, Bool.and_eq_true, ih, List.forall_mem_cons, isAttributeModest]

/-! ## Writing -/

mutual

/-- Modest values can be written. -/
theorem isWritable_of_isModest : ∀ v : Value, v.isModest = true → v.isWritable = true
  | int n => fun h => by simpa only [isWritable, isModest] using h
  | list items | tuple items => fun h => by
    rw [isModest, Bool.and_eq_true] at h
    rw [isWritable]
    exact areWritable_of_areModest items h.2
  | set _ items => fun h => by
    rw [isModest] at h
    rw [isWritable]
    exact areWritable_of_areModest items h
  | range start stop step => fun h => by
    rw [isModest, Bool.and_eq_true] at h
    simpa only [isWritable] using h.1
  | dict entries => fun h => by
    rw [isModest] at h
    rw [isWritable]
    exact areWritableEntries_of_areEntriesModest entries h
  | null | bool _ | float _ | str _ | bytes _ | byteArray _ | object _ | function _ _
  | setMethod _ _ _ | builtin _ | renderer => fun _ => by simp [isWritable]

theorem areWritable_of_areModest : ∀ vs : List Value, areModest vs = true → areWritable vs = true
  | [], _ => by rw [areWritable]
  | v :: vs, h => by
    rw [areModest, Bool.and_eq_true] at h
    rw [areWritable, isWritable_of_isModest v h.1, areWritable_of_areModest vs h.2]
    rfl

theorem areWritableEntries_of_areEntriesModest :
    ∀ es : List (Value × Value), areEntriesModest es = true → areWritableEntries es = true
  | [], _ => by rw [areWritableEntries]
  | e :: es, h => by
    rw [areEntriesModest, Bool.and_eq_true] at h
    rw [areWritableEntries, isWritableEntry_of_isEntryModest e h.1,
      areWritableEntries_of_areEntriesModest es h.2]
    rfl

theorem isWritableEntry_of_isEntryModest :
    ∀ e : Value × Value, isEntryModest e = true → isWritableEntry e = true
  | (k, v), h => by
    rw [isEntryModest, Bool.and_eq_true] at h
    rw [isWritableEntry, isWritable_of_isModest k h.1, isWritable_of_isModest v h.2]
    rfl

end

/-! ## Items -/

variable {v w : Value} {segment : List Char} {name : String} {e : Error}

theorem isModest_list {items : List Value} : (list items).isModest = true ↔
    items.length < Range.sizeLimit ∧ ∀ v ∈ items, v.isModest = true := by
  rw [isModest, Bool.and_eq_true, decide_eq_true_eq, areModest_iff]

theorem isModest_tuple {items : List Value} : (tuple items).isModest = true ↔
    items.length < Range.sizeLimit ∧ ∀ v ∈ items, v.isModest = true := by
  rw [isModest, Bool.and_eq_true, decide_eq_true_eq, areModest_iff]

theorem isModest_dict {entries : List (Value × Value)} : (dict entries).isModest = true ↔
    ∀ e ∈ entries, e.1.isModest = true ∧ e.2.isModest = true := by
  rw [isModest, areEntriesModest_iff]

theorem isModest_range {start stop step : Int} : (range start stop step).isModest = true ↔
    ((isShort start = true ∧ isShort stop = true) ∧ isShort step = true) ∧
      Range.size start stop step < Range.sizeLimit := by
  rw [isModest, Bool.and_eq_true, Bool.and_eq_true, Bool.and_eq_true, decide_eq_true_eq]

/-- The items of a modest range are no longer than its ends. -/
theorem isModest_item {start stop step : Int} (h : (range start stop step).isModest = true)
    {place : Nat} (hplace : place < Range.size start stop step) :
    (int (Range.item start step place)).isModest = true := by
  obtain ⟨⟨⟨hstart, hstop⟩, -⟩, -⟩ := isModest_range.1 h
  have hle := Range.natAbs_item_le hplace
  rw [isModest]
  simp only [isShort, decide_eq_true_eq] at *
  omega

theorem isModest_items (h : v.isModest = true) : ∀ item ∈ v.items, item.isModest = true := by
  cases v with
  | list items => exact (isModest_list.1 h).2
  | tuple items => exact (isModest_tuple.1 h).2
  | range start stop step =>
    intro item hitem
    rw [items, Range.items, List.map_map] at hitem
    obtain ⟨place, hplace, rfl⟩ := List.mem_map.1 hitem
    exact isModest_item h (List.mem_range.1 hplace)
  | _ => simp [items]

/-! ## What is left of modest values -/

mutual

/-- Modest values stay modest, whatever is taken out of sets. -/
theorem isModest_current {t : Tally} :
    ∀ v : Value, v.isModest = true → (v.current t).isModest = true
  | list items => fun h => by
    obtain ⟨hlength, -⟩ := isModest_list.1 h
    rw [isModest, Bool.and_eq_true] at h
    rw [current, isModest, Bool.and_eq_true, decide_eq_true_eq, currentAll_eq_map,
      List.length_map, ← currentAll_eq_map]
    exact ⟨hlength, areModest_currentAll items h.2⟩
  | tuple items => fun h => by
    obtain ⟨hlength, -⟩ := isModest_tuple.1 h
    rw [isModest, Bool.and_eq_true] at h
    rw [current, isModest, Bool.and_eq_true, decide_eq_true_eq, currentAll_eq_map,
      List.length_map, ← currentAll_eq_map]
    exact ⟨hlength, areModest_currentAll items h.2⟩
  | set identity items => fun h => by
    rw [isModest, areModest_iff] at h
    rw [current, isModest, areModest_iff]
    exact fun v hv => h v ((t.remaining_suffix identity items).subset hv)
  | dict entries => fun h => by
    rw [isModest] at h
    rw [current, isModest]
    exact areEntriesModest_currentEntries entries h
  | null | bool _ | int _ | float _ | str _ | bytes _ | byteArray _ | range _ _ _ | object _
  | function _ _ | setMethod _ _ _ | builtin _ | renderer => fun h => h

theorem areModest_currentAll {t : Tally} :
    ∀ vs : List Value, areModest vs = true → areModest (currentAll t vs) = true
  | [], _ => rfl
  | v :: vs, h => by
    rw [areModest, Bool.and_eq_true] at h
    rw [currentAll, areModest, isModest_current v h.1, areModest_currentAll vs h.2]
    rfl

theorem areEntriesModest_currentEntries {t : Tally} : ∀ es : List (Value × Value),
    areEntriesModest es = true → areEntriesModest (currentEntries t es) = true
  | [], _ => rfl
  | e :: es, h => by
    rw [areEntriesModest, Bool.and_eq_true] at h
    rw [currentEntries, areEntriesModest, isEntryModest_currentEntry e h.1,
      areEntriesModest_currentEntries es h.2]
    rfl

theorem isEntryModest_currentEntry {t : Tally} : ∀ e : Value × Value,
    isEntryModest e = true → isEntryModest (currentEntry t e) = true
  | (k, v), h => by
    rw [isEntryModest, Bool.and_eq_true] at h
    rw [currentEntry, isEntryModest, h.1, isModest_current v h.2]
    rfl

end

/-! ## Names -/

/-- A segment is not a number with too many digits. -/
def IsShortSegment (segment : List Char) : Prop :=
  place? segment ≠ none → segment.length ≤ Error.maxDigits

/-- No segment of a name is a number with too many digits. -/
def IsShortName (name : String) : Prop := ∀ segment ∈ segments name.toList, IsShortSegment segment

theorem length_le_of_mem_segments {cs segment : List Char} (h : segment ∈ segments cs) :
    segment.length ≤ cs.length := by
  induction cs generalizing segment with
  | nil =>
    obtain rfl := List.mem_singleton.1 h
    exact Nat.le_refl _
  | cons c cs ih =>
    rw [segments] at h
    rw [List.length_cons]
    split at h
    · rcases List.mem_cons.1 h with rfl | h
      · exact Nat.zero_le _
      · exact Nat.le_succ_of_le (ih h)
    · split at h
      · obtain rfl := List.mem_singleton.1 h
        exact Nat.succ_le_succ (Nat.zero_le _)
      · next first others heq =>
        rw [heq] at ih
        rcases List.mem_cons.1 h with rfl | h
        · exact Nat.succ_le_succ (ih List.mem_cons_self)
        · exact Nat.le_succ_of_le (ih (List.mem_cons_of_mem _ h))

/-- A name with few characters has few digits in it. -/
theorem isShortName_of_length (h : name.toList.length ≤ Error.maxDigits) : IsShortName name :=
  fun _ hsegment _ => Nat.le_trans (length_le_of_mem_segments hsegment) h

/-- An error tells of a segment of a name that is a number with too many digits. -/
def TellsOfLongSegment (name : String) (e : Error) : Prop :=
  ∃ segment ∈ segments name.toList, ¬ IsShortSegment segment ∧ e = .digitLimit segment.length

/-- Finding an item fails if its number is too long, or if there are too many items. -/
theorem itemAt_error {size : Nat} {item? : Nat → Option Value}
    (h : itemAt segment size item? = .error e) :
    (¬ IsShortSegment segment ∧ e = .digitLimit segment.length) ∨
      (Range.sizeLimit ≤ size ∧ e = .tooLarge) := by
  rw [itemAt] at h
  split at h
  · cases h
  · next n hn =>
    split at h
    · next hlong =>
      cases h
      refine .inl ⟨fun hshort => ?_, rfl⟩
      have := hshort (by simp [hn])
      omega
    · split at h
      · next hlarge =>
        cases h
        exact .inr ⟨hlarge, rfl⟩
      · cases h

/-- Following one segment of a name fails only for such reasons. -/
theorem get_error (h : v.get segment = .error e) :
    (¬ IsShortSegment segment ∧ e = .digitLimit segment.length) ∨
      (v.isModest = false ∧ e = .tooLarge) := by
  have large {size : Nat} {v : Value} (hv : v.isModest = true → size < Range.sizeLimit)
      (hsize : Range.sizeLimit ≤ size) : v.isModest = false := by
    rw [Bool.eq_false_iff]
    intro hmodest
    have := hv hmodest
    omega
  cases v with
  | list items =>
    exact (itemAt_error h).imp_right (.imp_left (large fun hv => (isModest_list.1 hv).1))
  | tuple items =>
    exact (itemAt_error h).imp_right (.imp_left (large fun hv => (isModest_tuple.1 hv).1))
  | range start stop step =>
    exact (itemAt_error h).imp_right (.imp_left (large fun hv => (isModest_range.1 hv).2))
  | object o =>
    rw [get] at h
    split at h <;> cases h
  | set identity items =>
    rw [get] at h
    split at h <;> cases h
  | _ => cases h

theorem isModest_itemAt {size : Nat} {item? : Nat → Option Value}
    (hitem : ∀ n, ∀ u ∈ item? n, u.isModest = true) (h : itemAt segment size item? = .ok w) :
    w.isModest = true := by
  rw [itemAt] at h
  split at h
  · cases h
    rfl
  · next n _ =>
    split at h
    · cases h
    · split at h
      · cases h
      · cases h
        cases hn : item? n with
        | none => rfl
        | some u => exact hitem n u hn

theorem isModest_named? {es : List (Value × Value)}
    (hes : ∀ e ∈ es, e.1.isModest = true ∧ e.2.isModest = true) {name : String} :
    ∀ u ∈ named? es name, u.isModest = true := by
  intro u hu
  rw [named?, Option.mem_def, Option.map_eq_some_iff] at hu
  obtain ⟨e, he, rfl⟩ := hu
  exact (hes e (List.mem_of_find?_eq_some he)).2

theorem isModest_member? {o : Object} (ho : isModestObject o = true) {name : String} :
    ∀ u ∈ o.member? name, u.isModest = true := by
  obtain ⟨identity, attributes, methods, text, truth, call⟩ := o
  rw [isModestObject, areAttributesModest_iff] at ho
  intro u hu
  rw [Object.member?] at hu
  cases hl : attributes.lookup name with
  | none =>
    simp only [Object.attributes, hl, Option.mem_def, Option.map_eq_some_iff] at hu
    obtain ⟨f, -, rfl⟩ := hu
    rfl
  | some a =>
    obtain rfl : a = u := by simpa [Object.attributes, hl] using hu
    obtain ⟨before, after, rfl, -⟩ := List.lookup_eq_some_iff.1 hl
    exact ho (name, a) (by simp)

/-- What stands under a segment of a name in a modest value is modest. -/
theorem isModest_get (hv : v.isModest = true) (h : v.get segment = .ok w) : w.isModest = true := by
  have orNull {o : Option Value} (ho : ∀ u ∈ o, u.isModest = true) :
      (o.getD null).isModest = true := by
    cases o with
    | none => rfl
    | some u => exact ho u rfl
  cases v with
  | dict es =>
    cases h
    exact orNull (isModest_named? (isModest_dict.1 hv))
  | object o =>
    rw [get] at h
    split at h <;> cases h
    · rfl
    · exact orNull (isModest_member? (by simpa [isModest] using hv))
  | list items =>
    exact isModest_itemAt (fun n u hu => (isModest_list.1 hv).2 u (List.mem_of_getElem? hu)) h
  | tuple items =>
    exact isModest_itemAt (fun n u hu => (isModest_tuple.1 hv).2 u (List.mem_of_getElem? hu)) h
  | range start stop step =>
    refine isModest_itemAt (fun n u hu => ?_) h
    split at hu <;> cases hu
    next hplace => exact isModest_item hv hplace
  | set identity items =>
    rw [get] at h
    split at h <;> cases h <;> rfl
  | _ =>
    cases h
    rfl

theorem foldlM_get {segments : List (List Char)} {r : Except Error Value}
    (h : segments.foldlM get v = r) :
    (∀ w, r = .ok w → v.isModest = true → w.isModest = true) ∧
      ∀ e, r = .error e →
        (∃ segment ∈ segments, ¬ IsShortSegment segment ∧ e = .digitLimit segment.length) ∨
          v.isModest = false ∧ e = .tooLarge := by
  induction segments generalizing v with
  | nil =>
    subst h
    exact ⟨fun w hw hv => by cases hw; exact hv, nofun⟩
  | cons segment segments ih =>
    rw [List.foldlM_cons] at h
    cases hu : v.get segment with
    | error e =>
      rw [hu] at h
      subst h
      refine ⟨nofun, ?_⟩
      rintro _ ⟨⟩
      exact (get_error hu).imp_left fun hlong => ⟨segment, List.mem_cons_self, hlong⟩
    | ok u =>
      rw [hu] at h
      obtain ⟨hok, herror⟩ := ih h
      refine ⟨fun w hw hv => hok w hw (isModest_get hv hu), fun e he => ?_⟩
      rcases herror e he with ⟨found, hfound, hlong⟩ | ⟨hlarge, rfl⟩
      · exact .inl ⟨found, List.mem_cons_of_mem _ hfound, hlong⟩
      · refine .inr ⟨?_, rfl⟩
        rw [Bool.eq_false_iff] at hlarge ⊢
        exact fun hv => hlarge (isModest_get hv hu)

/-- What a name leads to in a modest value is modest. -/
theorem isModest_resolve (hv : v.isModest = true) (h : v.resolve name = .ok w) :
    w.isModest = true :=
  (foldlM_get (v.resolve_eq_foldlM name ▸ h)).1 w rfl hv

/-- **Following a name fails for long numbers and long sequences only.** -/
theorem resolve_error (h : v.resolve name = .error e) :
    TellsOfLongSegment name e ∨ v.isModest = false ∧ e = .tooLarge :=
  (foldlM_get (v.resolve_eq_foldlM name ▸ h)).2 e rfl

end Value

namespace Scope

variable {scope : Scope} {name : String} {v : Value} {e : Error}

/-- All views of a scope are modest. -/
def IsModest (scope : Scope) : Prop := ∀ v ∈ scope.views, v.isModest = true

/-- What a name leads to in a modest scope is modest. -/
theorem isModest_resolve (hscope : scope.IsModest) (h : scope.resolve name = .ok v) :
    v.isModest = true := by
  cases resolve_eq_ok_iff.1 h with
  | view => exact hscope _ List.mem_cons_self
  | nearest hname hviews hbefore hw hv =>
    exact Value.isModest_resolve (hscope _ (by simp [hviews])) hw
  | nothing hname hviews => rfl

/-- **Looking a name up fails for long numbers and long sequences only.** -/
theorem resolve_error (h : scope.resolve name = .error e) :
    Value.TellsOfLongSegment name e ∨ ¬ scope.IsModest ∧ e = .tooLarge := by
  obtain ⟨-, before, w, after, hcut, -, hw⟩ := resolve_eq_error_iff.1 h
  refine (Value.resolve_error hw).imp_right (.imp_left fun hlarge hscope => ?_)
  rw [hscope w (by simp [hcut])] at hlarge
  cases hlarge

end Scope

end Mustache
