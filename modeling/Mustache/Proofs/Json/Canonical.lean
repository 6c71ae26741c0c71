import Mustache.Json.Reader

/-!
# What reading JSON gives

Not every document can come from a text. A number that is no float has as few digits as the reader
takes, and the members of an object, of which the text may have had several with one name, have
distinct names. Documents with both properties all the way down are canonical, and reading gives no
others.

**Idea.** `Yields P` says of an answer that what was read, if anything was, has the property `P`.
It passes along `map` and `bind`, so each reading function is followed by its parts, and the three
that call each other by induction on the steps.

Main statement: `canonical_of_read`.
-/

namespace Mustache

/-! ## The names in a table -/

namespace Table

variable {α : Type} {name : String} {a : α} {entries : List (String × α)}

theorem mem_insertEntry {e : String × α} (h : e ∈ insertEntry name a entries) :
    e = (name, a) ∨ e ∈ entries := by
  induction entries with
  | nil => exact .inl (List.mem_singleton.1 h)
  | cons entry r ih =>
    rw [insertEntry] at h
    split at h
    · rcases List.mem_cons.1 h with h | h
      · exact .inl h
      · exact .inr (List.mem_cons_of_mem _ h)
    · rcases List.mem_cons.1 h with h | h
      · exact .inr (h ▸ List.mem_cons_self)
      · exact (ih h).imp_right (List.mem_cons_of_mem _)

theorem nodup_insertEntry (h : (entries.map Prod.fst).Nodup) :
    ((insertEntry name a entries).map Prod.fst).Nodup := by
  induction entries with
  | nil => exact List.nodup_cons.2 ⟨List.not_mem_nil, List.nodup_nil⟩
  | cons entry r ih =>
    obtain ⟨key, b⟩ := entry
    have hr := List.nodup_cons.1 h
    rw [insertEntry]
    split
    · next heq => exact heq ▸ h
    · next hne =>
      refine List.nodup_cons.2 ⟨fun hmem => ?_, ih hr.2⟩
      obtain ⟨e, he, heq⟩ := List.mem_map.1 hmem
      rcases mem_insertEntry he with rfl | he
      · exact hne heq
      · exact hr.1 (List.mem_map.2 ⟨e, he, heq⟩)

/-- A new name goes to the end. -/
theorem insertEntry_of_not_mem (h : name ∉ entries.map Prod.fst) :
    insertEntry name a entries = entries ++ [(name, a)] := by
  induction entries with
  | nil => rfl
  | cons entry r ih =>
    rw [List.map_cons, List.mem_cons, not_or] at h
    rw [insertEntry, if_neg h.1, ih h.2, List.cons_append]

theorem mem_ofList {e : String × α} (h : e ∈ (ofList entries).entries) : e ∈ entries := by
  have among (entries : List (String × α)) (t : Table α)
      (h : e ∈ (entries.foldl (fun t e => t.insert e.1 e.2) t).entries) :
      e ∈ t.entries ∨ e ∈ entries := by
    induction entries generalizing t with
    | nil => exact .inl h
    | cons entry r ih =>
      rcases ih (t.insert entry.1 entry.2) h with h | h
      · rcases mem_insertEntry h with rfl | h
        · exact .inr List.mem_cons_self
        · exact .inl h
      · exact .inr (List.mem_cons_of_mem _ h)
  exact (among entries empty h).resolve_left List.not_mem_nil

theorem nodup_ofList : ((ofList entries).entries.map Prod.fst).Nodup := by
  have kept (t : Table α) (h : (t.entries.map Prod.fst).Nodup) :
      ((entries.foldl (fun t e => t.insert e.1 e.2) t).entries.map Prod.fst).Nodup := by
    induction entries generalizing t with
    | nil => exact h
    | cons entry r ih => exact ih _ (nodup_insertEntry h)
  exact kept empty List.nodup_nil

/-- Entries with distinct names are a table as they stand. -/
theorem entries_ofList (h : (entries.map Prod.fst).Nodup) : (ofList entries).entries = entries := by
  have appended (entries : List (String × α)) (t : Table α)
      (h : ((t.entries ++ entries).map Prod.fst).Nodup) :
      (entries.foldl (fun t e => t.insert e.1 e.2) t).entries = t.entries ++ entries := by
    induction entries generalizing t with
    | nil => exact (List.append_nil _).symm
    | cons entry r ih =>
      obtain ⟨name, a⟩ := entry
      have hnew : name ∉ t.entries.map Prod.fst := by
        rw [List.map_append, List.map_cons] at h
        exact fun hmem => (List.nodup_append.1 h).2.2 _ hmem _ List.mem_cons_self rfl
      have hinsert : (t.insert name a).entries = t.entries ++ [(name, a)] :=
        insertEntry_of_not_mem hnew
      rw [List.foldl_cons, ih _ (by rwa [hinsert, List.append_assoc, List.singleton_append]),
        hinsert, List.append_assoc, List.singleton_append]
  exact appended entries empty h

end Table

namespace Json

/-- A document as reading gives it. -/
inductive Canonical : Json → Prop
  | null : Canonical null
  | bool (b : Bool) : Canonical (bool b)
  | int {n : Int} (hn : (Nat.toDigits 10 n.natAbs).length ≤ Error.maxDigits) : Canonical (int n)
  | float (x : Float) : Canonical (float x)
  | str (s : String) : Canonical (str s)
  | arr {items : List Json} (hitems : ∀ j ∈ items, Canonical j) : Canonical (arr items)
  | obj {members : List (String × Json)} (hnames : (members.map Prod.fst).Nodup)
      (hmembers : ∀ m ∈ members, Canonical m.2) : Canonical (obj members)

/-! ## Answers -/

variable {α β : Type} {P : α → Prop} {Q : β → Prop} {x : Except Stop (Read α)}

/-- What was read, if anything was, has a property. -/
def Yields (P : α → Prop) (x : Except Stop (Read α)) : Prop := ∀ r, x = .ok r → P r.result

theorem Yields.error (e : Stop) : Yields P (.error e) := nofun

theorem Yields.ok {r : Read α} (h : P r.result) : Yields P (.ok r) := by
  rintro _ ⟨⟩
  exact h

theorem Yields.mono {P' : α → Prop} (h : Yields P x) (himp : ∀ a, P a → P' a) : Yields P' x :=
  fun r hr => himp _ (h r hr)

theorem Yields.map {f : α → β} (h : Yields (fun a => Q (f a)) x) :
    Yields Q (x.map (·.map f)) := by
  cases x with
  | error e => exact .error e
  | ok r => exact .ok (h r rfl)

theorem Yields.bind {f : Read α → Except Stop (Read β)} (h : Yields P x)
    (hf : ∀ r, P r.result → Yields Q (f r)) : Yields Q (x >>= f) := by
  cases x with
  | error e => exact .error e
  | ok r => exact hf r (h r rfl)

/-! ## Numbers -/

/-- A number has no more digits than it was read from. -/
theorem length_toDigits_natOfDigits_le {s : List Char} (hne : s ≠ [])
    (hs : ∀ c ∈ s, c.isDigit = true) :
    (Nat.toDigits 10 (Decimal.natOfDigits s)).length ≤ s.length := by
  rw [Nat.length_toDigits_le_iff (by decide) (List.length_pos_iff.2 hne)]
  have below (s : List Char) (hs : ∀ c ∈ s, c.isDigit = true) (n : Nat) :
      s.foldl (fun n c => 10 * n + (c.toNat - '0'.toNat)) n < (n + 1) * 10 ^ s.length := by
    induction s generalizing n with
    | nil => exact Nat.lt_of_lt_of_eq (Nat.lt_succ_self n) (Nat.mul_one _).symm
    | cons c s ih =>
      have hc : c.toNat - '0'.toNat < 10 := by
        have h := hs c List.mem_cons_self
        simp only [Char.isDigit, Bool.and_eq_true, decide_eq_true_eq, ge_iff_le,
          UInt32.le_iff_toNat_le] at h
        exact Nat.lt_succ_of_le (Nat.sub_le_of_le_add h.2)
      refine Nat.lt_of_lt_of_le (ih (fun d hd => hs d (List.mem_cons_of_mem _ hd)) _) ?_
      rw [List.length_cons, Nat.pow_succ, Nat.mul_comm (10 ^ s.length), ← Nat.mul_assoc]
      exact Nat.mul_le_mul_right _ (show 10 * n + (c.toNat - '0'.toNat) + 1 ≤ (n + 1) * 10 by omega)
  exact Nat.lt_of_lt_of_eq (below s hs 0) (Nat.one_mul _)

theorem isDigit_of_mem_readWhole (offset : Nat) (s : List Char) :
    ∀ c ∈ (readWhole offset s).result, c.isDigit = true := by
  intro c hc
  rw [readWhole.eq_def] at hc
  split at hc
  · rw [List.mem_singleton.1 hc]
    rfl
  · exact (List.all_eq_true.1 List.all_takeWhile c hc)

theorem yields_readNumber (offset : Nat) (s : List Char) :
    Yields Canonical (readNumber offset s) := by
  unfold readNumber
  dsimp only
  split
  · exact .error _
  · next hne =>
    have hdigits := length_toDigits_natOfDigits_le hne (isDigit_of_mem_readWhole _ _)
    split
    · split
      · exact .error _
      · next hmax =>
        refine .ok (.int (Nat.le_trans ?_ (Nat.le_of_not_lt hmax)))
        split
        · rwa [Int.natAbs_neg, Int.natAbs_natCast]
        · rwa [Int.natAbs_natCast]
    · exact .ok (.float _)

theorem canonical_of_mem_wordDocuments {w : List Char × Json} (h : w ∈ wordDocuments) :
    Canonical w.2 := by
  simp only [wordDocuments, List.mem_cons, List.not_mem_nil, or_false] at h
  rcases h with rfl | rfl | rfl | rfl | rfl | rfl
  · exact .null
  · exact .bool true
  · exact .bool false
  all_goals exact .float _

theorem yields_readLeaf (offset : Nat) (s : List Char) : Yields Canonical (readLeaf offset s) := by
  unfold readLeaf
  split
  · next h => exact .ok (canonical_of_mem_wordDocuments (List.mem_of_find?_eq_some h))
  · exact yields_readNumber offset s

/-! ## Documents -/

/-- What is read after a colon has the property that it has anywhere. -/
theorem Yields.afterColon {offset : Nat} {s : List Char}
    {f : Nat × List Char → Except Stop (Read β)} (hf : ∀ t, Yields Q (f t)) :
    Yields Q (readColon offset s >>= f) := by
  cases readColon offset s with
  | error e => exact .error e
  | ok t => exact hf t

theorem yields_reading (steps : Nat) :
    (∀ offset s, Yields Canonical (readValue steps offset s)) ∧
    (∀ offset s, Yields (fun js => ∀ j ∈ js, Canonical j) (readItems steps offset s)) ∧
    (∀ offset s, Yields (fun ms => ∀ m ∈ ms, Canonical m.2) (readMembers steps offset s)) := by
  induction steps with
  | zero => exact ⟨fun _ _ => .error _, fun _ _ => .error _, fun _ _ => .error _⟩
  | succ steps ih =>
    obtain ⟨ihValue, ihItems, ihMembers⟩ := ih
    refine ⟨fun offset s => ?_, fun offset s => ?_, fun offset s => ?_⟩
    · cases s with
      | nil => exact .error _
      | cons c r =>
        rw [readValue]
        split
        · exact .map fun _ _ => .str _
        · split
          · split
            · exact .ok (.arr fun _ h => absurd h List.not_mem_nil)
            · exact .map ((ihItems _ _).mono fun _ => .arr)
          · split
            · split
              · exact .ok (.obj List.nodup_nil fun _ h => absurd h List.not_mem_nil)
              · exact .map ((ihMembers _ _).mono fun _ h =>
                  .obj Table.nodup_ofList fun m hm => h m (Table.mem_ofList hm))
            · exact yields_readLeaf offset (c :: r)
    · rw [readItems]
      refine (ihValue offset s).bind fun first hfirst => ?_
      dsimp only
      split
      · exact .ok fun j hj => List.mem_singleton.1 hj ▸ hfirst
      · exact (ihItems _ _).bind fun others hothers =>
          .ok (List.forall_mem_cons.2 ⟨hfirst, hothers⟩)
      · exact .error _
    · cases s with
      | nil => exact .error _
      | cons c r =>
        rw [readMembers]
        split
        · have hname : Yields (fun _ => True) (readString offset (offset + 1) r) :=
            fun _ _ => trivial
          refine hname.bind fun name _ => .afterColon fun t => ?_
          refine (ihValue t.1 t.2).bind fun first hfirst => ?_
          dsimp only
          split
          · exact .ok fun m hm => List.mem_singleton.1 hm ▸ hfirst
          · exact (ihMembers _ _).bind fun others hothers =>
              .ok (List.forall_mem_cons.2 ⟨hfirst, hothers⟩)
          · exact .error _
        · exact .error _

/-- Reading gives canonical documents. -/
theorem canonical_of_read {text : List Char} {j : Json} (h : read text = .ok j) : Canonical j := by
  have hchars : readChars text = .ok j := by
    rw [read] at h
    cases hread : readChars text with
    | ok j' => rw [hread] at h; exact congrArg _ (Except.ok.inj h)
    | error e => rw [hread] at h; cases h
  rw [readChars] at hchars
  split at hchars
  · cases hchars
  · have hvalue := (yields_reading (2 * text.length + 1)).1 (skipSpace 0 text).1
      (skipSpace 0 text).2
    dsimp only [bind, Except.bind] at hchars
    split at hchars
    · cases hchars
    · next document hdocument =>
      split at hchars
      · exact Except.ok.inj hchars ▸ hvalue document hdocument
      · cases hchars

end Json

end Mustache
