/-!
# Tables

A finite map from names that remembers the order in which the names were first put in. Putting in a
name again changes its entry and keeps its place.

Main statement: `find?_insert` says what is found after a name has been put in.
-/

namespace Mustache

/-- A finite map from names, kept as a list of entries. -/
structure Table (α : Type) where
  entries : List (String × α)
  deriving DecidableEq

namespace Table

variable {α : Type}

/-- The table without entries. -/
def empty : Table α := ⟨[]⟩

instance : EmptyCollection (Table α) := ⟨empty⟩

instance : Inhabited (Table α) := ⟨empty⟩

/-- The entry under a name. -/
def find? (t : Table α) (name : String) : Option α := t.entries.lookup name

/-- Puts an entry into a list, in the place of the one under the same name if there is one. -/
def insertEntry (name : String) (a : α) : List (String × α) → List (String × α)
  | [] => [(name, a)]
  | (key, b) :: r => if name = key then (name, a) :: r else (key, b) :: insertEntry name a r

/-- The table with an entry put in. -/
def insert (t : Table α) (name : String) (a : α) : Table α := ⟨insertEntry name a t.entries⟩

/-- The names in the table, in their order. -/
def names (t : Table α) : List String := t.entries.map (·.1)

/-- Whether the table has an entry under a name. -/
def has (t : Table α) (name : String) : Bool := (t.find? name).isSome

/-- The table of a list of entries, later ones winning over earlier ones. -/
def ofList (entries : List (String × α)) : Table α :=
  entries.foldl (fun t (name, a) => t.insert name a) empty

theorem lookup_cons_of_ne {key other : String} (h : key ≠ other) (b : α) (r : List (String × α)) :
    ((other, b) :: r).lookup key = r.lookup key := by
  rw [List.lookup_cons, beq_eq_false_iff_ne.2 h]

theorem lookup_insertEntry (name key : String) (a : α) (entries : List (String × α)) :
    (insertEntry name a entries).lookup key =
      if key = name then some a else entries.lookup key := by
  induction entries with
  | nil =>
    by_cases h : key = name
    · simp [insertEntry, h]
    · simp [insertEntry, lookup_cons_of_ne h, h]
  | cons entry r ih =>
    obtain ⟨other, b⟩ := entry
    rw [insertEntry]
    split
    · next h =>
      subst h
      by_cases hk : key = name
      · simp [hk]
      · simp [lookup_cons_of_ne hk, hk]
    · next h =>
      by_cases hk : key = other
      · subst hk
        simp [Ne.symm h]
      · rw [lookup_cons_of_ne hk, lookup_cons_of_ne hk, ih]

theorem find?_insert (t : Table α) (name key : String) (a : α) :
    (t.insert name a).find? key = if key = name then some a else t.find? key :=
  lookup_insertEntry name key a t.entries

theorem insertEntry_of_lookup {name : String} {a : α} {entries : List (String × α)}
    (h : entries.lookup name = some a) : insertEntry name a entries = entries := by
  induction entries with
  | nil => cases h
  | cons entry r ih =>
    obtain ⟨other, b⟩ := entry
    rw [insertEntry]
    split
    · next heq =>
      rw [heq, List.lookup_cons_self] at h
      rw [heq, Option.some.inj h]
    · next hne =>
      rw [lookup_cons_of_ne hne] at h
      rw [ih h]

/-- Putting in an entry again changes nothing. -/
theorem insert_of_find? {t : Table α} {name : String} {a : α} (h : t.find? name = some a) :
    t.insert name a = t :=
  congrArg Table.mk (insertEntry_of_lookup h)

/-- What is found in the table of a list of entries is one of them. -/
theorem mem_of_find?_ofList {entries : List (String × α)} {name : String} {a : α}
    (h : (ofList entries).find? name = some a) : (name, a) ∈ entries := by
  have among (entries : List (String × α)) (t : Table α)
      (h : (entries.foldl (fun t (name, a) => t.insert name a) t).find? name = some a) :
      t.find? name = some a ∨ (name, a) ∈ entries := by
    induction entries generalizing t with
    | nil => exact .inl h
    | cons entry entries ih =>
      obtain ⟨key, b⟩ := entry
      rcases ih (t.insert key b) h with hfind | hmem
      · rw [find?_insert] at hfind
        split at hfind
        · next hk =>
          obtain rfl := Option.some.inj hfind
          exact .inr (by simp [hk])
        · exact .inl hfind
      · exact .inr (List.mem_cons_of_mem _ hmem)
  rcases among entries empty h with hfind | hmem
  · cases hfind
  · exact hmem

end Table

end Mustache
