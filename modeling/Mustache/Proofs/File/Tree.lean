import Mustache.File.Tree
import Mustache.Proofs.Text.Utf8

/-!
# Writing to a file tree

What a path leads to, if it leads to a file or to where one could be, is told by the names of that
place (`target?`). A path can be written exactly if it has a target, and then writing puts a file
there and does nothing else. So a path with the same target reads what was written, and one with
another target what it read before; and whatever else was in the tree is there still.

**Idea.** A walk that goes well passes through directories alone. So trees with the same directories
(`SameDirectories`), such as a tree and the one with a file put in where there was no directory,
give every path the same target. Of the walks that fail nothing is said: they may fail in another
way, as the file may stand in their way now.
-/

namespace Mustache.File.Tree

/-- The names of a place, if a file is there or could be. -/
def Place.names? : Place → Option (List String)
  | .directory => none
  | .file names _ => some names
  | .vacant names => some names

/-- The names of the place that a path leads to, if a file is there or could be. -/
def target? (t : Tree) (p : Path) : Option (List String) := (t.locate p).toOption.bind Place.names?

variable {t t' : Tree} {p q : Path} {names others dir segments : List String} {place : Place}
  {bytes : List UInt8}

/-! ## Entries -/

theorem find?_put (hnames : names ≠ []) (e : Entry) (others : List String) :
    (t.put names e).find? others = if others = names then some e else t.find? others := by
  by_cases hroot : others = []
  · simp [find?, hroot, Ne.symm hnames]
  · by_cases heq : others = names
    · simp [find?, put, heq, hnames]
    · have hfilter (entries : List (List String × Entry)) :
          (entries.filter fun entry => entry.1 ≠ names).lookup others = entries.lookup others := by
        induction entries with
        | nil => rfl
        | cons entry r ih =>
          rw [List.filter_cons, List.lookup_cons (b := entry.2)]
          by_cases hentry : entry.1 = names
          · have hne : (others == entry.1) = false := beq_eq_false_iff_ne.2 (hentry ▸ heq)
            rw [if_neg (by simp [hentry]), hne]
            exact ih
          · rw [if_pos (by simp [hentry]), List.lookup_cons, ih]
      simp only [find?, put, hroot, heq, if_false, List.lookup_cons]
      rw [beq_eq_false_iff_ne.2 heq]
      exact hfilter t.entries

/-! ## Walks -/

/-- What is at a place, if anything is. -/
def Place.entry? : Place → Option Entry
  | .directory => some .directory
  | .file _ bytes => some (.file bytes)
  | .vacant _ => none

/-- A walk that leads to names tells what they stand for. -/
theorem find?_of_walk (h : t.walk dir segments = .ok place) (hplace : place.names? = some names) :
    names ≠ [] ∧ t.find? names = place.entry? := by
  induction segments generalizing dir with
  | nil =>
    cases h
    cases hplace
  | cons name rest ih =>
    rw [walk] at h
    split at h
    · cases h
    · split at h
      · exact ih h
      · next hdots =>
        have hne : enter dir name ≠ [] := by simp [enter, hdots]
        split at h
        · exact ih h
        all_goals
        · next hfind =>
          split at h
          · cases h
            obtain rfl := Option.some.inj hplace
            exact ⟨hne, hfind⟩
          · cases h

theorem Place.entry?_ne_directory (h : place.names? = some names) :
    place.entry? ≠ some .directory := by
  cases place with
  | directory => cases h
  | file names bytes => simp [ entry?]
  | vacant names => simp [ entry?]

/-- Two trees have the same directories, and paths start from the same one. -/
structure SameDirectories (t t' : Tree) : Prop where
  current : t.current = t'.current
  directories : ∀ names, t.find? names = some .directory ↔ t'.find? names = some .directory

theorem SameDirectories.symm (h : SameDirectories t t') : SameDirectories t' t :=
  ⟨h.current.symm, fun names => (h.directories names).symm⟩

/-- A file is put in where there was no directory. -/
theorem sameDirectories_put (hnames : names ≠ []) (hfind : t.find? names ≠ some .directory) :
    SameDirectories t (t.put names (.file bytes)) where
  current := rfl
  directories others := by
    rw [find?_put hnames]
    by_cases heq : others = names
    · simp [heq, hfind]
    · rw [if_neg heq]

/-- Where a name is no directory a walk can only end, at that name. -/
theorem walk_cons_of_not_directory {name : String} {rest : List String}
    (hlong : ¬255 < byteLength name) (hdots : name ≠ "..")
    (hfind : t.find? (enter dir name) ≠ some .directory) :
    (rest ≠ [] → ∀ place, t.walk dir (name :: rest) ≠ .ok place) ∧
      (rest = [] → ∃ place, t.walk dir (name :: rest) = .ok place ∧
        place.names? = some (enter dir name)) := by
  rw [walk, if_neg hlong, if_neg hdots]
  cases hentry : t.find? (enter dir name) with
  | none =>
    by_cases hrest : rest = []
    · exact ⟨fun h => absurd hrest h, fun _ => ⟨.vacant (enter dir name), by simp [hrest], rfl⟩⟩
    · exact ⟨fun _ place => by simp [hrest], fun h => absurd h hrest⟩
  | some entry =>
    cases entry with
    | directory => exact absurd hentry hfind
    | file bytes =>
      by_cases hrest : rest = []
      · exact ⟨fun h => absurd hrest h,
          fun _ => ⟨.file (enter dir name) bytes, by simp [hrest], rfl⟩⟩
      · exact ⟨fun _ place => by simp [hrest], fun h => absurd h hrest⟩

/-- A walk that goes well leads to the same names in a tree with the same directories. -/
theorem SameDirectories.walk (h : SameDirectories t t') (hwalk : t.walk dir segments = .ok place) :
    ∃ place', t'.walk dir segments = .ok place' ∧ place'.names? = place.names? := by
  induction segments generalizing dir with
  | nil => exact ⟨place, hwalk, rfl⟩
  | cons name rest ih =>
    by_cases hlong : 255 < byteLength name
    · rw [Tree.walk, if_pos hlong] at hwalk
      cases hwalk
    by_cases hdots : name = ".."
    · rw [Tree.walk, if_neg hlong, if_pos hdots] at hwalk ⊢
      exact ih hwalk
    by_cases hdir : t.find? (enter dir name) = some .directory
    · have hdir' := (h.directories _).1 hdir
      rw [Tree.walk, if_neg hlong, if_neg hdots] at hwalk ⊢
      rw [hdir] at hwalk
      rw [hdir']
      exact ih hwalk
    · have hdir' : t'.find? (enter dir name) ≠ some .directory :=
        fun heq => hdir ((h.directories _).2 heq)
      by_cases hrest : rest = []
      · obtain ⟨found, hfound, hnames⟩ :=
          (walk_cons_of_not_directory hlong hdots hdir).2 hrest
        obtain ⟨found', hfound', hnames'⟩ :=
          (walk_cons_of_not_directory hlong hdots hdir').2 hrest
        rw [hfound] at hwalk
        exact ⟨found', hfound', by rw [hnames', ← hnames, Except.ok.inj hwalk]⟩
      · exact absurd hwalk ((walk_cons_of_not_directory hlong hdots hdir).1 hrest place)

/-! ## Paths -/

theorem locate_eq_ok (h : t.locate p = .ok place) :
    t.walk (t.startOf p) p.segments = .ok place := by
  rw [locate] at h
  split at h
  · cases h
  · split at h
    · cases h
    · cases hwalk : t.walk (t.startOf p) p.segments with
      | error cause => rw [hwalk] at h; cases h
      | ok found => rw [hwalk] at h; exact congrArg _ (Except.ok.inj h)

theorem exists_of_target? (h : t.target? p = some names) :
    ∃ place, t.locate p = .ok place ∧ place.names? = some names := by
  rw [target?] at h
  cases hlocate : t.locate p with
  | error e => rw [hlocate] at h; cases h
  | ok place => rw [hlocate] at h; exact ⟨place, rfl, h⟩

theorem find?_of_target? (h : t.target? p = some names) :
    names ≠ [] ∧ t.find? names ≠ some .directory := by
  obtain ⟨place, hlocate, hplace⟩ := exists_of_target? h
  obtain ⟨hne, hfind⟩ := find?_of_walk (locate_eq_ok hlocate) hplace
  exact ⟨hne, hfind ▸ Place.entry?_ne_directory hplace⟩

theorem SameDirectories.locate (h : SameDirectories t t') (hlocate : t.locate p = .ok place) :
    ∃ place', t'.locate p = .ok place' ∧ place'.names? = place.names? := by
  have hstart : t'.startOf p = t.startOf p := by rw [startOf, startOf, h.current]
  obtain ⟨place', hwalk, hnames⟩ := h.walk (locate_eq_ok hlocate)
  rw [Tree.locate] at hlocate
  rw [Tree.locate, hstart, hwalk]
  split at hlocate
  · cases hlocate
  · next hnull =>
    split at hlocate
    · cases hlocate
    · next hlong => exact ⟨place', by rw [if_neg hnull, if_neg hlong]; rfl, hnames⟩

/-- A path has the same target in a tree with the same directories. -/
theorem SameDirectories.target?_eq (h : SameDirectories t t') (p : Path) :
    t'.target? p = t.target? p := by
  have hof {t t' : Tree} (h : SameDirectories t t') {names : List String}
      (htarget : t.target? p = some names) : t'.target? p = some names := by
    obtain ⟨place, hlocate, hplace⟩ := exists_of_target? htarget
    obtain ⟨place', hlocate', hnames⟩ := h.locate hlocate
    rw [target?, hlocate']
    exact hnames.trans hplace
  cases htarget : t.target? p with
  | some names => exact hof h htarget
  | none =>
    cases htarget' : t'.target? p with
    | none => rfl
    | some names =>
      rw [hof h.symm htarget'] at htarget
      cases htarget

theorem target?_put (hnames : names ≠ []) (hfind : t.find? names ≠ some .directory) (p : Path) :
    (t.put names (.file bytes)).target? p = t.target? p :=
  (sameDirectories_put hnames hfind).target?_eq p

/-- A walk goes on from a directory that another one has led to. -/
theorem walk_append (h : t.walk dir segments = .ok .directory) (rest : List String) :
    t.walk dir (segments ++ rest) = t.walk (segments.foldl enter dir) rest := by
  induction segments generalizing dir with
  | nil => rfl
  | cons name others ih =>
    rw [List.cons_append, List.foldl_cons, walk]
    rw [walk] at h
    by_cases hlong : 255 < byteLength name
    · rw [if_pos hlong] at h
      cases h
    · rw [if_neg hlong] at h ⊢
      by_cases hdots : name = ".."
      · rw [if_pos hdots] at h ⊢
        exact ih h
      · rw [if_neg hdots] at h ⊢
        cases hentry : t.find? (enter dir name) with
        | none =>
          rw [hentry] at h
          by_cases hrest : others = [] <;> simp [hrest] at h
        | some entry =>
          rw [hentry] at h
          cases entry with
          | directory => exact ih h
          | file bytes => by_cases hrest : others = [] <;> simp [hrest] at h

/-- A path that no file system refuses: it has no null characters and is not too long, as a whole
and in each of its segments. -/
structure Acceptable (p : Path) : Prop where
  nulls : ∀ s ∈ p.segments, Char.ofNat 0 ∉ s.toList
  length : byteLength p.toText < 4096
  lengths : ∀ s ∈ p.segments, byteLength s ≤ 255

theorem byteLength_ofList (s : List Char) :
    byteLength (String.ofList s) = (s.flatMap String.utf8EncodeChar).length := by
  rw [byteLength, ← String.size_toByteArray, String.toByteArray_ofList, List.utf8Encode,
    List.size_toByteArray]

/-- A path that starts with too long a name leads nowhere. -/
theorem locate_of_long {name : String} {rest : List String} (hp : p.segments = name :: rest)
    (hlong : 255 < byteLength name) : (t.locate p).toOption = none := by
  have hwalk : t.walk (t.startOf p) p.segments = .error .nameTooLong := by
    rw [hp, walk, if_pos hlong]
  rw [locate]
  split
  · rfl
  · split
    · rfl
    · rw [hwalk]
      rfl

/-- A path in a directory that leads to no directory has a target, unless it is refused. -/
theorem exists_target?_of_parent (hp : Acceptable p)
    (hparent : t.locate p.parent = .ok .directory) (hdir : t.locate p ≠ .ok .directory) :
    ∃ names, t.target? p = some names := by
  have hlocate : t.locate p = (t.walk (t.startOf p) p.segments).mapError fun cause =>
      .refused cause p.toText := by
    have hnull : ¬ p.segments.any (·.toList.contains (Char.ofNat 0)) = true := by
      simpa using hp.nulls
    rw [locate, if_neg hnull, if_neg (Nat.not_le.2 hp.length)]
  have hwalk : t.walk (t.startOf p) p.parent.segments = .ok .directory := locate_eq_ok hparent
  rcases List.eq_nil_or_concat p.segments with hnil | ⟨segments, name, hsegments⟩
  · -- the path without segments is a directory
    rw [hlocate, hnil] at hdir
    exact absurd rfl hdir
  · rw [Path.parent, hsegments, List.concat_eq_append, List.dropLast_concat] at hwalk
    have hlong : ¬255 < byteLength name :=
      Nat.not_lt.2 (hp.lengths name (by rw [hsegments]; simp))
    rw [hsegments, List.concat_eq_append, walk_append hwalk, walk, if_neg hlong] at hlocate
    by_cases hdots : name = ".."
    · rw [if_pos hdots, walk] at hlocate
      exact absurd hlocate hdir
    · rw [if_neg hdots] at hlocate
      rw [target?, hlocate]
      cases hentry : t.find? (enter (segments.foldl enter (t.startOf p)) name) with
      | none => exact ⟨_, rfl⟩
      | some entry =>
        cases entry with
        | directory =>
          rw [hentry, walk] at hlocate
          exact absurd hlocate hdir
        | file bytes => exact ⟨_, rfl⟩

/-! ## Reading and writing -/

/-- A path can be written exactly if it has a target, and then a file is put there. -/
theorem write_eq_ok_iff {text : String} : t.write p text = .ok t' ↔
    ∃ names, t.target? p = some names ∧ t' = t.put names (.file (Text.Utf8.encode text)) := by
  rw [write, target?]
  cases t.locate p with
  | error e => simp [bind, Except.bind, Except.toOption]
  | ok place =>
    cases place <;>
      simp [bind, Except.bind, Except.toOption, Place.names?, pure, Except.pure, eq_comm]

/-- What a path with a target reads is told by what is there. -/
theorem read_eq (h : t.target? p = some names) : t.read p =
    match t.find? names with
    | some (.file bytes) => .ok bytes
    | _ => .error (.refused .missing p.toText) := by
  obtain ⟨place, hlocate, hplace⟩ := exists_of_target? h
  rw [(find?_of_walk (locate_eq_ok hlocate) hplace).2, read, hlocate]
  cases place with
  | directory => cases hplace
  | file names bytes => rfl
  | vacant names => rfl

/-- What was read was at a place. -/
theorem exists_target?_of_readText {s : List Char} (h : t.readText p = .ok s) :
    ∃ names, t.target? p = some names := by
  rw [readText, read] at h
  rw [target?]
  cases hlocate : t.locate p with
  | error e => rw [hlocate] at h; cases h
  | ok place =>
    cases place with
    | directory => rw [hlocate] at h; cases h
    | file names bytes => exact ⟨names, rfl⟩
    | vacant names => exact ⟨names, rfl⟩

/-- A text that was written is read back, along whatever path leads there. -/
theorem readText_put {text : String} (h : t.target? p = some names)
    (htext : '\r' ∉ text.toList) :
    (t.put names (.file (Text.Utf8.encode text))).readText p = .ok text.toList := by
  obtain ⟨hnames, hfind⟩ := find?_of_target? h
  rw [readText, read_eq ((target?_put hnames hfind p).trans h), find?_put hnames, if_pos rfl]
  show (((Text.Utf8.decode (Text.Utf8.encode text)).mapError Error.encoding).bind fun chars =>
    .ok (Text.Utf8.lines chars)) = _
  rw [Text.Utf8.decode_encode]
  exact congrArg Except.ok (Text.Utf8.lines_eq_self htext)

/-- A path that leads elsewhere reads what it read before. -/
theorem readText_put_of_ne (hnames : names ≠ []) (hfind : t.find? names ≠ some .directory)
    (h : t.target? p = some others) (hne : others ≠ names) :
    (t.put names (.file bytes)).readText p = t.readText p := by
  rw [readText, readText, read_eq ((target?_put hnames hfind p).trans h), read_eq h,
    find?_put hnames, if_neg hne]

end Mustache.File.Tree
