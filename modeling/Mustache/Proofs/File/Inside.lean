import Mustache.Proofs.File.Tree

/-!
# Staying inside a directory

A path that does not start with a slash is walked from a directory, but it may leave that directory
with two dots. Whether it does can be told from the path alone, since no name leads back up: at no
point of the path may there be more pairs of dots than other names before it (`Path.StaysInside`). A
file that such a path leads to is below the directory (`Tree.isBelow_of_staysInside`).

**Idea.** The names that a walk has gone through are those of the directory it started from and as
many others as it is deep inside, and two dots take away one of the others
(`Tree.exists_foldl_enter`). A walk that ends at a file ends with the file's own name, so it is not
at the directory itself.
-/

namespace Mustache.File

/-- Some names lead to a place below the one that others lead to. -/
def IsBelow (dir names : List String) : Prop := dir <+: names ∧ names ≠ dir

instance (dir names : List String) : Decidable (IsBelow dir names) :=
  inferInstanceAs (Decidable (_ ∧ _))

/-! ## Paths -/

namespace Path

variable {segments others : List String} {s u : List Char} {depth : Nat}

/-- Whether a walk never leaves a directory upwards that it starts `depth` levels below. -/
def stays : Nat → List String → Bool
  | _, [] => true
  | depth, name :: rest =>
    if name = ".." then 0 < depth && stays (depth - 1) rest else stays (depth + 1) rest

/-- The path does not leave the directory that it is read from. -/
structure StaysInside (p : Path) : Prop where
  relative : p.root = ""
  stays : stays 0 p.segments = true

instance (p : Path) : Decidable p.StaysInside :=
  decidable_of_iff (p.root = "" ∧ stays 0 p.segments = true)
    ⟨fun h => ⟨h.1, h.2⟩, fun h => ⟨h.relative, h.stays⟩⟩

theorem stays_dots : stays depth (".." :: segments) = true ↔
    0 < depth ∧ stays (depth - 1) segments = true := by
  rw [stays, if_pos rfl, Bool.and_eq_true, decide_eq_true_iff]

theorem stays_name {name : String} (h : name ≠ "..") :
    stays depth (name :: segments) = stays (depth + 1) segments := by
  rw [stays, if_neg h]

theorem stays_of_append (h : stays depth (segments ++ others) = true) :
    stays depth segments = true := by
  induction segments generalizing depth with
  | nil => rfl
  | cons name segments ih =>
    rw [List.cons_append] at h
    by_cases hdots : name = ".."
    · subst hdots
      rw [stays_dots] at h ⊢
      exact ⟨h.1, ih h.2⟩
    · rw [stays_name hdots] at h ⊢
      exact ih h

/-- A last name that does not lead up makes no difference. -/
theorem stays_concat {name : String} (hname : name ≠ "..") :
    stays depth (segments ++ [name]) = stays depth segments := by
  induction segments generalizing depth with
  | nil => rw [List.nil_append, stays_name hname, stays, stays]
  | cons other segments ih => rw [List.cons_append, stays, stays, ih, ih]

/-! ### Endings -/

theorem splitSlashes_eq_singleton (hu : '/' ∉ u) : splitSlashes u = [u] := by
  induction u with
  | nil => rfl
  | cons c u ih =>
    obtain ⟨hc, hu⟩ := not_or.1 (mt List.mem_cons.2 hu)
    rw [splitSlashes, if_neg (Ne.symm hc), ih hu]

/-- A text without slashes behind a path belongs to the last piece. -/
theorem exists_splitSlashes_append (s : List Char) (hu : '/' ∉ u) :
    ∃ init last, splitSlashes s = init ++ [last] ∧ splitSlashes (s ++ u) = init ++ [last ++ u] := by
  induction s with
  | nil => exact ⟨[], [], rfl, splitSlashes_eq_singleton hu⟩
  | cons c s ih =>
    obtain ⟨init, last, hs, hsu⟩ := ih
    rw [List.cons_append, splitSlashes, splitSlashes, hs, hsu]
    by_cases hc : c = '/'
    · rw [if_pos hc, if_pos hc]
      exact ⟨[] :: init, last, rfl, rfl⟩
    · rw [if_neg hc, if_neg hc]
      cases init with
      | nil => exact ⟨[], c :: last, rfl, rfl⟩
      | cons piece init => exact ⟨(c :: piece) :: init, last, rfl, rfl⟩

theorem rootOf_append (s : List Char) (hu : '/' ∉ u) : rootOf (s ++ u) = rootOf s := by
  have hnone : u.takeWhile (· = '/') = [] := by
    cases u with
    | nil => rfl
    | cons c u =>
      have hc : c ≠ '/' := fun hc => hu (hc ▸ List.mem_cons_self)
      simp [hc]
  have hrun : ((s ++ u).takeWhile (· = '/')).length = (s.takeWhile (· = '/')).length := by
    rw [List.takeWhile_append, hnone]
    split
    · next h => rw [List.append_nil, h]
    · rfl
  rw [rootOf, rootOf, hrun]

/-- A path stays inside with an ending that has no slashes and does not consist of dots alone. -/
theorem StaysInside.append {text ending : String} (h : (ofText text).StaysInside)
    (hslash : '/' ∉ ending.toList) (hdots : ∃ c ∈ ending.toList, c ≠ '.') :
    (ofText (text ++ ending)).StaysInside := by
  obtain ⟨init, last, hs, hsu⟩ := exists_splitSlashes_append text.toList hslash
  obtain ⟨c, hc, hne⟩ := hdots
  have hother (dots : List Char) (hall : ∀ d ∈ dots, d = '.') : last ++ ending.toList ≠ dots :=
    fun heq => hne (hall c (heq ▸ List.mem_append_right last hc))
  have hkept : [last ++ ending.toList].filter (fun s => decide (s ≠ [] ∧ s ≠ ['.'])) =
      [last ++ ending.toList] := by
    refine List.filter_eq_self.2 fun s hs => ?_
    rw [List.mem_singleton.1 hs]
    exact decide_eq_true ⟨hother [] (by simp), hother ['.'] (by simp)⟩
  have hup : String.ofList (last ++ ending.toList) ≠ ".." := by
    intro heq
    have hlist := congrArg String.toList heq
    rw [String.toList_ofList] at hlist
    exact hother "..".toList (by simp) hlist
  refine ⟨?_, ?_⟩
  · rw [ofText, String.toList_append, rootOf_append text.toList hslash]
    exact h.relative
  · have hstays := h.stays
    simp only [ofText, hs, List.filter_append, List.map_append] at hstays
    simp only [ofText, String.toList_append, hsu, List.filter_append, List.map_append]
    rw [hkept, List.map_singleton]
    exact (stays_concat hup).trans (stays_of_append hstays)

end Path

/-! ## Files -/

namespace Tree

variable {t : Tree} {dir names segments : List String} {bytes : List UInt8} {directory p : Path}

/-- A walk that never leaves a directory is in it, as many levels deep as it says. -/
theorem exists_foldl_enter {depth : Nat} (h : Path.stays depth segments = true)
    {down : List String} (hdown : down.length = depth) :
    ∃ below, segments.foldl enter (dir ++ down) = dir ++ below := by
  induction segments generalizing depth down with
  | nil => exact ⟨down, rfl⟩
  | cons name segments ih =>
    rw [List.foldl_cons, enter]
    by_cases hdots : name = ".."
    · subst hdots
      obtain ⟨hpos, hrest⟩ := Path.stays_dots.1 h
      have hne : down ≠ [] := List.length_pos_iff.1 (hdown ▸ hpos)
      rw [if_pos rfl, List.dropLast_append_of_ne_nil hne]
      exact ih hrest (by simp [hdown])
    · rw [Path.stays_name hdots] at h
      rw [if_neg hdots, List.append_assoc]
      exact ih h (by simp [hdown])

/-- A walk to a file ends with the name of the file. -/
theorem exists_of_walk_file (h : t.walk dir segments = .ok (.file names bytes)) :
    ∃ init name, segments = init ++ [name] ∧ name ≠ ".." ∧
      names = init.foldl enter dir ++ [name] := by
  induction segments generalizing dir with
  | nil => cases h
  | cons name rest ih =>
    rw [walk] at h
    split at h
    · cases h
    · split at h
      · obtain ⟨init, last, rfl, hlast, rfl⟩ := ih h
        exact ⟨name :: init, last, rfl, hlast, rfl⟩
      · next hdots =>
        split at h
        · obtain ⟨init, last, rfl, hlast, rfl⟩ := ih h
          exact ⟨name :: init, last, rfl, hlast, rfl⟩
        · split at h
          · next hrest =>
            cases h
            exact ⟨[], name, by rw [hrest]; rfl, hdots, if_neg hdots⟩
          · cases h
        · split at h <;> cases h

/-- The names that a path to a file leads to. -/
theorem namesOf_eq_of_file (h : t.locate p = .ok (.file names bytes)) : t.namesOf p = names := by
  obtain ⟨init, name, hsegments, hname, rfl⟩ := exists_of_walk_file (locate_eq_ok h)
  rw [namesOf, hsegments, List.foldl_append, List.foldl_cons, List.foldl_nil]
  exact if_neg hname

/-- **Files stay below.** A path that stays inside, read from a directory, leads to no files but
those below the directory. -/
theorem isBelow_of_staysInside (hdir : ∀ names bytes, t.locate directory ≠ .ok (.file names bytes))
    (hp : p.StaysInside) (h : t.locate (directory.join p) = .ok (.file names bytes)) :
    IsBelow (t.namesOf directory) names := by
  have hjoin : directory.join p = ⟨directory.root, directory.segments ++ p.segments⟩ :=
    if_pos hp.relative
  rw [hjoin] at h
  obtain ⟨init, name, hsegments, hname, rfl⟩ := exists_of_walk_file (locate_eq_ok h)
  rcases List.eq_nil_or_concat p.segments with hnil | ⟨others, last, hlast⟩
  · -- The path without segments is the directory itself.
    rw [hnil, List.append_nil] at h
    exact absurd h (hdir _ _)
  · have hstays := hp.stays
    rw [hlast, List.concat_eq_append] at hstays
    rw [hlast, List.concat_eq_append, ← List.append_assoc] at hsegments
    obtain ⟨rfl, -⟩ := List.append_inj' hsegments rfl
    obtain ⟨below, hbelow⟩ : ∃ below, others.foldl enter (t.namesOf directory ++ []) =
        t.namesOf directory ++ below :=
      exists_foldl_enter (Path.stays_of_append hstays) rfl
    rw [List.append_nil] at hbelow
    have hnames : (directory.segments ++ others).foldl enter
        (t.startOf ⟨directory.root, directory.segments ++ p.segments⟩) =
          t.namesOf directory ++ below := by
      rw [List.foldl_append, ← hbelow]
      rfl
    rw [hnames, List.append_assoc]
    exact ⟨List.prefix_append _ _, by simp⟩

end Tree

end Mustache.File
