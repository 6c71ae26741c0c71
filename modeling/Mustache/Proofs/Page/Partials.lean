import Mustache.Page.View
import Mustache.Proofs.File.Inside

/-!
# Where partials come from

A partial comes from the first of its three paths that leads to a file, and it is that file's text.
If the name of the partial does not leave the directory that it is read from, the file is below this
directory, and there is no partial if and only if no file is there. A path that is too long, as a
whole or in one of its segments, is not passed over but refused, so that the paths behind it are not
tried.

The names of partials are not looked at, however: one that leaves the directory leads to files that
are not below it (`load_outside`).

**Idea.** Of each path there are four things to find: nothing to load, and then the next one is
tried, a text, a file that is none, or a refusal (`PassedOver`, `Answers`). The endings that are
tried have no slashes, so a path with one of them stays inside the directory if the name does.

Main statement: `Page.load_inside`.
-/

namespace Mustache.Page

open File (IsBelow Path Tree)

variable {files : Tree} {directory path : Path} {paths : List Path} {name : String}
  {answer : Except Error (Option String)}

/-! ## Single paths -/

/-- There is no file at the path, and this can be found. -/
structure PassedOver (files : Tree) (path : Path) : Prop where
  noFile : ∀ names bytes, files.locate path ≠ .ok (.file names bytes)
  short : files.locate path ≠ .error (.refused .nameTooLong path.toText)

/-- `Answers files path answer`: with this path the search for a partial ends, and comes to the
answer. -/
inductive Answers (files : Tree) (path : Path) : Except Error (Option String) → Prop
  | text {names : List String} {bytes : List UInt8} {chars : List Char} :
      files.locate path = .ok (.file names bytes) → Text.Utf8.decode bytes = .ok chars →
      Answers files path (.ok (some (String.ofList (Text.Utf8.lines chars))))
  | undecodable {names : List String} {bytes : List UInt8} {fault : Text.Utf8.Fault} :
      files.locate path = .ok (.file names bytes) → Text.Utf8.decode bytes = .error fault →
      Answers files path (.error (.encoding fault))
  | tooLong : files.locate path = .error (.refused .nameTooLong path.toText) →
      Answers files path (.error (.file (.refused .nameTooLong path.toText)))

theorem Answers.ne_none (h : Answers files path answer) : answer ≠ .ok none := by
  cases h <;> nofun

/-- A refusal names the path as it is written. -/
theorem locate_error_cases {e : File.Error} (h : files.locate path = .error e) :
    e = .embeddedNull ∨ ∃ cause, e = .refused cause path.toText := by
  rw [Tree.locate] at h
  split at h
  · cases h
    exact .inl rfl
  · split at h
    · cases h
      exact .inr ⟨_, rfl⟩
    · cases hwalk : files.walk (files.startOf path) path.segments with
      | ok place => rw [hwalk] at h; cases h
      | error cause =>
        rw [hwalk] at h
        cases h
        exact .inr ⟨cause, rfl⟩

theorem PassedOver.isFile_eq (h : PassedOver files path) : files.isFile path = .ok false := by
  unfold Tree.isFile
  split
  · next hfile => exact absurd hfile (h.noFile _ _)
  · rfl
  · next hlong =>
    rcases locate_error_cases hlong with heq | ⟨cause, heq⟩
    · cases heq
    · obtain ⟨rfl, rfl⟩ := File.Error.refused.inj heq
      exact absurd hlong h.short
  · rfl

/-- The search goes on behind a path that is passed over. -/
theorem PassedOver.firstFile_cons (h : PassedOver files path) (paths : List Path) :
    firstFile files (path :: paths) = firstFile files paths := by
  rw [firstFile, h.isFile_eq]
  rfl

theorem firstFile_cons_of_file {names : List String} {bytes : List UInt8}
    (h : files.locate path = .ok (.file names bytes)) (paths : List Path) :
    firstFile files (path :: paths) = ((Text.Utf8.decode bytes).mapError Error.encoding).map
      fun chars => some (String.ofList (Text.Utf8.lines chars)) := by
  have hread : files.read path = .ok bytes := by
    rw [Tree.read, h]
    rfl
  have hisFile : files.isFile path = .ok true := by rw [Tree.isFile, h]
  rw [firstFile, hisFile, Tree.readText, hread]
  show Except.bind (Except.bind ((Text.Utf8.decode bytes).mapError Error.encoding) _) _ = _
  cases Text.Utf8.decode bytes <;> rfl

/-- The search ends with a path that answers. -/
theorem Answers.firstFile_cons (h : Answers files path answer) (paths : List Path) :
    firstFile files (path :: paths) = answer := by
  cases h with
  | text hlocate hdecode =>
    rw [firstFile_cons_of_file hlocate, hdecode]
    rfl
  | undecodable hlocate hdecode =>
    rw [firstFile_cons_of_file hlocate, hdecode]
    rfl
  | tooLong hlocate =>
    rw [firstFile, Tree.isFile, hlocate]
    rfl

theorem passedOver_or_answers (files : Tree) (path : Path) :
    PassedOver files path ∨ ∃ answer, Answers files path answer := by
  by_cases hfile : ∃ names bytes, files.locate path = .ok (.file names bytes)
  · obtain ⟨names, bytes, hlocate⟩ := hfile
    cases hdecode : Text.Utf8.decode bytes with
    | ok chars => exact .inr ⟨_, .text hlocate hdecode⟩
    | error fault => exact .inr ⟨_, .undecodable hlocate hdecode⟩
  · by_cases hlong : files.locate path = .error (.refused .nameTooLong path.toText)
    · exact .inr ⟨_, .tooLong hlong⟩
    · exact .inl ⟨fun names bytes hlocate => hfile ⟨names, bytes, hlocate⟩, hlong⟩

theorem PassedOver.not_answers (h : PassedOver files path) : ¬ Answers files path answer := by
  rintro (⟨hfile, -⟩ | ⟨hfile, -⟩ | hlong)
  · exact h.noFile _ _ hfile
  · exact h.noFile _ _ hfile
  · exact h.short hlong

/-! ## Paths in a row -/

/-- Nothing is found if and only if all paths are passed over. -/
theorem firstFile_eq_none_iff :
    firstFile files paths = .ok none ↔ ∀ path ∈ paths, PassedOver files path := by
  induction paths with
  | nil => simp [firstFile]
  | cons path paths ih =>
    rw [List.forall_mem_cons]
    rcases passedOver_or_answers files path with hpassed | ⟨answer, hanswers⟩
    · rw [hpassed.firstFile_cons, ih]
      simp [hpassed]
    · rw [hanswers.firstFile_cons]
      exact iff_of_false hanswers.ne_none fun h => h.1.not_answers hanswers

/-- The search ends with the first path that is not passed over. -/
theorem firstFile_eq_iff (hanswer : answer ≠ .ok none) :
    firstFile files paths = answer ↔ ∃ before path after, paths = before ++ path :: after ∧
      (∀ q ∈ before, PassedOver files q) ∧ Answers files path answer := by
  constructor
  · intro h
    induction paths with
    | nil => exact absurd h hanswer.symm
    | cons path paths ih =>
      rcases passedOver_or_answers files path with hpassed | ⟨found, hfound⟩
      · rw [hpassed.firstFile_cons] at h
        obtain ⟨before, q, after, rfl, hbefore, hq⟩ := ih h
        exact ⟨path :: before, q, after, rfl, List.forall_mem_cons.2 ⟨hpassed, hbefore⟩, hq⟩
      · rw [hfound.firstFile_cons] at h
        exact ⟨[], path, paths, rfl, List.forall_mem_nil _, h ▸ hfound⟩
  · rintro ⟨before, path, after, rfl, hbefore, hpath⟩
    induction before with
    | nil => exact hpath.firstFile_cons after
    | cons q before ih =>
      obtain ⟨hq, hbefore⟩ := List.forall_mem_cons.1 hbefore
      rw [List.cons_append, hq.firstFile_cons, ih hbefore]

/-! ## Partials -/

theorem staysInside_of_candidate (h : (Path.ofText name).StaysInside) :
    ∀ path ∈ candidates directory name, ∃ p : Path, p.StaysInside ∧ path = directory.join p := by
  intro path hpath
  simp only [candidates, List.map_cons, List.map_nil, List.mem_cons, List.not_mem_nil,
    or_false] at hpath
  rcases hpath with rfl | rfl | rfl
  · exact ⟨_, h.append (by simp) (by simp), rfl⟩
  · exact ⟨_, h.append (by simp) (by simp), rfl⟩
  · exact ⟨_, h, rfl⟩

/-- **Where partials come from.** What is loaded is the text of a file, the first that one of the
three paths leads to. There is nothing to load if and only if no path leads to a file, and none is
too long. Loading fails with the first path that is not passed over, if this is too long or its file
is no text. And if the name does not leave the directory, all the files that the paths lead to are
below the directory. -/
theorem load_inside (files : Tree) (directory : Path) (name : String) :
    let load := (partialsIn files directory).load name
    let paths := [name ++ "-tpl.html", name ++ ".html", name].map fun n =>
      directory.join (Path.ofText n)
    (∀ text, load = .ok (some text) ↔ ∃ before path after names bytes chars,
      paths = before ++ path :: after ∧ (∀ q ∈ before, PassedOver files q) ∧
      files.locate path = .ok (.file names bytes) ∧ names = files.namesOf path ∧
      files.find? names = some (.file bytes) ∧ Text.Utf8.decode bytes = .ok chars ∧
      text = String.ofList (Text.Utf8.lines chars)) ∧
    (load = .ok none ↔ ∀ path ∈ paths,
      (∀ names bytes, files.locate path ≠ .ok (.file names bytes)) ∧
      files.locate path ≠ .error (.refused .nameTooLong path.toText)) ∧
    (∀ e, load = .error e ↔ ∃ before path after,
      paths = before ++ path :: after ∧ (∀ q ∈ before, PassedOver files q) ∧
      Answers files path (.error e)) ∧
    ((Path.ofText name).StaysInside →
      (∀ names bytes, files.locate directory ≠ .ok (.file names bytes)) →
      ∀ path ∈ paths, ∀ names bytes, files.locate path = .ok (.file names bytes) →
        IsBelow (files.namesOf directory) names) := by
  intro load paths
  rw [show load = firstFile files paths from rfl, firstFile_eq_none_iff]
  refine ⟨fun text => ?_, forall₂_congr fun path _ => ?_, fun e => firstFile_eq_iff (by simp),
    fun hname hdir path hpath names bytes hlocate => ?_⟩
  · rw [firstFile_eq_iff (by simp)]
    constructor
    · rintro ⟨before, path, after, hcut, hbefore, hpath⟩
      cases hpath with
      | @text names bytes chars hlocate hdecode =>
        have hfind := (Tree.find?_of_walk (Tree.locate_eq_ok hlocate) rfl).2
        exact ⟨before, path, after, names, bytes, chars, hcut, hbefore, hlocate,
          (Tree.namesOf_eq_of_file hlocate).symm, hfind, hdecode, rfl⟩
    · rintro ⟨before, path, after, names, bytes, chars, hcut, hbefore, hlocate, -, -, hdecode, rfl⟩
      exact ⟨before, path, after, hcut, hbefore, .text hlocate hdecode⟩
  · exact ⟨fun h => ⟨h.noFile, h.short⟩, fun h => ⟨h.1, h.2⟩⟩
  · obtain ⟨p, hp, rfl⟩ := staysInside_of_candidate hname path hpath
    exact Tree.isBelow_of_staysInside hdir hp hlocate

/-- A directory of templates, and a file beside it. -/
def fewFiles : Tree :=
  ⟨[], [(["tpl"], .directory), (["tpl", "parts"], .directory),
    (["tpl", "nav-tpl.html"], .directory), (["tpl", "nav.html"], .file [78]),
    (["secret.html"], .file [83])]⟩

/-- A name that goes down and up again. The first path leads to a directory, the second one to the
file. -/
theorem load_inside_downAndUp :
    fewFiles.locate (Path.ofText "tpl") = .ok .directory ∧
      (Path.ofText "parts/../nav").StaysInside ∧
      (partialsIn fewFiles (Path.ofText "tpl")).load "parts/../nav" = .ok (some "N") ∧
      ∃ names bytes, IsBelow ["tpl"] names ∧ fewFiles.find? names = some (.file bytes) := by
  have hdir : fewFiles.locate (Path.ofText "tpl") = .ok .directory := by with_unfolding_all rfl
  have hname : (Path.ofText "parts/../nav").StaysInside := by decide +kernel
  have hload : (partialsIn fewFiles (Path.ofText "tpl")).load "parts/../nav" = .ok (some "N") := by
    with_unfolding_all rfl
  obtain ⟨htext, -, -, hbelow⟩ := load_inside fewFiles (Path.ofText "tpl") "parts/../nav"
  obtain ⟨before, path, after, names, bytes, -, hcut, -, hlocate, -, hfind, -, -⟩ :=
    (htext "N").1 hload
  have hpath := hcut ▸ List.mem_append_right before List.mem_cons_self
  exact ⟨hdir, hname, hload, names, bytes,
    hbelow hname (by simp [hdir]) path hpath names bytes hlocate, hfind⟩

/-- A name that leaves the directory. There is no file below the directory at any of the three
paths, but what is beside it is loaded. -/
theorem load_outside :
    (partialsIn fewFiles (Path.ofText "tpl")).load "../secret" = .ok (some "S") ∧
      ∀ path ∈ candidates (Path.ofText "tpl") "../secret", ¬ ∃ names bytes,
        fewFiles.locate path = .ok (.file names bytes) ∧
          IsBelow (fewFiles.namesOf (Path.ofText "tpl")) names := by
  refine ⟨by with_unfolding_all rfl, ?_⟩
  have houtside : ∀ path ∈ candidates (Path.ofText "tpl") "../secret",
      ¬ IsBelow (fewFiles.namesOf (Path.ofText "tpl")) (fewFiles.namesOf path) := by
    decide +kernel
  rintro path hpath ⟨names, bytes, hlocate, hbelow⟩
  rw [← Tree.namesOf_eq_of_file hlocate] at hbelow
  exact houtside path hpath hbelow

end Mustache.Page
