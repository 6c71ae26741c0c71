import Mustache.Page.Command
import Mustache.Proofs.File.Tree

/-!
# What the page command writes

A run has three stages that can fail, and two that write: the data is loaded, and written to a file
if that is asked for; the page is rendered; and the page is put out or written to a file. What is
written comes after all that could fail before it. So a run that fails has written no page, and the
data only if it was loaded; and whether the page goes to a file makes no difference to anything
before that.

The file that the page is written to may be any other file of the run, such as its template. But a
path that the file system refuses is refused here as well, what is put out is the path without its
empty segments and single dots, and two paths may lead to one file without being the same
(`not_redirects_oddPaths`). Data with half a character in a string is left out: a text with it has
no bytes, and a file that it is to be written to is emptied before that shows.

Main statement: `run_writes`.
-/

namespace Mustache.Page

variable {options : Options} {files dumped left : File.Tree} {data : Json} {names : List String}
  {text out : String} {given : Given}

/-! ## Stages -/

/-- The data of a run, and the files that there are once it was written, if that is asked for. -/
def prepare (options : Options) (files : File.Tree) : Except Error (Json × File.Tree) := do
  let data ← loadData files options.data.path?
  match options.dataOut.path? with
  | none => return (data, files)
  | some path =>
    let dumped ← (files.write path (Json.print data)).mapError Error.file
    return (data, dumped)

theorem runWith_eq (options : Options) (files : File.Tree) : runWith options files =
    match prepare options files with
    | .error e => ⟨.error e, files, []⟩
    | .ok (data, dumped) => produce options dumped data := by
  rw [runWith, prepare]
  cases loadData files options.data.path? with
  | error e => rfl
  | ok data =>
    dsimp only [bind, Except.bind]
    cases options.dataOut.path? with
    | none => rfl
    | some path =>
      dsimp only
      cases files.write path (Json.print data) with
      | error e => rfl
      | ok dumped => rfl

theorem run_eq {arguments : List String} (hread : Options.read arguments = .ok options) :
    run arguments files = runWith options files := by
  rw [run, hread]

/-- The data was loaded, and written where its path leads or nowhere. -/
theorem prepare_eq_ok (h : prepare options files = .ok (data, dumped)) :
    loadData files options.data.path? = .ok data ∧
      (dumped = files ∨ ∃ path names, options.dataOut.path? = some path ∧
        files.target? path = some names ∧
        dumped = files.put names (.file (Text.Utf8.encode (Json.print data)))) := by
  rw [prepare] at h
  cases hdata : loadData files options.data.path? with
  | error e =>
    rw [hdata] at h
    cases h
  | ok loaded =>
    rw [hdata] at h
    dsimp only [bind, Except.bind] at h
    cases hout : options.dataOut.path? with
    | none =>
      rw [hout] at h
      cases h
      exact ⟨rfl, .inl rfl⟩
    | some path =>
      rw [hout] at h
      dsimp only at h
      cases hwrite : files.write path (Json.print loaded) with
      | error e =>
        rw [hwrite] at h
        cases h
      | ok written =>
        rw [hwrite] at h
        cases h
        obtain ⟨names, htarget, hput⟩ := File.Tree.write_eq_ok_iff.1 hwrite
        exact ⟨rfl, .inr ⟨path, names, rfl, htarget, hput⟩⟩

/-- Paths lead to the same places after the data was written. -/
theorem target?_of_prepare (h : prepare options files = .ok (data, dumped)) (path : File.Path) :
    dumped.target? path = files.target? path := by
  rcases (prepare_eq_ok h).2 with rfl | ⟨out, names, -, htarget, rfl⟩
  · rfl
  · obtain ⟨hnames, hfind⟩ := File.Tree.find?_of_target? htarget
    exact File.Tree.target?_put hnames hfind path

/-- The page is put out, or written where its path leads. -/
theorem deliver_eq_ok (h : deliver files text given = .ok (out, left)) :
    (given = .nothing ∧ out = text ∧ left = files) ∨
      ∃ path names, given ≠ .nothing ∧ given.path = .ok path ∧ files.target? path = some names ∧
        out = "Wrote: " ++ path.toText ++ "\n" ∧
        left = files.put names (.file (Text.Utf8.encode text)) := by
  cases given with
  | nothing =>
    cases h
    exact .inl ⟨rfl, rfl, rfl⟩
  | empty => cases h
  | text s =>
    refine .inr ⟨File.Path.ofText s, ?_⟩
    simp only [deliver, Given.path, bind, Except.bind] at h
    cases hwrite : files.write (File.Path.ofText s) text with
    | error e =>
      rw [hwrite] at h
      cases h
    | ok written =>
      rw [hwrite] at h
      cases h
      obtain ⟨names, htarget, hput⟩ := File.Tree.write_eq_ok_iff.1 hwrite
      exact ⟨names, nofun, rfl, htarget, rfl, hput⟩

/-- Where its path leads, the page is written. -/
theorem deliver_text {s : String} (h : files.target? (File.Path.ofText s) = some names) :
    deliver files text (.text s) =
      .ok ("Wrote: " ++ (File.Path.ofText s).toText ++ "\n",
        files.put names (.file (Text.Utf8.encode text))) := by
  have hwrite : files.write (File.Path.ofText s) text =
      .ok (files.put names (.file (Text.Utf8.encode text))) :=
    File.Tree.write_eq_ok_iff.2 ⟨names, h, rfl⟩
  simp only [deliver, Given.path, bind, Except.bind]
  rw [hwrite]
  rfl

/-! ## What a run changes -/

/-- The names of the file that some data is written to, if it is written. -/
def DumpedTo (options : Options) (files : File.Tree) (data : Json) (names : List String) : Prop :=
  loadData files options.data.path? = .ok data ∧
    ∃ path, options.dataOut.path? = some path ∧ files.target? path = some names

/-- The names of the file that the page is written to, if it is written. -/
def DeliveredTo (options : Options) (files : File.Tree) (names : List String) : Prop :=
  options.output ≠ .nothing ∧
    ∃ path, options.output.path = .ok path ∧ files.target? path = some names

/-- A run writes only what it should. A file that is not as it was is the one that the data was
written to, and has all of the data; or it is the one that the page was written to, and the run has
come to its end. -/
structure WritesOnly (options : Options) (files : File.Tree) (r : Run) : Prop where
  failed : ∀ e, r.result = .error e → ∀ names, r.files.find? names ≠ files.find? names →
    ∃ data, DumpedTo options files data names ∧
      r.files.find? names = some (.file (Text.Utf8.encode (Json.print data)))
  ended : ∀ out, r.result = .ok out → ∀ names, r.files.find? names ≠ files.find? names →
    DeliveredTo options files names ∨ ∃ data, DumpedTo options files data names ∧
      r.files.find? names = some (.file (Text.Utf8.encode (Json.print data)))

/-- The file that the data was written to is the only one that has changed by then. -/
theorem dumpedTo_of_find?_ne (h : prepare options files = .ok (data, dumped))
    (hne : dumped.find? names ≠ files.find? names) :
    DumpedTo options files data names ∧
      dumped.find? names = some (.file (Text.Utf8.encode (Json.print data))) := by
  obtain ⟨hdata, rfl | ⟨path, others, hout, htarget, rfl⟩⟩ := prepare_eq_ok h
  · exact absurd rfl hne
  · rw [File.Tree.find?_put (File.Tree.find?_of_target? htarget).1] at hne ⊢
    by_cases heq : names = others
    · rw [if_pos heq]
      exact ⟨⟨hdata, path, hout, heq ▸ htarget⟩, rfl⟩
    · rw [if_neg heq] at hne
      exact absurd rfl hne

theorem writesOnly_produce (h : prepare options files = .ok (data, dumped)) :
    WritesOnly options files (produce options dumped data) := by
  have hdumped {names : List String} (hne : dumped.find? names ≠ files.find? names) :=
    dumpedTo_of_find?_ne h hne
  rw [produce]
  cases (page options dumped data).result with
  | error e => exact ⟨fun _ _ _ hne => ⟨data, hdumped hne⟩, nofun⟩
  | ok text =>
    dsimp only
    cases hdeliver : deliver dumped text options.output with
    | error e => exact ⟨fun _ _ _ hne => ⟨data, hdumped hne⟩, nofun⟩
    | ok delivered =>
      refine ⟨nofun, fun _ _ names hne => ?_⟩
      dsimp only at hne ⊢
      rcases deliver_eq_ok hdeliver with
        ⟨-, -, hleft⟩ | ⟨path, others, hgiven, hpath, hpage, -, hleft⟩
      · rw [hleft] at hne ⊢
        exact .inr ⟨data, hdumped hne⟩
      · rw [hleft, File.Tree.find?_put (File.Tree.find?_of_target? hpage).1] at hne ⊢
        by_cases heq : names = others
        · rw [target?_of_prepare h] at hpage
          exact .inl ⟨hgiven, path, hpath, heq ▸ hpage⟩
        · rw [if_neg heq] at hne ⊢
          exact .inr ⟨data, hdumped hne⟩

theorem writesOnly_runWith (options : Options) (files : File.Tree) :
    WritesOnly options files (runWith options files) := by
  rw [runWith_eq]
  cases h : prepare options files with
  | error e => exact ⟨fun _ _ _ hne => absurd rfl hne, nofun⟩
  | ok prepared => exact writesOnly_produce h

/-! ## Runs that put the page elsewhere -/

/-- A run with the page written to a file against the run without that. It comes to its end if and
only if the other one does, and then it has written what the other one puts out, all of it and only
where the path leads, and puts out nothing but the path. -/
structure Redirects (files : File.Tree) (path : File.Path) (r redirected : Run) : Prop where
  ended : ∀ text, r.result = .ok text →
    redirected.result = .ok ("Wrote: " ++ path.toText ++ "\n") ∧
      redirected.files.read path = .ok (Text.Utf8.encode text) ∧
      ∀ names, files.target? path ≠ some names →
        redirected.files.find? names = r.files.find? names
  failed : ∀ e, r.result = .error e →
    redirected.result = .error e ∧ redirected.files = r.files ∧
      ∀ names, files.target? path = some names → r.files.find? names = files.find? names

theorem redirects_produce {s : String} (hnothing : options.output = .nothing)
    (h : prepare options files = .ok (data, dumped))
    (htarget : files.target? (File.Path.ofText s) = some names)
    (hkept : dumped.find? names = files.find? names) :
    Redirects files (File.Path.ofText s) (produce options dumped data)
      (produce { options with output := .text s } dumped data) := by
  have hpage : page { options with output := .text s } dumped data = page options dumped data := rfl
  have hdumped := (target?_of_prepare h _).trans htarget
  obtain ⟨hnames, hfind⟩ := File.Tree.find?_of_target? hdumped
  rw [produce, produce, hpage, hnothing]
  cases (page options dumped data).result with
  | error e =>
    refine ⟨nofun, fun e' he' => ⟨he', rfl, fun others hothers => ?_⟩⟩
    rw [htarget] at hothers
    exact Option.some.inj hothers ▸ hkept
  | ok text =>
    dsimp only
    rw [deliver_text hdumped]
    refine ⟨fun text' htext' => ?_, nofun⟩
    cases htext'
    refine ⟨rfl, ?_, fun others hothers => ?_⟩
    · rw [File.Tree.read_eq ((File.Tree.target?_put hnames hfind _).trans hdumped),
        File.Tree.find?_put hnames, if_pos rfl]
    · rw [File.Tree.find?_put hnames, if_neg fun heq : others = names => hothers (heq ▸ htarget)]
      rfl

/-- A run that puts out its page and one that writes it along a path part where the page is written,
and not before. -/
theorem redirects_runWith {s : String} (hnothing : options.output = .nothing)
    (htarget : files.target? (File.Path.ofText s) = some names)
    (hapart : ∀ out, options.dataOut.path? = some out → files.target? out ≠ some names) :
    Redirects files (File.Path.ofText s) (runWith options files)
      (runWith { options with output := .text s } files) := by
  have hprepare : prepare { options with output := .text s } files = prepare options files := rfl
  rw [runWith_eq, runWith_eq, hprepare]
  cases h : prepare options files with
  | error e => exact ⟨nofun, fun e' he' => ⟨he', rfl, fun _ _ => rfl⟩⟩
  | ok prepared =>
    refine redirects_produce hnothing h htarget (Classical.byContradiction fun hne => ?_)
    obtain ⟨⟨-, out, hout, hdumped⟩, -⟩ := dumpedTo_of_find?_ne h hne
    exact hapart out hout hdumped

/-- What a run puts out where its page goes to no file is the page. -/
theorem page_of_runWith (hnothing : options.output = .nothing)
    (htext : (runWith options files).result = .ok text) :
    ∃ data, loadData files options.data.path? = .ok data ∧
      (page options (runWith options files).files data).result = .ok text := by
  rw [runWith_eq] at htext ⊢
  cases h : prepare options files with
  | error e =>
    rw [h] at htext
    cases htext
  | ok prepared =>
    obtain ⟨data, dumped⟩ := prepared
    rw [h] at htext
    refine ⟨data, (prepare_eq_ok h).1, ?_⟩
    dsimp only at htext ⊢
    rw [produce, hnothing] at htext ⊢
    cases hpage : (page options dumped data).result with
    | error e =>
      rw [hpage] at htext
      cases htext
    | ok text' =>
      rw [hpage] at htext
      cases htext
      exact hpage

/-- What the page command writes, for every tree of files, if there are no half characters in its
data. Whatever options are accepted, the run changes only the file that its data goes to and the one
that its page goes to, the latter only if it comes to its end, and the former has all of the data.
What it puts out where the page goes to no file is the page, and with a path for the page, in a
directory that there is and to a file other than that of the data, it is the same page that is
written. -/
theorem run_writes (files : File.Tree) :
    (∀ arguments options, Options.read arguments = .ok options →
      loadData files options.data.path? ≠ .error .loneHalf →
      WritesOnly options files (run arguments files)) ∧
    (∀ arguments options, Options.read arguments = .ok options → options.output = .nothing →
      ∀ text, (run arguments files).result = .ok text →
        ∃ data, loadData files options.data.path? = .ok data ∧
          (page options (run arguments files).files data).result = .ok text) ∧
    ∀ arguments redirected options s,
      Options.read arguments = .ok options → options.output = .nothing →
      Options.read redirected = .ok { options with output := .text s } →
      loadData files options.data.path? ≠ .error .loneHalf →
      File.Tree.Acceptable (File.Path.ofText s) →
      files.locate (File.Path.ofText s).parent = .ok .directory →
      files.locate (File.Path.ofText s) ≠ .ok .directory →
      (∀ out, options.dataOut.path? = some out →
        files.target? out ≠ files.target? (File.Path.ofText s)) →
      Redirects files (File.Path.ofText s) (run arguments files) (run redirected files) := by
  refine ⟨fun arguments options hread _ => ?_,
    fun arguments options hread hnothing text htext => ?_,
    fun arguments redirected options s hread hnothing hredirected _ hs hparent hdir hapart => ?_⟩
  · rw [run_eq hread]
    exact writesOnly_runWith options files
  · rw [run_eq hread] at htext ⊢
    exact page_of_runWith hnothing htext
  · obtain ⟨names, htarget⟩ := File.Tree.exists_target?_of_parent hs hparent hdir
    rw [run_eq hread, run_eq hredirected]
    exact redirects_runWith hnothing htarget fun out hout => htarget ▸ hapart out hout

/-- A page that is written over its own template. -/
theorem run_writes_overTemplate :
    let files : File.Tree := ⟨[], [(["t.html"], .file (Text.Utf8.encode "x"))]⟩
    let arguments := ["--template", "t.html", "--data-out", "o.json"]
    Redirects files (File.Path.ofText "t.html") (run arguments files)
      (run (arguments ++ ["--output", "t.html"]) files) := by
  intro files arguments
  have hread : Options.read arguments = .ok { Options.default with
      template := .text "t.html", dataOut := .text "o.json" } := by
    with_unfolding_all rfl
  have hredirected : Options.read (arguments ++ ["--output", "t.html"]) = .ok { Options.default with
      template := .text "t.html", dataOut := .text "o.json", output := .text "t.html" } := by
    with_unfolding_all rfl
  have hs : File.Tree.Acceptable (File.Path.ofText "t.html") :=
    ⟨by decide +kernel, by decide +kernel, by decide +kernel⟩
  have hlocate : files.target? (File.Path.ofText "t.html") = some ["t.html"] := by decide +kernel
  refine (run_writes files).2.2 _ _ _ _ hread rfl hredirected nofun hs ?_ ?_ ?_
  · with_unfolding_all rfl
  · intro h
    rw [File.Tree.target?, h] at hlocate
    cases hlocate
  · intro out hout
    cases hout
    decide +kernel

/-- A run whose page is to go where no file could be fails. -/
theorem runWith_fails_of_target? {s : String} (hs : options.output = .text s)
    (htarget : files.target? (File.Path.ofText s) = none) :
    (runWith options files).result.toOption = none := by
  rw [runWith_eq]
  cases h : prepare options files with
  | error e => rfl
  | ok prepared =>
    obtain ⟨data, dumped⟩ := prepared
    dsimp only
    rw [produce]
    cases (page options dumped data).result with
    | error e => rfl
    | ok text =>
      dsimp only
      cases hdeliver : deliver dumped text options.output with
      | error e => rfl
      | ok delivered =>
        rw [hs] at hdeliver
        rcases deliver_eq_ok hdeliver with ⟨hnothing, -⟩ | ⟨path, names, -, hpath, hdelivered, -⟩
        · cases hnothing
        · cases hpath
          rw [target?_of_prepare h, htarget] at hdelivered
          cases hdelivered

/-- A word that starts with no dash is a value. -/
theorem read_template_output {s : String} (hs : s.toList.head? ≠ some '-') :
    Options.read ["--template", "t.html", "--output", s] =
      .ok { Options.default with template := .text "t.html", output := .text s } := by
  have hvalue : Word.ofText s = .ok (.value s) := by
    rw [Word.ofText]
    exact if_pos hs
  have hdashes : s ≠ "--" := by
    rintro rfl
    exact hs rfl
  have htemplate : Word.ofText "--template" = .ok (.option .template .nothing) := by
    with_unfolding_all rfl
  have hname : Word.ofText "t.html" = .ok (.value "t.html") := by with_unfolding_all rfl
  have houtput : Word.ofText "--output" = .ok (.option .output .nothing) := by
    with_unfolding_all rfl
  have hall : Word.ofTexts ["--template", "t.html", "--output", s] =
      .ok [.option .template .nothing, .value "t.html", .option .output .nothing, .value s] := by
    simp [Word.ofTexts, htemplate, hname, houtput, hdashes, hvalue, bind, Except.bind, pure,
      Except.pure]
  rw [Options.read, hall]
  rfl

/-- Paths in the current directory that lead to no directory and are not the path of the data. One
is too long for the file system, so the run fails that would put its page out. One has a dot in
front, which is not put out. And one leads to the file of the data all the same, so a run that fails
has changed that file. -/
theorem not_redirects_oddPaths :
    let files : File.Tree := ⟨[], [(["t.html"], .file (Text.Utf8.encode "x"))]⟩
    let long := String.ofList (List.replicate 256 'a')
    let nested : File.Tree := ⟨[],
      [(["d"], .directory), (["data.json"], .file (Text.Utf8.encode "\x7b\x7d"))]⟩
    let failing := ["--template", "t.html", "--data", "data.json", "--data-out", "o.json",
      "--output", "d/../o.json"]
    ((File.Path.ofText long).parent = ⟨"", []⟩ ∧
      (files.locate (File.Path.ofText long)).toOption.isNone = true ∧
      (run ["--template", "t.html"] files).result.toOption = some "x" ∧
      (run ["--template", "t.html", "--output", long] files).result.toOption = none) ∧
    (files.target? (File.Path.ofText "./o.html") = some ["o.html"] ∧
      (run ["--template", "t.html", "--output", "./o.html"] files).result.toOption =
        some "Wrote: o.html\n") ∧
    (nested.target? (File.Path.ofText "d/../o.json") = some ["o.json"] ∧
      (run failing nested).result.toOption = none ∧ nested.find? ["o.json"] = none ∧
      (run failing nested).files.find? ["o.json"] =
        some (.file (Text.Utf8.encode "\x7b\x7d"))) := by
  intro files long nested failing
  have hpath : File.Path.ofText long = ⟨"", [long]⟩ := by
    have hroot : File.Path.rootOf (List.replicate 256 'a') = "" := by decide +kernel
    have hsegments : ((File.Path.splitSlashes (List.replicate 256 'a')).filter fun s =>
        s ≠ [] ∧ s ≠ ['.']) = [List.replicate 256 'a'] := by decide +kernel
    rw [File.Path.ofText, String.toList_ofList, hroot, hsegments]
    rfl
  have hlong : 255 < File.Tree.byteLength long := by
    rw [File.Tree.byteLength_ofList]
    decide +kernel
  have hlocate := File.Tree.locate_of_long (t := files) (p := File.Path.ofText long)
    (congrArg File.Path.segments hpath) hlong
  refine ⟨⟨?_, ?_, by decide +kernel, ?_⟩, by decide +kernel, by decide +kernel⟩
  · rw [hpath]
    rfl
  · rw [hlocate]
    rfl
  · have hdash : long.toList.head? ≠ some '-' := by
      rw [String.toList_ofList]
      decide
    rw [run_eq (read_template_output hdash)]
    refine runWith_fails_of_target? rfl ?_
    rw [File.Tree.target?, hlocate]
    rfl

end Mustache.Page
