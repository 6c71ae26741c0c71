import Mustache.Proofs.Json.Printing
import Mustache.Proofs.Page.Writing

/-!
# The data of a page, written and loaded again

A run can write the data that it renders its page with. A run with that file for its data has the
same data, down to the order of the members of each object, if there are no floats in it. So it
renders the same pages, and writes the same file.

Loading has put the data in the form that is read back: objects with one member for each name, and
numbers that are not too long. What is written of it has no carriage returns, so the one line end of
texts that are read from files changes nothing, and all its other characters are those that UTF-8
gives back.

Main statement: `dump_reloads`.
-/

namespace Mustache.Page

variable {options : Options} {files dumped later : File.Tree} {data : Json}
  {names : List String} {path source out : File.Path}

/-- Data that was loaded from a file is an object that reading gives. -/
theorem canonical_of_loadData (h : loadData files (some path) = .ok data) :
    Json.Canonical data ∧ ∃ members, data = .obj members := by
  rw [loadData] at h
  cases htext : files.readText path with
  | error e =>
    rw [htext] at h
    cases h
  | ok text =>
    rw [htext] at h
    dsimp only [bind, Except.bind] at h
    cases hread : Json.read text with
    | error e =>
      rw [hread] at h
      cases h
    | ok j =>
      rw [hread] at h
      cases j with
      | obj members =>
        cases h
        exact ⟨Json.canonical_of_read hread, members, rfl⟩
      | _ => cases h

theorem exists_readText_of_loadData (h : loadData files (some path) = .ok data) :
    ∃ text, files.readText path = .ok text := by
  rw [loadData] at h
  cases htext : files.readText path with
  | error e =>
    rw [htext] at h
    cases h
  | ok text => exact ⟨text, rfl⟩

/-- Data is loaded from a file that has the text of it. -/
theorem loadData_of_readText (hdata : Json.Canonical data) (hfree : data.isFloatFree = true)
    (hobj : ∃ members, data = .obj members)
    (htext : files.readText path = .ok (Json.print data).toList) :
    loadData files (some path) = .ok data := by
  obtain ⟨members, rfl⟩ := hobj
  rw [loadData, htext]
  dsimp only [bind, Except.bind]
  rw [Json.read_print hdata hfree]
  rfl

theorem loadData_congr (h : later.readText path = files.readText path) :
    loadData later (some path) = loadData files (some path) := by
  rw [loadData, loadData, h]

/-- A run takes nothing but the data from the path of the data. -/
theorem runWith_congr {given : Given}
    (h : loadData files given.path? = loadData files options.data.path?) :
    runWith { options with data := given } files = runWith options files := by
  have hprepare : prepare { options with data := given } files = prepare options files := by
    rw [prepare, prepare, h]
  rw [runWith_eq, runWith_eq, hprepare]
  rfl

/-- A run that writes its data goes on with what is there then. -/
theorem runWith_of_write (hout : options.dataOut.path? = some out)
    (hload : loadData files options.data.path? = .ok data)
    (hdump : files.write out (Json.print data) = .ok dumped) :
    runWith options files = produce options dumped data := by
  have hprepare : prepare options files = .ok (data, dumped) := by
    rw [prepare, hload]
    dsimp only [bind, Except.bind]
    rw [hout]
    dsimp only
    rw [hdump]
    rfl
  rw [runWith_eq, hprepare]

/-- The files at the end of a run that has rendered its page, along a path that the page was not
written to. -/
theorem readText_produce {text : List Char} (hread : dumped.readText path = .ok text)
    (h : ∀ names, dumped.target? path = some names → ¬DeliveredTo options dumped names) :
    (produce options dumped data).files.readText path = .ok text := by
  rw [produce]
  cases (page options dumped data).result with
  | error e => exact hread
  | ok page =>
    dsimp only
    cases hdeliver : deliver dumped page options.output with
    | error e => exact hread
    | ok delivered =>
      dsimp only
      rcases deliver_eq_ok hdeliver with
        ⟨-, -, hleft⟩ | ⟨written, names, hgiven, hwritten, hpage, -, hleft⟩
      · rw [hleft]
        exact hread
      · obtain ⟨hnames, hfind⟩ := File.Tree.find?_of_target? hpage
        obtain ⟨others, htarget⟩ := File.Tree.exists_target?_of_readText hread
        rw [hleft, File.Tree.readText_put_of_ne hnames hfind htarget]
        · exact hread
        · rintro rfl
          exact h others htarget ⟨hgiven, written, hwritten, hpage⟩

/-! ## Loading again -/

/-- A file has some data, and has it in the one way in which it is written. So runs can load it from
there: they do what runs do that load it from anywhere else, and if they write it, it is the same
text. -/
structure Holds (files : File.Tree) (data : Json) (path : File.Path) : Prop where
  loads : loadData files (some path) = .ok data
  renders : ∀ arguments others options given source, Options.read arguments = .ok options →
    options.data.path? = some path → Options.read others = .ok { options with data := given } →
    given.path? = some source → loadData files (some source) = .ok data →
    run others files = run arguments files
  dumps : ∀ arguments options out dumped, Options.read arguments = .ok options →
    options.data.path? = some path → options.dataOut.path? = some out →
    files.write out (Json.print data) = .ok dumped →
    run arguments files = produce options dumped data ∧
      dumped.readText out = files.readText path

theorem holds_of_readText (hdata : Json.Canonical data) (hfree : data.isFloatFree = true)
    (hobj : ∃ members, data = .obj members)
    (htext : files.readText path = .ok (Json.print data).toList) : Holds files data path where
  loads := loadData_of_readText hdata hfree hobj htext
  renders arguments others options given source hread hpath hread' hsource hload := by
    have hloads := loadData_of_readText hdata hfree hobj htext
    rw [run_eq hread, run_eq hread']
    exact runWith_congr (by rw [hsource, hpath, hload, hloads])
  dumps arguments options out dumped hread hpath hout hdump := by
    have hloads := loadData_of_readText hdata hfree hobj htext
    refine ⟨?_, ?_⟩
    · rw [run_eq hread]
      exact runWith_of_write hout (by rw [hpath, hloads]) hdump
    · obtain ⟨names, htarget, rfl⟩ := File.Tree.write_eq_ok_iff.1 hdump
      rw [htext, File.Tree.readText_put htarget (Json.not_mem_print hdata hfree)]

/-- A run that writes its data, an object from a file with no floats in it, goes on with a file that
has just this data, and the file that it was loaded from has it still. What is written there stays
for good, as long as the page is not written over it. -/
theorem dump_reloads {arguments : List String} (hread : Options.read arguments = .ok options)
    (hsource : options.data.path? = some source) (hout : options.dataOut.path? = some out)
    (hload : loadData files (some source) = .ok data) (hfree : data.isFloatFree = true)
    (hdump : files.write out (Json.print data) = .ok dumped) :
    run arguments files = produce options dumped data ∧ Holds dumped data out ∧
      loadData dumped (some source) = .ok data ∧
      (∀ later, later.readText out = dumped.readText out → Holds later data out) ∧
      ((∀ names, files.target? out = some names → ¬DeliveredTo options files names) →
        (run arguments files).files.readText out = dumped.readText out) := by
  obtain ⟨hdata, hobj⟩ := canonical_of_loadData hload
  obtain ⟨names, htarget, hput⟩ := File.Tree.write_eq_ok_iff.1 hdump
  obtain ⟨hnames, hfind⟩ := File.Tree.find?_of_target? htarget
  have hreturn := Json.not_mem_print hdata hfree
  have hrun : run arguments files = produce options dumped data := by
    rw [run_eq hread]
    exact runWith_of_write hout (hsource ▸ hload) hdump
  have htext : dumped.readText out = .ok (Json.print data).toList := by
    rw [hput]
    exact File.Tree.readText_put htarget hreturn
  refine ⟨hrun, holds_of_readText hdata hfree hobj htext, ?_,
    fun later hlater => holds_of_readText hdata hfree hobj (hlater.trans htext), fun hapart => ?_⟩
  · obtain ⟨text, hsourceText⟩ := exists_readText_of_loadData hload
    obtain ⟨others, hothers⟩ := File.Tree.exists_target?_of_readText hsourceText
    by_cases heq : others = names
    · -- the data was written to the very file that it was loaded from
      rw [hput]
      exact loadData_of_readText hdata hfree hobj (File.Tree.readText_put (heq ▸ hothers) hreturn)
    · rw [hput, loadData_congr (File.Tree.readText_put_of_ne hnames hfind hothers heq), hload]
  · have htargets (p : File.Path) : dumped.target? p = files.target? p := by
      rw [hput]
      exact File.Tree.target?_put hnames hfind p
    rw [hrun, htext]
    refine readText_produce htext fun others hothers hdelivered => ?_
    obtain ⟨hgiven, written, hwritten, hpage⟩ := hdelivered
    rw [htargets] at hothers hpage
    exact hapart others hothers ⟨hgiven, written, hwritten, hpage⟩

/-- Data with two members of one name, a nested object, and a string with a carriage return in it,
which is written to the file that it is loaded from. -/
theorem dump_reloads_inPlace :
    let text := "\x7b\"b\":0,\"a\":\x7b\x7d,\"b\":\"\\r\"\x7d"
    let data := Json.obj [("b", .str "\r"), ("a", .obj [])]
    let files : File.Tree := ⟨[], [(["d.json"], .file (Text.Utf8.encode text))]⟩
    let dumped := files.put ["d.json"] (.file (Text.Utf8.encode (Json.print data)))
    Holds dumped data (File.Path.ofText "./d.json") := by
  intro text data files dumped
  have hread : Options.read ["--data", "d.json", "--data-out", "./d.json"] =
      .ok { Options.default with data := .text "d.json", dataOut := .text "./d.json" } := by
    with_unfolding_all rfl
  have hdata : Json.Canonical data := by
    refine .obj (by decide) fun m hm => ?_
    rcases List.mem_cons.1 hm with rfl | hm
    · exact .str "\r"
    · obtain rfl := List.mem_singleton.1 hm
      exact .obj List.nodup_nil nofun
  have hload : loadData files (some (File.Path.ofText "d.json")) = .ok data := by
    have hprinted : (loadData files (some (File.Path.ofText "d.json"))).toOption.map
        (fun j => (Json.print j, j.isFloatFree)) = some (Json.print data, true) := by
      decide +kernel
    cases h : loadData files (some (File.Path.ofText "d.json")) with
    | error e =>
      rw [h] at hprinted
      cases hprinted
    | ok j =>
      rw [h] at hprinted
      obtain ⟨hprint, hfree⟩ := Prod.mk.inj (Option.some.inj hprinted)
      exact congrArg _ (Json.print_injective (canonical_of_loadData h).1 hfree hdata (by decide)
        hprint)
  have hdump : files.write (File.Path.ofText "./d.json") (Json.print data) = .ok dumped :=
    File.Tree.write_eq_ok_iff.2 ⟨["d.json"], by decide +kernel, rfl⟩
  exact (dump_reloads hread rfl rfl hload (by decide) hdump).2.1

end Mustache.Page
