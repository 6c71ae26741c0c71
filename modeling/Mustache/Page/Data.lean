import Mustache.File.Tree
import Mustache.Json.Reader
import Mustache.Json.Printer

/-!
# The data of a page

A page is rendered with the object that its data file holds, or with the data of the splash screen
if there is no such file.
-/

namespace Mustache.Page

/-- The data of the splash screen. -/
def splashData : Json :=
  .obj [("appName", .str "urTrip"), ("appSlogan", .str "Plan.Report.Share"),
    ("create", .str "create your trip"), ("open", .str "open an existing trip"),
    ("share", .str "share your trip"), ("year", .str "2012"),
    ("rights", .str "All rights reserved"), ("developer", .str "Giorgio Natili"),
    ("developerSite", .str "webplatform.io")]

/-- Reads the data of a page. -/
def loadData (files : File.Tree) : Option File.Path → Except Error Json
  | none => .ok splashData
  | some path => do
    match ← Json.read (← files.readText path) with
    | .obj members => return .obj members
    | _ => throw (.notAnObject path.toText)

end Mustache.Page
