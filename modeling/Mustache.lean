import Mustache.Text.Slice
import Mustache.Pattern
import Mustache.Decimal.Layout
import Mustache.Decimal.Reading
import Mustache.Text.Quoted
import Mustache.Text.Html
import Mustache.Text.Utf8
import Mustache.Table
import Mustache.Value.Text
import Mustache.Value.Key
import Mustache.Template.Parse
import Mustache.Template.Draft
import Mustache.Scanner
import Mustache.Context
import Mustache.Writer
import Mustache.Render.Depth
import Mustache.Session
import Mustache.Main
import Mustache.Json.Bound
import Mustache.Json.Printer
import Mustache.Text.Upper
import Mustache.Proofs.Text.Entities
import Mustache.Proofs.Text.Utf8
import Mustache.Proofs.Text.Words
import Mustache.Proofs.Json.Canonical
import Mustache.Proofs.Json.Printing
import Mustache.Proofs.File.Tree
import Mustache.Proofs.File.Inside
import Mustache.Proofs.Template.Standalone
import Mustache.Proofs.Template.Nested
import Mustache.Proofs.Template.Offsets
import Mustache.Proofs.Template.Mark
import Mustache.Proofs.Template.Printing
import Mustache.Proofs.Template.Locality
import Mustache.Proofs.Template.Shift
import Mustache.Proofs.Template.Order
import Mustache.Proofs.Template.Append
import Mustache.Proofs.Render.Alike
import Mustache.Proofs.Session.Interpreter
import Mustache.Proofs.Session.Refinement
import Mustache.Proofs.Template.Section
import Mustache.Proofs.Render.Leads
import Mustache.Proofs.Render.Plain
import Mustache.Proofs.Render.Transparent
import Mustache.Proofs.Page.Sharing
import Mustache.Proofs.Template.Balanced
import Mustache.Proofs.Session.OnDemand
import Mustache.Proofs.Render.Chronicle
import Mustache.Proofs.Render.Accounts
import Mustache.Proofs.Session.History
import Mustache.Proofs.Session.Failure
import Mustache.Proofs.Render.Judgement
import Mustache.Proofs.Render.Supply
import Mustache.Proofs.Value.Nearest
import Mustache.Proofs.Session.Memo
import Mustache.Proofs.Session.Replay
import Mustache.Proofs.Value.Dotted
import Mustache.Proofs.Session.Dotted
import Mustache.Proofs.Render.Unfailing
import Mustache.Proofs.Render.Markup
import Mustache.Proofs.Render.Steady
import Mustache.Proofs.Session.Apart
import Mustache.Proofs.Render.Composed
import Mustache.Proofs.Render.Watch
import Mustache.Proofs.Render.Overseen
import Mustache.Proofs.Render.Looks
import Mustache.Proofs.Render.Recall
import Mustache.Proofs.Render.Dealings
import Mustache.Proofs.Session.Watching
import Mustache.Proofs.Session.Lookups
import Mustache.Proofs.Session.Loading
import Mustache.Proofs.Template.Faults
import Mustache.Proofs.Render.Rounds
import Mustache.Proofs.Render.Inlining
import Mustache.Proofs.Session.Inlining
import Mustache.Proofs.Render.Journal
import Mustache.Proofs.Render.Rules
import Mustache.Proofs.Session.Sections
import Mustache.Proofs.Page.Writing
import Mustache.Proofs.Page.Dump
import Mustache.Proofs.Render.Iterations
import Mustache.Proofs.Template.Enclosing
import Mustache.Proofs.Session.Iterations
import Mustache.Proofs.Template.Contents
import Mustache.Proofs.Template.Spellings
import Mustache.Proofs.Render.Binding
import Mustache.Proofs.Page.Partials
import Mustache.Proofs.Template.Progress
