import BraceLisp.Command
import BraceLisp.Draft.Basic
import BraceLisp.Draft.Eval
import BraceLisp.Engine.Connect
import BraceLisp.Engine.Database
import BraceLisp.Engine.Duration
import BraceLisp.Engine.Library
import BraceLisp.Engine.Name
import BraceLisp.Engine.Parameters
import BraceLisp.Engine.Pragma
import BraceLisp.Engine.PragmaWord
import BraceLisp.Engine.Problem
import BraceLisp.Engine.Server
import BraceLisp.Engine.ServerOptions
import BraceLisp.Environment.Bindings
import BraceLisp.Environment.Change
import BraceLisp.Environment.Scope
import BraceLisp.Environment.Store
import BraceLisp.Eval.Arguments
import BraceLisp.Eval.Arithmetic
import BraceLisp.Eval.Basic
import BraceLisp.Eval.Binding
import BraceLisp.Eval.Builtin
import BraceLisp.Eval.Depth
import BraceLisp.Eval.Operation
import BraceLisp.Eval.Program
import BraceLisp.Eval.State
import BraceLisp.Fault.Basic
import BraceLisp.Fault.Catalogue
import BraceLisp.Files.Disk
import BraceLisp.Files.Mentioned
import BraceLisp.Files.ParseCache
import BraceLisp.Files.Parser
import BraceLisp.Files.Path
import BraceLisp.Files.View
import BraceLisp.History.Chronicle
import BraceLisp.History.Driver
import BraceLisp.History.Journal
import BraceLisp.History.Problem
import BraceLisp.History.Queries
import BraceLisp.History.Sql
import BraceLisp.History.Table
import BraceLisp.Main
import BraceLisp.Positional.Basic
import BraceLisp.Positional.Completion
import BraceLisp.Positional.Environments
import BraceLisp.Positional.Eval
import BraceLisp.Positional.History
import BraceLisp.Positional.Operation
import BraceLisp.Positional.Parse
import BraceLisp.Positional.Print
import BraceLisp.Positional.Read
import BraceLisp.Positional.Scan
import BraceLisp.Positional.Session
import BraceLisp.Positional.Slots
import BraceLisp.Prelude
import BraceLisp.Proofs.Draft
import BraceLisp.Proofs.Environment
import BraceLisp.Proofs.Environment.Chains
import BraceLisp.Proofs.Environment.Puts
import BraceLisp.Proofs.Eval.Arguments
import BraceLisp.Proofs.Eval.Arithmetic
import BraceLisp.Proofs.Eval.Atomicity
import BraceLisp.Proofs.Eval.Binding
import BraceLisp.Proofs.Eval.Calls
import BraceLisp.Proofs.Eval.Currying
import BraceLisp.Proofs.Eval.Definitions
import BraceLisp.Proofs.Eval.DynamicScope
import BraceLisp.Proofs.Eval.Frames
import BraceLisp.Proofs.Eval.InStep
import BraceLisp.Proofs.Eval.Invocation
import BraceLisp.Proofs.Eval.Lasting
import BraceLisp.Proofs.Eval.Yields
import BraceLisp.Proofs.Files.ParseCache
import BraceLisp.Proofs.Files.Parser
import BraceLisp.Proofs.Files.Recent
import BraceLisp.Proofs.History.Chronicle
import BraceLisp.Proofs.History.InMemory
import BraceLisp.Proofs.History.Latest
import BraceLisp.Proofs.History.Sql
import BraceLisp.Proofs.History.Table
import BraceLisp.Proofs.LinkedEnvironments
import BraceLisp.Proofs.Positional.Completion
import BraceLisp.Proofs.Positional.Environments
import BraceLisp.Proofs.Positional.Eval
import BraceLisp.Proofs.Positional.History
import BraceLisp.Proofs.Positional.Operation
import BraceLisp.Proofs.Positional.Print
import BraceLisp.Proofs.Positional.Read
import BraceLisp.Proofs.Positional.Scan
import BraceLisp.Proofs.Positional.Session
import BraceLisp.Proofs.Positional.Slots
import BraceLisp.Proofs.Prelude.Choice
import BraceLisp.Proofs.Prelude.Counting
import BraceLisp.Proofs.Prelude.HigherOrder
import BraceLisp.Proofs.Prelude.Items
import BraceLisp.Proofs.Prelude.Lists
import BraceLisp.Proofs.Prelude.Standard
import BraceLisp.Proofs.Prelude.StartUp
import BraceLisp.Proofs.Prelude.Totals
import BraceLisp.Proofs.Session.Closures
import BraceLisp.Proofs.Session.Completion
import BraceLisp.Proofs.Session.Composition
import BraceLisp.Proofs.Session.Loading
import BraceLisp.Proofs.Session.NormalForms
import BraceLisp.Proofs.Session.Reachable
import BraceLisp.Proofs.Session.Safety
import BraceLisp.Proofs.Session.Workbench
import BraceLisp.Proofs.Source.Classes
import BraceLisp.Proofs.Source.Comments
import BraceLisp.Proofs.Source.Descent
import BraceLisp.Proofs.Source.Errors
import BraceLisp.Proofs.Source.Forms
import BraceLisp.Proofs.Source.Lexemes
import BraceLisp.Proofs.Source.Nesting
import BraceLisp.Proofs.Source.Padding
import BraceLisp.Proofs.Source.Quoting
import BraceLisp.Proofs.Source.Refusal
import BraceLisp.Proofs.Source.Rendering
import BraceLisp.Proofs.Source.RoundTrip
import BraceLisp.Proofs.Source.Scan
import BraceLisp.Proofs.Source.Seam
import BraceLisp.Proofs.Source.Words
import BraceLisp.Proofs.Text.Decimal
import BraceLisp.Proofs.Text.Escape
import BraceLisp.Proofs.Text.Layout
import BraceLisp.Proofs.Text.Seam
import BraceLisp.Proofs.Text.Stray
import BraceLisp.Proofs.Value.Equality
import BraceLisp.Proofs.Value.Part
import BraceLisp.Repl.Basic
import BraceLisp.Repl.Completion
import BraceLisp.Session.Basic
import BraceLisp.Session.Report
import BraceLisp.Session.Workbench
import BraceLisp.Settings.Config
import BraceLisp.Settings.Flag
import BraceLisp.Source.Cursor
import BraceLisp.Source.Descent
import BraceLisp.Source.Parse
import BraceLisp.Source.Piece
import BraceLisp.Source.Read
import BraceLisp.Source.Stream
import BraceLisp.Source.Token
import BraceLisp.Source.Tree
import BraceLisp.Text.Banner
import BraceLisp.Text.CharClass
import BraceLisp.Text.Decimal
import BraceLisp.Text.Escape
import BraceLisp.Text.Layout
import BraceLisp.Text.Output
import BraceLisp.Text.Printable
import BraceLisp.Text.Quoted
import BraceLisp.Text.Utf8
import BraceLisp.Text.Utf8.RoundTrip
import BraceLisp.Value.Basic
import BraceLisp.Value.Builtin
import BraceLisp.Value.Equal
import BraceLisp.Value.Identity
import BraceLisp.Value.Number
import BraceLisp.Value.Print
