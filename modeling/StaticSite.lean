import StaticSite.Build.Pass
import StaticSite.Build.Record
import StaticSite.Build.Report
import StaticSite.Chunk
import StaticSite.Collaborators
import StaticSite.Command.Arguments
import StaticSite.Command.Request
import StaticSite.Command.Run
import StaticSite.Command.Table
import StaticSite.Config.Bundled
import StaticSite.Config.Convert
import StaticSite.Config.Defaults
import StaticSite.Config.Environment
import StaticSite.Config.Load
import StaticSite.Config.Rules
import StaticSite.Decimal.Layout
import StaticSite.Decimal.Reading
import StaticSite.Decimal.Shortest
import StaticSite.Digest.Md5
import StaticSite.Fault
import StaticSite.Include.Directive
import StaticSite.Include.Expansion
import StaticSite.Json.Basic
import StaticSite.Json.Reader
import StaticSite.Json.Writer
import StaticSite.Log
import StaticSite.Main
import StaticSite.Markup.Insert
import StaticSite.Markup.Minify
import StaticSite.Markup.Tag
import StaticSite.Output
import StaticSite.Path.Basic
import StaticSite.Path.Normal
import StaticSite.Pattern.Basic
import StaticSite.Pattern.Reader
import StaticSite.Schema.Basic
import StaticSite.Schema.Check
import StaticSite.Session
import StaticSite.Site.Address
import StaticSite.Site.Assets
import StaticSite.Site.Rendering
import StaticSite.Site.Settings
import StaticSite.Site.Sitemap
import StaticSite.Store
import StaticSite.Style.Bundle
import StaticSite.Style.Compact
import StaticSite.Text.Blank
import StaticSite.Text.Digit
import StaticSite.Text.Escape
import StaticSite.Text.Hex
import StaticSite.Text.Letter
import StaticSite.Text.Lowercase
import StaticSite.Text.Printable
import StaticSite.Text.Quoted
import StaticSite.Text.Range
import StaticSite.Text.Search
import StaticSite.Text.Utf8
import StaticSite.Text.Word
import StaticSite.Tree.Basic
import StaticSite.Tree.Change
import StaticSite.Tree.Walk
import StaticSite.Value.Basic
import StaticSite.Value.Clock
import StaticSite.Value.Day
import StaticSite.Value.Merge
import StaticSite.Value.Show
import StaticSite.Yaml.Document
import StaticSite.Yaml.Node
import StaticSite.Yaml.Scalar
import StaticSite.Yaml.Token
import StaticSite.Yaml.Writer
import StaticSite.Proofs.Effect
import StaticSite.Proofs.Include.Graph
import StaticSite.Proofs.Include.Unfolding
import StaticSite.Proofs.Include.Success
import StaticSite.Proofs.Include.Segments
import StaticSite.Proofs.Tree.Frame
import StaticSite.Proofs.Output
import StaticSite.Proofs.Build.Page
import StaticSite.Proofs.Build.Style
import StaticSite.Proofs.Build.Work
import StaticSite.Proofs.Build.Assets
import StaticSite.Proofs.Build.Pass
import StaticSite.Proofs.Build.Incremental
import StaticSite.Proofs.Build.Source
import StaticSite.Proofs.Include.Locality
import StaticSite.Proofs.Reading
import StaticSite.Proofs.Build.Made
import StaticSite.Proofs.Build.Agreement
import StaticSite.Proofs.Build.Tidy
import StaticSite.Proofs.Build.Watch
import StaticSite.Proofs.Build.Equivalence
import StaticSite.Proofs.Build.Dependence
import StaticSite.Proofs.Build.History
import StaticSite.Proofs.Build.Recovery
import StaticSite.Proofs.Build.Manifest
import StaticSite.Proofs.Build.Failing
import StaticSite.Proofs.Build.Reentry
import StaticSite.Proofs.Build.Account
import StaticSite.Proofs.Build.Isolation
import StaticSite.Proofs.Schema
import StaticSite.Proofs.Value.Key
import StaticSite.Proofs.Config.Field
import StaticSite.Proofs.Config.Valid
import StaticSite.Proofs.Build.Naming
import StaticSite.Proofs.Tree.Keeping
import StaticSite.Proofs.Build.Keeping
import StaticSite.Proofs.Build.Links
import StaticSite.Proofs.Build.Copying
import StaticSite.Proofs.Tree.Look
import StaticSite.Proofs.Build.Written
import StaticSite.Proofs.Build.Advance
import StaticSite.Proofs.Build.Mirror
import StaticSite.Proofs.Build.Replay
import StaticSite.Proofs.Build.Settled
import StaticSite.Proofs.Build.Repeat
import StaticSite.Proofs.Build.Steps
import StaticSite.Proofs.Build.Plan
import StaticSite.Proofs.Build.Order
import StaticSite.Proofs.Include.Traversal
import StaticSite.Proofs.Text.Front
import StaticSite.Proofs.Text.Letter
import StaticSite.Proofs.Include.Grammar
import StaticSite.Proofs.Include.Leftmost
import StaticSite.Proofs.Text.Search
import StaticSite.Proofs.Style.Compact
import StaticSite.Proofs.Markup.Insert
import StaticSite.Proofs.Markup.Substitute
import StaticSite.Proofs.Markup.Element
import StaticSite.Proofs.Markup.Blanks
import StaticSite.Proofs.Markup.Types
import StaticSite.Proofs.Build.Tags
import StaticSite.Proofs.Path.Inside
import StaticSite.Proofs.Build.Inside
import StaticSite.Proofs.Build.Transfer
import StaticSite.Proofs.Build.Accounted
import StaticSite.Proofs.Value.Merge
import StaticSite.Proofs.Config.Environment
import StaticSite.Proofs.Config.Layers
import StaticSite.Proofs.Config.Refusals
import StaticSite.Proofs.Json.Number
import StaticSite.Proofs.Json.Form
import StaticSite.Proofs.Json.RoundTrip
import StaticSite.Proofs.Build.Compaction
import StaticSite.Proofs.Text.Split
import StaticSite.Proofs.Text.Reference
import StaticSite.Proofs.Site.Address
import StaticSite.Proofs.Site.Sitemap
import StaticSite.Proofs.Markup.Script
import StaticSite.Proofs.Path.Order
import StaticSite.Proofs.Config.Normal
import StaticSite.Proofs.Build.WatchedFiles
import StaticSite.Proofs.Tree.Opening
import StaticSite.Proofs.Build.Descent
import StaticSite.Proofs.Build.Ending
import StaticSite.Proofs.Text.Infix
import StaticSite.Proofs.Command.Shown
import StaticSite.Proofs.Command.Log
import StaticSite.Proofs.Include.Faults
import StaticSite.Proofs.Command.Failure
import StaticSite.Proofs.Command.Answer
