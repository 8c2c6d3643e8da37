import PageTree.Callback.Basic
import PageTree.Callback.Source
import PageTree.ElementId
import PageTree.Escape
import PageTree.Handler.Basic
import PageTree.Handler.Behaviour
import PageTree.Handler.Pass
import PageTree.Handler.Recipe
import PageTree.Handler.Standard
import PageTree.Json.Basic
import PageTree.Json.Numeral
import PageTree.Json.Printer
import PageTree.Json.Reader
import PageTree.Live.Client
import PageTree.Live.Document
import PageTree.Live.Document.Step
import PageTree.Live.EntryPoint
import PageTree.Live.Fault
import PageTree.Live.Hook
import PageTree.Live.Routine
import PageTree.Live.Service
import PageTree.Live.Slots
import PageTree.Live.Value
import PageTree.Markup.Assembly
import PageTree.Markup.Compaction
import PageTree.Markup.Fragments
import PageTree.Node.Attribute
import PageTree.Node.Basic
import PageTree.Node.Outline
import PageTree.Node.Template
import PageTree.Number.Layout
import PageTree.Number.Reading
import PageTree.Number.Shortest
import PageTree.OrderedMap
import PageTree.Outline
import PageTree.Page
import PageTree.Proofs.Addressing
import PageTree.Proofs.Agreement
import PageTree.Proofs.AttributeCalls
import PageTree.Proofs.Attributes
import PageTree.Proofs.Callback.Braces
import PageTree.Proofs.Callback.Literals
import PageTree.Proofs.Callback.Parameters
import PageTree.Proofs.Callback.Shapes
import PageTree.Proofs.Compaction.Cells
import PageTree.Proofs.Compaction.Expansions
import PageTree.Proofs.Compaction.Glyphs
import PageTree.Proofs.Compaction.Losses
import PageTree.Proofs.Compaction.Neighbours
import PageTree.Proofs.Compaction.Passes
import PageTree.Proofs.Compaction.Placeholders
import PageTree.Proofs.Compaction.Repetition
import PageTree.Proofs.Compaction.ScriptParts
import PageTree.Proofs.Compaction.Scripts
import PageTree.Proofs.Content
import PageTree.Proofs.Escaped
import PageTree.Proofs.Grouping.Trees
import PageTree.Proofs.Grouping.Values
import PageTree.Proofs.Handled
import PageTree.Proofs.Identifiers
import PageTree.Proofs.Json.Fields
import PageTree.Proofs.Json.Numerals
import PageTree.Proofs.Json.ReadBack
import PageTree.Proofs.Live.Accounts
import PageTree.Proofs.Live.Annals
import PageTree.Proofs.Live.Arrivals
import PageTree.Proofs.Live.Caching
import PageTree.Proofs.Live.Chronicles
import PageTree.Proofs.Live.Cleanups
import PageTree.Proofs.Live.Conduct
import PageTree.Proofs.Live.Consistency
import PageTree.Proofs.Live.Contexts
import PageTree.Proofs.Live.Cursors
import PageTree.Proofs.Live.Debts
import PageTree.Proofs.Live.Departures
import PageTree.Proofs.Live.Drifting
import PageTree.Proofs.Live.Executions
import PageTree.Proofs.Live.Failures
import PageTree.Proofs.Live.Forests
import PageTree.Proofs.Live.Holdings
import PageTree.Proofs.Live.IdAssignments
import PageTree.Proofs.Live.Inertness
import PageTree.Proofs.Live.Instances
import PageTree.Proofs.Live.Itineraries
import PageTree.Proofs.Live.Mismatches
import PageTree.Proofs.Live.Navigation
import PageTree.Proofs.Live.Nesting
import PageTree.Proofs.Live.Notices
import PageTree.Proofs.Live.Operations
import PageTree.Proofs.Live.Orders
import PageTree.Proofs.Live.Overlaps
import PageTree.Proofs.Live.Parallels
import PageTree.Proofs.Live.Pieces
import PageTree.Proofs.Live.Placement
import PageTree.Proofs.Live.Positions
import PageTree.Proofs.Live.Records
import PageTree.Proofs.Live.Registration
import PageTree.Proofs.Live.Remounts
import PageTree.Proofs.Live.Renders
import PageTree.Proofs.Live.Replacements
import PageTree.Proofs.Live.Restarts
import PageTree.Proofs.Live.Retracing
import PageTree.Proofs.Live.Roots
import PageTree.Proofs.Live.Schedules
import PageTree.Proofs.Live.ScriptElements
import PageTree.Proofs.Live.Setters
import PageTree.Proofs.Live.Silence
import PageTree.Proofs.Live.Subscriptions
import PageTree.Proofs.Live.Trails
import PageTree.Proofs.Live.Views
import PageTree.Proofs.Live.Writes
import PageTree.Proofs.Lockstep
import PageTree.Proofs.Markup.Decoding
import PageTree.Proofs.Markup.FailureComments
import PageTree.Proofs.Markup.Lookalikes
import PageTree.Proofs.Markup.Minified
import PageTree.Proofs.Markup.OutermostTag
import PageTree.Proofs.Markup.Reading
import PageTree.Proofs.Markup.RoundTrip
import PageTree.Proofs.Markup.Sections
import PageTree.Proofs.Markup.Tags
import PageTree.Proofs.Markup.Written
import PageTree.Proofs.MergedScripts
import PageTree.Proofs.Places
import PageTree.Proofs.Restoring
import PageTree.Proofs.Reversal
import PageTree.Proofs.Routing
import PageTree.Proofs.Scanning
import PageTree.Proofs.Script.Building
import PageTree.Proofs.Script.Declarations
import PageTree.Proofs.Script.Execution
import PageTree.Proofs.Script.Guarded
import PageTree.Proofs.Script.Layout
import PageTree.Proofs.Script.ObjectLiterals
import PageTree.Proofs.Script.Source
import PageTree.Proofs.Shortening.Binders
import PageTree.Proofs.Shortening.Bindings
import PageTree.Proofs.Shortening.Expansion
import PageTree.Proofs.Shortening.Passes
import PageTree.Proofs.Shortening.References
import PageTree.Proofs.Shortening.Uses
import PageTree.Proofs.Specificity
import PageTree.Route.Pattern
import PageTree.Route.Router
import PageTree.Scenario.Action
import PageTree.Scenario.Meaning
import PageTree.Scenario.Report
import PageTree.Script.Generator
import PageTree.Script.NameTable
import PageTree.Script.Statement
import PageTree.Settings
import PageTree.Text.Blank
import PageTree.Text.Cased
import PageTree.Text.CharSet
import PageTree.Text.LowerCase
import PageTree.Text.Scan
import PageTree.Text.Shown
import PageTree.Text.Word
