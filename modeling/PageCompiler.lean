import PageCompiler.Assets
import PageCompiler.Binary64
import PageCompiler.Chunk
import PageCompiler.Condition
import PageCompiler.Diagnostic
import PageCompiler.Dict
import PageCompiler.Document.Basic
import PageCompiler.Document.Build
import PageCompiler.Document.Reader
import PageCompiler.Document.Transform
import PageCompiler.Document.Walk
import PageCompiler.Document.Writer
import PageCompiler.Generator
import PageCompiler.Html.Construction
import PageCompiler.Html.Dom
import PageCompiler.Html.Foreign
import PageCompiler.Html.Modes
import PageCompiler.Html.Reference
import PageCompiler.Html.Token
import PageCompiler.Json.Basic
import PageCompiler.Json.Printer
import PageCompiler.Json.Reader
import PageCompiler.Json.Record
import PageCompiler.Json.Text
import PageCompiler.Linker
import PageCompiler.Location
import PageCompiler.Mapping.Apply
import PageCompiler.Mapping.Basic
import PageCompiler.Mapping.Targets
import PageCompiler.Markup.Basic
import PageCompiler.Markup.Canvas
import PageCompiler.Options
import PageCompiler.Page.Context
import PageCompiler.Page.Generate
import PageCompiler.Page.HeadTags
import PageCompiler.Page.Imports
import PageCompiler.Page.Reference
import PageCompiler.Page.Slot
import PageCompiler.Page.Stylesheet
import PageCompiler.Page.Template
import PageCompiler.Resolve.Component
import PageCompiler.Resolve.Embedding
import PageCompiler.Resolve.Head
import PageCompiler.Resolve.Keys
import PageCompiler.Resolve.Links
import PageCompiler.Resolve.Names
import PageCompiler.Resolve.Repetitions
import PageCompiler.Resolve.Styles
import PageCompiler.Script.Expression
import PageCompiler.Script.Identifier
import PageCompiler.Script.Import
import PageCompiler.Script.Layout
import PageCompiler.Script.Lexeme
import PageCompiler.Text.Blank
import PageCompiler.Text.Casing
import PageCompiler.Text.Sha256
import PageCompiler.Proofs.Keys.Assignment
import PageCompiler.Proofs.Linking.Order
import PageCompiler.Proofs.Linking.Text
import PageCompiler.Proofs.Dict
import PageCompiler.Proofs.Page.Run
import PageCompiler.Proofs.Page.Context
import PageCompiler.Proofs.Page.Copy
import PageCompiler.Proofs.Page.Definitions
import PageCompiler.Proofs.Page.Growth
import PageCompiler.Proofs.Page.Instance
import PageCompiler.Proofs.Page.Collision
import PageCompiler.Proofs.Page.DoubledKeys
import PageCompiler.Proofs.Page.Trace
import PageCompiler.Proofs.Page.Scope
import PageCompiler.Proofs.Page.Agreement
import PageCompiler.Proofs.Page.Congruence
import PageCompiler.Proofs.Page.Filling
import PageCompiler.Proofs.Page.Isolation
import PageCompiler.Proofs.Page.Forwarding
import PageCompiler.Proofs.Page.SlotScope
import PageCompiler.Proofs.Page.Reaching
import PageCompiler.Proofs.Page.Steps
import PageCompiler.Proofs.Page.Extension
import PageCompiler.Proofs.Page.Calls
import PageCompiler.Proofs.Page.Ending
import PageCompiler.Proofs.Page.Assembly
import PageCompiler.Proofs.Page.Termination
import PageCompiler.Proofs.Page.Reuse
import PageCompiler.Proofs.Linking.Namesakes
import PageCompiler.Proofs.Linking.Files
import PageCompiler.Proofs.Json.Canonical
import PageCompiler.Proofs.Document.Walk
import PageCompiler.Proofs.Document.Passes
import PageCompiler.Proofs.Resolve.Passes
import PageCompiler.Proofs.Resolve.Defaults
import PageCompiler.Proofs.Text.Parts
import PageCompiler.Proofs.Text.Ways
import PageCompiler.Proofs.Markup.Classes
import PageCompiler.Proofs.Markup.Printing
import PageCompiler.Proofs.Page.Threads
import PageCompiler.Proofs.Page.StyleStage
import PageCompiler.Proofs.Page.SheetOrder
import PageCompiler.Proofs.Page.Settled
import PageCompiler.Proofs.Page.Expansions
import PageCompiler.Proofs.Page.Descent
import PageCompiler.Proofs.Page.Stages
import PageCompiler.Proofs.Page.Styles
import PageCompiler.Proofs.Json.Steady
import PageCompiler.Proofs.Document.Steady
import PageCompiler.Proofs.Document.Tidy
import PageCompiler.Proofs.Json.Written
import PageCompiler.Proofs.Document.RoundTrip
import PageCompiler.Proofs.Resolve.RoundTrip
import PageCompiler.Proofs.Page.Visits
import PageCompiler.Proofs.Page.Ordered
import PageCompiler.Proofs.Page.Conservation
import PageCompiler.Proofs.Page.Sources
import PageCompiler.Proofs.Text.Casing
import PageCompiler.Proofs.Page.StyledOnce
import PageCompiler.Proofs.Resolve.Failures
import PageCompiler.Proofs.Page.Failures
import PageCompiler.Proofs.Markup.Acyclic
import PageCompiler.Proofs.Page.Head
import PageCompiler.Proofs.Page.Acyclic
import PageCompiler.Proofs.Resolve.Through
import PageCompiler.Proofs.Resolve.Embedding
import PageCompiler.Proofs.Resolve.Places
import PageCompiler.Proofs.Page.Embedding
import PageCompiler.Proofs.Page.Reached
import PageCompiler.Proofs.Page.Finished
import PageCompiler.Proofs.Page.LocalLinks
import PageCompiler.Proofs.Json.PageText
import PageCompiler.Proofs.Page.References
import PageCompiler.Proofs.Page.SlotPlaces
import PageCompiler.Proofs.Page.Imports
import PageCompiler.Proofs.Keys.Usable
import PageCompiler.Proofs.Resolve.DataSources
import PageCompiler.Proofs.Document.Depth
import PageCompiler.Proofs.Resolve.Renaming
import PageCompiler.Proofs.Resolve.Templates
import PageCompiler.Proofs.Resolve.Wrapping
import PageCompiler.Proofs.Resolve.Brought
import PageCompiler.Proofs.Resolve.Ranks
import PageCompiler.Proofs.Page.Conditions
import PageCompiler.Proofs.Resolve.Styles
import PageCompiler.Proofs.Page.PropertyNames
import PageCompiler.Proofs.Markup.Comments
import PageCompiler.Proofs.Page.Sight
import PageCompiler.Proofs.Page.Comments
import PageCompiler.Proofs.Resolve.Merging
import PageCompiler.Proofs.Text.Letters
import PageCompiler.Proofs.Text.ShortWays
import PageCompiler.Proofs.Keys.Collected
