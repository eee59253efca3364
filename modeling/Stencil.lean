import Stencil.Text.Blank
import Stencil.Text.LetterCase
import Stencil.Text.Markup
import Stencil.Text.Quoted
import Stencil.Number.Layout
import Stencil.Number.Reading
import Stencil.Expression.Reader
import Stencil.Value.Store
import Stencil.Failure
import Stencil.Value.Comparison
import Stencil.Value.Member
import Stencil.Json.Reader
import Stencil.Value.Output
import Stencil.Expression.Evaluation
import Stencil.Error.Trouble
import Stencil.View.Block
import Stencil.View.Path
import Stencil.Journal.Event
import Stencil.Cache.Basic
import Stencil.Cache.Shared
import Stencil.View.Source
import Stencil.Render.State
import Stencil.Render.Nodes
import Stencil.Render.Include
import Stencil.Settings.Basic
import Stencil.Settings.Check
import Stencil.Settings.Environment
import Stencil.Text.Utf8
import Stencil.Files.Tree
import Stencil.Files.Views
import Stencil.Yaml.Block
import Stencil.Settings.Loading
import Stencil.Engine.Start
import Stencil.Error.Raised
import Stencil.Proofs.Expression.Grammar
import Stencil.Proofs.Expression.Soundness
import Stencil.Proofs.Expression.Completeness
import Stencil.Proofs.Expression.Budget
import Stencil.Proofs.Expression.Reading
import Stencil.Proofs.Expression.Spelling
import Stencil.Proofs.View.Scanning
import Stencil.Proofs.View.LoopHeader
import Stencil.Proofs.View.Embedding
import Stencil.Proofs.Sandbox.Alike
import Stencil.Proofs.Sandbox.Store
import Stencil.Proofs.Sandbox.Comparison
import Stencil.Proofs.Sandbox.Reading
import Stencil.Proofs.Sandbox.Noninterference
import Stencil.Proofs.View.Origin
import Stencil.Proofs.View.Pattern
import Stencil.Proofs.Render.Keeping
import Stencil.Proofs.Render.Confinement
import Stencil.Proofs.Engine.Reachable
import Stencil.Proofs.Engine.Confinement
import Stencil.Proofs.View.PathWalk
import Stencil.Proofs.View.Nesting
import Stencil.Proofs.Render.Course
import Stencil.Proofs.Render.Finishing
import Stencil.Proofs.Engine.Expansion
import Stencil.Proofs.View.References
import Stencil.Proofs.Render.Watching
import Stencil.Proofs.Render.Caching
import Stencil.Proofs.Value.Names
import Stencil.Proofs.Engine.Transparency
import Stencil.Proofs.Render.Frames
import Stencil.Proofs.Value.Parts
import Stencil.Proofs.Value.Settling
import Stencil.Proofs.Renaming.Values
import Stencil.Proofs.Renaming.Store
import Stencil.Proofs.Renaming.Comparison
import Stencil.Proofs.Renaming.Reading
import Stencil.Proofs.Renaming.Texts
import Stencil.Proofs.Renaming.Evaluation
import Stencil.Proofs.Cache.Answers
import Stencil.Proofs.Cache.Sharing
import Stencil.Proofs.Cache.Forgetting
import Stencil.Proofs.Cache.Histories
import Stencil.Proofs.Render.Mirroring
import Stencil.Proofs.Renaming.Embedding
import Stencil.Proofs.Render.Isolation
import Stencil.Proofs.Settings.Soundness
import Stencil.Proofs.Settings.Refusal
import Stencil.Proofs.Settings.Substitution
import Stencil.Proofs.Engine.Verbatim
import Stencil.Proofs.Engine.Unresolved
import Stencil.Proofs.Engine.PathNames
import Stencil.Proofs.View.Lines
import Stencil.Proofs.View.Enclosure
import Stencil.Proofs.View.Extent
import Stencil.Proofs.View.Layout
import Stencil.Proofs.View.Tiling
import Stencil.Proofs.View.Positions
import Stencil.Proofs.View.Totality
import Stencil.Proofs.View.Trimming
import Stencil.Proofs.View.NormalForm
import Stencil.Proofs.View.Stability
import Stencil.Proofs.View.Rebuilding
import Stencil.Proofs.View.Shifting
import Stencil.Proofs.View.Concatenation
import Stencil.Proofs.Expression.Cursor
import Stencil.Proofs.Expression.Totality
import Stencil.Proofs.Engine.Blame
import Stencil.Proofs.Value.Keys
import Stencil.Proofs.Value.Bindings
import Stencil.Proofs.Renaming.Flattening
import Stencil.Proofs.Render.Merging
import Stencil.Proofs.Render.Standing
import Stencil.Proofs.Engine.Merging
import Stencil.Proofs.Json.Writing
import Stencil.Proofs.Json.Data
import Stencil.Proofs.Journal.Lines
import Stencil.Proofs.Render.Environs
import Stencil.Proofs.Render.Logging
import Stencil.Proofs.Engine.Logging
import Stencil.Proofs.Number.Rounding
import Stencil.Proofs.Number.Shortest
import Stencil.Proofs.Number.Reading
import Stencil.Proofs.Json.Reading
import Stencil.Proofs.Json.RoundTrip
import Stencil.Proofs.Expression.Lossless
import Stencil.Proofs.View.Quoting
import Stencil.Proofs.Engine.Literals
import Stencil.Proofs.Expression.CallOrder
import Stencil.Proofs.Expression.Words
import Stencil.Proofs.Number.Remainder
import Stencil.Proofs.Number.Spans
import Stencil.Proofs.Number.Digits
import Stencil.Proofs.Number.ViewText
import Stencil.Proofs.Expression.Arithmetic
import Stencil.Proofs.Value.Members
import Stencil.Proofs.Value.Reaching
import Stencil.Proofs.Value.Unfolding
import Stencil.Proofs.Value.Symmetry
import Stencil.Proofs.Value.Matching
import Stencil.Proofs.Json.Documents
import Stencil.Proofs.Json.Serializing
import Stencil.Proofs.Expression.Naming
import Stencil.Proofs.Value.ScopeTree
import Stencil.Proofs.Engine.Registration
import Stencil.Proofs.Render.Growing
import Stencil.Proofs.Render.Declarations
