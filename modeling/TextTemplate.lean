import TextTemplate.Main
import TextTemplate.Options.Json
import TextTemplate.Project.Changes
import TextTemplate.Token.Cursor
import TextTemplate.Proofs.Render.Simulation
import TextTemplate.Proofs.Render.Restoration
import TextTemplate.Proofs.Engine.Caching
import TextTemplate.Proofs.Grammar.Derivation
import TextTemplate.Proofs.Grammar.Reading
import TextTemplate.Proofs.Tree.Numbering
import TextTemplate.Proofs.Tree.Variables
import TextTemplate.Proofs.Value.Lambdas
import TextTemplate.Proofs.Grammar.Soundness
import TextTemplate.Proofs.Grammar.Compilation
import TextTemplate.Proofs.Grammar.Reaching
import TextTemplate.Proofs.Grammar.Completeness
import TextTemplate.Proofs.Token.Spelling
import TextTemplate.Proofs.Token.Tiling
import TextTemplate.Proofs.Grammar.Printing
import TextTemplate.Proofs.Grammar.RoundTrip
import TextTemplate.Proofs.Render.LogicalRelation
import TextTemplate.Proofs.Render.Access
import TextTemplate.Proofs.Engine.Hosting
import TextTemplate.Proofs.Render.Steps
import TextTemplate.Proofs.Engine.DepthLimit
import TextTemplate.Proofs.Grammar.Nesting
import TextTemplate.Proofs.Grammar.Progress
import TextTemplate.Proofs.Engine.FileCaching
import TextTemplate.Proofs.Render.Layouts
import TextTemplate.Proofs.Token.Outlines
import TextTemplate.Proofs.Engine.Layouts
import TextTemplate.Proofs.Engine.Escaping
import TextTemplate.Proofs.Grammar.Closure
import TextTemplate.Proofs.Grammar.Limit
import TextTemplate.Proofs.Tree.Depth
import TextTemplate.Proofs.Grammar.TreeDepth
import TextTemplate.Proofs.Token.Order
import TextTemplate.Proofs.Grammar.ErrorOrder
import TextTemplate.Proofs.Grammar.Heedless
import TextTemplate.Proofs.Grammar.Recovery
import TextTemplate.Proofs.Token.Splice
import TextTemplate.Proofs.Grammar.BrokenOutput
import TextTemplate.Proofs.Grammar.Excerpts
import TextTemplate.Proofs.Engine.Lifetimes
import TextTemplate.Proofs.Render.DeferredLayout
import TextTemplate.Proofs.Render.Isolation
import TextTemplate.Proofs.Token.Segments
import TextTemplate.Proofs.Token.Written
import TextTemplate.Proofs.Grammar.Parallel
import TextTemplate.Proofs.Grammar.ParallelTemplates
import TextTemplate.Proofs.Grammar.Delimiting
import TextTemplate.Proofs.Grammar.Joining
import TextTemplate.Proofs.Tree.Renumbering
import TextTemplate.Proofs.Grammar.Concatenation
import TextTemplate.Proofs.Engine.Literals
import TextTemplate.Proofs.Token.Replay
import TextTemplate.Proofs.Token.Positions
import TextTemplate.Proofs.Render.Assignment
import TextTemplate.Proofs.Render.Parameters
import TextTemplate.Proofs.Text.Html
import TextTemplate.Proofs.Value.Equality
import TextTemplate.Proofs.Value.Integers
import TextTemplate.Proofs.Render.Integers
import TextTemplate.Proofs.Render.Switch
import TextTemplate.Proofs.Engine.Keys
import TextTemplate.Proofs.Value.Json
import TextTemplate.Proofs.Text.Caret
import TextTemplate.Proofs.Project.Paths
import TextTemplate.Proofs.Project.Changes
import TextTemplate.Proofs.Project.Watching
import TextTemplate.Proofs.Engine.Store
import TextTemplate.Proofs.Token.Operators
import TextTemplate.Proofs.Engine.Recency
