import Testbed.Binding.Bind
import Testbed.Binding.Entry
import Testbed.Binding.Walk
import Testbed.Binding.Walker
import Testbed.Data
import Testbed.Directives
import Testbed.Document.Basic
import Testbed.Error
import Testbed.Files.FileSystem
import Testbed.Files.FileTree
import Testbed.Files.Glob
import Testbed.Files.Path
import Testbed.Format.Json
import Testbed.Format.Toml
import Testbed.Format.Toml.Scalar
import Testbed.Format.Toml.Table
import Testbed.Format.Toml.Text
import Testbed.Format.Yaml
import Testbed.Format.Yaml.Core
import Testbed.Format.Yaml.Cursor
import Testbed.Format.Yaml.Node
import Testbed.Format.Yaml.Property
import Testbed.Format.Yaml.Scalar
import Testbed.Format.Yaml.Token
import Testbed.Keyed
import Testbed.Location
import Testbed.Number.Binary
import Testbed.Number.Numeral
import Testbed.Number.Shortest
import Testbed.Rig.Action
import Testbed.Rig.CommandLine
import Testbed.Rig.Config
import Testbed.Rig.Platform
import Testbed.Rig.Resolve
import Testbed.Rig.View
import Testbed.Shape
import Testbed.Text.Blank
import Testbed.Text.Pieces
import Testbed.Text.Quoted
import Testbed.Text.Utf8
import Testbed.Value.Basic
import Testbed.Value.Container
import Testbed.Value.Leaves
import Testbed.Value.Merge
import Testbed.Value.Overwrite
import Testbed.Proofs.Results
import Testbed.Proofs.Files.Globbing
import Testbed.Proofs.Files.Ordering
import Testbed.Proofs.Keyed.Order
import Testbed.Proofs.Keyed.Around
import Testbed.Proofs.Text.Pieces
import Testbed.Proofs.Number.Digits
import Testbed.Proofs.Number.Rounding
import Testbed.Proofs.Number.Shortest
import Testbed.Proofs.Number.Decimal
import Testbed.Proofs.Data.Route
import Testbed.Proofs.Data.Leaves
import Testbed.Proofs.Data.Sorted
import Testbed.Proofs.Data.Written
import Testbed.Proofs.Value.Place
import Testbed.Proofs.Value.Frame
import Testbed.Proofs.Value.Shaped
import Testbed.Proofs.Value.Serialized
import Testbed.Proofs.Rig.Schema
import Testbed.Proofs.Overwrite.Atomic
import Testbed.Proofs.Overwrite.Setting
import Testbed.Proofs.Overwrite.Order
import Testbed.Proofs.Overwrite.Effect
import Testbed.Proofs.Overwrite.Reading
import Testbed.Proofs.Overwrite.Integers
import Testbed.Proofs.Overwrite.Listing
import Testbed.Proofs.Binding.Outcome
import Testbed.Proofs.Binding.Plain
import Testbed.Proofs.Binding.Surroundings
import Testbed.Proofs.Binding.Inside
import Testbed.Proofs.Binding.Payload
import Testbed.Proofs.Binding.Position
import Testbed.Proofs.Binding.Routing
import Testbed.Proofs.Binding.Grammar
import Testbed.Proofs.Binding.Settled
import Testbed.Proofs.Rig.ActionSlots
import Testbed.Proofs.Binding.Acceptance
import Testbed.Proofs.Rig.Editing
import Testbed.Proofs.Rig.Absent
import Testbed.Proofs.Value.Built
import Testbed.Proofs.Binding.Building
import Testbed.Proofs.Binding.Parts
import Testbed.Proofs.Rig.Kinds
import Testbed.Proofs.Binding.Reuse
import Testbed.Proofs.Rig.Tags
import Testbed.Proofs.Binding.Faults
import Testbed.Proofs.Rig.Blame
import Testbed.Proofs.Value.Within
import Testbed.Proofs.Value.Merging
import Testbed.Proofs.Binding.Checked
import Testbed.Proofs.Rig.Compiled
import Testbed.Proofs.Binding.Restoring
import Testbed.Proofs.Rig.Restored
import Testbed.Proofs.Rig.Joined
import Testbed.Proofs.Rig.Silence
import Testbed.Proofs.Rig.Spelling
import Testbed.Proofs.Binding.Places
import Testbed.Proofs.Binding.Strictness
import Testbed.Proofs.Rig.Located
import Testbed.Proofs.Rig.Strict
import Testbed.Proofs.Number.Float
import Testbed.Proofs.Overwrite.Spelling
import Testbed.Proofs.Overwrite.Settable
import Testbed.Proofs.Binding.Segments
import Testbed.Proofs.Binding.Alike
import Testbed.Proofs.Binding.WalkState
import Testbed.Proofs.Binding.Loading
import Testbed.Proofs.Binding.Nesting
import Testbed.Proofs.Number.Singles
import Testbed.Proofs.Binding.Visits
import Testbed.Proofs.Binding.VisitOrder
import Testbed.Proofs.Data.Formats
import Testbed.Proofs.Binding.Landing
import Testbed.Proofs.Rig.Routes
import Testbed.Proofs.Rig.Paths
import Testbed.Proofs.Rig.Refinement
import Testbed.Proofs.Binding.Enclosing
import Testbed.Proofs.Rig.Respelled
import Testbed.Proofs.Rig.BareText
import Testbed.Proofs.Number.Overflow
import Testbed.Proofs.Overwrite.Leaf
import Testbed.Proofs.Overwrite.Floats
import Testbed.Proofs.Data.Distinct
import Testbed.Proofs.Directives
import Testbed.Proofs.Overwrite.Rendering
import Testbed.Proofs.Binding.Returning
