import GraphProjection.Entries
import GraphProjection.Binary64
import GraphProjection.Binary64.Shortest
import GraphProjection.Value
import GraphProjection.Value.Text
import GraphProjection.Value.Reader
import GraphProjection.Text.Blank
import GraphProjection.Text.Name
import GraphProjection.TypeRef
import GraphProjection.Text.Base64
import GraphProjection.Text.Suffix
import GraphProjection.Page.Cursor
import GraphProjection.Page.Kind
import GraphProjection.Page
import GraphProjection.Binding
import GraphProjection.Query
import GraphProjection.Query.Sql
import GraphProjection.Settings
import GraphProjection.Registry.Declaration
import GraphProjection.Registry.Descriptor
import GraphProjection.Registry.Resolve
import GraphProjection.Registry
import GraphProjection.Toml
import GraphProjection.Toml.Quoted
import GraphProjection.Toml.Scalar
import GraphProjection.Toml.Table
import GraphProjection.Toml.Reader
import GraphProjection.Config
import GraphProjection.Text.Location
import GraphProjection.Document
import GraphProjection.Document.Token
import GraphProjection.Document.Reader
import GraphProjection.FieldNode
import GraphProjection.Document.Fragments
import GraphProjection.Document.Expansion
import GraphProjection.Projection
import GraphProjection.Projection.OfSelection
import GraphProjection.Shape
import GraphProjection.Response
import GraphProjection.Storage
import GraphProjection.Stitching
import GraphProjection.Schema
import GraphProjection.Execution
import GraphProjection.Proofs.Entries
import GraphProjection.Proofs.Binding
import GraphProjection.Proofs.Selection
import GraphProjection.Proofs.Resolution
import GraphProjection.Proofs.Projection.Contributions
import GraphProjection.Proofs.Projection.Agreement
import GraphProjection.Proofs.Projection.Serving
import GraphProjection.Proofs.Sufficiency
import GraphProjection.Proofs.Loading
import GraphProjection.Proofs.RowSlots
import GraphProjection.Proofs.KeyText
import GraphProjection.Proofs.Stitching
import GraphProjection.Proofs.Stitching.HiddenKeys
import GraphProjection.Proofs.Expansion
import GraphProjection.Proofs.Widening
import GraphProjection.Proofs.Narrowing.Fetching
import GraphProjection.Proofs.Narrowing.Relations
import GraphProjection.Proofs.Narrowing.Loadable
import GraphProjection.Proofs.Narrowing.RootFields
import GraphProjection.Proofs.Narrowing
import GraphProjection.Proofs.Fragments
import GraphProjection.Proofs.Spreading
import GraphProjection.Proofs.Paging.CursorText
import GraphProjection.Proofs.Paging.CursorForms
import GraphProjection.Proofs.Paging.Requests
import GraphProjection.Proofs.Paging.Envelopes
import GraphProjection.Proofs.Projection.Exactness
import GraphProjection.Proofs.Paging
import GraphProjection.Proofs.Paging.Windows
import GraphProjection.Proofs.Configuration
import GraphProjection.Proofs.Paging.Progress
import GraphProjection.Proofs.Sameness
import GraphProjection.Proofs.Rewriting
import GraphProjection.Proofs.Projection.Invariance
import GraphProjection.Proofs.Projection.Covering
import GraphProjection.Proofs.Isolation
import GraphProjection.Proofs.Rejection
import GraphProjection.Proofs.Shaping
import GraphProjection.Proofs.Shaping.Fetched
import GraphProjection.Proofs.Combining
import GraphProjection.Proofs.Acceptance
import GraphProjection.Proofs.Calls
import GraphProjection.Proofs.Siblings
import GraphProjection.Proofs.Forcing.Policies
import GraphProjection.Proofs.Forcing.Projections
import GraphProjection.Proofs.Forcing.Loading
import GraphProjection.Proofs.Forcing
import GraphProjection.Proofs.Readiness
import GraphProjection.Proofs.WritingOut
import GraphProjection.Proofs.Substitution.Literals
import GraphProjection.Proofs.Substitution
import GraphProjection.Proofs.TypeReferences
import GraphProjection.Proofs.HiddenCauses
import GraphProjection.Proofs.Denied.Shaping
import GraphProjection.Proofs.Denied.Projections
import GraphProjection.Proofs.Denied
import GraphProjection.Proofs.Projection.Levels
import GraphProjection.Proofs.Forcing.Bounds
import GraphProjection.Proofs.Shaping.Mirroring
import GraphProjection.Proofs.Shaping.Parts
import GraphProjection.Proofs.Shaping.FieldErrors
import GraphProjection.Proofs.Positions.Steps
import GraphProjection.Proofs.Positions
import GraphProjection.Proofs.Binding.Exactness
import GraphProjection.Proofs.Quoting
import GraphProjection.Proofs.Placeholders
import GraphProjection.Proofs.Applying
import GraphProjection.Proofs.EnvelopeNames
import GraphProjection.Proofs.ErrorPayloads
import GraphProjection.Proofs.Fragments.Faults
import GraphProjection.Proofs.Shaping.Identifiers
import GraphProjection.Proofs.Locations.Tokens
import GraphProjection.Proofs.Locations.Names
import GraphProjection.Proofs.Locations
import GraphProjection.Proofs.Configuration.Keys
import GraphProjection.Proofs.Configuration.Records
import GraphProjection.Proofs.Configuration.Levels
import GraphProjection.Proofs.Configuration.Declaring
