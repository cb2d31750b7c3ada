import NamespaceTopology.Broadcast.Hub
import NamespaceTopology.Config.Document
import NamespaceTopology.Config.Environment
import NamespaceTopology.Config.Load
import NamespaceTopology.Config.Settings
import NamespaceTopology.Config.Tree
import NamespaceTopology.Document.Basic
import NamespaceTopology.Document.Decode
import NamespaceTopology.Document.Encode
import NamespaceTopology.Document.Topology
import NamespaceTopology.Error
import NamespaceTopology.Json.Reader
import NamespaceTopology.Keyed
import NamespaceTopology.Metrics.Exposition
import NamespaceTopology.Metrics.Instruments
import NamespaceTopology.Namespace.Options
import NamespaceTopology.Namespace.Topology
import NamespaceTopology.Node.Basic
import NamespaceTopology.Node.Follow
import NamespaceTopology.Node.Initialize
import NamespaceTopology.Node.Registries
import NamespaceTopology.Node.Release
import NamespaceTopology.Node.Run
import NamespaceTopology.Node.Subscribe
import NamespaceTopology.Number.Binary64
import NamespaceTopology.Number.Decimal
import NamespaceTopology.Number.Shortest
import NamespaceTopology.Proofs.Broadcast.Deliveries
import NamespaceTopology.Proofs.Broadcast.Runs
import NamespaceTopology.Proofs.Broadcast.Slots
import NamespaceTopology.Proofs.Config.Cells
import NamespaceTopology.Proofs.Config.Layers
import NamespaceTopology.Proofs.Config.Overrides
import NamespaceTopology.Proofs.Config.Scopes
import NamespaceTopology.Proofs.Config.Variables
import NamespaceTopology.Proofs.Config.Verbatim
import NamespaceTopology.Proofs.Document.Lengths
import NamespaceTopology.Proofs.Document.Parts
import NamespaceTopology.Proofs.Document.RoundTrip
import NamespaceTopology.Proofs.Document.Rules
import NamespaceTopology.Proofs.Document.Topology
import NamespaceTopology.Proofs.Document.Unknown
import NamespaceTopology.Proofs.Document.Verdicts
import NamespaceTopology.Proofs.Document.Written
import NamespaceTopology.Proofs.Keyed
import NamespaceTopology.Proofs.Metrics.Conflicts
import NamespaceTopology.Proofs.Metrics.Exports
import NamespaceTopology.Proofs.Metrics.Ownership
import NamespaceTopology.Proofs.Metrics.Refusals
import NamespaceTopology.Proofs.Namespace.Construction
import NamespaceTopology.Proofs.Node.Agreement
import NamespaceTopology.Proofs.Node.Applications
import NamespaceTopology.Proofs.Node.Attachment
import NamespaceTopology.Proofs.Node.Changes
import NamespaceTopology.Proofs.Node.Closing
import NamespaceTopology.Proofs.Node.Coherence
import NamespaceTopology.Proofs.Node.Contents
import NamespaceTopology.Proofs.Node.Deliveries
import NamespaceTopology.Proofs.Node.Events
import NamespaceTopology.Proofs.Node.Exports
import NamespaceTopology.Proofs.Node.Failures
import NamespaceTopology.Proofs.Node.Following
import NamespaceTopology.Proofs.Node.Initialization
import NamespaceTopology.Proofs.Node.LastWrites
import NamespaceTopology.Proofs.Node.Lines
import NamespaceTopology.Proofs.Node.Loops
import NamespaceTopology.Proofs.Node.Moves
import NamespaceTopology.Proofs.Node.Newcomers
import NamespaceTopology.Proofs.Node.Ownership
import NamespaceTopology.Proofs.Node.Requests
import NamespaceTopology.Proofs.Node.Retries
import NamespaceTopology.Proofs.Node.Samples
import NamespaceTopology.Proofs.Node.Schedules
import NamespaceTopology.Proofs.Node.Served
import NamespaceTopology.Proofs.Node.Tasks
import NamespaceTopology.Proofs.Node.Turns
import NamespaceTopology.Proofs.Node.Updates
import NamespaceTopology.Proofs.Node.Usability
import NamespaceTopology.Proofs.Node.Waiting
import NamespaceTopology.Proofs.Node.Watches
import NamespaceTopology.Proofs.Node.World
import NamespaceTopology.Proofs.Registry.Acceptance
import NamespaceTopology.Proofs.Registry.Closing
import NamespaceTopology.Proofs.Registry.Coherence
import NamespaceTopology.Proofs.Registry.Deliveries
import NamespaceTopology.Proofs.Store.Contents
import NamespaceTopology.Proofs.Store.Plain
import NamespaceTopology.Proofs.Store.Signals
import NamespaceTopology.Proofs.Store.Streams
import NamespaceTopology.Proofs.Store.Tracking
import NamespaceTopology.Proofs.Store.Versions
import NamespaceTopology.Proofs.Store.Views
import NamespaceTopology.Proofs.Store.Wakes
import NamespaceTopology.Proofs.Store.Watchers
import NamespaceTopology.Proofs.Wire.Fields
import NamespaceTopology.Proofs.Wire.Spelling
import NamespaceTopology.Registry.Basic
import NamespaceTopology.Registry.Options
import NamespaceTopology.Span
import NamespaceTopology.Store.Basic
import NamespaceTopology.Store.Feed
import NamespaceTopology.Store.Value
import NamespaceTopology.Text.Blank
import NamespaceTopology.Text.Printable
import NamespaceTopology.Text.Quoted
import NamespaceTopology.Toml.Reader
import NamespaceTopology.Toml.Table
import NamespaceTopology.Toml.Token
import NamespaceTopology.Wire.Field
import NamespaceTopology.Wire.Varint
