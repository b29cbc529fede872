import FrameLink.Buffer.Script
import FrameLink.TaskError
import FrameLink.Stream.Reader
import FrameLink.Stream.Receive
import FrameLink.Outbox
import FrameLink.Link
import FrameLink.Echo.Command
import FrameLink.Echo.Service
import FrameLink.Hub
import FrameLink.Rules
import FrameLink.Toml.Document
import FrameLink.Config.Arguments
import FrameLink.Config.FileSettings
import FrameLink.Config.Resolve
import FrameLink.Address
import FrameLink.Server.Lifecycle
import FrameLink.Echo.Gateway
import FrameLink.Log
import FrameLink.Program
import FrameLink.Main
import FrameLink.Proofs.Buffer.Store
import FrameLink.Proofs.Buffer.Queue
import FrameLink.Proofs.Buffer.Sizes
import FrameLink.Proofs.Buffer.History
import FrameLink.Proofs.Buffer.Growth
import FrameLink.Proofs.Buffer.Reserve
import FrameLink.Proofs.Frame.Codec
import FrameLink.Proofs.Frame.Parse
import FrameLink.Proofs.Frame.RoundTrip
import FrameLink.Proofs.Stream.Reading
import FrameLink.Proofs.Stream.Receiving
import FrameLink.Proofs.Stream.Calls
import FrameLink.Proofs.Stream.Sending
import FrameLink.Proofs.Stream.Attempts
import FrameLink.Proofs.Task
import FrameLink.Proofs.Delivery
import FrameLink.Proofs.Session.Steps
import FrameLink.Proofs.Twins
import FrameLink.Proofs.Session.Loops
import FrameLink.Proofs.Session.Invariant
import FrameLink.Proofs.Session.Simulation
import FrameLink.Proofs.Link.Moves
import FrameLink.Proofs.Link.Simulation
import FrameLink.Proofs.Link.Outgoing
import FrameLink.Proofs.Link.Incoming
import FrameLink.Proofs.Link.Lifecycle
import FrameLink.Proofs.Link.Reports
import FrameLink.Proofs.Link.Verification
import FrameLink.Proofs.Link.Deadline
import FrameLink.Proofs.Link.Draining
import FrameLink.Proofs.Link.Stranding
import FrameLink.Proofs.Link.Renewal
import FrameLink.Proofs.Registry
import FrameLink.Proofs.Registry.Table
import FrameLink.Proofs.Echo.Moves
import FrameLink.Proofs.Echo.Clients
import FrameLink.Proofs.Echo.Registration
import FrameLink.Proofs.Echo.Replies
import FrameLink.Proofs.Echo.Accounts
import FrameLink.Proofs.Echo.Dismissal
import FrameLink.Proofs.Echo.Hellos
import FrameLink.Proofs.Stream.Course
import FrameLink.Proofs.Stream.Resuming
import FrameLink.Proofs.Link.Storage
import FrameLink.Proofs.Echo.Links
import FrameLink.Proofs.Waking
import FrameLink.Proofs.Echo.Solitude
import FrameLink.Proofs.Stopping
import FrameLink.Proofs.Server.History
import FrameLink.Proofs.Server.Order
import FrameLink.Proofs.Server.Outcome
import FrameLink.Proofs.Config.Layers
import FrameLink.Proofs.Echo.Limits
import FrameLink.Proofs.Echo.Stranding
import FrameLink.Proofs.Echo.Draining
import FrameLink.Proofs.Broadcasting
import FrameLink.Proofs.Reloading
