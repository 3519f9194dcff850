import DaemonFramework.Machine
import DaemonFramework.JsonlWire
import DaemonFramework.Output.Actor
import DaemonFramework.Output.Invariant
import DaemonFramework.Output.Representation
import DaemonFramework.Output.Replay
import DaemonFramework.Gate
import DaemonFramework.Output.Conservation
import DaemonFramework.Bridge.Forwarder
import DaemonFramework.Bridge.Generations
import DaemonFramework.Bridge.Readiness
import DaemonFramework.Jsonl.Frames
import DaemonFramework.Socket.Cleanup
import DaemonFramework.Envelope
import DaemonFramework.Roster
import DaemonFramework.Service.Boundary
import DaemonFramework.Service.Admission
import DaemonFramework.Service.Encoding
import DaemonFramework.Service.Run
import DaemonFramework.Output.Effects
import DaemonFramework.Output.Routes
import DaemonFramework.Output.Silence
import DaemonFramework.Tasks.Operations
import DaemonFramework.Tasks.Registry
import DaemonFramework.Blocking.Lane
import DaemonFramework.Blocking.Jobs
import DaemonFramework.Blocking.Shutdown
import DaemonFramework.Owner.Loss
import DaemonFramework.LocalBuild.Follows
import DaemonFramework.LocalBuild.Lock
import DaemonFramework.LocalBuild.Policy
import DaemonFramework.LocalBuild.Preflight
import DaemonFramework.LocalBuild.Graph
import DaemonFramework.Ingress.Discipline
import DaemonFramework.Ingress.Bridge
import DaemonFramework.Ingress.BridgeLoop
import DaemonFramework.Ingress.Connection
import DaemonFramework.Ingress.ConnectionLoop
import DaemonFramework.Ingress.Replies
import DaemonFramework.Fallible
import DaemonFramework.Files.Disk
import DaemonFramework.Files.Staged
import DaemonFramework.Files.Directories
import DaemonFramework.Files.Contents
import DaemonFramework.Files.Atomic
import DaemonFramework.Decimal
import DaemonFramework.Partition
import DaemonFramework.Tasks.Results
import DaemonFramework.Ingress.Release
import DaemonFramework.LocalBuild.Coverage
import DaemonFramework.LocalBuild.Snapshots
import DaemonFramework.Protocol.Checks
import DaemonFramework.Protocol.Documents
import DaemonFramework.Protocol.Validation
import DaemonFramework.Socket.Writer
import DaemonFramework.Tasks.Claims
import DaemonFramework.Watch
import DaemonFramework.LocalBuild.Resolve
import DaemonFramework.LocalBuild.Worktree
import DaemonFramework.Binary64
import DaemonFramework.Hyprland.MonitorRule
import DaemonFramework.Hyprland.Relisted
import DaemonFramework.LocalBuild.Canonical
import DaemonFramework.Protocol.Contracts
import DaemonFramework.Resume
import DaemonFramework.Tasks.Group
import DaemonFramework.Identity
import DaemonFramework.Tasks.Minted
import DaemonFramework.Socket.Listener
import DaemonFramework.Socket.Exclusion
import DaemonFramework.Socket.Place
import DaemonFramework.Socket.Recovery
import DaemonFramework.Socket.Server
import DaemonFramework.Socket.Stopping
import DaemonFramework.Socket.Owners
import DaemonFramework.Hyprland.Events
import DaemonFramework.Hyprland.Discovery
import DaemonFramework.Backoff
import DaemonFramework.Forward
import DaemonFramework.Ingress.Shutdown
import DaemonFramework.JsonText
import DaemonFramework.Jsonl.Lines
import DaemonFramework.LocalBuild.Literal
import DaemonFramework.LocalBuild.Validation
import DaemonFramework.WriteBack
import DaemonFramework.Files.Shared
import DaemonFramework.Files.Durable
import DaemonFramework.Socket.Emitters
import DaemonFramework.PathText
import DaemonFramework.Files.Xdg
import DaemonFramework.Ingress.Capacity
