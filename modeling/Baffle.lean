import Baffle.Lib.Text
import Baffle.Lib.SortedMap
import Baffle.Lib.IpAddr
import Baffle.Lib.Transition
import Baffle.Lib.Split
import Baffle.Secrets
import Baffle.Runtime
import Baffle.Manager
import Baffle.Session
import Baffle.Reload
import Baffle.System
import Baffle.Server
import Baffle.Crates
import Baffle.SessionConfig
import Baffle.Document
import Baffle.FileConfig
import Baffle.Policy
import Baffle.Paths
import Baffle.Http
import Baffle.Connect
import Baffle.ImportGraph
import Baffle.Proofs.HostNames
import Baffle.Proofs.Documents
import Baffle.Proofs.Merging
import Baffle.Proofs.Composition
import Baffle.Proofs.Admission
import Baffle.Proofs.Interception
import Baffle.Proofs.Paths
import Baffle.Proofs.Patterns
import Baffle.Proofs.WellFormed
import Baffle.Proofs.Overlaps
import Baffle.Proofs.Authorities
import Baffle.Proofs.Credentials
import Baffle.Proofs.Moves
import Baffle.Proofs.Exclusion
import Baffle.Proofs.Heap
import Baffle.Proofs.Frames
import Baffle.Proofs.Registry
import Baffle.Proofs.Capacity
import Baffle.Proofs.Cutover
import Baffle.Proofs.Connections
import Baffle.Proofs.Ownership
import Baffle.Proofs.Reloads
import Baffle.Proofs.Claims
import Baffle.Proofs.Teardown
import Baffle.Proofs.Exits
import Baffle.Proofs.ImportChains
import Baffle.Proofs.Permits
import Baffle.Proofs.Creations
import Baffle.Proofs.Constants
import Baffle.Proofs.Lifetimes
import Baffle.Proofs.Generations
import Baffle.Proofs.Limits
import Baffle.Proofs.Gauge
import Baffle.Proofs.Serving
import Baffle.Proofs.Shutdown
import Baffle.Proofs.Leases
import Baffle.Proofs.Unchanged
import Baffle.Client
import Baffle.Proofs.Requests
import Baffle.Lib.FileTree
import Baffle.CaInit
import Baffle.Proofs.CaInit
import Baffle.Proofs.Provisions
import Baffle.SocketDirectories
import Baffle.Proofs.Walks
import Baffle.Proofs.Directories
import Baffle.SocketLeases
import Baffle.Proofs.SocketLeases
import Baffle.Proofs.CanonicalHosts
import Baffle.ReadSession
import Baffle.Proofs.ReadSession
import Baffle.Proofs.ImportNames
import Baffle.Proofs.Substitution
import Baffle.Lib.Canonical
import Baffle.Proofs.RuleComparison
import Baffle.Lib.BigEndian
import Baffle.Lib.Streams
import Baffle.Framing
import Baffle.Proofs.Framing
import Baffle.Lib.Search
import Baffle.ConnectRequest
import Baffle.Proofs.ConnectRequest
import Baffle.StaleSockets
import Baffle.Proofs.StaleSockets
import Baffle.SocketOwnership
import Baffle.Proofs.SocketOwnership
import Baffle.ControlSocket
import Baffle.Proofs.ControlSocket
import Baffle.Lib.Termination
import Baffle.Proofs.Work
import Baffle.Proofs.Progress
import Baffle.Proofs.Completion
import Baffle.Lib.Relay
import Baffle.ClientTask
import Baffle.Proofs.ClientTask
import Baffle.Proofs.ClientAnswers
import Baffle.Proofs.Slots
import Baffle.Lib.OwnedFiles
import Baffle.TrustedFiles
import Baffle.Proofs.TrustedFiles
import Baffle.Lib.Json
import Baffle.Responses
import Baffle.Proofs.Responses
