import Overlay.Address.Ip
import Overlay.Address.Reader
import Overlay.Address.Socket
import Overlay.AddressBook
import Overlay.Bytes
import Overlay.CommandLine
import Overlay.Crypto.Der
import Overlay.Crypto.Ecdsa
import Overlay.Crypto.KeyPair
import Overlay.Crypto.P256
import Overlay.Crypto.Sha256
import Overlay.Endpoint
import Overlay.Error
import Overlay.Files
import Overlay.Handshake
import Overlay.Identity
import Overlay.KeyFile
import Overlay.Main
import Overlay.Net
import Overlay.Node.Basic
import Overlay.Node.Neighbour
import Overlay.Node.Site
import Overlay.Node.Sockets
import Overlay.Payload.Codec
import Overlay.Payload.Fault
import Overlay.Payload.Varint
import Overlay.Peer.Basic
import Overlay.Peer.Traffic
import Overlay.PeerRecord
import Overlay.PeerStore
import Overlay.Policy
import Overlay.Pool.Basic
import Overlay.Pool.Events
import Overlay.Pool.Members
import Overlay.Pool.Rehearsal
import Overlay.Pool.Sending
import Overlay.Pool.Supervisor
import Overlay.Pool.Upkeep
import Overlay.Program.Command
import Overlay.Program.Help
import Overlay.Program.Log
import Overlay.Protocol
import Overlay.Settings
import Overlay.Text.Blank
import Overlay.Text.Decimal
import Overlay.Text.Duration
import Overlay.Text.Hex
import Overlay.Text.Quoted
import Overlay.Text.Utf8
import Overlay.Toml.Document
import Overlay.Toml.Scalar
import Overlay.Toml.Value
import Overlay.Wire.Assembler
import Overlay.Wire.Frame
import Overlay.Wire.Inbox
import Overlay.Wire.Outbox
import Overlay.Wire.Split
import Overlay.Wire.Stream
import Overlay.Proofs.Wire.Reading
import Overlay.Proofs.Wire.Grammar
import Overlay.Proofs.Wire.Arrival
import Overlay.Proofs.Wire.Reassembly
import Overlay.Proofs.Wire.Splitting
import Overlay.Proofs.Wire.Sending
import Overlay.Proofs.Wire.Receiving
import Overlay.Proofs.Wire.Delivery
import Overlay.Proofs.Wire.Queueing
import Overlay.Proofs.Wire.Rejection
import Overlay.Proofs.Wire.Growth
import Overlay.Proofs.Wire.Cutting
import Overlay.Proofs.Wire.Chunking
import Overlay.Proofs.Payload.RoundTrip
import Overlay.Proofs.Crypto.Keys
import Overlay.Proofs.Handshake.Greeting
import Overlay.Proofs.Handshake.Checking
import Overlay.Proofs.Handshake.Exchange
import Overlay.Proofs.Payload.Delimiting
import Overlay.Proofs.Payload.Formats
import Overlay.Proofs.Peer.Life
import Overlay.Proofs.Peer.Phase
import Overlay.Proofs.Peer.Accounts
import Overlay.Proofs.Peer.Supervision
import Overlay.Proofs.Peer.Lifecycle
import Overlay.Proofs.Peer.Redialing
import Overlay.Proofs.Peer.Traffic
import Overlay.Proofs.Peer.Telling
import Overlay.Proofs.Peer.Guarantees
import Overlay.Proofs.Peer.Reporting
import Overlay.Proofs.Peer.Pumping
import Overlay.Proofs.Settings.Chunks
import Overlay.Proofs.Settings.Pacing
import Overlay.Proofs.Node.Encounter
import Overlay.Proofs.Node.Standing
import Overlay.Proofs.Pool.Admission
import Overlay.Proofs.Node.Agreement
import Overlay.Proofs.Node.Tracing
import Overlay.Proofs.Pool.Supervisors
import Overlay.Proofs.Pool.Membership
import Overlay.Proofs.Pool.Procedure
import Overlay.Proofs.Pool.Keeping
import Overlay.Proofs.Pool.ConcurrentPool
import Overlay.Proofs.Pool.Identities
import Overlay.Proofs.Pool.Authentication
import Overlay.Proofs.Pool.Upkeep
import Overlay.Proofs.Pool.Dialing
import Overlay.Proofs.Pool.Bootstrap
import Overlay.Proofs.Pool.Balance
import Overlay.Proofs.Pool.ReceivedPeers
import Overlay.Proofs.Pool.Requests
import Overlay.Proofs.Pool.Storing
import Overlay.Proofs.Store.Reopening
import Overlay.Proofs.Store.Contents
import Overlay.Proofs.Pool.Ledger
import Overlay.Proofs.Pool.Succession
import Overlay.Proofs.Pool.Errands
import Overlay.Proofs.Pool.MembershipThreads
import Overlay.Proofs.Pool.Drift
import Overlay.Proofs.Pool.Announcing
import Overlay.Proofs.Pool.Sections
import Overlay.Proofs.Pool.Exclusion
import Overlay.Proofs.Node.Stopping
import Overlay.Proofs.Pool.Broadcasting
import Overlay.Proofs.Pool.Awaiting
import Overlay.Proofs.Pool.Reaching
import Overlay.Proofs.Pool.Resuming
import Overlay.Proofs.Text.Numerals
import Overlay.Proofs.Text.Trimming
import Overlay.Proofs.Address.Literals
import Overlay.Proofs.Address.Grammar
import Overlay.Proofs.Endpoint.Reading
import Overlay.Proofs.Endpoint.Sockets
import Overlay.Proofs.Settings.Listening
import Overlay.Proofs.Payload.Shortest
import Overlay.Proofs.Wire.Forwarding
import Overlay.Proofs.Pool.Regrouping
import Overlay.Proofs.Pool.Bookkeeping
import Overlay.Proofs.Pool.TrackedTasks
import Overlay.Proofs.Pool.Learning
