import SocketRpc.Backoff
import SocketRpc.Cli.Invocation
import SocketRpc.Cli.Job
import SocketRpc.Cli.Session
import SocketRpc.Cli.Settings
import SocketRpc.Config
import SocketRpc.Console
import SocketRpc.Correlator
import SocketRpc.Duration
import SocketRpc.Endpoint
import SocketRpc.Failure
import SocketRpc.Framing
import SocketRpc.Json.Decoder
import SocketRpc.Json.Printer
import SocketRpc.Json.Problem
import SocketRpc.Json.Reader
import SocketRpc.Json.Reader.Number
import SocketRpc.Json.Reader.Text
import SocketRpc.Json.Skimmer
import SocketRpc.Json.Value
import SocketRpc.Main
import SocketRpc.Message.Id
import SocketRpc.Message.Notification
import SocketRpc.Message.Request
import SocketRpc.Message.Response
import SocketRpc.Number.Binary64
import SocketRpc.Number.Rounding
import SocketRpc.Number.Shortest
import SocketRpc.Path
import SocketRpc.Proofs.Correlator
import SocketRpc.Proofs.Correlator.Claims
import SocketRpc.Proofs.Correlator.Clearances
import SocketRpc.Proofs.Correlator.Exchange
import SocketRpc.Proofs.Correlator.Halves
import SocketRpc.Proofs.Correlator.Latecomers
import SocketRpc.Proofs.Correlator.Origins
import SocketRpc.Proofs.Correlator.Queues
import SocketRpc.Proofs.Correlator.Readers
import SocketRpc.Proofs.Correlator.Rejections
import SocketRpc.Proofs.Correlator.Retention
import SocketRpc.Proofs.Correlator.Slots
import SocketRpc.Proofs.Framing.Chunks
import SocketRpc.Proofs.Framing.Delivery
import SocketRpc.Proofs.Framing.Mending
import SocketRpc.Proofs.Framing.Messages
import SocketRpc.Proofs.Framing.Objects
import SocketRpc.Proofs.Framing.Places
import SocketRpc.Proofs.Framing.Skew
import SocketRpc.Proofs.Framing.Spent
import SocketRpc.Proofs.Framing.Written
import SocketRpc.Proofs.Json.Printing
import SocketRpc.Proofs.Json.Records
import SocketRpc.Proofs.Json.Scan
import SocketRpc.Proofs.Json.Spellings
import SocketRpc.Proofs.Json.Walks
import SocketRpc.Proofs.Listener.Answers
import SocketRpc.Proofs.Listener.Cuts
import SocketRpc.Proofs.Listener.Echoes
import SocketRpc.Proofs.Listener.Faults
import SocketRpc.Proofs.Listener.Handed
import SocketRpc.Proofs.Path
import SocketRpc.Proofs.Provider.Attempts
import SocketRpc.Proofs.Provider.Callers
import SocketRpc.Proofs.Provider.Connections
import SocketRpc.Proofs.Provider.Correlation
import SocketRpc.Proofs.Provider.Deeds
import SocketRpc.Proofs.Provider.Drops
import SocketRpc.Proofs.Provider.Entries
import SocketRpc.Proofs.Provider.Epochs
import SocketRpc.Proofs.Provider.Farewell
import SocketRpc.Proofs.Provider.Hands
import SocketRpc.Proofs.Provider.Ledger
import SocketRpc.Proofs.Provider.Leftovers
import SocketRpc.Proofs.Provider.Lines
import SocketRpc.Proofs.Provider.Locking
import SocketRpc.Proofs.Provider.Moves
import SocketRpc.Proofs.Provider.Numbers
import SocketRpc.Proofs.Provider.Owners
import SocketRpc.Proofs.Provider.Readings
import SocketRpc.Proofs.Provider.Renewals
import SocketRpc.Proofs.Provider.Resets
import SocketRpc.Proofs.Provider.Sockets
import SocketRpc.Proofs.Provider.Solitude
import SocketRpc.Proofs.Provider.Sources
import SocketRpc.Proofs.Provider.Subscriptions
import SocketRpc.Proofs.Provider.Undisturbed
import SocketRpc.Proofs.Provider.Upkeep
import SocketRpc.Proofs.Provider.Waiters
import SocketRpc.Proofs.Provider.Withdrawals
import SocketRpc.Proofs.Script.Rounds
import SocketRpc.Proofs.Script.Scopes
import SocketRpc.Proofs.Script.Sessions
import SocketRpc.Proofs.Table
import SocketRpc.Proofs.Text.Utf8
import SocketRpc.Proofs.Transport
import SocketRpc.Provider.Calling
import SocketRpc.Provider.Listening
import SocketRpc.Provider.Run
import SocketRpc.Provider.State
import SocketRpc.Script
import SocketRpc.Simulation.Action
import SocketRpc.Simulation.Node
import SocketRpc.Simulation.Schedule
import SocketRpc.Simulation.Session
import SocketRpc.Table
import SocketRpc.Text.Quoted
import SocketRpc.Text.Unprintable
import SocketRpc.Text.Utf8
import SocketRpc.Transport
