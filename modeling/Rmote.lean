import Rmote.Library.Machine
import Rmote.Library.BigEndian
import Rmote.Library.Dict
import Rmote.Library.Counting
import Rmote.Library.Segments
import Rmote.Library.Hoare
import Rmote.Library.Blocks
import Rmote.Library.Paths
import Rmote.Library.Assoc
import Rmote.Library.Simulation
import Rmote.Library.Coupling
import Rmote.Library.Outcome
import Rmote.Library.Text
import Rmote.Wire.Flags
import Rmote.Wire.Cancellation
import Rmote.Wire.FragmentBuffer
import Rmote.Wire.Reassembly
import Rmote.Wire.FrameCodec
import Rmote.Wire.Header
import Rmote.Wire.Receive
import Rmote.Wire.Send
import Rmote.Wire.Transfer
import Rmote.Wire.Isolation
import Rmote.Wire.Limits
import Rmote.Wire.Packet
import Rmote.Wire.Batch
import Rmote.Wire.Decode
import Rmote.Wire.Unpickler
import Rmote.Stream.Credit
import Rmote.Stream.Budget
import Rmote.Stream.Consumer
import Rmote.Stream.Session
import Rmote.Stream.Sound
import Rmote.Stream.Ledger
import Rmote.Stream.Order
import Rmote.Stream.Accounts
import Rmote.Stream.Stall
import Rmote.Stream.Delivery
import Rmote.Endpoint.State
import Rmote.Endpoint.Loop
import Rmote.Endpoint.Step
import Rmote.Endpoint.Close
import Rmote.Endpoint.Response
import Rmote.Endpoint.Stop
import Rmote.Endpoint.Report
import Rmote.Endpoint.Permissions
import Rmote.Endpoint.Requests
import Rmote.Endpoint.Bookkeeping
import Rmote.FileSync.Session
import Rmote.FileSync.Receiver
import Rmote.FileSync.Sender
import Rmote.FileSync.Exchange
import Rmote.Rsync.Exclude
import Rmote.Rsync.Tree
import Rmote.Rsync.Removal
import Rmote.Rsync.Remove
import Rmote.Rsync.Transfer
import Rmote.Rsync.Selected
import Rmote.Rsync.FirstPass
import Rmote.Rsync.SecondPass
import Rmote.Rsync.Repeat
import Rmote.Rsync.Outcome
import Rmote.Log.Handler
import Rmote.Log.Wakeup
import Rmote.Log.Order
import Rmote.Log.Delivery
import Rmote.Modules.Link
import Rmote.Modules.Known
import Rmote.Modules.Loader
import Rmote.Client.Runtime
import Rmote.Cache.Json
import Rmote.Cache.Read
import Rmote.Cache.Store
import Rmote.Cache.Payload
import Rmote.Cache.Directory
import Rmote.Cache.Table
import Rmote.Cache.Backends
import Rmote.Cache.RoundTrip
import Rmote.Cache.Memory
import Rmote.Templates.Program
import Rmote.Templates.Context
import Rmote.Templates.Render
import Rmote.Templates.Shadow
import Rmote.Templates.Source
import Rmote.Templates.Lexer
import Rmote.Templates.ExpressionParser
import Rmote.Templates.TemplateParser
import Rmote.Templates.Wellformed
import Rmote.Library.Latest
import Rmote.Library.Memo
import Rmote.Library.Recorded
import Rmote.Library.Wildcard
import Rmote.Rsync.Match
import Rmote.Rsync.Relative
import Rmote.Templates.Escape
import Rmote.Templates.Grammar
import Rmote.Templates.Strings
import Rmote.Templates.Located
import Rmote.Templates.Control
import Rmote.Templates.Lenient
import Rmote.Templates.Plain
import Rmote.Templates.Print
import Rmote.Templates.Reparse
import Rmote.Immutable.Value
import Rmote.Immutable.Freeze
import Rmote.Immutable.Snapshot
import Rmote.Cli.Escape
import Rmote.Cli.SftpPacket
import Rmote.Cli.SftpServer
import Rmote.Cli.SftpReplies
import Rmote.Cli.SftpRuns
import Rmote.Cli.TextCodec
import Rmote.Cli.MuxPacket
import Rmote.Cli.MuxCodec
import Rmote.Tools.Sysctl
import Rmote.Tools.LineInFile
import Rmote.Tools.LineSettled
import Rmote.Library.LineSearch
import Rmote.Tools.PacmanRepository
import Rmote.Tools.PacmanSections
import Rmote.Tools.Mountinfo
import Rmote.Tools.Agent
import Rmote.Tools.AgentRuns
import Rmote.Tools.AgentRelease
import Rmote.Endpoint.Answer
import Rmote.Endpoint.Numbers
import Rmote.Endpoint.Pair
import Rmote.Library.Search
import Rmote.Modules.Bundle
import Rmote.Modules.Prepare
import Rmote.Wire.Boundary
import Rmote.Library.Ownership
import Rmote.Tools.Files
import Rmote.Tools.FilesRuns
import Rmote.Log.Pipeline
import Rmote.Library.Linear
import Rmote.Cache.Shared
import Rmote.Library.Awaiting
import Rmote.Cli.MuxClient
import Rmote.Cli.MuxLease
import Rmote.Tools.Facts
