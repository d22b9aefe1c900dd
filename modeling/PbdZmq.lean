import PbdZmq.Core.System
import PbdZmq.Core.Blocks
import PbdZmq.Core.Duplex
import PbdZmq.Core.Heap
import PbdZmq.Core.Silent
import PbdZmq.R.Value
import PbdZmq.R.Literal
import PbdZmq.R.Call
import PbdZmq.Models.Transfer.Process
import PbdZmq.Models.Transfer.Sending
import PbdZmq.Models.Transfer.Receiving
import PbdZmq.Models.Transfer.Stream
import PbdZmq.Models.Transfer.Faults
import PbdZmq.Models.Transfer.Acknowledged
import PbdZmq.Models.Transfer.Turn
import PbdZmq.Models.Transfer.Faultless
import PbdZmq.Models.Handle.Session
import PbdZmq.Models.Handle.Collected
import PbdZmq.Models.Handle.Finalization
import PbdZmq.Models.Handle.Lifecycle
import PbdZmq.Models.Poll.PollSet
import PbdZmq.Models.Ownership.Program
import PbdZmq.Models.Ownership.Release
import PbdZmq.Models.Multipart.Wire
import PbdZmq.Models.Multipart.Receive
import PbdZmq.Models.Multipart.Send
import PbdZmq.Models.Text.RoundTrip
import PbdZmq.Models.Transfer.Announced
import PbdZmq.Models.Transfer.Output
import PbdZmq.Models.Message.Outcome
import PbdZmq.Models.Options.RoundTrip
import PbdZmq.Models.Text.Bounds
import PbdZmq.Core.Lines
import PbdZmq.Core.Decimal
import PbdZmq.Core.Split
import PbdZmq.Models.Build.Selection
import PbdZmq.Models.Build.Drafts
import PbdZmq.Core.Lifetime
import PbdZmq.Models.Poll.Arrays
import PbdZmq.Models.Listing.Pattern
import PbdZmq.Models.Listing.Names
import PbdZmq.Models.Port.Random
import PbdZmq.Models.Port.Search
import PbdZmq.Models.Connection.Address
import PbdZmq.Models.Connection.Disconnect
import PbdZmq.Models.Message.Discipline
import PbdZmq.Models.Transfer.Buffers
import PbdZmq.Core.Loop
import PbdZmq.R.Double
import PbdZmq.Models.Transfer.Progress
import PbdZmq.Models.Transfer.Bar
import PbdZmq.Core.Serving
import PbdZmq.Core.Star
import PbdZmq.Models.Service.Server
import PbdZmq.Models.Service.Linear
import PbdZmq.Models.Service.Lockstep
import PbdZmq.Core.Family
import PbdZmq.Models.Tasks.Batch
import PbdZmq.Models.Tasks.Conservation
import PbdZmq.Models.Tasks.Completion
import PbdZmq.Core.Reader
import PbdZmq.Models.Zmtp.Codec
import PbdZmq.Models.Zmtp.Encoder
import PbdZmq.Models.Zmtp.Engine
import PbdZmq.Core.Window
import PbdZmq.Models.Subscription.Trie
import PbdZmq.Models.Subscription.Mtrie
import PbdZmq.Core.Announce
import PbdZmq.Models.Subscription.Forward
import PbdZmq.Models.Transfer.Completion
