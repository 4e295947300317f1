import InterCore.Bench.App
import InterCore.Bench.Async
import InterCore.Bench.Kicks
import InterCore.Bench.Link
import InterCore.Bench.Pool
import InterCore.Bench.Ring
import InterCore.Bench.Script
import InterCore.Bench.Session
import InterCore.Bench.Table
import InterCore.Bench.Window
import InterCore.Bench.World
import InterCore.Bytes.Area
import InterCore.Bytes.LittleEndian
import InterCore.Client.Async
import InterCore.Client.Blocking
import InterCore.Client.Directory
import InterCore.Client.Outcome
import InterCore.Client.Pool
import InterCore.Client.Query
import InterCore.Config.Message
import InterCore.Config.Reply
import InterCore.Config.Server
import InterCore.Error
import InterCore.Fault
import InterCore.Kick
import InterCore.Link.Channel
import InterCore.Link.ConfigService
import InterCore.Link.Machine
import InterCore.Link.Outgoing
import InterCore.Link.Peer
import InterCore.Link.Placement
import InterCore.Link.Station
import InterCore.Memory.Basic
import InterCore.Memory.Bus
import InterCore.Packet.Announcement
import InterCore.Packet.Header
import InterCore.Ring.Descriptor
import InterCore.Ring.Device
import InterCore.Ring.Driver
import InterCore.Ring.Layout
import InterCore.Text.Cut
import InterCore.Text.Integer
import InterCore.Variable.Basic
import InterCore.Variable.Conduct
import InterCore.Variable.Hooks
import InterCore.Variable.Store
import InterCore.Variable.Table
import InterCore.Proofs.Bytes.Fields
import InterCore.Proofs.Packet.Codec
import InterCore.Proofs.Memory.Replay
import InterCore.Proofs.Memory.Footprint
import InterCore.Proofs.Memory.Words
import InterCore.Proofs.Ring.Areas
import InterCore.Proofs.Ring.Events
import InterCore.Proofs.Ring.Contents
import InterCore.Proofs.Ring.Run
import InterCore.Proofs.Ring.Fifo
import InterCore.Proofs.Ring.Custody
import InterCore.Proofs.Client.Blocking
import InterCore.Proofs.Client.Slots
import InterCore.Proofs.Client.Lists
import InterCore.Proofs.Client.Session
import InterCore.Proofs.Client.Partition
import InterCore.Proofs.Client.Delivery
import InterCore.Proofs.Link.Steps
import InterCore.Proofs.Link.Sending
import InterCore.Proofs.Link.Turns
import InterCore.Proofs.Link.Calls
import InterCore.Proofs.Link.Deliveries
import InterCore.Proofs.Link.Effects
import InterCore.Proofs.Link.Session
import InterCore.Proofs.Link.Custody
import InterCore.Proofs.Link.Mail
import InterCore.Proofs.Link.Order
import InterCore.Proofs.Link.Wakeups
import InterCore.Proofs.Link.Backlog
import InterCore.Proofs.Link.Completion
import InterCore.Proofs.Ring.SetUp
import InterCore.Proofs.Link.SetUp
import InterCore.Proofs.Link.Polling
import InterCore.Proofs.Memory.Visibility
import InterCore.Proofs.Ring.Visibility
import InterCore.Proofs.Link.Visibility
import InterCore.Proofs.Link.Strays
import InterCore.Proofs.Link.ChannelTable
import InterCore.Proofs.Config.Codec
import InterCore.Proofs.Config.Sequential
import InterCore.Proofs.Client.Exchange
import InterCore.Proofs.Client.Linearizability
import InterCore.Proofs.Link.ConfigChannel
import InterCore.Proofs.Client.Collected
import InterCore.Proofs.Client.TwoClients
import InterCore.Proofs.Config.History
import InterCore.Proofs.Ring.Flushing
import InterCore.Proofs.Ring.Frame
import InterCore.Proofs.Link.Flushing
import InterCore.Proofs.Link.Containment
import InterCore.Proofs.Link.Endings
import InterCore.Proofs.Client.Paths
import InterCore.Proofs.Client.Messages
import InterCore.Proofs.Client.Requests
import InterCore.Proofs.Client.Served
import InterCore.Proofs.Client.Directory
import InterCore.Proofs.Client.WriteBack
import InterCore.Proofs.Client.ByName
import InterCore.Proofs.Config.Responses
import InterCore.Proofs.Text.Utf8
import InterCore.Proofs.Text.Grammar
import InterCore.Proofs.Text.Machine
import InterCore.Proofs.Text.Decimal
import InterCore.Proofs.Config.Mirroring
import InterCore.Proofs.Variable.Writing
import InterCore.Proofs.Config.Reordering
import InterCore.Proofs.Config.Lending
import InterCore.Proofs.Text.Boundary
import InterCore.Proofs.Packet.Names
import InterCore.Proofs.Link.Announcements
import InterCore.Proofs.Memory.Cells
import InterCore.Proofs.Memory.Accesses
import InterCore.Proofs.Ring.Addressing
import InterCore.Proofs.Memory.Faults
import InterCore.Proofs.Ring.Words
import InterCore.Proofs.Link.Placement
