import Svc.Common.Dstr
import Svc.Common.Dstr.Buffer
import Svc.Common.Dstr.Pool
import Svc.Common.Dstr.Capacity
import Svc.Common.Dstr.Contents
import Svc.Common.Dstr.Search
import Svc.Common.Dstr.Substring
import Svc.Common.Dstr.Compare
import Svc.Common.Dstrlex
import Svc.Common.Dstrlex.Grammar
import Svc.Common.Dstrutils
import Svc.Common.Dstrutils.Dsplit
import Svc.Common.Dstrutils.Nodes
import Svc.Common.Dstrutils.Dstrlist
import Svc.Common.Dstrutils.Dstrlist.Runs
import Svc.Common.Dstrutils.Dsdict
import Svc.Common.Dstrutils.Dsdict.Runs
import Svc.Common.Decimal
import Svc.Lib.Machine
import Svc.Lib.Fallible
import Svc.Lib.Loop
import Svc.Lib.Fifo
import Svc.Lib.Ring
import Svc.Lib.Dict
import Svc.Lib.OrderedMap
import Svc.Lib.Lagging
import Svc.Lib.Block
import Svc.Lib.Accesses
import Svc.Lib.Links
import Svc.Lib.Split
import Svc.Lib.BigEndian
import Svc.Lib.Signed
import Svc.Lib.Raising
import Svc.Libsvc.PacketTime
import Svc.Libsvc.PacketTime.Words
import Svc.Libsvc.PacketCage
import Svc.Libsvc.PacketCage.Steps
import Svc.Libsvc.PacketCage.Occupancy
import Svc.Libsvc.PacketCage.Ownership
import Svc.Libsvc.PacketCage.Wraparound
import Svc.Libsvc.PacketCage.Tagging
import Svc.Libsvc.PacketCage.Order
import Svc.Libsvc.PacketCage.Timeline
import Svc.Libsvc.PacketCage.Playout
import Svc.Libsvc.PacketCage.Flush
import Svc.Libsvc.Incoming
import Svc.Libsvc.Incoming.Mixer
import Svc.Libsvc.Incoming.Refinement
import Svc.Libsvc.Incoming.Peers
import Svc.Libsvc.Incoming.Heard
import Svc.Libsvc.PacketQueue
import Svc.Libsvc.PacketQueue.Fifo
import Svc.Libsvc.PacketQueue.Accounting
import Svc.Libsvc.PacketQueue.Blocking
import Svc.Libsvc.Outgoing
import Svc.Libsvc.Outgoing.Sent
import Svc.Libsvc.Outgoing.Progress
import Svc.Libsvc.Outgoing.Close
import Svc.Svcenet.Server
import Svc.Svcenet.Server.Slots
import Svc.Svcenet.Server.Allocation
import Svc.Svcenet.Server.Handlers
import Svc.Svcenet.Server.Lifecycle
import Svc.Svcenet.Client
import Svc.Svcenet.Client.Dictionary
import Svc.Svcenet.Client.Lines
import Svc.Svcenet.Client.State
import Svc.Svcenet.Client.Table
import Svc.Svcenet.Client.TableSteps
import Svc.Svcenet.Audio
import Svc.Svcenet.Client.Program
import Svc.Svcenet.Client.Invariant
import Svc.Svcenet.Client.UseSafety
import Svc.Svcenet.Client.Exit
import Svc.Svcenet.Client.Lifecycle
import Svc.Svcenet.Client.Handles
import Svc.Svcenet.Audio.Relay
import Svc.Svcenet.Audio.Conversation
import Svc.Svcenet.Client.Framing
import Svc.Svcenet.Client.Growth
import Svc.Svcenet.TextInput
import Svc.Svcenet.SvcParser
import Svc.Svcenet.Messages
import Svc.Svcenet.Client.Replica
import Svc.Svcenet.Replicated
import Svc.Svcenet.Network
import Svc.Svcenet.Network.Refinement
import Svc.Svcenet.Network.Replication
import Svc.Svcenet.Network.Membership
import Svc.Common.Dstr.Termination
import Svc.Common.Dstrutils.Termination
import Svc.Svcenet.Server.Script
import Svc.Svcenet.Server.Script.Runs
import Svc.Svcenet.Server.Speaking
import Svc.Svcenet.Server.Routing
import Svc.Svcenet.Client.Input
import Svc.Svcenet.Service.Speakers
import Svc.Svcenet.Service.Voice
import Svc.Lib.Records
import Svc.Common.Dstrlex.Cut
import Svc.Svcenet.WxWidgets
import Svc.Svcenet.SvcState
import Svc.Svcenet.SvcState.Lines
import Svc.Svcenet.SvcState.Announcements
import Svc.Svcenet.SvcState.Mirror
import Svc.Svcenet.SvcState.Updates
import Svc.Svcenet.SvcWindow.ObjectInfo
import Svc.Svcenet.SvcWindow
import Svc.Svcenet.WxClient
import Svc.Svcenet.WxClient.Prints
import Svc.Svcenet.WxClient.Follows
import Svc.Svcenet.WxClient.Shown
import Svc.Svcenet.Network.History
import Svc.Svcenet.Client.Session
import Svc.Svcenet.WxClient.Published
import Svc.Svcenet.Client.Output
import Svc.Svcp2p
