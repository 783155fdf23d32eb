import IocpServer.Pool.SlotMap
import IocpServer.Session.Receive
import IocpServer.Session.Send
import IocpServer.Packet.Admission
import IocpServer.Packet.Exposure
import IocpServer.Pool.References
import IocpServer.Support.Total
import IocpServer.Pool.Ownership
import IocpServer.Pool.Exact
import IocpServer.Pool.Counts
import IocpServer.Pool.Handles
import IocpServer.Pool.Stale
import IocpServer.Pool.Reentrant
import IocpServer.Server.SessionManager
import IocpServer.Server.Engine
import IocpServer.Server.Seat
import IocpServer.Server.Base
import IocpServer.Server.Good
import IocpServer.Server.LifeCycle
import IocpServer.Server.Flight
import IocpServer.Server.Pinned
import IocpServer.Session.Room
import IocpServer.Session.Failure
import IocpServer.Server.Delivery
import IocpServer.Server.Malformed
import IocpServer.Server.Posted
import IocpServer.Packet.Effects
import IocpServer.Packet.Service
import IocpServer.Packet.Accounts
import IocpServer.Server.Identity
import IocpServer.Packet.Broadcast
import IocpServer.Packet.Relay
import IocpServer.Packet.Welcome
import IocpServer.Server.Relay
import IocpServer.Server.TaskQueue
import IocpServer.Server.Teardown
import IocpServer.Packet.Backlog
import IocpServer.Server.Accepts
import IocpServer.Server.Leak
import IocpServer.Server.Lookup
import IocpServer.Server.Pending
import IocpServer.Server.Refill
import IocpServer.Client.Chatroom
import IocpServer.Pool.Listing
import IocpServer.Server.Drain
import IocpServer.Server.Locks
import IocpServer.Server.Progress
import IocpServer.Server.Rest
import IocpServer.Server.Settling
import IocpServer.Server.AccountCalls
import IocpServer.Server.Sockets
