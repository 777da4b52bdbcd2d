import Nutcracker.RbTree.Rotate
import Nutcracker.RbTree.Extremes
import Nutcracker.RbTree.Insert
import Nutcracker.RbTree.Rebalance
import Nutcracker.RbTree.Remove
import Nutcracker.RbTree.Fuel
import Nutcracker.Lib.Runs
import Nutcracker.RbTree.History
import Nutcracker.RbTree.Order
import Nutcracker.RbTree.Stable
import Nutcracker.RbTree.NullSentinel
import Nutcracker.RbTree.Untracked
import Nutcracker.Pool.ObjectPool
import Nutcracker.Mbuf.Model
import Nutcracker.Mbuf.Recycle
import Nutcracker.Msg.Build
import Nutcracker.Conn.Model
import Nutcracker.Conn.Recycle
import Nutcracker.Server.SendNext
import Nutcracker.Conn.SendChain
import Nutcracker.Server.Gather
import Nutcracker.Server.Wire
import Nutcracker.Send.ShortWrite
import Nutcracker.Client.Send
import Nutcracker.Send.IoVecBound
import Nutcracker.Event.Interest
import Nutcracker.Event.Wait
import Nutcracker.Event.Capacity
import Nutcracker.HashKit.Dispatch
import Nutcracker.Proxy.Model
import Nutcracker.Proxy.Turns
import Nutcracker.Msg.Split
import Nutcracker.Proxy.Frame
import Nutcracker.Proxy.Budget
import Nutcracker.Proxy.OutOfService
import Nutcracker.Proxy.Looks
import Nutcracker.Conf.Address
import Nutcracker.Text.Split
import Nutcracker.Text.Number
import Nutcracker.Conf.HostPort
import Nutcracker.Conf.SocketPath
import Nutcracker.Conf.Rejected
import Nutcracker.Conf.Model
import Nutcracker.Conf.Stream
import Nutcracker.Conf.Phases
import Nutcracker.Conf.Survive
import Nutcracker.Conf.Usable
import Nutcracker.Conf.Shape
import Nutcracker.Proxy.Books
import Nutcracker.Proxy.Places
import Nutcracker.Proxy.Custody
import Nutcracker.Proxy.Isolation
import Nutcracker.HashKit.Ejection
import Nutcracker.HashKit.Growth
import Nutcracker.HashKit.Comeback
import Nutcracker.HashKit.HashTag
import Nutcracker.Proxy.Registry
import Nutcracker.Proxy.StartUp
import Nutcracker.Proxy.HalfClose
import Nutcracker.Proxy.Unwanted
import Nutcracker.Proxy.Blocked
import Nutcracker.Lib.LittleEndian
import Nutcracker.HashKit.Jenkins
import Nutcracker.Lib.PlainChar
import Nutcracker.Lib.Crc
import Nutcracker.HashKit.Crc
import Nutcracker.HashKit.Fnv
import Nutcracker.Lib.Blocks
import Nutcracker.Lib.Md5
import Nutcracker.HashKit.Md5
import Nutcracker.HashKit.Kit
import Nutcracker.HashKit.Signedness
import Nutcracker.Msg.Markers
import Nutcracker.Text.Search
import Nutcracker.Text.Atoi
import Nutcracker.Text.Strings
import Nutcracker.Log.Line
import Nutcracker.RbTree.Height
import Nutcracker.RbTree.Payload
import Nutcracker.Core.Timeouts
import Nutcracker.Proxy.OwnConn
import Nutcracker.Proxy.EdgeTriggered
import Nutcracker.Proxy.Backlog
import Nutcracker.Proxy.Dispatch
import Nutcracker.Proxy.Mute
import Nutcracker.Proxy.HighWater
import Nutcracker.Proxy.Retention
import Nutcracker.Proxy.Upkeep
import Nutcracker.Proxy.Moves
import Nutcracker.Proxy.Faithful
import Nutcracker.Proxy.Transparency
import Nutcracker.Lib.Permutive
import Nutcracker.HashKit.Separation
