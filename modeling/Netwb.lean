import Netwb.Lib.Word
import Netwb.Lib.Vec
import Netwb.Lib.Framing
import Netwb.Lib.Heap
import Netwb.Lib.Run
import Netwb.Lib.Cursor
import Netwb.Lib.Decimal
import Netwb.Lib.PTree
import Netwb.Lib.Search
import Netwb.Lib.Probe
import Netwb.Lib.JsonText
import Netwb.Lib.Tokens
import Netwb.Lib.Parts
import Netwb.Net.Package
import Netwb.Net.Packing
import Netwb.Net.PackageAlloc
import Netwb.Net.Cipher
import Netwb.Net.Parser
import Netwb.Net.Plain
import Netwb.Net.Receive
import Netwb.Net.Growth
import Netwb.Net.Channel
import Netwb.Net.CipherLoop
import Netwb.Net.CipherRange
import Netwb.Net.CipherCalls
import Netwb.Net.SendQueue
import Netwb.Net.Session
import Netwb.Net.SessionRuns
import Netwb.Net.ParserRuns
import Netwb.Net.Delivery
import Netwb.Net.Compaction
import Netwb.Net.Timers
import Netwb.Net.Client
import Netwb.Net.Server
import Netwb.Net.Sender
import Netwb.Net.SendBuffers
import Netwb.Net.SendModes
import Netwb.Net.SendLimits
import Netwb.Net.Loops
import Netwb.Net.Intake
import Netwb.Net.Link
import Netwb.Net.Flight
import Netwb.Net.Listener
import Netwb.Net.ClientRuns
import Netwb.Net.Sockets
import Netwb.Net.Retry
import Netwb.Net.Proxy
import Netwb.Net.Socks5
import Netwb.Net.Target
import Netwb.Net.Stream
import Netwb.Net.TypedStream
import Netwb.Net.Base64
import Netwb.Net.Base64Range
import Netwb.Net.Base64Grammar
import Netwb.Net.Base64Memory
import Netwb.Net.Password
import Netwb.Net.Strings
import Netwb.Net.StringNumber
import Netwb.Net.BsonQuota
import Netwb.Net.Inflate
import Netwb.Net.RoundTrip
import Netwb.Net.InflateWidth
import Netwb.Net.Reserved
import Netwb.Sample.Rpc
import Netwb.Sample.Decode
import Netwb.Sample.Lzma
import Netwb.Sample.Client
import Netwb.Sample.Numbers
import Netwb.Sample.Json
import Netwb.Sample.JsonVector
import Netwb.Sample.Terminated
import Netwb.Sample.Events
import Netwb.Sample.Compression
import Netwb.Sample.Reconnect
import Netwb.Sample.Service
import Netwb.Sample.Remote
import Netwb.Sample.RemoteRuns
import Netwb.Sample.Wired
import Netwb.Sample.WiredRuns
