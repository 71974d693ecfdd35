import MKart.Lib.Bytes
import MKart.Lib.LittleEndian
import MKart.Lib.Runs
import MKart.Lib.Logs
import MKart.Lib.Framing
import MKart.Lib.PartialSends
import MKart.Lib.Delimited
import MKart.Lib.ShortCircuit
import MKart.Lib.SizedReads
import MKart.Lib.Fifo
import MKart.Lib.Loops
import MKart.Lib.TowardZero
import MKart.Lib.Interpolation
import MKart.Lib.FirstMin
import MKart.Lib.RateLimiter
import MKart.Lib.Decay
import MKart.Lib.Restarts
import MKart.ClientQt.Tcp
import MKart.ClientQt.Fpv
import MKart.ClientQt.Parser
import MKart.ClientQt.Reassembly
import MKart.ClientQt.Reconnect
import MKart.ClientQt.Representation
import MKart.ClientQt.MessageBounds
import MKart.ClientQt.Archive
import MKart.ClientQt.RoundTrip
import MKart.ClientQt.Commands
import MKart.ClientQt.Dispatch
import MKart.ClientQt.FrameBoundaries
import MKart.ClientQt.CommandChannel
import MKart.ClientQt.Texture
import MKart.ClientQt.Sends
import MKart.ClientQt.CommandSize
import MKart.ClientQt.ControlView
import MKart.ClientQt.Coasting
import MKart.ClientQt.Standstill
import MKart.ClientQt.Jumps
import MKart.ClientUnity.V4L2Client
import MKart.ClientUnity.EndToEnd
import MKart.ClientUnity.Lengths
import MKart.ClientUnity.Sessions
import MKart.Server.Messages
import MKart.Server.V4L2
import MKart.Server.Calls
import MKart.Server.ClosestFormat
import MKart.Server.Resources
import MKart.Server.Buffers
import MKart.Server.RpiServer
import MKart.Server.Events
import MKart.Server.Pacing
import MKart.Server.Turns
import MKart.Server.Replies
import MKart.Server.Pigpio
import MKart.Server.Mapping
import MKart.Server.Receive
import MKart.Server.Connections
import MKart.Server.Exit
import MKart.Server.Output
import MKart.Server.Video
import MKart.Server.Scripts
import MKart.Server.Availability
import MKart.System.ScriptCommands
import MKart.System.CaptureFlag
import MKart.System.Line
import MKart.System.Video
import MKart.System.Streaming
import MKart.System.Readings
import MKart.System.Pins
import MKart.System.Display
