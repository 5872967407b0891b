import TCPClientServer.Io.Framing
import TCPClientServer.Io.Header
import TCPClientServer.Io.Reports
import TCPClientServer.Calculator.Printing
import TCPClientServer.Exchange.Answer
import TCPClientServer.Calculator.Ending
import TCPClientServer.Calculator.Memory
import TCPClientServer.Client.QueueCalls
import TCPClientServer.Client.Opening
import TCPClientServer.Calculator.Stopping
import TCPClientServer.Exchange.Poison
import TCPClientServer.Server.Containment
import TCPClientServer.Server.Buffers
import TCPClientServer.System.Agreement
import TCPClientServer.System.Progress
import TCPClientServer.System.World
import TCPClientServer.System.Liveness
import TCPClientServer.Basis.Integers
import TCPClientServer.System.Transcript
import TCPClientServer.Calculator.Reprinting
import TCPClientServer.System.Calculations
import TCPClientServer.System.Executions
import TCPClientServer.System.Pipeline
import TCPClientServer.Server.Bytes
