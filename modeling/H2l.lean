import H2l.Base.Channel
import H2l.Base.Machine
import H2l.Wire.Boundary
import H2l.Wire.Receipt
import H2l.Wire.Agreement
import H2l.Wire.Delimited
import H2l.Frame.Padding
import H2l.Frame.Builder
import H2l.Frame.Fixed
import H2l.Server.Tokens
import H2l.Server.Order
import H2l.Server.Shutdown
import H2l.Client.Shutdown
import H2l.Client.Reconnect
import H2l.Client.Protocol
import H2l.Link.Segments
import H2l.Link.Flags
import H2l.Client.Safety
import H2l.Server.Reports
import H2l.Server.Answers
import H2l.Wire.Relay
import H2l.Wire.Reread
import H2l.System.Exchange
import H2l.System.Relaying
import H2l.Client.Deadlock
import H2l.Server.Settling
import H2l.Server.Teardown
import H2l.Client.Settling
import H2l.Server.WindUp
import H2l.Client.WindUp
import H2l.Client.Marks
import H2l.Server.Notices
