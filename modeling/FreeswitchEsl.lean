import FreeswitchEsl.Lib.Transition
import FreeswitchEsl.Lib.Incremental
import FreeswitchEsl.Protocol.RoundTrip
import FreeswitchEsl.Protocol.PlainEvent
import FreeswitchEsl.Protocol.Formats
import FreeswitchEsl.Protocol.Tiling
import FreeswitchEsl.Protocol.Bounds
import FreeswitchEsl.Command
import FreeswitchEsl.CommandFrame
import FreeswitchEsl.CommandLines
import FreeswitchEsl.Originate.Tokens
import FreeswitchEsl.Originate.Command
import FreeswitchEsl.Originate.Positions
import FreeswitchEsl.Connection.Clients
import FreeswitchEsl.Connection.Handshake
import FreeswitchEsl.Connection.Reading
import FreeswitchEsl.Connection.System
import FreeswitchEsl.Connection.Overflow
import FreeswitchEsl.Connection.Exclusion
import FreeswitchEsl.Connection.Shutdown
import FreeswitchEsl.Connection.Replies
import FreeswitchEsl.Connection.Sending
import FreeswitchEsl.Connection.Recovery
import FreeswitchEsl.Originate.Scan
import FreeswitchEsl.Originate.Escape
import FreeswitchEsl.Originate.Variables
import FreeswitchEsl.Originate.DialString
import FreeswitchEsl.Originate.Line
import FreeswitchEsl.Originate.Applications
import FreeswitchEsl.Originate.RoundTrip
import FreeswitchEsl.Originate.Stable
import FreeswitchEsl.Originate.Scopes
import FreeswitchEsl.Originate.Quoted
import FreeswitchEsl.Originate.Target
import FreeswitchEsl.Lib.Pieces
import FreeswitchEsl.Originate.Exact
import FreeswitchEsl.Connection.Getvar
import FreeswitchEsl.Connection.LogData
import FreeswitchEsl.Protocol.Desync
import FreeswitchEsl.Connection.Status
import FreeswitchEsl.EslArray
import FreeswitchEsl.ByteQueue
import FreeswitchEsl.Connection.Cleanup
import FreeswitchEsl.Protocol.Draining
import FreeswitchEsl.Protocol.EventBody
import FreeswitchEsl.Connection.Progress
import FreeswitchEsl.Connection.Silence
import FreeswitchEsl.Connection.Transport
import FreeswitchEsl.ChannelData
import FreeswitchEsl.Lib.Keyed
import FreeswitchEsl.Tracker.Channels
import FreeswitchEsl.Tracker.Summary
import FreeswitchEsl.Tracker.Loop
import FreeswitchEsl.Tracker.History
import FreeswitchEsl.Tracker.Bootstrap
import FreeswitchEsl.Tracker.Dump
import FreeswitchEsl.Tracker.Safety
import FreeswitchEsl.Tracker.Stream
import FreeswitchEsl.CommandReading
import FreeswitchEsl.Connection.Requests
import FreeswitchEsl.Builders
import FreeswitchEsl.Multipart
import FreeswitchEsl.Connection.Connect
import FreeswitchEsl.Connection.Exchange
