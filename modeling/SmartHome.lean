import SmartHome.Lib.Traced
import SmartHome.Lib.Fields
import SmartHome.Lib.Decimal
import SmartHome.Lib.PubSub
import SmartHome.Lib.Register
import SmartHome.Lib.Slot
import SmartHome.Lib.Interleave
import SmartHome.Lib.Soup
import SmartHome.Lib.Varint
import SmartHome.Lib.Framing
import SmartHome.Lib.Orbit
import SmartHome.Lib.Arena
import SmartHome.Lib.Entries
import SmartHome.Lib.Tagged
import SmartHome.CString
import SmartHome.Exec
import SmartHome.Parse
import SmartHome.Device
import SmartHome.Kontroler
import SmartHome.Pi
import SmartHome.CommandLine
import SmartHome.System
import SmartHome.Wire
import SmartHome.Owner
import SmartHome.Controller
import SmartHome.Invariant
import SmartHome.Commands
import SmartHome.Mirror
import SmartHome.Safety
import SmartHome.Traffic
import SmartHome.Ranges
import SmartHome.Malformed
import SmartHome.Answers
import SmartHome.Log
import SmartHome.Automation
import SmartHome.LastWriter
import SmartHome.Acknowledge
import SmartHome.Overwrite
import SmartHome.Overlap
import SmartHome.Storm
import SmartHome.Strtok
import SmartHome.Packet
import SmartHome.Reach
import SmartHome.Sensor
import SmartHome.Capacity
import SmartHome.Listing
import SmartHome.Language
import SmartHome.Mqtt.Header
import SmartHome.Mqtt.Packets
import SmartHome.Mqtt.RoundTrip
import SmartHome.Mqtt.PacketId
import SmartHome.Mqtt.Queue
import SmartHome.Mqtt.Client
import SmartHome.Mqtt.Session
import SmartHome.Mqtt.Receive
import SmartHome.Mqtt.Send
import SmartHome.Mqtt.Steps
import SmartHome.Mqtt.Stream
import SmartHome.Mqtt.Accepts
import SmartHome.Mqtt.Outgoing
import SmartHome.Mqtt.Publishing
import SmartHome.Mqtt.Inflight
import SmartHome.Mqtt.Repeating
import SmartHome.Mqtt.SendBuffer
import SmartHome.Mqtt.Room
import SmartHome.Mqtt.Intake
import SmartHome.Mqtt.Pipe
