import ModemFhss.Library.Errno
import ModemFhss.Library.Machine
import ModemFhss.Library.ByteField
import ModemFhss.Library.Chunk
import ModemFhss.Library.Hex
import ModemFhss.Library.Framing
import ModemFhss.Library.Words
import ModemFhss.Library.Log
import ModemFhss.Library.ListHead
import ModemFhss.Library.Resource
import ModemFhss.Library.Grouping
import ModemFhss.Library.Pattern
import ModemFhss.Library.Tally
import ModemFhss.Library.Lines
import ModemFhss.Library.Numeral
import ModemFhss.Library.Assignments
import ModemFhss.Library.Paths
import ModemFhss.Library.Fields
import ModemFhss.Library.Fill
import ModemFhss.Library.Fractional
import ModemFhss.Library.Shuffle
import ModemFhss.Transport.Proto
import ModemFhss.Transport.Sender
import ModemFhss.Transport.Receiver
import ModemFhss.Transport.Collect
import ModemFhss.Transport.Medium
import ModemFhss.Transport.Delivery
import ModemFhss.Transport.Offer
import ModemFhss.Transport.Fifo
import ModemFhss.Transport.Bookkeeping
import ModemFhss.Transport.Mask
import ModemFhss.Transport.Stall
import ModemFhss.Transport.Reassembly
import ModemFhss.Transport.Round
import ModemFhss.Transport.Width
import ModemFhss.Daemon.Worker
import ModemFhss.Daemon.Stream
import ModemFhss.Daemon.Server
import ModemFhss.Daemon.Conf
import ModemFhss.Daemon.Modem
import ModemFhss.Daemon.Reply
import ModemFhss.Daemon.Relay
import ModemFhss.Daemon.Transmit
import ModemFhss.Daemon.Burst
import ModemFhss.Daemon.Sized
import ModemFhss.Daemon.Table
import ModemFhss.Daemon.Slow
import ModemFhss.Daemon.Request
import ModemFhss.KeySender.Keygen
import ModemFhss.KeySender.Station
import ModemFhss.KeySender.Agreement
import ModemFhss.KeySender.RoundTrip
import ModemFhss.KeySender.Latest
import ModemFhss.KeySender.Parsing
import ModemFhss.KeySender.Install
import ModemFhss.KeySender.Save
import ModemFhss.KeySender.Descriptors
import ModemFhss.KeySender.Cmdline
import ModemFhss.KeySender.Generate
import ModemFhss.Net.Device
import ModemFhss.Net.Tx
import ModemFhss.Net.Ownership
import ModemFhss.Net.Pool
import ModemFhss.Net.Rx
import ModemFhss.Net.Conserve
import ModemFhss.Net.Order
import ModemFhss.Net.Fidelity
import ModemFhss.Net.Open
import ModemFhss.Net.Sysfs
import ModemFhss.Net.Probe
import ModemFhss.Net.Uses
import ModemFhss.Net.Cleanup
import ModemFhss.Net.Lifecycle
import ModemFhss.CharDriver.Write
import ModemFhss.CharDriver.Read
import ModemFhss.CharDriver.Probe
import ModemFhss.CharDriver.Bounds
import ModemFhss.CharDriver.Open
import ModemFhss.RegParser.Parse
import ModemFhss.RegParser.Parser
import ModemFhss.RegParser.Declaration
import ModemFhss.RegParser.Comments
import ModemFhss.RegParser.Grammar
import ModemFhss.RegParser.Entries
import ModemFhss.RegParser.Device
import ModemFhss.RegParser.Files
import ModemFhss.RegParser.Buffers
import ModemFhss.Registers.Requests
import ModemFhss.Registers.Truthful
import ModemFhss.Registers.Attribute
import ModemFhss.Registers.Teardown
import ModemFhss.Capture.Process
import ModemFhss.Ad9361.InitParam
import ModemFhss.Ad9361.Fir
import ModemFhss.Ad9361.Taps
import ModemFhss.Ad9361.TapFormat
import ModemFhss.Ad9361.FirExact
import ModemFhss.Ad9361.FirReject
import ModemFhss.Ad9361.Config
import ModemFhss.Ad9361.Literal
import ModemFhss.Ad9361.Together
import ModemFhss.Ad9361.Ends
import ModemFhss.Ad9361.Util
import ModemFhss.Ad9361.Spi
import ModemFhss.Ad9361.Scaler
import ModemFhss.Ad9361.ClockChain
import ModemFhss.Ad9361.Pll
import ModemFhss.Ad9361.Carriers
import ModemFhss.Ad9361.ClockTree
import ModemFhss.Ad9361.SampleRate
import ModemFhss.Ad9361.Ensm
import ModemFhss.Ad9361.FirTables
import ModemFhss.Ad9361.FirDevice
