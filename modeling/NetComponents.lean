import NetComponents.Library.Machine
import NetComponents.Sockets.Connection
import NetComponents.Scgi.RoundTrip
import NetComponents.Sockets.WriteQueue
import NetComponents.Library.Inet
import NetComponents.Pcap.Parsers
import NetComponents.Pcap.IPPacket
import NetComponents.Pcap.ReadBack
import NetComponents.Pcap.TCPReassembler
import NetComponents.Pcap.VoIP
import NetComponents.Pcap.BlockStream
import NetComponents.Pcap.Flows
import NetComponents.Curl.Service
import NetComponents.Curl.Watches
import NetComponents.Pcap.OStream
import NetComponents.Pcap.Transport
import NetComponents.Redis.Client
import NetComponents.Redis.Setnx
import NetComponents.Redis.Transaction
import NetComponents.Redis.Retry
import NetComponents.Redis.Removex
import NetComponents.Curl.Downloader
import NetComponents.Redis.LongScan
import NetComponents.Scgi.Response
import NetComponents.Livecapture.Server
import NetComponents.Livecapture.AcceptTimer
import NetComponents.Livecapture.Grabber
import NetComponents.Scgi.Pool
import NetComponents.Scgi.Server
import NetComponents.Livecapture.AcceptLoop
import NetComponents.Esl.Client
import NetComponents.Esl.Session
import NetComponents.Esl.Loops
import NetComponents.Pcap.Sides
import NetComponents.Scgi.Connections
import NetComponents.Scgi.Shutdown
import NetComponents.Pcap.HeaderReads
import NetComponents.Pcap.BlockBounds
import NetComponents.Pcap.BlockLayout
import NetComponents.Library.OnesComplement
import NetComponents.Pcap.Checksums
import NetComponents.Pcap.Lengths
import NetComponents.Sockets.Listen
import NetComponents.Curl.Multi
import NetComponents.Curl.Synchro
import NetComponents.Curl.Transfer
import NetComponents.Curl.Url
import NetComponents.Curl.Urilite
import NetComponents.Livecapture.Sniffers
import NetComponents.Redis.HashScan
import NetComponents.Scgi.Uri
import NetComponents.Curl.RemoteDir
import NetComponents.Curl.UrlPrint
import NetComponents.Library.While
import NetComponents.Pcap.CalcCheckSumm
import NetComponents.Scgi.LoopInvariant
import NetComponents.Livecapture.Client
import NetComponents.Pcap.Capture
import NetComponents.Livecapture.Delivery
import NetComponents.Livecapture.Lifetime
import NetComponents.Livecapture.Replay
import NetComponents.Library.Search
import NetComponents.Scgi.Dispatcher
import NetComponents.Scgi.Service
import NetComponents.Curl.JsonRPC
import NetComponents.Livecapture.VoIPCapture
import NetComponents.Pcap.Device
import NetComponents.Pcap.Factory
import NetComponents.Pcap.Grabber
