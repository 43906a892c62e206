import Vantablack.Session.Openers
import Vantablack.Session.QuantumCredit
import Vantablack.Session.StepAgreement
import Vantablack.Receive.ShardOrigin
import Vantablack.Handshake.Agreement
import Vantablack.Net.Stream
import Vantablack.Receive.OwnChain
import Vantablack.Receive.Mixing
import Vantablack.Socks.Streams
import Vantablack.Vpn.Mtu
import Vantablack.Vpn.Reflection
import Vantablack.Vpn.Rotation
import Vantablack.Net.Discovery
import Vantablack.Vpn.Adoption
import Vantablack.Receive.Outsider
import Vantablack.Socks.EndToEnd
import Vantablack.Net.Carrier
import Vantablack.Vpn.Overlap
import Vantablack.Ice.Nomination
import Vantablack.Turn.Relay
import Vantablack.Turn.Challenge
import Vantablack.Turn.Replay
import Vantablack.Turn.Covered
import Vantablack.Vpn.Isolation
import Vantablack.Vpn.LeasePool
import Vantablack.Vpn.UdpFlowTable
import Vantablack.Net.ShardOrder
import Vantablack.Routing.OrbitalPass
import Vantablack.Routing.DisjointJourneys
import Vantablack.Routing.ObserveLink
import Vantablack.Abos.Flood
import Vantablack.Abos.Delivery
import Vantablack.Abos.Chain
import Vantablack.Session.TxCounter
import Vantablack.Net.BlindRelay
import Vantablack.Net.SphinxShard
import Vantablack.Net.PeerExchange
import Vantablack.Vpn.Decay
import Vantablack.Vpn.DnsNodata
import Vantablack.Vpn.UdpPacket
import Vantablack.Vpn.NatBounds
import Vantablack.Vpn.FlowPorts
import Vantablack.Layers.ReplayWindow
import Vantablack.Session.SkippedKeys
import Vantablack.Session.MessageKeys
import Vantablack.Session.StepOutcome
import Vantablack.Net.ExitCapability
import Vantablack.Net.ShardSec
import Vantablack.Net.BlindForward
import Vantablack.Net.BeaconTiling
import Vantablack.Net.FlowController
import Vantablack.Ice.Selection
import Vantablack.Net.StunRoundTrip
import Vantablack.Ice.Offer
import Vantablack.Turn.Bookkeeping
import Vantablack.Net.Revocation
import Vantablack.Net.BypassMeaning
import Vantablack.Cc.BbrPhases
import Vantablack.Cc.AckEngine
import Vantablack.Layers.RingBuffer
import Vantablack.Layers.EtsiExchange
import Vantablack.Abos.Reconstruct
import Vantablack.Abos.Retransmit
import Vantablack.Net.DtnReconcile
import Vantablack.Net.Membership
import Vantablack.Net.UniversalTunnel
import Vantablack.Net.PeerCache
import Vantablack.Net.BandwidthVoucher
import Vantablack.Quantum.Routes
import Vantablack.Quantum.Scheduler
import Vantablack.Quantum.Measure
import Vantablack.Net.MixQueue
import Vantablack.Handshake.PqProof
