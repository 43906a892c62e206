import Vantablack.Lib.Runs
import Vantablack.Vpn.Driver
import Vantablack.Vpn.Hub
import Vantablack.Vpn.Owner
import Vantablack.Vpn.UdpFlows

/-!
The whole VPN hub: the hub with its TCP stack, its UDP flows and its reader threads, from the
datagram of a client to what is sealed in response. Every handler, every turn of the driver and
every datagram of the LAN is a step of its own.

The history says which client is behind each packet that is queued for a client.
-/

namespace Vantablack.Vpn

open Lib Layers Receive

variable {K : Type}

namespace VpnHub

def evictAll (h : VpnHub K) : VpnHub K :=
  { h with
    ingress := h.sessions.keys.foldl VpnIngress.evict h.ingress
    leases := h.leases.clear
    ingressEpochs := ∅
    sessions := ∅
    txCounters := ∅ }

/-- The client a packet of the stack goes to. -/
def recipient (h : VpnHub K) (dst : Octets 4) : Option String :=
  match h.leases.fingerprintForIp dst with
  | some fp => some fp
  | none => if h.sessions.size = 1 then h.sessions.keys.head? else none

/-- `poll_netstack_egress` on the packet it takes from the stack. -/
def pollNetstackEgress (A : TunnelCipher K) (h : VpnHub K) (randSeg : Octets 8) (pkt : Bytes) :
    Option EgressUnit × VpnHub K :=
  if pkt.length < 20 then (none, h)
  else
    match h.recipient (dstIp pkt) with
    | none => (none, h)
    | some fp =>
        match h.sealForClient A randSeg fp pkt with
        | (none, h) => (none, h)
        | (some wire, h) =>
            match h.sessions.lookup fp with
            | none => (none, h)
            | some info =>
                (some
                  { fingerprint := fp, sessionHash := info.sessionHash, endpoint := info.endpoint
                    wire := wire }, h)

end VpnHub

/-- `causes` goes with the egress queue of the hub: the client whose packet each item answers. -/
structure Gateway (K : Type) where
  hub : VpnHub K
  netstack : Netstack
  udp : UdpFlows
  causes : List String

/-- `ingest` and `collect` are the driver's, `emit` is the stack's: it emits `pkt` in answer to
`request` of `client`. `reply` is a datagram of the LAN that a reader gets in answer to one of
`client`. -/
inductive GatewayAct (K : Type)
  | handshake (now : ℕ) (fp : String) (endpoint : SocketAddr)
  | disconnect (fp : String)
  | evictAll
  | payload (now : ℕ) (fp : String) (masterKey : K) (sessionHash : Octets 4) (wire : Bytes)
      (src : SocketAddr) (binds : Bool)
  | sweep (now : ℕ)
  | ingest
  | collect (localPort : ℕ)
  | emit (client : String) (request pkt : Bytes)
  | reply (key : FlowKey) (socket : ℕ) (client : String) (payload : Bytes)
  | readerExits (key : FlowKey) (socket : ℕ)
  | pollEgress (randSeg : Octets 8)
  | pollNetstackEgress (randSeg : Octets 8)

/-- What is sealed for a client, and the client and the inner packet behind it. -/
structure Emission where
  client : String
  packet : Bytes
  unit : EgressUnit

namespace Gateway

def start (allowedFingerprints : List String) : Gateway K where
  hub := .start allowedFingerprints
  netstack := .start
  udp := .start
  causes := []

/-- `egress_tx.send`, which waits for room. -/
def enqueue (w : Gateway K) (client fp : String) (pkt : Bytes) : Gateway K :=
  { w with
    hub := { w.hub with egress := w.hub.egress ++ [(fp, pkt)] }
    causes := w.causes ++ [client] }

def enqueueToClient (w : Gateway K) (fp : String) (pkt : Bytes) : Gateway K :=
  { w with
    hub := w.hub.enqueueToClient fp pkt
    causes := if w.hub.egress.length < VpnHub.egressCapacity then w.causes ++ [fp] else w.causes }

/-- `route_inner`; the leases have taken the hint already. -/
def routeInner (w : Gateway K) (cfg : VpnConfig) (now : ℕ) (fp : String) (pkt : Bytes)
    (binds : Bool) : Gateway K :=
  if pkt.length < 20 ∨ ipVersion pkt ≠ 4 then w
  else
    match ipProto pkt with
    | 6 => { w with netstack := w.netstack.tryFeed fp pkt }
    | 17 =>
        let (reply, udp) := w.udp.route cfg now fp (w.hub.leases.overlayOf fp) pkt binds
        match reply with
        | some reply => { w with udp := udp }.enqueue fp fp reply
        | none => { w with udp := udp }
    | 1 =>
        match answerIcmp cfg.hubOverlay pkt with
        | some reply => w.enqueueToClient fp reply
        | none => w
    | _ => w

def onHandshake (w : Gateway K) (now : ℕ) (fp : String) (endpoint : SocketAddr) : Gateway K :=
  let hub := w.hub.onHandshake now fp endpoint
  { w with
    hub := hub
    udp := if w.hub.authorized fp ∧ fp ∈ hub.leases.byFp then w.udp.forgetReaders fp else w.udp }

def handleTunnelPayload (A : TunnelCipher K) (cfg : VpnConfig) (w : Gateway K) (now : ℕ)
    (fp : String) (masterKey : K) (sessionHash : Octets 4) (wire : Bytes) (src : SocketAddr)
    (binds : Bool) : Gateway K :=
  let (outcome, _, hub) := w.hub.handleTunnelPayload A now fp masterKey sessionHash wire src
  match outcome with
  | some (.accepted ipPacket _) => { w with hub := hub }.routeInner cfg now fp ipPacket binds
  | _ => { w with hub := hub }

/-- The queue goes on past the packets that are dropped and the one that is sealed. -/
def pollEgress (A : TunnelCipher K) (w : Gateway K) (randSeg : Octets 8) : Gateway K :=
  let hub := (w.hub.pollEgress A randSeg).2
  { w with hub := hub, causes := w.causes.drop (w.hub.egress.length - hub.egress.length) }

def pollNetstackEgress (A : TunnelCipher K) (w : Gateway K) (randSeg : Octets 8) : Gateway K :=
  match w.netstack.out with
  | [] => w
  | a :: rest =>
      { w with
        hub := (w.hub.pollNetstackEgress A randSeg a.packet).2
        netstack := { w.netstack with out := rest } }

def step (A : TunnelCipher K) (cfg : VpnConfig) (w : Gateway K) : GatewayAct K → Gateway K
  | .handshake now fp endpoint => w.onHandshake now fp endpoint
  | .disconnect fp =>
      { w with hub := w.hub.onDisconnect fp, udp := (w.udp.evictFor fp).forgetReaders fp }
  | .evictAll => { w with hub := w.hub.evictAll, udp := w.udp.clear }
  | .payload now fp masterKey sessionHash wire src binds =>
      w.handleTunnelPayload A cfg now fp masterKey sessionHash wire src binds
  | .sweep now => { w with udp := w.udp.sweep now }
  | .ingest => { w with netstack := w.netstack.ingest }
  | .collect localPort => { w with netstack := w.netstack.collect localPort }
  | .emit client request pkt => { w with netstack := w.netstack.emit client request pkt }
  | .reply key socket client payload =>
      match w.udp.replyPacket key socket payload with
      | some pkt => w.enqueue client key.fp pkt
      | none => w
  | .readerExits key socket => { w with udp := w.udp.readerExits key socket }
  | .pollEgress randSeg => w.pollEgress A randSeg
  | .pollNetstackEgress randSeg => w.pollNetstackEgress A randSeg

/-- What a step seals. -/
def emitted (A : TunnelCipher K) (w : Gateway K) : GatewayAct K → Option Emission
  | .pollEgress randSeg =>
      let (unit, hub) := w.hub.pollEgress A randSeg
      match unit, (w.causes.zip w.hub.egress)[w.hub.egress.length - hub.egress.length - 1]? with
      | some unit, some (client, _, packet) =>
          some { client := client, packet := packet, unit := unit }
      | _, _ => none
  | .pollNetstackEgress randSeg =>
      match w.netstack.out with
      | [] => none
      | a :: _ =>
          (w.hub.pollNetstackEgress A randSeg a.packet).1.map fun unit =>
            { client := a.client, packet := a.packet, unit := unit }
  | _ => none

/-- What the TCP stack emits and what the sockets of the LAN receive answers packets that they were
given. -/
def Answers (w : Gateway K) : GatewayAct K → Prop
  | .emit client request pkt => w.netstack.Answers client request pkt
  | .reply key socket client _ => (key, socket) ∈ w.udp.readers → w.udp.Answers client socket
  | _ => True

instance (w : Gateway K) (act : GatewayAct K) : Decidable (w.Answers act) :=
  match act with
  | .emit client request pkt => inferInstanceAs (Decidable (w.netstack.Answers client request pkt))
  | .reply key socket client _ =>
      inferInstanceAs (Decidable ((key, socket) ∈ w.udp.readers → w.udp.Answers client socket))
  | .handshake .. | .disconnect _ | .evictAll | .payload .. | .sweep _ | .ingest | .collect _
  | .readerExits .. | .pollEgress _ | .pollNetstackEgress _ => inferInstanceAs (Decidable True)

end Gateway

end Vantablack.Vpn
