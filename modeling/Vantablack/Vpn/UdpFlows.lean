import Mathlib.Data.List.MinMax
import Vantablack.Lib.Index
import Vantablack.Receive.Spool
import Vantablack.Vpn.Packet

/-!
The UDP side of a VPN hub: the flow table of `net/vpn/mod.rs`, and what `route_inner` and the reader
threads of `net/vpn/hub.rs` do with it. A flow has a socket of its own, which its reader keeps
beyond the flow. Sockets are numbered as they are bound, and time is in seconds.

What is sent is recorded with the client behind it.
-/

namespace Vantablack.Vpn

open Lib Layers Receive

def udpDnsTtl : ℕ := 10
def udpGeneralTtl : ℕ := 45
def udpFlowsPerFp : ℕ := 64
def udpFlowsGlobal : ℕ := 1024

/-- The length of the buffer of a reader. -/
def readerBufLen : ℕ := 4096

def hubAddr : Octets 4 := ⟨[10, 66, 0, 1], rfl⟩

/-- The server for which a query is sent to a second one as well. -/
def defaultDns : Octets 4 := ⟨[1, 1, 1, 1], rfl⟩

def secondDns : Octets 4 := ⟨[9, 9, 9, 9], rfl⟩

structure VpnConfig where
  hubOverlay : Octets 4
  dnsServer : Octets 4

structure FlowKey where
  fp : String
  overlaySrc : Octets 4
  overlayPort : ℕ
  dst : SocketAddr
  deriving DecidableEq

structure UdpFlow where
  socket : ℕ
  lastSeen : ℕ
  isDns : Bool

/-- A datagram that left through a socket. -/
structure LanDatagram where
  socket : ℕ
  client : String
  dst : SocketAddr
  payload : Bytes

/-- `readersSpawned` has the keys no second reader is started for, `readers` the threads with their
sockets. -/
structure UdpFlows where
  flows : Table FlowKey UdpFlow
  readersSpawned : List FlowKey
  readers : List (FlowKey × ℕ)
  nextSocket : ℕ
  sent : List LanDatagram

/-- The flow heard from least recently, of one client or of all, goes. -/
def evictLruFor (flows : Table FlowKey UdpFlow) (fp : Option String) : Table FlowKey UdpFlow :=
  match (flows.entries.filter fun e => fp.all (e.1.fp = ·)).argmin fun e => e.2.lastSeen with
  | some victim => flows.erase victim.1
  | none => flows

namespace UdpFlows

def start : UdpFlows where
  flows := ∅
  readersSpawned := []
  readers := []
  nextSocket := 0
  sent := []

/-- The socket of a flow, which is made if it is not there; `binds` says whether a new socket can be
bound. -/
def getOrCreate (u : UdpFlows) (now : ℕ) (key : FlowKey) (binds : Bool) : Option ℕ × UdpFlows :=
  match u.flows.lookup key with
  | some f => (some f.socket, { u with flows := u.flows.insert key { f with lastSeen := now } })
  | none =>
      let perFp := (u.flows.entries.filter fun e => e.1.fp = key.fp).length
      let flows := if udpFlowsPerFp ≤ perFp then evictLruFor u.flows (some key.fp) else u.flows
      let flows := if udpFlowsGlobal ≤ flows.size then evictLruFor flows none else flows
      if udpFlowsGlobal ≤ flows.size ∨ binds = false then (none, { u with flows := flows })
      else
        let flow := { socket := u.nextSocket, lastSeen := now, isDns := decide (key.dst.port = 53) }
        (some u.nextSocket,
          { u with flows := flows.insert key flow, nextSocket := u.nextSocket + 1 })

def sweep (u : UdpFlows) (now : ℕ) : UdpFlows :=
  { u with
    flows := u.flows.retain fun _ f =>
      decide (now - f.lastSeen < if f.isDns then udpDnsTtl else udpGeneralTtl) }

def evictFor (u : UdpFlows) (fp : String) : UdpFlows :=
  { u with flows := u.flows.retain fun key _ => key.fp ≠ fp }

/-- The readers of a client do not stand in the way of new ones any more; the threads go on. -/
def forgetReaders (u : UdpFlows) (fp : String) : UdpFlows :=
  { u with readersSpawned := u.readersSpawned.filter fun key => key.fp ≠ fp }

def clear (u : UdpFlows) : UdpFlows :=
  { u with flows := ∅, readersSpawned := [] }

/-- The datagram of a client, which goes to a second server if it is for that of the hub. -/
def send (u : UdpFlows) (socket : ℕ) (client : String) (isHubDns : Bool) (dst : Octets 4)
    (port : ℕ) (payload : Bytes) : UdpFlows :=
  let datagram (ip : Octets 4) (port : ℕ) : LanDatagram :=
    { socket := socket, client := client, dst := { ip := .v4 ip, port := port }, payload := payload }
  let second :=
    if isHubDns && decide (dst = defaultDns) then [datagram secondDns 53] else []
  { u with sent := u.sent ++ datagram dst port :: second }

def spawnFlowReader (u : UdpFlows) (key : FlowKey) (socket : ℕ) : UdpFlows :=
  if key ∈ u.readersSpawned then u
  else
    { u with
      readersSpawned := key :: u.readersSpawned
      readers := u.readers ++ [(key, socket)] }

/-- The answer the hub gives itself to a query for AAAA records. -/
def nodataReply (dst : Octets 4) (dport : ℕ) (overlay : Octets 4) (sport : ℕ) (isHubDns : Bool)
    (payload : Bytes) : Option Bytes :=
  if (isHubDns || decide (dport = 53)) && isDnsAaaaQuery payload then
    (buildDnsNodataResponse payload).bind fun nodata => buildUdpPacket dst dport overlay sport nodata
  else none

/-- `route_inner` on a UDP packet of `fp`, with what the hub answers itself. -/
def route (u : UdpFlows) (cfg : VpnConfig) (now : ℕ) (fp : String) (overlay : Octets 4) (pkt : Bytes)
    (binds : Bool) : Option Bytes × UdpFlows :=
  if pkt.length < ihl pkt + 8 then (none, u)
  else
    let sport := u16At pkt (ihl pkt)
    let dport := u16At pkt (ihl pkt + 2)
    let dst := dstIp pkt
    let isHubDns := decide (dst = hubAddr) && decide (dport = 53)
    let key :=
      { fp := fp, overlaySrc := overlay, overlayPort := sport, dst := { ip := .v4 dst, port := dport } }
    match u.getOrCreate now key binds with
    | (none, u) => (none, u)
    | (some socket, u) =>
        if pkt.length ≤ ihl pkt + 8 then (none, u)
        else
          let payload := pkt.drop (ihl pkt + 8)
          match nodataReply dst dport overlay sport isHubDns payload with
          | some reply => (some reply, u)
          | none =>
              let effectiveDst := if isHubDns then cfg.dnsServer else dst
              (none, (u.send socket fp isHubDns effectiveDst dport payload).spawnFlowReader key
                socket)

/-- What a reader makes of a datagram that its socket received. -/
def replyPacket (u : UdpFlows) (key : FlowKey) (socket : ℕ) (payload : Bytes) : Option Bytes :=
  if (key, socket) ∈ u.readers ∧ payload ≠ [] then
    match key.dst.ip with
    | .v4 dst =>
        buildUdpPacket dst key.dst.port key.overlaySrc key.overlayPort (payload.take readerBufLen)
    | .v6 _ => none
  else none

def readerExits (u : UdpFlows) (key : FlowKey) (socket : ℕ) : UdpFlows :=
  if (key, socket) ∈ u.readers then
    { u with
      readers := u.readers.erase (key, socket)
      readersSpawned := u.readersSpawned.filter (· ≠ key) }
  else u

/-- What a socket receives answers a datagram that left through it. -/
def Answers (u : UdpFlows) (client : String) (socket : ℕ) : Prop :=
  ∃ d ∈ u.sent, d.socket = socket ∧ d.client = client
  deriving Decidable

/-! ### The sockets -/

/-- Each socket was bound for one client. -/
structure Sockets (owner : ℕ → String) (u : UdpFlows) : Prop where
  flows : ∀ key f, u.flows.lookup key = some f → Given owner u.nextSocket f.socket key.fp
  readers : ∀ r ∈ u.readers, Given owner u.nextSocket r.2 r.1.fp
  sent : ∀ d ∈ u.sent, Given owner u.nextSocket d.socket d.client

section

variable {owner : ℕ → String} {u : UdpFlows}

theorem sockets_start (owner : ℕ → String) : start.Sockets owner where
  flows := by
    intro key f hf
    cases hf
  readers := by
    intro r hr
    cases hr
  sent := by
    intro d hd
    cases hd

theorem Sockets.drop_flows (h : u.Sockets owner) {flows : Table FlowKey UdpFlow}
    (hflows : ∀ key f, flows.lookup key = some f → u.flows.lookup key = some f)
    (readersSpawned : List FlowKey) :
    ({ u with flows := flows, readersSpawned := readersSpawned } : UdpFlows).Sockets owner :=
  ⟨fun key f hf => h.flows key f (hflows key f hf), h.readers, h.sent⟩

theorem Sockets.sweep (h : u.Sockets owner) (now : ℕ) : (u.sweep now).Sockets owner :=
  h.drop_flows (fun _ _ hf => (Table.lookup_retain.mp hf).1) _

theorem Sockets.evictFor (h : u.Sockets owner) (fp : String) : (u.evictFor fp).Sockets owner :=
  h.drop_flows (fun _ _ hf => (Table.lookup_retain.mp hf).1) _

theorem Sockets.forgetReaders (h : u.Sockets owner) (fp : String) :
    (u.forgetReaders fp).Sockets owner :=
  h.drop_flows (fun _ _ hf => hf) _

theorem Sockets.clear (h : u.Sockets owner) : u.clear.Sockets owner :=
  h.drop_flows (fun _ _ hf => by cases hf) _

theorem lookup_of_evictLruFor {flows : Table FlowKey UdpFlow} {fp : Option String} {key : FlowKey}
    {f : UdpFlow} (h : (evictLruFor flows fp).lookup key = some f) : flows.lookup key = some f := by
  unfold evictLruFor at h
  split at h
  · exact (Table.lookup_erase_eq_some.mp h).2
  · exact h

theorem Sockets.getOrCreate (h : u.Sockets owner) (now : ℕ) (key : FlowKey) (binds : Bool) :
    ∃ owner', (u.getOrCreate now key binds).2.Sockets owner' ∧
      ∀ socket, (u.getOrCreate now key binds).1 = some socket →
        Given owner' (u.getOrCreate now key binds).2.nextSocket socket key.fp := by
  unfold UdpFlows.getOrCreate
  cases hf : u.flows.lookup key with
  | some f =>
      have hsocket := h.flows key f hf
      refine ⟨owner, ⟨?_, h.readers, h.sent⟩, ?_⟩
      · intro key' f' hf'
        rcases Table.lookup_insert_eq_some.mp hf' with ⟨rfl, rfl⟩ | ⟨-, hf'⟩
        · exact hsocket
        · exact h.flows key' f' hf'
      · intro socket hs
        cases hs
        exact hsocket
  | none =>
      dsimp only
      generalize hfirst : (if udpFlowsPerFp ≤ (u.flows.entries.filter fun e => e.1.fp = key.fp).length
        then evictLruFor u.flows (some key.fp) else u.flows) = first
      have hkept₁ : ∀ key f, first.lookup key = some f → u.flows.lookup key = some f := by
        intro key f hf
        rw [← hfirst] at hf
        split at hf
        · exact lookup_of_evictLruFor hf
        · exact hf
      generalize hsecond : (if udpFlowsGlobal ≤ first.size then evictLruFor first none else first) =
        second
      have hkept : ∀ key f, second.lookup key = some f → u.flows.lookup key = some f := by
        intro key f hf
        rw [← hsecond] at hf
        split at hf
        · exact hkept₁ key f (lookup_of_evictLruFor hf)
        · exact hkept₁ key f hf
      split
      · refine ⟨owner, h.drop_flows hkept u.readersSpawned, ?_⟩
        intro socket hs
        cases hs
      · refine ⟨Function.update owner u.nextSocket key.fp, ⟨?_, fun r hr => (h.readers r hr).later _,
          fun d hd => (h.sent d hd).later _⟩, ?_⟩
        · intro key' f' hf'
          rcases Table.lookup_insert_eq_some.mp hf' with ⟨rfl, rfl⟩ | ⟨-, hf'⟩
          · exact .new owner _ _
          · exact (h.flows key' f' (hkept key' f' hf')).later _
        · intro socket hs
          cases hs
          exact .new owner _ _

theorem Sockets.send (h : u.Sockets owner) {socket : ℕ} {client : String}
    (hsocket : Given owner u.nextSocket socket client) (isHubDns : Bool) (dst : Octets 4) (port : ℕ)
    (payload : Bytes) : (u.send socket client isHubDns dst port payload).Sockets owner where
  flows := h.flows
  readers := h.readers
  sent := by
    intro d hd
    rcases List.mem_append.mp hd with hd | hd
    · exact h.sent d hd
    · rcases List.mem_cons.mp hd with rfl | hd
      · exact hsocket
      · split at hd
        · obtain rfl := List.mem_singleton.mp hd
          exact hsocket
        · cases hd

theorem Sockets.spawnFlowReader (h : u.Sockets owner) {key : FlowKey} {socket : ℕ}
    (hsocket : Given owner u.nextSocket socket key.fp) :
    (u.spawnFlowReader key socket).Sockets owner := by
  unfold UdpFlows.spawnFlowReader
  split
  · exact h
  · refine ⟨h.flows, fun r hr => ?_, h.sent⟩
    rcases List.mem_append.mp hr with hr | hr
    · exact h.readers r hr
    · obtain rfl := List.mem_singleton.mp hr
      exact hsocket

theorem Sockets.route (h : u.Sockets owner) (cfg : VpnConfig) (now : ℕ) (fp : String)
    (overlay : Octets 4) (pkt : Bytes) (binds : Bool) :
    ∃ owner', (u.route cfg now fp overlay pkt binds).2.Sockets owner' := by
  unfold UdpFlows.route
  dsimp only
  split
  · exact ⟨owner, h⟩
  · obtain ⟨owner', hcreated, hsocket⟩ := h.getOrCreate now
      { fp := fp, overlaySrc := overlay, overlayPort := u16At pkt (ihl pkt)
        dst := { ip := .v4 (dstIp pkt), port := u16At pkt (ihl pkt + 2) } } binds
    refine ⟨owner', ?_⟩
    split
    · rename_i hresult
      rw [hresult] at hcreated
      exact hcreated
    · rename_i socket v hresult
      rw [hresult] at hcreated hsocket
      split
      · exact hcreated
      · split
        · exact hcreated
        · exact (hcreated.send (hsocket socket rfl) _ _ _ _).spawnFlowReader (hsocket socket rfl)

theorem Sockets.readerExits (h : u.Sockets owner) (key : FlowKey) (socket : ℕ) :
    (u.readerExits key socket).Sockets owner := by
  unfold UdpFlows.readerExits
  split
  · exact ⟨h.flows, fun r hr => h.readers r (List.mem_of_mem_erase hr), h.sent⟩
  · exact h

theorem Sockets.client_of_answers (h : u.Sockets owner) {client : String} {key : FlowKey}
    {socket : ℕ} (hreader : (key, socket) ∈ u.readers) (hanswers : u.Answers client socket) :
    client = key.fp := by
  obtain ⟨d, hd, rfl, rfl⟩ := hanswers
  exact (h.sent d hd).unique (h.readers _ hreader)

end

end UdpFlows

end Vantablack.Vpn
