import Vantablack.Handshake.HandlePkt
import Vantablack.Turn.ChannelData

/-!
The TURN server of `net/turn.rs`: a state machine that is handed datagrams of clients and of peers.
Times are natural numbers of seconds. The clock that `issue_nonce` reads and the randomness of a
call are arguments.
-/

namespace Vantablack.Turn

open Lib Layers Receive Net Stun

def channelLifetimeSecs : UInt32 := 600

def maxOutstandingNonces : ℕ := 4096

/-- What the server wants emitted. -/
inductive Outbound where
  | toClient (dest : SocketAddr) (data : Bytes)
  | toPeer (fromPort : UInt16) (dest : SocketAddr) (data : Bytes)
  deriving DecidableEq

structure ServerAllocation where
  relayPort : UInt16
  /-- The instant each permission expires at. -/
  permissions : Table IpAddr ℕ
  channels : Table UInt16 SocketAddr
  channelPeers : Table SocketAddr UInt16
  expiresAt : ℕ

structure TurnServer where
  realm : String
  users : Table String String
  relayIp : IpAddr
  portMin : UInt16
  portMax : UInt16
  allocations : Table SocketAddr ServerAllocation
  /-- The instant each nonce was issued at. -/
  nonces : Table String ℕ
  nonceLifetime : ℕ

/-- What is fixed for the lifetime of a server. -/
structure ServerConfig where
  realm : String
  users : Table String String
  relayIp : IpAddr
  portMin : UInt16
  portMax : UInt16
  nonceLifetime : ℕ

/-- What a call draws: the time of `issue_nonce`, and the random bytes of the nonce. -/
structure Draw where
  clock : ℕ
  random : Octets 16

def isUnspecified : IpAddr → Bool
  | .v4 octets => octets.toList.all (· = 0)
  | .v6 octets => octets.toList.all (· = 0)

namespace ServerAllocation

def fresh (relayPort : UInt16) (expiresAt : ℕ) : ServerAllocation where
  relayPort := relayPort
  permissions := ∅
  channels := ∅
  channelPeers := ∅
  expiresAt := expiresAt

def permit (a : ServerAllocation) (ip : IpAddr) (now : ℕ) : ServerAllocation :=
  { a with permissions := a.permissions.insert ip (now + defaultPermissionLifetime) }

def conflicts (a : ServerAllocation) (channel : UInt16) (peer : SocketAddr) : Bool :=
  (a.channels.lookup channel).any (· ≠ peer) || (a.channelPeers.lookup peer).any (· ≠ channel)

def bind (a : ServerAllocation) (channel : UInt16) (peer : SocketAddr) (now : ℕ) :
    ServerAllocation :=
  { a.permit peer.ip now with
    channels := a.channels.insert channel peer
    channelPeers := a.channelPeers.insert peer channel }

/-- The allocation without the permissions that have expired. -/
def prune (a : ServerAllocation) (now : ℕ) : ServerAllocation :=
  { a with permissions := a.permissions.retain fun _ expiry => now < expiry }

theorem lookup_permissions_prune {a : ServerAllocation} {ip : IpAddr} {now expiry : ℕ} :
    (a.prune now).permissions.lookup ip = some expiry ↔
      a.permissions.lookup ip = some expiry ∧ now < expiry := by
  change (a.permissions.retain fun _ expiry => now < expiry).lookup ip = some expiry ↔ _
  rw [Table.lookup_retain, decide_eq_true_eq]

end ServerAllocation

namespace TurnServer

def new (realm : String) (users : Table String String) (relayIp : IpAddr)
    (portMin portMax : UInt16) : TurnServer where
  realm := realm
  users := users
  relayIp := relayIp
  portMin := portMin
  portMax := portMax
  allocations := ∅
  nonces := ∅
  nonceLifetime := 600

/-- Drop expired allocations and permissions. -/
def expire (s : TurnServer) (now : ℕ) : TurnServer :=
  { s with allocations :=
      (s.allocations.mapValues (·.prune now)).retain fun _ a => now < a.expiresAt }

def freePort (s : TurnServer) : Option UInt16 :=
  ((List.range' s.portMin.toNat (s.portMax.toNat + 1 - s.portMin.toNat)).map UInt16.ofNat).find?
    fun p => !s.allocations.entries.any fun e => e.2.relayPort = p

/-- The outstanding nonces are bounded by age and by number. -/
def issueNonce (s : TurnServer) (draw : Draw) : TurnServer × String :=
  let recent := s.nonces.retain fun _ issued => draw.clock - issued < s.nonceLifetime
  let kept := if maxOutstandingNonces ≤ recent.size then ∅ else recent
  let nonce := Handshake.hexEncode draw.random.toList
  ({ s with nonces := kept.insert nonce draw.clock }, nonce)

def errorResponse (s : TurnServer) (draw : Draw) (dest : SocketAddr) (txid : TransactionId)
    (method : Method) (code : UInt16) (reason : String) : TurnServer × Outbound :=
  let resp := (Message.new method .errorResponse txid).push (.errorCode code reason)
  -- Only a challenge hands out a nonce.
  if code = 401 ∨ code = 438 then
    let (s, nonce) := s.issueNonce draw
    (s, .toClient dest ((resp.push (.realm s.realm)).push (.nonce nonce)).encode)
  else (s, .toClient dest resp.encode)

def refuse (s : TurnServer) (draw : Draw) (src : SocketAddr) (msg : Message) (code : UInt16)
    (reason : String) : TurnServer × List Outbound :=
  let (s, out) := s.errorResponse draw src msg.txid msg.typ.method code reason
  (s, [out])

variable (d : Digests)

/-- Verify long-term credentials; the result is the integrity key. -/
def authenticate (s : TurnServer) (raw : Bytes) (msg : Message) : Option (Octets 16) :=
  match msg.get Attr.username with
  | some (.username u) =>
      match msg.realm, msg.nonce with
      | some realm, some nonce =>
          if realm = s.realm ∧ nonce ∈ s.nonces then
            match s.users.lookup (fromUtf8Lossy u) with
            | some password =>
                let key := longTermKey d (fromUtf8Lossy u) realm password
                match verifyIntegrity d raw key.toList with
                | .ok () => some key
                | .error _ => none
            | none => none
          else none
      | _, _ => none
  | _ => none

def success (src : SocketAddr) (key : Octets 16) (resp : Message) : List Outbound :=
  [.toClient src (resp.encodeWithIntegrity d key.toList)]

def handleAllocate (s : TurnServer) (draw : Draw) (raw : Bytes) (msg : Message) (src : SocketAddr)
    (now : ℕ) : TurnServer × List Outbound :=
  match s.authenticate d raw msg with
  | none => s.refuse draw src msg 401 "Unauthorized"
  | some key =>
      match msg.requestedTransport with
      | none => s.refuse draw src msg 400 "Bad Request"
      | some proto =>
          if proto ≠ transportUdp then
            s.refuse draw src msg 442 "Unsupported Transport Protocol"
          -- The server does not relay to itself.
          else if src.ip = s.relayIp then s.refuse draw src msg 403 "Forbidden"
          else
            let requested := max (msg.lifetime.getD 600) minLifetimeSecs
            let port := match s.allocations.lookup src with
              | some existing => some existing.relayPort
              | none => s.freePort
            match port with
            | none => s.refuse draw src msg 508 "Insufficient Capacity"
            | some port =>
                let resp := (((Message.new .allocate .successResponse msg.txid).push
                  (.xorRelayedAddress ⟨s.relayIp, port.toNat⟩)).push (.xorMappedAddress src)).push
                  (.lifetime requested)
                ({ s with allocations :=
                    s.allocations.insert src (.fresh port (now + requested.toNat)) },
                  success d src key resp)

def handleRefresh (s : TurnServer) (draw : Draw) (raw : Bytes) (msg : Message) (src : SocketAddr)
    (now : ℕ) : TurnServer × List Outbound :=
  match s.authenticate d raw msg with
  | none => s.refuse draw src msg 401 "Unauthorized"
  | some key =>
      match s.allocations.lookup src with
      | none => s.refuse draw src msg 437 "Allocation Mismatch"
      | some alloc =>
          let lifetime := msg.lifetime.getD 600
          let resp := Message.new .refresh .successResponse msg.txid
          if lifetime = 0 then
            ({ s with allocations := s.allocations.erase src },
              success d src key (resp.push (.lifetime 0)))
          else
            let granted := max lifetime minLifetimeSecs
            ({ s with allocations :=
                s.allocations.insert src { alloc with expiresAt := now + granted.toNat } },
              success d src key (resp.push (.lifetime granted)))

def handleCreatePermission (s : TurnServer) (draw : Draw) (raw : Bytes) (msg : Message)
    (src : SocketAddr) (now : ℕ) : TurnServer × List Outbound :=
  match s.authenticate d raw msg with
  | none => s.refuse draw src msg 401 "Unauthorized"
  | some key =>
      match msg.xorPeerAddress with
      | none => s.refuse draw src msg 400 "Bad Request"
      | some peer =>
          match s.allocations.lookup src with
          | none => s.refuse draw src msg 437 "Allocation Mismatch"
          | some alloc =>
              if isUnspecified peer.ip then s.refuse draw src msg 403 "Forbidden"
              else
                ({ s with allocations := s.allocations.insert src (alloc.permit peer.ip now) },
                  success d src key (Message.new .createPermission .successResponse msg.txid))

def handleChannelBind (s : TurnServer) (draw : Draw) (raw : Bytes) (msg : Message)
    (src : SocketAddr) (now : ℕ) : TurnServer × List Outbound :=
  match s.authenticate d raw msg with
  | none => s.refuse draw src msg 401 "Unauthorized"
  | some key =>
      match msg.channelNumber, msg.xorPeerAddress with
      | some channel, some peer =>
          if ¬ IsChannel channel then s.refuse draw src msg 400 "Bad Request"
          else
            match s.allocations.lookup src with
            | none => s.refuse draw src msg 437 "Allocation Mismatch"
            | some alloc =>
                if alloc.conflicts channel peer then s.refuse draw src msg 400 "Bad Request"
                else
                  ({ s with allocations := s.allocations.insert src (alloc.bind channel peer now) },
                    success d src key ((Message.new .channelBind .successResponse msg.txid).push
                      (.lifetime channelLifetimeSecs)))
      | _, _ => s.refuse draw src msg 400 "Bad Request"

/-- Data that a client sends to a peer it holds no permission for is dropped. -/
def outboundToPeer (s : TurnServer) (client peer : SocketAddr) (data : Bytes) : List Outbound :=
  match s.allocations.lookup client with
  | none => []
  | some alloc =>
      if peer.ip ∈ alloc.permissions then [.toPeer alloc.relayPort peer data] else []

/-- An indication that is not authenticated is dropped, since there is no response to it. -/
def handleSend (s : TurnServer) (raw : Bytes) (msg : Message) (src : SocketAddr) :
    List Outbound :=
  match s.authenticate d raw msg with
  | none => []
  | some _ =>
      match msg.xorPeerAddress, msg.data with
      | some peer, some data => s.outboundToPeer src peer data
      | _, _ => []

/-- The binding supplies the peer's port; the datagram does not. -/
def relayChannelData (s : TurnServer) (src : SocketAddr) (channel : UInt16) (payload : Bytes) :
    List Outbound :=
  match s.allocations.lookup src with
  | none => []
  | some alloc =>
      match alloc.channels.lookup channel with
      | none => []
      | some peer => [.toPeer alloc.relayPort peer payload]

/-- A message that is not channel data. -/
def dispatch (s : TurnServer) (draw : Draw) (raw : Bytes) (msg : Message) (src : SocketAddr)
    (now : ℕ) : TurnServer × List Outbound :=
  match msg.typ.cls with
  | .request =>
      if msg.typ.method = .allocate then s.handleAllocate d draw raw msg src now
      else if msg.typ.method = .refresh then s.handleRefresh d draw raw msg src now
      else if msg.typ.method = .createPermission then
        s.handleCreatePermission d draw raw msg src now
      else if msg.typ.method = .channelBind then s.handleChannelBind d draw raw msg src now
      else (s, [])
  | .indication => if msg.typ.method = .send then (s, s.handleSend d raw msg src) else (s, [])
  | _ => (s, [])

def handle (s : TurnServer) (draw : Draw) (raw : Bytes) (src : SocketAddr) (now : ℕ) :
    TurnServer × List Outbound :=
  let s := s.expire now
  match parseChannelData raw with
  | some (channel, payload) => (s, s.relayChannelData src channel payload)
  | none =>
      match parse raw with
      | .error _ => (s, [])
      | .ok msg => s.dispatch d draw raw msg src now

/-- The allocation of a relay port: the first one found. -/
def ownerOf (s : TurnServer) (relayPort : UInt16) : Option (SocketAddr × ServerAllocation) :=
  (s.allocations.entries.find? fun e => e.2.relayPort = relayPort).map fun e => (e.1, e.2)

/-- What a client is sent of a peer's datagram: ChannelData when there is a binding for the
peer's exact address. -/
def frameFor (alloc : ServerAllocation) (txid : TransactionId) (peer : SocketAddr)
    (payload : Bytes) : Bytes :=
  match alloc.channelPeers.lookup peer with
  | some channel => channelData channel payload
  | none =>
      (((Message.new .data .indication txid).push (.xorPeerAddress peer)).push
        (.data payload)).encode

/-- Handle one datagram of a peer, on a relay port. -/
def handlePeerData (s : TurnServer) (txid : TransactionId) (relayPort : UInt16) (peer : SocketAddr)
    (payload : Bytes) : Option Outbound :=
  match s.ownerOf relayPort with
  | none => none
  | some (client, alloc) =>
      -- Dropping is what keeps the relay from being a reflector.
      if peer.ip ∉ alloc.permissions then none
      else some (.toClient client (frameFor alloc txid peer payload))

/-- Drop everything whose lifetime has passed, with the number of allocations released. -/
def sweep (s : TurnServer) (now : ℕ) : TurnServer × ℕ :=
  (s.expire now, s.allocations.size - (s.expire now).allocations.size)

/-! ### What a datagram of a client does to the allocations -/

end TurnServer

inductive Op where
  | allocate (secs : UInt32)
  | release
  | refresh (secs : UInt32)
  | permit (ip : IpAddr)
  | bind (channel : UInt16) (peer : SocketAddr)
  deriving DecidableEq

/-- What a message asks for, if it is a request that its handler does not refuse by itself. -/
def Op.ofMessage (msg : Message) : Option Op :=
  if msg.typ.cls ≠ .request then none
  else if msg.typ.method = .allocate then
    if msg.requestedTransport = some transportUdp then
      some (.allocate (max (msg.lifetime.getD 600) minLifetimeSecs))
    else none
  else if msg.typ.method = .refresh then
    if msg.lifetime.getD 600 = 0 then some .release
    else some (.refresh (max (msg.lifetime.getD 600) minLifetimeSecs))
  else if msg.typ.method = .createPermission then
    msg.xorPeerAddress.bind fun peer =>
      if isUnspecified peer.ip then none else some (.permit peer.ip)
  else if msg.typ.method = .channelBind then
    match msg.channelNumber, msg.xorPeerAddress with
    | some channel, some peer => if IsChannel channel then some (.bind channel peer) else none
    | _, _ => none
  else none

namespace Op

variable {msg : Message}

theorem ofMessage_allocate (hmethod : msg.typ.method = .allocate) (hcls : msg.typ.cls = .request) :
    ofMessage msg = if msg.requestedTransport = some transportUdp then
      some (.allocate (max (msg.lifetime.getD 600) minLifetimeSecs)) else none := by
  simp [ofMessage, hmethod, hcls]

theorem ofMessage_refresh (hmethod : msg.typ.method = .refresh) (hcls : msg.typ.cls = .request) :
    ofMessage msg = if msg.lifetime.getD 600 = 0 then some .release
      else some (.refresh (max (msg.lifetime.getD 600) minLifetimeSecs)) := by
  simp [ofMessage, hmethod, hcls, show Method.refresh ≠ Method.allocate by decide]

theorem ofMessage_createPermission (hmethod : msg.typ.method = .createPermission)
    (hcls : msg.typ.cls = .request) :
    ofMessage msg = msg.xorPeerAddress.bind fun peer =>
      if isUnspecified peer.ip then none else some (.permit peer.ip) := by
  simp [ofMessage, hmethod, hcls, show Method.createPermission ≠ Method.allocate by decide,
    show Method.createPermission ≠ Method.refresh by decide]

theorem ofMessage_channelBind (hmethod : msg.typ.method = .channelBind)
    (hcls : msg.typ.cls = .request) :
    ofMessage msg = match msg.channelNumber, msg.xorPeerAddress with
      | some channel, some peer => if IsChannel channel then some (.bind channel peer) else none
      | _, _ => none := by
  simp [ofMessage, hmethod, hcls, show Method.channelBind ≠ Method.allocate by decide,
    show Method.channelBind ≠ Method.refresh by decide,
    show Method.channelBind ≠ Method.createPermission by decide]

theorem ofMessage_congr {msg' : Message} (htyp : msg.typ = msg'.typ)
    (htransport : msg.requestedTransport = msg'.requestedTransport)
    (hlifetime : msg.lifetime = msg'.lifetime) (hpeer : msg.xorPeerAddress = msg'.xorPeerAddress)
    (hchannel : msg.channelNumber = msg'.channelNumber) : ofMessage msg = ofMessage msg' := by
  rw [ofMessage, ofMessage, htyp, htransport, hlifetime, hpeer, hchannel]

end Op

namespace TurnServer

/-- The allocations after a request of a client, unless the server refuses it. -/
def grant (s : TurnServer) (src : SocketAddr) (now : ℕ) :
    Op → Option (Table SocketAddr ServerAllocation)
  | .allocate secs =>
      if src.ip = s.relayIp then none
      else
        (match s.allocations.lookup src with
          | some existing => some existing.relayPort
          | none => s.freePort).map
            fun port => s.allocations.insert src (.fresh port (now + secs.toNat))
  | .release => (s.allocations.lookup src).map fun _ => s.allocations.erase src
  | .refresh secs =>
      (s.allocations.lookup src).map fun a =>
        s.allocations.insert src { a with expiresAt := now + secs.toNat }
  | .permit ip =>
      (s.allocations.lookup src).map fun a => s.allocations.insert src (a.permit ip now)
  | .bind channel peer =>
      (s.allocations.lookup src).bind fun a =>
        if a.conflicts channel peer then none
        else some (s.allocations.insert src (a.bind channel peer now))

/-- What a datagram asks for, if it is an authenticated request. -/
def asked (d : Digests) (s : TurnServer) (raw : Bytes) : Option Op :=
  match parseChannelData raw with
  | some _ => none
  | none =>
      match parse raw with
      | .error _ => none
      | .ok msg => if (s.authenticate d raw msg).isSome then Op.ofMessage msg else none

@[simp] theorem allocations_refuse (s : TurnServer) (draw : Draw) (src : SocketAddr) (msg : Message)
    (code : UInt16) (reason : String) :
    (s.refuse draw src msg code reason).1.allocations = s.allocations := by
  simp only [refuse, errorResponse]
  split <;> rfl

variable (d : Digests) (s : TurnServer) (draw : Draw) (raw : Bytes) (msg : Message)
  (src : SocketAddr) (now : ℕ)

/-- A success response. The one to a refresh tells the lifetime that was granted. -/
inductive Response (s : TurnServer) (src : SocketAddr) (msg : Message) : Message → Prop
  | allocate (hmethod : msg.typ.method = .allocate) (port : UInt16) (secs : UInt32) :
      Response s src msg ((((Message.new .allocate .successResponse msg.txid).push
        (.xorRelayedAddress ⟨s.relayIp, port.toNat⟩)).push (.xorMappedAddress src)).push
        (.lifetime secs))
  | lifetime {method : Method} (hmethod : msg.typ.method = method) (secs : UInt32)
      (h : method = .refresh → secs =
        if msg.lifetime.getD 600 = 0 then 0 else max (msg.lifetime.getD 600) minLifetimeSecs) :
      Response s src msg ((Message.new method .successResponse msg.txid).push (.lifetime secs))
  | permission (hmethod : msg.typ.method = .createPermission) :
      Response s src msg (Message.new .createPermission .successResponse msg.txid)

/-- What a handler makes of a request: it challenges a client it cannot authenticate, and it refuses
or grants what the others ask for. -/
inductive Handled (d : Digests) (s : TurnServer) (draw : Draw) (raw : Bytes) (msg : Message)
    (src : SocketAddr) (now : ℕ) : TurnServer × List Outbound → Prop
  | challenged (hauth : s.authenticate d raw msg = none) :
      Handled d s draw raw msg src now (s.refuse draw src msg 401 "Unauthorized")
  | refused {key : Octets 16} {code : UInt16} {reason : String}
      (hauth : s.authenticate d raw msg = some key)
      (hcode : code < 800 ∧ ¬ (code = 401 ∨ code = 438))
      (h : (Op.ofMessage msg).bind (s.grant src now) = none) :
      Handled d s draw raw msg src now (s.refuse draw src msg code reason)
  | granted {key : Octets 16} {allocations : Table SocketAddr ServerAllocation} {resp : Message}
      (hauth : s.authenticate d raw msg = some key)
      (h : (Op.ofMessage msg).bind (s.grant src now) = some allocations)
      (hresp : Response s src msg resp) :
      Handled d s draw raw msg src now
        ({ s with allocations := allocations }, success d src key resp)

theorem handled_handleAllocate (hmethod : msg.typ.method = .allocate)
    (hcls : msg.typ.cls = .request) :
    Handled d s draw raw msg src now (s.handleAllocate d draw raw msg src now) := by
  unfold handleAllocate
  cases hauth : s.authenticate d raw msg with
  | none => exact .challenged hauth
  | some key =>
      have hop := Op.ofMessage_allocate hmethod hcls
      cases hproto : msg.requestedTransport with
      | none => exact .refused hauth (by decide) (by simp [hop, hproto])
      | some proto =>
          by_cases hudp : proto = transportUdp
          · by_cases hself : src.ip = s.relayIp
            · simp only [hudp, hself, ne_eq, not_true_eq_false, if_false, if_true]
              exact .refused hauth (by decide) (by simp [hop, hproto, hudp, grant, hself])
            · simp only [hudp, hself, ne_eq, not_true_eq_false, if_false]
              split
              · rename_i hport
                exact .refused hauth (by decide) (by simp [hop, hproto, hudp, grant, hself, hport])
              · rename_i port hport
                exact .granted hauth (by simp [hop, hproto, hudp, grant, hself, hport])
                  (.allocate hmethod port _)
          · simp only [hudp, ne_eq, not_false_eq_true, if_true]
            exact .refused hauth (by decide) (by simp [hop, hproto, hudp])

theorem handled_handleRefresh (hmethod : msg.typ.method = .refresh)
    (hcls : msg.typ.cls = .request) :
    Handled d s draw raw msg src now (s.handleRefresh d draw raw msg src now) := by
  unfold handleRefresh
  cases hauth : s.authenticate d raw msg with
  | none => exact .challenged hauth
  | some key =>
      have hop := Op.ofMessage_refresh hmethod hcls
      cases hlookup : s.allocations.lookup src with
      | none =>
          refine .refused hauth (by decide) ?_
          rw [hop]
          split <;> simp [grant, hlookup]
      | some alloc =>
          by_cases hzero : msg.lifetime.getD 600 = 0
          · simp only [hzero, if_true]
            exact .granted hauth (by simp [hop, hzero, grant, hlookup])
              (.lifetime hmethod 0 fun _ => (if_pos hzero).symm)
          · simp only [hzero, if_false]
            exact .granted hauth (by simp [hop, hzero, grant, hlookup])
              (.lifetime hmethod _ fun _ => (if_neg hzero).symm)

theorem handled_handleCreatePermission (hmethod : msg.typ.method = .createPermission)
    (hcls : msg.typ.cls = .request) :
    Handled d s draw raw msg src now (s.handleCreatePermission d draw raw msg src now) := by
  unfold handleCreatePermission
  cases hauth : s.authenticate d raw msg with
  | none => exact .challenged hauth
  | some key =>
      have hop := Op.ofMessage_createPermission hmethod hcls
      cases hpeer : msg.xorPeerAddress with
      | none => exact .refused hauth (by decide) (by simp [hop, hpeer])
      | some peer =>
          cases hlookup : s.allocations.lookup src with
          | none =>
              refine .refused hauth (by decide) ?_
              rw [hop, hpeer, Option.bind_some]
              split <;> simp [grant, hlookup]
          | some alloc =>
              by_cases hzero : isUnspecified peer.ip
              · simp only [hzero, if_true]
                exact .refused hauth (by decide) (by simp [hop, hpeer, hzero])
              · simp only [hzero]
                exact .granted hauth (by simp [hop, hpeer, hzero, grant, hlookup])
                  (.permission hmethod)

theorem handled_handleChannelBind (hmethod : msg.typ.method = .channelBind)
    (hcls : msg.typ.cls = .request) :
    Handled d s draw raw msg src now (s.handleChannelBind d draw raw msg src now) := by
  unfold handleChannelBind
  cases hauth : s.authenticate d raw msg with
  | none => exact .challenged hauth
  | some key =>
      have hop := Op.ofMessage_channelBind hmethod hcls
      cases hchannel : msg.channelNumber with
      | none => exact .refused hauth (by decide) (by simp [hop, hchannel])
      | some channel =>
          cases hpeer : msg.xorPeerAddress with
          | none => exact .refused hauth (by decide) (by simp [hop, hchannel, hpeer])
          | some peer =>
              simp only [hchannel, hpeer] at hop
              by_cases hrange : IsChannel channel
              · simp only [hrange, not_true_eq_false, if_false]
                cases hlookup : s.allocations.lookup src with
                | none => exact .refused hauth (by decide) (by simp [hop, hrange, grant, hlookup])
                | some alloc =>
                    by_cases hconflict : alloc.conflicts channel peer
                    · simp only [hconflict, if_true]
                      exact .refused hauth (by decide)
                        (by simp [hop, hrange, grant, hlookup, hconflict])
                    · simp only [hconflict]
                      exact .granted hauth (by simp [hop, hrange, grant, hlookup, hconflict])
                        (.lifetime hmethod _ fun h => absurd h (by decide))
              · simp only [hrange, not_false_eq_true, if_true]
                exact .refused hauth (by decide) (by simp [hop, hrange])

/-- A request that is answered with a challenge unless it is authenticated. -/
def Guarded (msg : Message) : Prop :=
  msg.typ.cls = .request ∧
    msg.typ.method ∈ [Method.allocate, .refresh, .createPermission, .channelBind]
  deriving Decidable

theorem handled_dispatch (h : Guarded msg) :
    Handled d s draw raw msg src now (s.dispatch d draw raw msg src now) := by
  obtain ⟨hcls, hmethod⟩ := h
  unfold dispatch
  rw [hcls]
  simp only [List.mem_cons, List.not_mem_nil, or_false] at hmethod ⊢
  rcases hmethod with h | h | h | h
  · rw [if_pos h]
    exact handled_handleAllocate d s draw raw msg src now h hcls
  · rw [if_neg (h ▸ by decide), if_pos h]
    exact handled_handleRefresh d s draw raw msg src now h hcls
  · rw [if_neg (h ▸ by decide), if_neg (h ▸ by decide), if_pos h]
    exact handled_handleCreatePermission d s draw raw msg src now h hcls
  · rw [if_neg (h ▸ by decide), if_neg (h ▸ by decide), if_neg (h ▸ by decide), if_pos h]
    exact handled_handleChannelBind d s draw raw msg src now h hcls

theorem dispatch_of_not_guarded (h : ¬ Guarded msg) :
    Op.ofMessage msg = none ∧ s.dispatch d draw raw msg src now =
      (s, if msg.typ.cls = .indication ∧ msg.typ.method = .send then s.handleSend d raw msg src
        else []) := by
  simp only [Guarded, List.mem_cons, List.not_mem_nil, or_false, not_and_or, not_or] at h
  unfold Op.ofMessage dispatch
  cases hcls : msg.typ.cls with
  | request => simp [h.resolve_left (absurd hcls)]
  | indication => by_cases hsend : msg.typ.method = .send <;> simp [hsend]
  | successResponse => simp
  | errorResponse => simp

theorem allocations_dispatch :
    (s.dispatch d draw raw msg src now).1.allocations =
      ((if (s.authenticate d raw msg).isSome then Op.ofMessage msg else none).bind
        (s.grant src now)).getD s.allocations := by
  by_cases hguarded : Guarded msg
  · have hhandled := handled_dispatch d s draw raw msg src now hguarded
    generalize s.dispatch d draw raw msg src now = out at hhandled ⊢
    cases hhandled with
    | challenged hauth => simp [hauth]
    | refused hauth _ h => simp [hauth, h]
    | granted hauth h => simp [hauth, h]
  · obtain ⟨hop, hdispatch⟩ := dispatch_of_not_guarded d s draw raw msg src now hguarded
    simp [hop, hdispatch]

theorem allocations_handle :
    (s.handle d draw raw src now).1.allocations =
      (((s.expire now).asked d raw).bind ((s.expire now).grant src now)).getD
        (s.expire now).allocations := by
  simp only [handle, asked]
  cases hchannel : parseChannelData raw with
  | some frame => rfl
  | none =>
      cases hparse : parse raw with
      | error e => rfl
      | ok msg => exact allocations_dispatch d (s.expire now) draw raw msg src now

/-! ### What stays as it is configured -/

def config (s : TurnServer) : ServerConfig where
  realm := s.realm
  users := s.users
  relayIp := s.relayIp
  portMin := s.portMin
  portMax := s.portMax
  nonceLifetime := s.nonceLifetime

@[simp] theorem config_refuse (s : TurnServer) (draw : Draw) (src : SocketAddr) (msg : Message)
    (code : UInt16) (reason : String) :
    (s.refuse draw src msg code reason).1.config = s.config := by
  simp only [refuse, errorResponse]
  split <;> rfl

@[simp] theorem config_dispatch :
    (s.dispatch d draw raw msg src now).1.config = s.config := by
  by_cases hguarded : Guarded msg
  · have hhandled := handled_dispatch d s draw raw msg src now hguarded
    generalize s.dispatch d draw raw msg src now = out at hhandled ⊢
    cases hhandled with
    | challenged => apply config_refuse
    | refused => apply config_refuse
    | granted => rfl
  · rw [(dispatch_of_not_guarded d s draw raw msg src now hguarded).2]

@[simp] theorem config_handle : (s.handle d draw raw src now).1.config = s.config := by
  simp only [handle]
  split
  · rfl
  · split
    · rfl
    · exact config_dispatch ..

variable {client : SocketAddr} {a : ServerAllocation}

theorem lookup_expire {s : TurnServer} {now : ℕ} :
    (s.expire now).allocations.lookup client = some a ↔
      ∃ b, s.allocations.lookup client = some b ∧ now < b.expiresAt ∧ b.prune now = a := by
  rw [expire, Table.lookup_retain, Table.lookup_mapValues, Option.map_eq_some_iff,
    decide_eq_true_eq]
  constructor
  · rintro ⟨⟨b, hb, rfl⟩, hlive⟩
    exact ⟨b, hb, hlive, rfl⟩
  · rintro ⟨b, hb, hlive, rfl⟩
    exact ⟨⟨b, hb, rfl⟩, hlive⟩

/-! ### What is relayed for a client -/

/-- The peer and the data of an authenticated Send indication. -/
def indicated (d : Digests) (s : TurnServer) (raw : Bytes) : Option (SocketAddr × Bytes) :=
  match parseChannelData raw with
  | some _ => none
  | none =>
      match parse raw with
      | .error _ => none
      | .ok msg =>
          if msg.typ.cls = .indication ∧ msg.typ.method = .send ∧
              (s.authenticate d raw msg).isSome then
            match msg.xorPeerAddress, msg.data with
            | some peer, some data => some (peer, data)
            | _, _ => none
          else none

/-- A datagram that an allocation relays: on one of its channels, or to a peer it permits. -/
def Carries (d : Digests) (s : TurnServer) (a : ServerAllocation) (raw : Bytes) (peer : SocketAddr)
    (data : Bytes) : Prop :=
  (∃ channel, parseChannelData raw = some (channel, data) ∧ a.channels.lookup channel = some peer) ∨
    (s.indicated d raw = some (peer, data) ∧ peer.ip ∈ a.permissions)

def ToClients (outs : List Outbound) : Prop := ∀ out ∈ outs, ∃ dest data, out = .toClient dest data

theorem ToClients.nil : ToClients [] := by simp [ToClients]

theorem toClients_success (src : SocketAddr) (key : Octets 16) (resp : Message) :
    ToClients (success d src key resp) := by simp [ToClients, success]

theorem toClients_refuse (code : UInt16) (reason : String) :
    ToClients (s.refuse draw src msg code reason).2 := by
  simp only [refuse, errorResponse]
  split <;> simp [ToClients]

theorem toClients_dispatch (h : ¬ (msg.typ.cls = .indication ∧ msg.typ.method = .send)) :
    ToClients (s.dispatch d draw raw msg src now).2 := by
  by_cases hguarded : Guarded msg
  · have hhandled := handled_dispatch d s draw raw msg src now hguarded
    generalize s.dispatch d draw raw msg src now = out at hhandled ⊢
    cases hhandled with
    | challenged => apply toClients_refuse
    | refused => apply toClients_refuse
    | granted => apply toClients_success
  · rw [(dispatch_of_not_guarded d s draw raw msg src now hguarded).2, if_neg h]
    exact .nil

variable {port : UInt16}

theorem toPeer_handleSend {peer : SocketAddr} {data : Bytes} :
    .toPeer port peer data ∈ s.handleSend d raw msg src ↔
      (s.authenticate d raw msg).isSome ∧ msg.xorPeerAddress = some peer ∧ msg.data = some data ∧
        ∃ a, s.allocations.lookup src = some a ∧ peer.ip ∈ a.permissions ∧ a.relayPort = port := by
  unfold handleSend outboundToPeer
  cases s.authenticate d raw msg with
  | none => simp
  | some key =>
      cases hpeer : msg.xorPeerAddress with
      | none => simp
      | some peer' =>
          cases hdata : msg.data with
          | none => simp
          | some data' =>
              cases hlookup : s.allocations.lookup src with
              | none => simp
              | some a =>
                  by_cases hperm : peer'.ip ∈ a.permissions
                  · simp only [hperm, if_true, List.mem_singleton, Outbound.toPeer.injEq,
                      Option.isSome_some, Option.some.injEq, exists_eq_left', true_and]
                    constructor
                    · rintro ⟨rfl, rfl, rfl⟩
                      exact ⟨rfl, rfl, hperm, rfl⟩
                    · rintro ⟨rfl, rfl, -, rfl⟩
                      exact ⟨rfl, rfl, rfl⟩
                  · simp only [hperm, if_false, List.not_mem_nil, Option.isSome_some,
                      Option.some.injEq, exists_eq_left', true_and, false_iff]
                    rintro ⟨rfl, -, hmem, -⟩
                    exact hperm hmem

theorem toPeer_handle {peer : SocketAddr} {data : Bytes} :
    .toPeer port peer data ∈ (s.handle d draw raw src now).2 ↔
      ∃ a, (s.expire now).allocations.lookup src = some a ∧
        (s.expire now).Carries d a raw peer data ∧ a.relayPort = port := by
  simp only [handle, Carries, indicated]
  cases hchannel : parseChannelData raw with
  | some frame =>
      obtain ⟨channel, payload⟩ := frame
      simp only [relayChannelData, Option.some.injEq, Prod.mk.injEq, reduceCtorEq, false_and,
        or_false]
      cases hlookup : (s.expire now).allocations.lookup src with
      | none => simp
      | some a =>
          simp only [Option.some.injEq, exists_eq_left']
          cases hpeer : a.channels.lookup channel with
          | none =>
              simp only [List.not_mem_nil, false_iff]
              rintro ⟨⟨c, ⟨rfl, -⟩, hc⟩, -⟩
              rw [hpeer] at hc
              cases hc
          | some bound =>
              simp only [List.mem_singleton, Outbound.toPeer.injEq]
              constructor
              · rintro ⟨rfl, rfl, rfl⟩
                exact ⟨⟨channel, ⟨rfl, rfl⟩, hpeer⟩, rfl⟩
              · rintro ⟨⟨c, ⟨rfl, rfl⟩, hc⟩, rfl⟩
                rw [hpeer] at hc
                cases hc
                exact ⟨rfl, rfl, rfl⟩
  | none =>
      cases hparse : parse raw with
      | error e => simp
      | ok msg =>
          simp only [reduceCtorEq, false_and, exists_false, false_or]
          by_cases hsend : msg.typ.cls = .indication ∧ msg.typ.method = .send
          · rw [dispatch, hsend.1]
            simp only [hsend.2, if_true, true_and, toPeer_handleSend]
            cases (s.expire now).authenticate d raw msg with
            | none => simp
            | some key =>
                cases msg.xorPeerAddress with
                | none => simp
                | some peer' =>
                    cases msg.data with
                    | none => simp
                    | some data' =>
                        simp only [Option.isSome_some, if_true, true_and, Option.some.injEq,
                          Prod.mk.injEq]
                        constructor
                        · rintro ⟨rfl, rfl, a, hlookup, hperm, rfl⟩
                          exact ⟨a, hlookup, ⟨⟨rfl, rfl⟩, hperm⟩, rfl⟩
                        · rintro ⟨a, hlookup, ⟨⟨rfl, rfl⟩, hperm⟩, rfl⟩
                          exact ⟨rfl, rfl, a, hlookup, hperm, rfl⟩
          · have hclients := toClients_dispatch d (s.expire now) draw raw msg src now hsend
            have hnone : ¬ (msg.typ.cls = .indication ∧ msg.typ.method = .send ∧
                ((s.expire now).authenticate d raw msg).isSome) := fun h => hsend ⟨h.1, h.2.1⟩
            simp only [if_neg hnone, reduceCtorEq, false_and, and_false, exists_false, iff_false]
            intro hmem
            obtain ⟨dest, data', hout⟩ := hclients _ hmem
            cases hout

/-! ### Relay ports -/

/-- What an operation that is granted does to the allocations: that of the client is removed, or
written. -/
inductive Granted (s : TurnServer) (src : SocketAddr) (now : ℕ) :
    Op → Table SocketAddr ServerAllocation → Prop
  | allocate (secs : UInt32) (port : UInt16)
      (hport : (∃ b, s.allocations.lookup src = some b ∧ b.relayPort = port) ∨
        s.allocations.lookup src = none ∧ s.freePort = some port) :
      Granted s src now (.allocate secs) (s.allocations.insert src (.fresh port (now + secs.toNat)))
  | release : Granted s src now .release (s.allocations.erase src)
  | refresh (secs : UInt32) (b : ServerAllocation) (hb : s.allocations.lookup src = some b) :
      Granted s src now (.refresh secs)
        (s.allocations.insert src { b with expiresAt := now + secs.toNat })
  | permit (ip : IpAddr) (b : ServerAllocation) (hb : s.allocations.lookup src = some b) :
      Granted s src now (.permit ip) (s.allocations.insert src (b.permit ip now))
  | bind (channel : UInt16) (peer : SocketAddr) (b : ServerAllocation)
      (hb : s.allocations.lookup src = some b) (hfree : b.conflicts channel peer = false) :
      Granted s src now (.bind channel peer) (s.allocations.insert src (b.bind channel peer now))

section Grant

variable {s : TurnServer} {src : SocketAddr} {now : ℕ} {op : Op}
  {t : Table SocketAddr ServerAllocation}

theorem granted_of_grant (h : s.grant src now op = some t) : s.Granted src now op t := by
  cases op with
  | allocate secs =>
      simp only [grant] at h
      split at h
      · cases h
      · obtain ⟨port, hport, rfl⟩ := Option.map_eq_some_iff.mp h
        refine .allocate secs port ?_
        split at hport
        · rename_i b hb
          cases hport
          exact .inl ⟨b, hb, rfl⟩
        · rename_i hnone
          exact .inr ⟨hnone, hport⟩
  | release =>
      obtain ⟨b, -, rfl⟩ := Option.map_eq_some_iff.mp h
      exact .release
  | refresh secs =>
      obtain ⟨b, hb, rfl⟩ := Option.map_eq_some_iff.mp h
      exact .refresh secs b hb
  | permit ip =>
      obtain ⟨b, hb, rfl⟩ := Option.map_eq_some_iff.mp h
      exact .permit ip b hb
  | bind channel peer =>
      obtain ⟨b, hb, hbind⟩ := Option.bind_eq_some_iff.mp h
      split at hbind
      · cases hbind
      · rename_i hconflict
        cases hbind
        exact .bind channel peer b hb (Bool.eq_false_iff.mpr hconflict)

theorem lookup_grant_of_ne (h : s.grant src now op = some t) (hne : client ≠ src) :
    t.lookup client = s.allocations.lookup client := by
  cases granted_of_grant h with
  | release => exact AList.lookup_erase_ne hne
  | _ => exact AList.lookup_insert_ne hne

theorem relayPort_grant (h : s.grant src now op = some t) (ha : t.lookup src = some a) :
    (∃ b, s.allocations.lookup src = some b ∧ b.relayPort = a.relayPort) ∨
      s.allocations.lookup src = none ∧ s.freePort = some a.relayPort := by
  cases granted_of_grant h with
  | release =>
      rw [AList.lookup_erase] at ha
      cases ha
  | allocate secs port hport =>
      rw [AList.lookup_insert] at ha
      cases ha
      exact hport
  | refresh secs b hb | permit ip b hb | bind channel peer b hb =>
      rw [AList.lookup_insert] at ha
      cases ha
      exact .inl ⟨b, hb, rfl⟩

end Grant

theorem relayPort_ne_of_freePort {s : TurnServer} (h : s.freePort = some port)
    (ha : s.allocations.lookup client = some a) : a.relayPort ≠ port := by
  intro heq
  have hfree := List.find?_some h
  rw [Bool.not_eq_true', List.any_eq_false] at hfree
  exact hfree ⟨client, a⟩ (AList.mem_lookup_iff.mp ha) (decide_eq_true heq)

def DistinctPorts (s : TurnServer) : Prop :=
  ∀ c c' a a', s.allocations.lookup c = some a → s.allocations.lookup c' = some a' →
    a.relayPort = a'.relayPort → c = c'

theorem distinctPorts_new (realm : String) (users : Table String String) (relayIp : IpAddr)
    (portMin portMax : UInt16) : (new realm users relayIp portMin portMax).DistinctPorts := by
  intro c c' a a' ha
  cases ha

theorem DistinctPorts.expire {s : TurnServer} (h : s.DistinctPorts) (now : ℕ) :
    (s.expire now).DistinctPorts := by
  intro c c' a a' ha ha' hport
  obtain ⟨b, hb, -, rfl⟩ := lookup_expire.mp ha
  obtain ⟨b', hb', -, rfl⟩ := lookup_expire.mp ha'
  exact h c c' b b' hb hb' hport

theorem DistinctPorts.grant {s u : TurnServer} (h : s.DistinctPorts) {src : SocketAddr} {now : ℕ}
    {op : Op} (hu : s.grant src now op = some u.allocations) : u.DistinctPorts := by
  have hkept : ∀ c a, c ≠ src → u.allocations.lookup c = some a →
      s.allocations.lookup c = some a := by
    intro c a hne ha
    rwa [lookup_grant_of_ne hu hne] at ha
  have hother : ∀ c a a', c ≠ src → u.allocations.lookup src = some a →
      u.allocations.lookup c = some a' → a.relayPort ≠ a'.relayPort := by
    intro c a a' hne ha ha' hport
    have hc := hkept c a' hne ha'
    rcases relayPort_grant hu ha with ⟨b, hb, hbport⟩ | ⟨-, hfree⟩
    · exact hne (h c src a' b hc hb (hport.symm.trans hbport.symm))
    · exact relayPort_ne_of_freePort hfree hc hport.symm
  intro c c' a a' ha ha' hport
  by_cases hc : c = src
  · subst hc
    by_contra hne
    exact hother c' a a' (Ne.symm hne) ha ha' hport
  · by_cases hc' : c' = src
    · subst hc'
      exact absurd hport.symm (hother c a' a hc ha' ha)
    · exact h c c' a a' (hkept c a hc ha) (hkept c' a' hc' ha') hport

theorem DistinctPorts.handle {s : TurnServer} (h : s.DistinctPorts) :
    (s.handle d draw raw src now).1.DistinctPorts := by
  have hallocs := allocations_handle d s draw raw src now
  have hexpired := h.expire now
  cases hgrant : ((s.expire now).asked d raw).bind ((s.expire now).grant src now) with
  | none =>
      rw [hgrant, Option.getD_none] at hallocs
      intro c c' a a' ha ha'
      rw [hallocs] at ha ha'
      exact hexpired c c' a a' ha ha'
  | some t =>
      rw [hgrant, Option.getD_some] at hallocs
      obtain ⟨op, -, hop⟩ := Option.bind_eq_some_iff.mp hgrant
      exact hexpired.grant (hop.trans (congrArg some hallocs.symm))

theorem lookup_of_ownerOf {s : TurnServer} (h : s.ownerOf port = some (client, a)) :
    s.allocations.lookup client = some a ∧ a.relayPort = port := by
  obtain ⟨e, he, heq⟩ := Option.map_eq_some_iff.mp h
  cases heq
  exact ⟨AList.mem_lookup_iff.mpr (List.mem_of_find?_eq_some he), by simpa using List.find?_some he⟩

theorem ownerOf_eq_some {s : TurnServer} (hs : s.DistinctPorts) :
    s.ownerOf port = some (client, a) ↔
      s.allocations.lookup client = some a ∧ a.relayPort = port := by
  refine ⟨lookup_of_ownerOf, ?_⟩
  rintro ⟨ha, hport⟩
  have hmem := AList.mem_lookup_iff.mp ha
  cases hfind : s.ownerOf port with
  | none =>
      have hnone := List.find?_eq_none.mp (Option.map_eq_none_iff.mp hfind) _ hmem
      exact absurd (decide_eq_true hport) hnone
  | some found =>
      obtain ⟨owner, b⟩ := found
      obtain ⟨hlookup, hfound⟩ := lookup_of_ownerOf hfind
      have hclient := hs client owner a b ha hlookup (hport.trans hfound.symm)
      rw [← hclient, ha] at hlookup
      exact congrArg some (Prod.ext hclient.symm (Option.some.inj hlookup).symm)

end TurnServer

end Vantablack.Turn
