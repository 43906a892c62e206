import Vantablack.Turn.ChannelData

/-!
The TURN client of `net/turn.rs`. What its socket leads to is a parameter: it takes a datagram to
the server, and gives the datagrams that come back. Times are natural numbers of seconds, and the
transaction IDs that a call draws are arguments.
-/

namespace Vantablack.Turn

open Lib Layers Receive Net Stun

/-- The most that a UDP datagram carries; the socket refuses to send more. -/
def maxPayload : IpAddr → ℕ
  | .v4 _ => 65507
  | .v6 _ => 65527

def recvBuffer : ℕ := 1500

inductive TurnError where
  | io
  | timeout
  | rejected (code : UInt16) (reason : String)
  | missingCredentials
  | noAllocation
  | noChannelAvailable
  | malformed (what : String)
  deriving DecidableEq

structure Allocation where
  relayedAddr : SocketAddr
  mappedAddr : Option SocketAddr
  lifetime : ℕ
  expiresAt : ℕ

/-- What a client received on its allocation. -/
inductive TurnInbound where
  | data (peer : SocketAddr) (payload : Bytes)
  | channelData (channel : UInt16) (payload : Bytes)
  deriving DecidableEq

structure TurnClient where
  server : SocketAddr
  username : String
  password : String
  realm : Option String
  nonce : Option String
  allocation : Option Allocation
  permissions : Table IpAddr ℕ
  channels : Table UInt16 SocketAddr
  channelPeers : Table SocketAddr UInt16
  nextChannel : UInt16

/-- What a client's socket leads to: it takes a datagram to the server, and gives those that the
server sends back before the timeout, in their order. -/
abbrev Exchange (σ : Type) := σ → Bytes → σ × List Bytes

namespace TurnClient

def new (server : SocketAddr) (username password : String) : TurnClient where
  server := server
  username := username
  password := password
  realm := none
  nonce := none
  allocation := none
  permissions := ∅
  channels := ∅
  channelPeers := ∅
  nextChannel := channelNumberMin

def requireAllocation (c : TurnClient) : Except TurnError Unit :=
  if c.allocation.isSome then .ok () else .error .noAllocation

variable (d : Digests)

/-- The long-term integrity key, once the realm is known. -/
def key (c : TurnClient) : Except TurnError (Octets 16) :=
  match c.realm with
  | none => .error .missingCredentials
  | some realm => .ok (longTermKey d c.username realm c.password)

/-- A message with the long-term credential attributes. -/
def withCredentials (c : TurnClient) (realm nonce : String) (msg : Message) : Message :=
  ((msg.push (.username (utf8 c.username))).push (.realm realm)).push (.nonce nonce)

/-- The message with its credentials and the integrity digest. -/
def seal_ (c : TurnClient) (msg : Message) : Except TurnError Bytes :=
  match c.realm, c.nonce with
  | some realm, some nonce =>
      .ok ((c.withCredentials realm nonce msg).encodeWithIntegrity d
        (longTermKey d c.username realm c.password).toList)
  | _, _ => .error .missingCredentials

/-- Read until the response of the transaction arrives. Once there is a key, an integrity
attribute has to verify. -/
def awaitResponse (c : TurnClient) (txid : TransactionId) : List Bytes → Except TurnError Message
  | [] => .error .timeout
  | raw :: inbox =>
      match parse (raw.take recvBuffer) with
      | .error _ => c.awaitResponse txid inbox
      | .ok msg =>
          if msg.txid ≠ txid then c.awaitResponse txid inbox
          else
            match c.key d with
            | .error _ => .ok msg
            | .ok key =>
                if (msg.get Attr.messageIntegrity).isSome ∧
                    verifyIntegrity d (raw.take recvBuffer) key.toList ≠ .ok () then
                  c.awaitResponse txid inbox
                else .ok msg

variable {σ : Type} (net : Exchange σ)

/-- Send a request and wait for the response. -/
def transact (c : TurnClient) (w : σ) (request : Bytes) (txid : TransactionId) :
    σ × Except TurnError Message :=
  if maxPayload c.server.ip < request.length then (w, .error .io)
  else
    let (w, inbox) := net w request
    (w, c.awaitResponse d txid inbox)

/-- The error of a request that the server rejected. -/
def rejection (response : Message) : TurnError :=
  let (code, reason) := response.errorCode.getD (0, "")
  .rejected code reason

def allocateMessage (txid : TransactionId) (secs : UInt32) : Message :=
  (((Message.new .allocate .request txid).push (.requestedTransport transportUdp)).push
    (.lifetime secs)).push .dontFragment

/-- What `allocate` makes of a response. A challenge is adopted, and there is no result yet. -/
def allocated (c : TurnClient) (response : Message) (lifetime now : ℕ) :
    TurnClient × Option (Except TurnError SocketAddr) :=
  match response.typ.cls with
  | .successResponse =>
      match response.xorRelayedAddress with
      | none => (c, some (.error (.malformed "allocation without XOR-RELAYED-ADDRESS")))
      | some relayed =>
          let granted := (response.lifetime.map UInt32.toNat).getD lifetime
          ({ c with allocation := some {
                relayedAddr := relayed
                mappedAddr := response.xorMappedAddress
                lifetime := granted
                expiresAt := now + granted } }, some (.ok relayed))
  | .errorResponse =>
      let (code, reason) := response.errorCode.getD (0, "")
      if code = 401 ∨ code = 438 then
        match response.realm.or c.realm, response.nonce.or c.nonce with
        | some realm, some nonce => ({ c with realm := some realm, nonce := some nonce }, none)
        | _, _ => (c, some (.error .missingCredentials))
      else (c, some (.error (.rejected code reason)))
  | .request => (c, some (.error (.malformed "server sent a request")))
  | .indication => (c, some (.error (.malformed "server sent an indication")))

/-- One round of `allocate` with a request that is built already. -/
def allocateRound (c : TurnClient) (w : σ) (request : Except TurnError Bytes) (txid : TransactionId)
    (lifetime now : ℕ) : TurnClient × σ × Option (Except TurnError SocketAddr) :=
  match request with
  | .error e => (c, w, some (.error e))
  | .ok bytes =>
      match c.transact d net w bytes txid with
      | (w, .error e) => (c, w, some (.error e))
      | (w, .ok response) =>
          let (c, result) := c.allocated response lifetime now
          (c, w, result)

/-- Allocate a relayed transport address. The first attempt is not authenticated: the answer to it
brings the realm and the nonce. -/
def allocate (c : TurnClient) (w : σ) (txid txid' : TransactionId) (lifetime now : ℕ) :
    TurnClient × σ × Except TurnError SocketAddr :=
  let secs := max (UInt32.ofNat lifetime) minLifetimeSecs
  match c.allocateRound d net w (.ok (allocateMessage txid secs).encode) txid lifetime now with
  | (c, w, some result) => (c, w, result)
  | (c, w, none) =>
      match c.allocateRound d net w (c.seal_ d (allocateMessage txid' secs)) txid' lifetime now with
      | (c, w, some result) => (c, w, result)
      | (c, w, none) => (c, w, .error .missingCredentials)

/-- An authenticated request: a response that is not an error is a success. -/
def ask (c : TurnClient) (w : σ) (msg : Message) : σ × Except TurnError Message :=
  match c.seal_ d msg with
  | .error e => (w, .error e)
  | .ok bytes =>
      match c.transact d net w bytes msg.txid with
      | (w, .error e) => (w, .error e)
      | (w, .ok response) =>
          if response.typ.cls = .errorResponse then (w, .error (rejection response))
          else (w, .ok response)

def refreshMessage (txid : TransactionId) (lifetime : ℕ) : Message :=
  (Message.new .refresh .request txid).push (.lifetime (UInt32.ofNat lifetime))

/-- What a granted lifetime means for the client: zero releases the allocation. -/
def refreshed (c : TurnClient) (granted now : ℕ) : TurnClient :=
  if granted = 0 then
    { c with allocation := none, permissions := ∅, channels := ∅, channelPeers := ∅ }
  else
    { c with allocation := c.allocation.map fun a =>
        { a with lifetime := granted, expiresAt := now + granted } }

/-- Refresh the allocation, or with the lifetime zero release it. -/
def refresh (c : TurnClient) (w : σ) (txid : TransactionId) (lifetime now : ℕ) :
    TurnClient × σ × Except TurnError ℕ :=
  match c.requireAllocation with
  | .error e => (c, w, .error e)
  | .ok () =>
      match c.ask d net w (refreshMessage txid lifetime) with
      | (w, .error e) => (c, w, .error e)
      | (w, .ok response) =>
          let granted := (response.lifetime.getD 0).toNat
          (c.refreshed granted now, w, .ok granted)

def permissionMessage (txid : TransactionId) (peer : SocketAddr) : Message :=
  (Message.new .createPermission .request txid).push (.xorPeerAddress peer)

def permitted (c : TurnClient) (ip : IpAddr) (now : ℕ) : TurnClient :=
  { c with permissions := c.permissions.insert ip (now + defaultPermissionLifetime) }

/-- Install (or refresh) a permission for a peer's IP. -/
def createPermission (c : TurnClient) (w : σ) (txid : TransactionId) (peer : SocketAddr)
    (now : ℕ) : TurnClient × σ × Except TurnError Unit :=
  match c.requireAllocation with
  | .error e => (c, w, .error e)
  | .ok () =>
      match c.ask d net w (permissionMessage txid peer) with
      | (w, .error e) => (c, w, .error e)
      | (w, .ok _) => (c.permitted peer.ip now, w, .ok ())

/-- The search of `allocate_channel`, with the number it goes on from the next time. -/
def searchChannel (channels : Table UInt16 SocketAddr) : ℕ → UInt16 → UInt16 × Option UInt16
  | 0, next => (next, none)
  | fuel + 1, candidate =>
      let next := if channelNumberMax ≤ candidate then channelNumberMin else candidate + 1
      if candidate ∉ channels then (next, some candidate) else searchChannel channels fuel next

def allocateChannel (c : TurnClient) : TurnClient × Option UInt16 :=
  let (next, found) := searchChannel c.channels
    ((channelNumberMax - channelNumberMin).toNat + 1) c.nextChannel
  ({ c with nextChannel := next }, found)

def bindMessage (txid : TransactionId) (channel : UInt16) (peer : SocketAddr) : Message :=
  ((Message.new .channelBind .request txid).push (.channelNumber channel)).push
    (.xorPeerAddress peer)

/-- The binding, and the permission that it implies. -/
def bound (c : TurnClient) (channel : UInt16) (peer : SocketAddr) (now : ℕ) : TurnClient :=
  { c.permitted peer.ip now with
    channels := c.channels.insert channel peer
    channelPeers := c.channelPeers.insert peer channel }

def channelBind (c : TurnClient) (w : σ) (txid : TransactionId) (peer : SocketAddr) (now : ℕ) :
    TurnClient × σ × Except TurnError UInt16 :=
  match c.requireAllocation with
  | .error e => (c, w, .error e)
  | .ok () =>
      match c.channelPeers.lookup peer with
      | some existing => (c, w, .ok existing)
      | none =>
          match c.allocateChannel with
          | (c, none) => (c, w, .error .noChannelAvailable)
          | (c, some channel) =>
              match c.ask d net w (bindMessage txid channel peer) with
              | (w, .error e) => (c, w, .error e)
              | (w, .ok _) => (c.bound channel peer now, w, .ok channel)

def sendMessage (txid : TransactionId) (peer : SocketAddr) (payload : Bytes) : Message :=
  ((Message.new .send .indication txid).push (.xorPeerAddress peer)).push (.data payload)

/-- The datagram that carries application data to a peer: ChannelData when the peer has a channel,
otherwise a Send indication. -/
def sendBytes (c : TurnClient) (txid : TransactionId) (peer : SocketAddr) (payload : Bytes) :
    Bytes :=
  match c.channelPeers.lookup peer with
  | some channel => channelData channel payload
  | none =>
      match c.key d with
      | .ok key => (sendMessage txid peer payload).encodeWithIntegrity d key.toList
      | .error _ => (sendMessage txid peer payload).encode

/-- Send application data to a peer; the result is what is handed to the server. -/
def send (c : TurnClient) (txid : TransactionId) (peer : SocketAddr) (payload : Bytes) :
    Except TurnError Bytes :=
  match c.requireAllocation with
  | .error e => .error e
  | .ok () =>
      let bytes := c.sendBytes d txid peer payload
      if maxPayload c.server.ip < bytes.length then .error .io else .ok bytes

/-- Parse something received on the allocation socket. -/
def decodeInbound (raw : Bytes) : Option TurnInbound :=
  match parseChannelData raw with
  | some (channel, payload) => some (.channelData channel payload)
  | none =>
      match parse raw with
      | .error _ => none
      | .ok msg =>
          if msg.typ.method ≠ .data ∨ msg.typ.cls ≠ .indication then none
          else
            match msg.xorPeerAddress, msg.data with
            | some peer, some payload => some (.data peer payload)
            | _, _ => none

def peerForChannel (c : TurnClient) (channel : UInt16) : Option SocketAddr :=
  c.channels.lookup channel

end TurnClient

end Vantablack.Turn
