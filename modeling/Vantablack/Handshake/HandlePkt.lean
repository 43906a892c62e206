import Vantablack.Handshake.Dispatch
import Vantablack.Receive.Spool
import Vantablack.Session.Basic
import Vantablack.Symbolic

/-!
The handshake branches of `handle_pkt` in `main.rs`, as one step on the tables of a node:
its sessions, the addresses of its peers and the handshakes it has begun. A branch checks
the message, answers it if it is an offer, and registers the session.

The fresh randomness of a call and the clocks it reads are passed in. The relay's address
book, the leases of a VPN hub and the statistics are left out. A call is atomic.
-/

namespace Vantablack.Handshake

open Lib Layers Receive Session HybridCipherSuite

/-- What the handshakes use beyond the session layer. The reputation matrix is arithmetic on
floating-point numbers, so it is a parameter like the third-party crates. -/
structure Primitives (C : Crypto) where
  Kem768Secret : Type
  Reputation : Type
  verifyPeerSignature : Octets 32 → Bytes → Octets 64 → Bool
  length_xPublic : ∀ s, (C.xPublic s).length = 32
  kem768Public : Kem768Secret → Bytes
  kyber768Encapsulate : C.Coins → Bytes → Option (Bytes × C.KemShared)
  kyber768Decapsulate : Kem768Secret → Bytes → Option C.KemShared
  deriveHybridMasterKeyWithSuite :
    HybridCipherSuite → C.Dh → C.KemShared → Option (Octets 32) → C.Key
  /-- The last five arguments are the shares, the ciphertext and the commitments. -/
  deriveHybridMasterKeyWithTranscript :
    HybridCipherSuite → C.Dh → C.KemShared → Option (Octets 32) →
      Octets 32 → Octets 32 → Bytes → Octets 32 → Octets 32 → C.Key
  isByzantine : Reputation → String → String → Bool
  recordInteraction : Reputation → String → String → Bool → Reputation

variable {C : Crypto}

inductive PendingHandshake (P : Primitives C) where
  | kem512 (xSecret : C.XSecret) (dk : C.KemSecret)
  | negotiated (xSecret : C.XSecret) (kem512 : C.KemSecret) (kem768 : P.Kem768Secret)
      (offered : List HybridCipherSuite)

/-- What does not change while a node runs. `hub` is the allowlist of a VPN hub. -/
structure NodeConfig where
  identityPk : Octets 32
  pqCommitment : Octets 32
  sign : Bytes → Octets 64
  psk : Option (Octets 32)
  uniform : Bool
  hub : Option (List String)

/-- The tables of a node. A revocation is entered with its time, in Unix seconds. -/
structure NodeState (P : Primitives C) where
  sessions : Table String (Session C)
  peers : Table String SocketAddr
  pendingHs : Table SocketAddr (PendingHandshake P)
  revocationList : Option (Table String ℕ)
  reputation : Option P.Reputation

/-- The clocks and the randomness of one call. -/
structure Fresh (C : Crypto) where
  now : ℕ
  unixNow : ℕ
  xSecret : C.XSecret
  coins : C.Coins

/-- A call of `register_peer_session`, with the state it is made in. -/
structure Registration (P : Primitives C) where
  fp : String
  session : Session C
  before : NodeState P
  after : NodeState P

/-- The outcome of a call: the state, the answer sent and the session registered. -/
structure Handled (P : Primitives C) where
  state : NodeState P
  sent : Option Bytes
  registered : Option (Registration P)

def maxSessions : ℕ := 512

/-- `REVOCATION_EXPIRY_SECS`, 90 days. -/
def revocationExpirySecs : ℕ := 90 * 86400

def hexDigit (n : ℕ) : Char := Nat.digitChar n

def hexEncode (bytes : Bytes) : String :=
  String.ofList (bytes.flatMap fun b => [hexDigit (b.toNat / 16), hexDigit (b.toNat % 16)])

/-- The fingerprint of an identity: its first eight bytes. -/
def fingerprint (identityPk : Octets 32) : String := hexEncode (identityPk.toList.take 8)

def NodeConfig.fingerprint (cfg : NodeConfig) : String := Handshake.fingerprint cfg.identityPk

/-! ### Admission -/

/-- `VpnHub::authorized`, for a node that is a hub. -/
def NodeConfig.authorized (cfg : NodeConfig) (fp : String) : Bool :=
  match cfg.hub with
  | none => true
  | some allowed => allowed.any fun a => a == fp || a == "any" || a == "*"

variable {P : Primitives C}

/-- `RevocationList::reject_handshake`; the age of an entry is a `u64` difference. -/
def NodeState.rejectHandshake (st : NodeState P) (unixNow : ℕ) (fp : String) : Bool :=
  match st.revocationList with
  | none => false
  | some entries =>
    match entries.lookup fp with
    | none => false
    | some timestamp => (unixNow + 2 ^ 64 - timestamp) % 2 ^ 64 < revocationExpirySecs

def NodeState.byzantine (st : NodeState P) (cfg : NodeConfig) (fp : String) : Bool :=
  match st.reputation with
  | none => false
  | some rep => P.isByzantine rep cfg.fingerprint fp

def NodeState.recordInteraction (st : NodeState P) (cfg : NodeConfig) (fp : String)
    (success : Bool) : NodeState P :=
  { st with reputation := st.reputation.map fun rep =>
      P.recordInteraction rep cfg.fingerprint fp success }

/-! ### Registering a session -/

/-- `is_single_device_ip`: private, carrier-grade NAT and link-local addresses. -/
def isSingleDeviceIp : IpAddr → Bool
  | .v4 octets =>
      match octets.toList.map UInt8.toNat with
      | [a, b, _, _] =>
          a ≠ 127 && (a = 10 || (a = 172 && 16 ≤ b && b ≤ 31) || (a = 192 && b = 168) ||
            (a = 100 && b / 64 = 1) || (a = 169 && b = 254))
      | _ => false
  | .v6 octets => octets.toList ≠ List.replicate 15 0 ++ [1]

/-- The other fingerprints known at the address of a new session. -/
def staleFps (peers : Table String SocketAddr) (fp : String) (src : SocketAddr) : List String :=
  (peers.entries.filter fun e => e.1 ≠ fp &&
    (e.2 = src || (isSingleDeviceIp src.ip && e.2.ip = src.ip))).map Sigma.fst

def evictAll {ν : Type} (t : Table String ν) (fps : List String) : Table String ν :=
  fps.foldl (fun t fp => t.erase fp) t

def registerPeerSession (st : NodeState P) (fp : String) (src : SocketAddr)
    (session : Session C) : NodeState P :=
  { st with
    peers := (evictAll st.peers (staleFps st.peers fp src)).insert fp src
    sessions := (evictAll st.sessions (staleFps st.peers fp src)).insert fp session }

/-- Leave everything as it is. -/
def reject (st : NodeState P) : Handled P :=
  { state := st, sent := none, registered := none }

/-- Register a session, with `sent` on its way. -/
def accept (st : NodeState P) (src : SocketAddr) (sent : Option Bytes) (session : Session C) :
    Handled P :=
  let after := registerPeerSession st session.peerFingerprint src session
  { state := after, sent := sent,
    registered := some { fp := session.peerFingerprint, session := session, before := st,
                         after := after } }

/-! ### Offers -/

def Fresh.xPub (P : Primitives C) (r : Fresh C) : Octets 32 :=
  ⟨C.xPublic r.xSecret, P.length_xPublic r.xSecret⟩

/-- The suites this build supports, the strongest first. -/
def localSuites : List HybridCipherSuite := [x25519MlKem768V3, x25519MlKem512V2]

def encapsulate (P : Primitives C) (suite : HybridCipherSuite) (coins : C.Coins) (pk : Bytes) :
    Option (Bytes × C.KemShared) :=
  match suite with
  | x25519MlKem512V2 => C.kyberEncapsulate coins pk
  | x25519MlKem768V3 => P.kyber768Encapsulate coins pk

def handleNegotiatedOffer (cfg : NodeConfig) (st : NodeState P) (src : SocketAddr) (r : Fresh C)
    (hs : NegotiatedHandshakeBlob) (material : Bytes) : Handled P :=
  if !P.verifyPeerSignature hs.identityPk material hs.signature then reject st
  else
    match negotiateCipherSuite localSuites (hs.supported.map wireId) with
    | none => reject st
    | some selected =>
      match hs.kyberKeys.find? fun e => e.1 == selected with
      | none => reject st
      | some (_, peerKey) =>
        match encapsulate P selected r.coins peerKey with
        | none => reject st
        | some (ct, kemSs) =>
          let master := P.deriveHybridMasterKeyWithTranscript selected
            (C.diffieHellman r.xSecret hs.x25519Pub.toList) kemSs cfg.psk hs.x25519Pub (r.xPub P)
            ct hs.pqCommitment cfg.pqCommitment
          let response := buildNegotiatedResponsePdu selected cfg.identityPk cfg.pqCommitment
            cfg.sign (r.xPub P) ct
          let fp := fingerprint hs.identityPk
          if fp = cfg.fingerprint then { reject st with sent := response }
          else
            accept st src response
              { Session.newWithRole master fp .responder r.now with
                cipherSuite := selected
                peerIdentityPk := some hs.identityPk.toList
                peerPqCommitment := some hs.pqCommitment.toList }

def handleSuiteOffer (cfg : NodeConfig) (st : NodeState P) (src : SocketAddr) (r : Fresh C)
    (hs : SuiteBlob) (material : Bytes) : Handled P :=
  if !P.verifyPeerSignature hs.identityPk material hs.signature then reject st
  else
    match encapsulate P hs.suite r.coins hs.kem with
    | none => reject st
    | some (ct, ks) =>
      let d := P.deriveHybridMasterKeyWithSuite hs.suite
        (C.diffieHellman r.xSecret hs.x25519Pub.toList) ks cfg.psk
      let resp := buildResponsePduSuite hs.suite cfg.identityPk cfg.sign (r.xPub P) ct
      let fp := fingerprint hs.identityPk
      if fp = cfg.fingerprint then { reject st with sent := resp }
      else
        accept st src resp
          { Session.newWithRole d fp .responder r.now with
            cipherSuite := hs.suite
            peerIdentityPk := some hs.identityPk.toList }

/-- The two legacy-sized responses are built around a ciphertext of 768 bytes. -/
def responseWith (build : Octets 768 → Bytes) (ct : Bytes) : Option Bytes :=
  (Block.ofList? 768 ct).map build

/-- `start` is the random prefix of the response. -/
def handleUniformOffer (cfg : NodeConfig) (st : NodeState P) (src : SocketAddr) (r : Fresh C)
    (start : Octets 16) (hs : HandshakeBlob) (material : Bytes) : Handled P :=
  if !P.verifyPeerSignature hs.identityPk material hs.signature then reject st
  else
    let fp := fingerprint hs.identityPk
    if maxSessions ≤ st.sessions.size || fp ∈ st.sessions then reject st
    else
      match C.kyberEncapsulate r.coins hs.kem.toList with
      | none => reject st
      | some (ct, ks) =>
        let master := P.deriveHybridMasterKeyWithSuite x25519MlKem512V2
          (C.diffieHellman r.xSecret hs.x25519Pub.toList) ks cfg.psk
        let resp := responseWith (buildUniform start cfg.identityPk cfg.sign (r.xPub P)) ct
        accept st src resp
          { Session.newWithRole master fp .responder r.now with
            peerIdentityPk := some hs.identityPk.toList }

/-- The legacy branch after the eviction of a session with the same peer. -/
def finishOffer (cfg : NodeConfig) (st : NodeState P) (src : SocketAddr) (r : Fresh C)
    (hs : HandshakeBlob) (material : Bytes) : Handled P :=
  let fp := fingerprint hs.identityPk
  if !cfg.authorized fp then reject (st.recordInteraction cfg fp false)
  else if st.byzantine cfg fp then reject st
  else if st.rejectHandshake r.unixNow fp then reject (st.recordInteraction cfg fp false)
  else if !P.verifyPeerSignature hs.identityPk material hs.signature then
    reject (st.recordInteraction cfg fp false)
  else
    match C.kyberEncapsulate r.coins hs.kem.toList with
    | none => reject (st.recordInteraction cfg fp false)
    | some (ct, ks) =>
      let d := P.deriveHybridMasterKeyWithSuite x25519MlKem512V2
        (C.diffieHellman r.xSecret hs.x25519Pub.toList) ks cfg.psk
      let resp := responseWith (buildResponsePdu cfg.identityPk cfg.sign (r.xPub P)) ct
      let done := accept st src resp
        { Session.newWithRole d fp .responder r.now with
          wireV1 := true
          pqAuthState := 1
          peerIdentityPk := some hs.identityPk.toList }
      { done with state := done.state.recordInteraction cfg fp true }

def handleOffer (cfg : NodeConfig) (st : NodeState P) (src : SocketAddr) (r : Fresh C)
    (hs : HandshakeBlob) (material : Bytes) : Handled P :=
  if maxSessions ≤ st.sessions.size then reject st
  else
    let fp := fingerprint hs.identityPk
    if fp = cfg.fingerprint then reject st
    else finishOffer cfg { st with sessions := st.sessions.erase fp } src r hs material

/-! ### Responses -/

/-- Take the handshake begun with `src` out of the table and go on with it. -/
def takePending (st : NodeState P) (src : SocketAddr)
    (finish : NodeState P → PendingHandshake P → Handled P) : Handled P :=
  match st.pendingHs.lookup src with
  | none => reject st
  | some pending => finish { st with pendingHs := st.pendingHs.erase src } pending

def finishNegotiatedResponse (cfg : NodeConfig) (src : SocketAddr) (r : Fresh C)
    (resp : NegotiatedResponseBlob) (st : NodeState P) : PendingHandshake P → Handled P
  | .kem512 _ _ => reject st
  | .negotiated xSecret kem512 kem768 offered =>
      if negotiateCipherSuite localSuites (offered.map wireId) ≠ some resp.suite then reject st
      else
        let kemSs := match resp.suite with
          | x25519MlKem512V2 => some (C.decapsulate kem512 resp.kyberCt)
          | x25519MlKem768V3 => P.kyber768Decapsulate kem768 resp.kyberCt
        match kemSs with
        | none => reject st
        | some kemSs =>
          let master := P.deriveHybridMasterKeyWithTranscript resp.suite
            (C.diffieHellman xSecret resp.x25519Pub.toList) kemSs cfg.psk
            ⟨C.xPublic xSecret, P.length_xPublic xSecret⟩ resp.x25519Pub resp.kyberCt
            cfg.pqCommitment resp.pqCommitment
          accept st src none
            { Session.newWithRole master (fingerprint resp.identityPk) .initiator r.now with
              cipherSuite := resp.suite
              peerIdentityPk := some resp.identityPk.toList
              peerPqCommitment := some resp.pqCommitment.toList }

def handleNegotiatedResponse (cfg : NodeConfig) (st : NodeState P) (src : SocketAddr)
    (r : Fresh C) (resp : NegotiatedResponseBlob) (material : Bytes) : Handled P :=
  if !P.verifyPeerSignature resp.identityPk material resp.signature then reject st
  else takePending st src (finishNegotiatedResponse cfg src r resp)

def finishSuiteResponse (cfg : NodeConfig) (src : SocketAddr) (r : Fresh C) (resp : SuiteBlob)
    (st : NodeState P) : PendingHandshake P → Handled P
  | .negotiated _ _ _ _ => reject st
  | .kem512 xSecret dk =>
      match resp.suite with
      | x25519MlKem768V3 => reject st
      | x25519MlKem512V2 =>
          let d := P.deriveHybridMasterKeyWithSuite resp.suite
            (C.diffieHellman xSecret resp.x25519Pub.toList) (C.decapsulate dk resp.kem) cfg.psk
          accept st src none
            { Session.newWithRole d (fingerprint resp.identityPk) .initiator r.now with
              cipherSuite := resp.suite
              peerIdentityPk := some resp.identityPk.toList }

def handleSuiteResponse (cfg : NodeConfig) (st : NodeState P) (src : SocketAddr) (r : Fresh C)
    (resp : SuiteBlob) (material : Bytes) : Handled P :=
  if !P.verifyPeerSignature resp.identityPk material resp.signature then reject st
  else takePending st src (finishSuiteResponse cfg src r resp)

/-- The uniform and the legacy response end alike; the latter's session keeps the old wire
format and counts as authenticated. -/
def finishResponse (cfg : NodeConfig) (src : SocketAddr) (r : Fresh C) (legacy : Bool)
    (resp : ResponseBlob) (st : NodeState P) : PendingHandshake P → Handled P
  | .negotiated _ _ _ _ => reject st
  | .kem512 xSecret dk =>
      let d := P.deriveHybridMasterKeyWithSuite x25519MlKem512V2
        (C.diffieHellman xSecret resp.x25519Pub.toList) (C.decapsulate dk resp.kem.toList)
        cfg.psk
      let session := Session.newWithRole d (fingerprint resp.identityPk) .initiator r.now
      accept st src none
        { session with
          wireV1 := legacy
          pqAuthState := if legacy then 1 else 0
          peerIdentityPk := some resp.identityPk.toList }

def handleUniformResponse (cfg : NodeConfig) (st : NodeState P) (src : SocketAddr) (r : Fresh C)
    (resp : ResponseBlob) (material : Bytes) : Handled P :=
  if !P.verifyPeerSignature resp.identityPk material resp.signature then reject st
  else takePending st src (finishResponse cfg src r false resp)

def handleResponse (cfg : NodeConfig) (st : NodeState P) (src : SocketAddr) (r : Fresh C)
    (resp : ResponseBlob) (material : Bytes) : Handled P :=
  if !P.verifyPeerSignature resp.identityPk material resp.signature then reject st
  else
    let fp := fingerprint resp.identityPk
    if st.byzantine cfg fp then reject st
    else if st.rejectHandshake r.unixNow fp then reject st
    else takePending st src (finishResponse cfg src r true resp)

/-! ### The whole -/

structure Datagram (C : Crypto) where
  ctr : ℕ
  data : Bytes
  src : SocketAddr
  fresh : Fresh C
  start : Octets 16

def handleMessage (cfg : NodeConfig) (st : NodeState P) (d : Datagram C) (material : Bytes) :
    Message → Handled P
  | .negotiatedOffer hs => handleNegotiatedOffer cfg st d.src d.fresh hs material
  | .suiteOffer hs => handleSuiteOffer cfg st d.src d.fresh hs material
  | .uniformOffer hs => handleUniformOffer cfg st d.src d.fresh d.start hs material
  | .offer hs => handleOffer cfg st d.src d.fresh hs material
  | .negotiatedResponse resp => handleNegotiatedResponse cfg st d.src d.fresh resp material
  | .suiteResponse resp => handleSuiteResponse cfg st d.src d.fresh resp material
  | .uniformResponse resp => handleUniformResponse cfg st d.src d.fresh resp material
  | .response resp => handleResponse cfg st d.src d.fresh resp material

/-- What `handle_pkt` does to the tables for a payload of a handshake branch. A payload its
branch cannot parse is dropped. -/
def handlePkt (cfg : NodeConfig) (st : NodeState P) (d : Datagram C) : Handled P :=
  match receive cfg.uniform d.ctr d.data with
  | none => reject st
  | some (m, material) => handleMessage cfg st d material m

def maxPendingHandshakes : ℕ := 512

/-- The tables after `initiate_handshake` to `t` with fresh key pairs. -/
def initiateHandshake (cfg : NodeConfig) (st : NodeState P) (t : SocketAddr) (xSecret : C.XSecret)
    (kem512 : C.KemSecret) (kem768 : P.Kem768Secret) : NodeState P :=
  if cfg.uniform then
    if maxPendingHandshakes ≤ st.pendingHs.size then st
    else { st with pendingHs := st.pendingHs.insert t (.kem512 xSecret kem512) }
  else
    let pendingHs := if maxPendingHandshakes / 2 ≤ st.pendingHs.size then ∅ else st.pendingHs
    { st with pendingHs := pendingHs.insert t (.negotiated xSecret kem512 kem768 localSuites) }

/-- The offer `initiate_handshake` sends when the handshake is negotiated. -/
def negotiatedOfferPdu (cfg : NodeConfig) (P : Primitives C) (xSecret : C.XSecret)
    (kem512 : C.KemSecret) (kem768 : P.Kem768Secret) : Option Bytes :=
  buildNegotiatedHandshakePdu localSuites cfg.identityPk cfg.pqCommitment cfg.sign
    ⟨C.xPublic xSecret, P.length_xPublic xSecret⟩
    [(x25519MlKem768V3, P.kem768Public kem768), (x25519MlKem512V2, C.kemPublic kem512)]

/-- The symbolic instance: a signature is the identity of its signer, twice, and the
reputation of a peer is whether it is on a list. -/
def Primitives.symbolic : Primitives .symbolicShares where
  Kem768Secret := Bytes
  Reputation := List String
  verifyPeerSignature pk _ signature := signature.toList = pk.toList ++ pk.toList
  length_xPublic s := s.toList_length
  kem768Public := id
  kyber768Encapsulate coins pk := some (coins, (pk, coins))
  kyber768Decapsulate sk ct := some (sk, ct)
  deriveHybridMasterKeyWithSuite suite dh kem psk := .handshake suite dh kem psk []
  deriveHybridMasterKeyWithTranscript suite dh kem psk xi xr ct pqi pqr :=
    .handshake suite dh kem psk [xi.toList, xr.toList, ct, pqi.toList, pqr.toList]
  isByzantine flagged _ fp := flagged.contains fp
  recordInteraction flagged _ _ _ := flagged

end Vantablack.Handshake
