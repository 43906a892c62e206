import Vantablack.Vpn.Datagram
import Vantablack.Vpn.Lease

/-!
The VPN hub, `VpnHub` of `net/vpn/hub.rs`: what handshakes, goodbyes and tunnel datagrams do to its
tables, and how it seals what goes back to a client. The UDP flows and the TCP stack behind the hub
are left out; of the routing of an inner packet the lease is kept, and what is queued for a client
because of it is a step of its own.
-/

namespace Vantablack.Vpn

open Lib Layers Receive

variable {K : Type}

structure ClientSession (K : Type) where
  masterKey : K
  sessionHash : Octets 4
  endpoint : SocketAddr

structure VpnHub (K : Type) where
  allowedFingerprints : List String
  leases : LeaseTable
  sessions : Table String (ClientSession K)
  ingress : VpnIngress
  ingressEpochs : Table String ℕ
  txCounters : Table String ℕ
  /-- The inner packets waiting for their clients. -/
  egress : List (String × Bytes)

structure EgressUnit where
  fingerprint : String
  sessionHash : Octets 4
  endpoint : SocketAddr
  wire : Bytes

namespace VpnHub

def start (allowedFingerprints : List String) : VpnHub K where
  allowedFingerprints := allowedFingerprints
  leases := .new
  sessions := ∅
  ingress := .new
  ingressEpochs := ∅
  txCounters := ∅
  egress := []

def authorized (h : VpnHub K) (fp : String) : Bool :=
  h.allowedFingerprints.any fun a => a == fp || a == "any" || a == "*"

def onHandshake (h : VpnHub K) (now : ℕ) (fp : String) (endpoint : SocketAddr) : VpnHub K :=
  if !h.authorized fp then h
  else
    let leases := (h.leases.leaseFor now fp).2
    if fp ∈ leases.byFp then
      { h with
        leases := leases.rotateEpoch now fp endpoint
        ingress := h.ingress.evict fp
        ingressEpochs := h.ingressEpochs.erase fp
        sessions := h.sessions.erase fp
        txCounters := h.txCounters.erase fp }
    else { h with leases := leases }

def onDisconnect (h : VpnHub K) (fp : String) : VpnHub K :=
  { h with
    leases := h.leases.evict fp
    ingress := h.ingress.evict fp
    ingressEpochs := h.ingressEpochs.erase fp
    sessions := h.sessions.erase fp
    txCounters := h.txCounters.erase fp }

/-- What `route_inner` does to the leases: the source address of the packet is a hint. -/
def routeInner (leases : LeaseTable) (now : ℕ) (fp : String) (pkt : Bytes) : LeaseTable :=
  if pkt.length < 20 ∨ (pkt.headD 0).toNat / 16 ≠ 4 then leases
  else leases.leaseForHint now fp (Block.zeroPadded 4 ((pkt.drop 12).take 4))

/-- The counter as `handle_tunnel_payload` reads it: four bytes. -/
def headerCtr (payload : Bytes) : ℕ :=
  fromBeBytes ((payload.drop 4).take 4)

/-- The hub after an accepted datagram, with what the leases made of it. Nothing depends on whether
they report it as acceptable. -/
def onAccepted (h : VpnHub K) (now : ℕ) (fp : String) (payload : Bytes) (src : SocketAddr)
    (ipPacket : Bytes) : AnchorEvent × VpnHub K :=
  let epoch := wireEpoch payload
  let h :=
    if h.ingressEpochs.lookup fp ≠ some epoch then
      { h with
        ingressEpochs := h.ingressEpochs.insert fp epoch
        leases := h.leases.adoptEpoch now fp epoch src
        ingress := h.ingress.retainEpoch fp epoch }
    else h
  let ((_, event), leases) := h.leases.observeTunnelPacket now fp epoch (headerCtr payload) src
  (event, { h with leases := routeInner leases now fp ipPacket })

/-- The key and the session hash are those of the session the datagram came in on. The outcome is
`none` for a datagram that is not opened. -/
def handleTunnelPayload (A : TunnelCipher K) (h : VpnHub K) (now : ℕ) (fp : String) (masterKey : K)
    (sessionHash : Octets 4) (payload : Bytes) (src : SocketAddr) :
    Option OpenOutcome × AnchorEvent × VpnHub K :=
  if payload.length < tunnelHdrLen + 16 then (none, .noChange, h)
  else if !h.authorized fp then (none, .noChange, h)
  else
    let h :=
      { h with
        sessions := h.sessions.insert fp
          { masterKey := masterKey, sessionHash := sessionHash, endpoint := src } }
    let epoch := wireEpoch payload
    if (h.ingressEpochs.lookup fp).any (epoch < ·) then (none, .noChange, h)
    else
      let (outcome, ingress) := h.ingress.openWire A now masterKey fp epoch payload
      let h := { h with ingress := ingress }
      match outcome with
      | .accepted ipPacket _ =>
          let (event, h) := h.onAccepted now fp payload src ipPacket
          (some outcome, event, h)
      | _ => (some outcome, .noChange, h)

/-- The next counter to a client; it skips 0. -/
def nextCtr (slot : ℕ) : ℕ :=
  if (slot + 1) % 2 ^ 64 = 0 then 1 else slot + 1

def sealForClient (A : TunnelCipher K) (h : VpnHub K) (randSeg : Octets 8) (fp : String)
    (ipPacket : Bytes) : Option Bytes × VpnHub K :=
  match h.sessions.lookup fp with
  | none => (none, h)
  | some info =>
      let epoch := (h.ingressEpochs.lookup fp).getD 0
      let ctr := nextCtr ((h.txCounters.lookup fp).getD 0)
      (some (sealDatagram A info.masterKey epoch ctr randSeg ipPacket),
        { h with txCounters := h.txCounters.insert fp ctr })

def egressCapacity : ℕ := 4096

/-- `enqueue_to_client`: what does not fit is dropped. -/
def enqueueToClient (h : VpnHub K) (fp : String) (ipPacket : Bytes) : VpnHub K :=
  if h.egress.length < egressCapacity then { h with egress := h.egress ++ [(fp, ipPacket)] } else h

/-- `poll_egress` on a queue: packets for clients without a session are dropped. -/
def pollQueue (A : TunnelCipher K) (randSeg : Octets 8) :
    List (String × Bytes) → VpnHub K → Option EgressUnit × VpnHub K
  | [], h => (none, { h with egress := [] })
  | (fp, ipPacket) :: rest, h =>
      match h.sessions.lookup fp, (h.sealForClient A randSeg fp ipPacket) with
      | some info, (some wire, h) =>
          (some { fingerprint := fp, sessionHash := info.sessionHash, endpoint := info.endpoint
                  wire := wire }, { h with egress := rest })
      | _, (_, h) => pollQueue A randSeg rest h

def pollEgress (A : TunnelCipher K) (h : VpnHub K) (randSeg : Octets 8) :
    Option EgressUnit × VpnHub K :=
  pollQueue A randSeg h.egress h

variable {h : VpnHub K}

theorem endpoint_of_pollEgress {A : TunnelCipher K} {h' : VpnHub K} {randSeg : Octets 8}
    {u : EgressUnit} (hpoll : h.pollEgress A randSeg = (some u, h')) :
    ∃ info, h.sessions.lookup u.fingerprint = some info ∧ u.endpoint = info.endpoint := by
  have hqueue : ∀ (l : List (String × Bytes)) (g : VpnHub K), g.sessions = h.sessions →
      pollQueue A randSeg l g = (some u, h') →
      ∃ info, h.sessions.lookup u.fingerprint = some info ∧ u.endpoint = info.endpoint := by
    intro l
    induction l with
    | nil =>
        intro g _ hg
        cases hg
    | cons item rest ih =>
        obtain ⟨fp, ipPacket⟩ := item
        intro g hsessions hg
        rw [pollQueue] at hg
        cases hinfo : g.sessions.lookup fp with
        | none =>
            simp only [hinfo, sealForClient] at hg
            exact ih g hsessions hg
        | some info =>
            simp only [hinfo, sealForClient] at hg
            cases hg
            exact ⟨info, by rw [← hsessions, hinfo], rfl⟩
  exact hqueue h.egress h rfl hpoll

/-! ### What becomes of a datagram -/

/-- What a datagram that gets past the allowlist does first. -/
def noteSession (h : VpnHub K) (fp : String) (masterKey : K) (sessionHash : Octets 4)
    (src : SocketAddr) : VpnHub K :=
  { h with
    sessions := h.sessions.insert fp
      { masterKey := masterKey, sessionHash := sessionHash, endpoint := src } }

variable (A : TunnelCipher K) {fp : String} {payload : Bytes}

theorem handleTunnelPayload_dropped
    (hdrop : payload.length < tunnelHdrLen + 16 ∨ h.authorized fp = false) (now : ℕ) (masterKey : K)
    (sessionHash : Octets 4) (src : SocketAddr) :
    h.handleTunnelPayload A now fp masterKey sessionHash payload src = (none, .noChange, h) := by
  unfold handleTunnelPayload
  rcases hdrop with hlen | hauth
  · rw [if_pos hlen]
  · rw [hauth, Bool.not_false, if_pos rfl, ite_self]

theorem handleTunnelPayload_cases (hlen : ¬ payload.length < tunnelHdrLen + 16)
    (hauth : h.authorized fp = true) (now : ℕ) (masterKey : K) (sessionHash : Octets 4)
    (src : SocketAddr) :
    (∃ outcome ingress, h.handleTunnelPayload A now fp masterKey sessionHash payload src =
        (outcome, .noChange,
          { h.noteSession fp masterKey sessionHash src with ingress := ingress }) ∧
      outcome.any OpenOutcome.isAccepted = false ∧
      ((∃ e, h.ingressEpochs.lookup fp = some e ∧ wireEpoch payload < e) ∨
        (h.ingress.openWire A now masterKey fp (wireEpoch payload) payload).1.isAccepted = false)) ∨
    ∃ ipPacket advanced ingress,
      (∀ e, h.ingressEpochs.lookup fp = some e → e ≤ wireEpoch payload) ∧
      h.ingress.openWire A now masterKey fp (wireEpoch payload) payload =
        (.accepted ipPacket advanced, ingress) ∧
      h.handleTunnelPayload A now fp masterKey sessionHash payload src =
        (some (.accepted ipPacket advanced),
          { h.noteSession fp masterKey sessionHash src with ingress := ingress }.onAccepted now fp
            payload src ipPacket) := by
  rw [handleTunnelPayload, if_neg hlen, hauth, Bool.not_true, if_neg Bool.false_ne_true]
  dsimp only
  split
  · rename_i hstale
    obtain ⟨e, he, hlt⟩ := (Option.any_eq_true _ _).mp hstale
    exact Or.inl ⟨none, h.ingress, rfl, rfl, Or.inl ⟨e, he, of_decide_eq_true hlt⟩⟩
  · rename_i hcurrent
    have hle : ∀ e, h.ingressEpochs.lookup fp = some e → e ≤ wireEpoch payload := by
      intro e he
      rw [he] at hcurrent
      simpa using hcurrent
    cases hopen : h.ingress.openWire A now masterKey fp (wireEpoch payload) payload with
    | mk outcome ingress =>
        cases outcome with
        | accepted ipPacket advanced =>
            exact Or.inr ⟨ipPacket, advanced, ingress, hle, rfl, rfl⟩
        | replay => exact Or.inl ⟨_, ingress, rfl, rfl, Or.inr rfl⟩
        | authFail => exact Or.inl ⟨_, ingress, rfl, rfl, Or.inr rfl⟩

theorem isAccepted_handleTunnelPayload (hlen : ¬ payload.length < tunnelHdrLen + 16) (now : ℕ)
    (masterKey : K) (sessionHash : Octets 4) (src : SocketAddr) :
    (h.handleTunnelPayload A now fp masterKey sessionHash payload src).1.any
        OpenOutcome.isAccepted = true ↔
      h.authorized fp = true ∧
        (∀ e, h.ingressEpochs.lookup fp = some e → e ≤ wireEpoch payload) ∧
        (h.ingress.openWire A now masterKey fp (wireEpoch payload) payload).1.isAccepted = true := by
  cases hauth : h.authorized fp with
  | false =>
      rw [handleTunnelPayload_dropped A (Or.inr hauth)]
      simp
  | true =>
      rcases handleTunnelPayload_cases A hlen hauth now masterKey sessionHash src with
        ⟨outcome, ingress, hresult, hnot, hwhy⟩ | ⟨ipPacket, advanced, ingress, hle, hopen, hresult⟩
      · rw [hresult, hnot]
        refine ⟨fun h => absurd h Bool.false_ne_true, ?_⟩
        rintro ⟨-, hle, hopen⟩
        rcases hwhy with ⟨e, he, hlt⟩ | hrefused
        · exact absurd (hle e he) (not_le.mpr hlt)
        · rw [hrefused] at hopen
          cases hopen
      · rw [hresult, hopen]
        exact ⟨fun _ => ⟨rfl, hle, rfl⟩, fun _ => rfl⟩

theorem ingress_onAccepted (h : VpnHub K) (now : ℕ) (fp : String) (payload : Bytes)
    (src : SocketAddr) (ipPacket : Bytes) :
    (h.onAccepted now fp payload src ipPacket).2.ingress.rx.lookup (fp, wireEpoch payload) =
        h.ingress.rx.lookup (fp, wireEpoch payload) ∧
      (∀ key, h.ingress.rx.lookup key = none →
        (h.onAccepted now fp payload src ipPacket).2.ingress.rx.lookup key = none) ∧
      (h.onAccepted now fp payload src ipPacket).2.ingressEpochs.lookup fp =
        some (wireEpoch payload) ∧
      (h.onAccepted now fp payload src ipPacket).2.allowedFingerprints =
        h.allowedFingerprints := by
  unfold onAccepted
  dsimp only
  by_cases hepoch : h.ingressEpochs.lookup fp ≠ some (wireEpoch payload)
  · rw [if_pos hepoch]
    exact ⟨h.ingress.lookup_retainEpoch_self fp _,
      fun _ hnone => VpnIngress.lookup_retainEpoch_of_none hnone fp _, AList.lookup_insert _, rfl⟩
  · rw [if_neg hepoch]
    exact ⟨rfl, fun _ hnone => hnone, not_not.mp hepoch, rfl⟩

theorem txCounters_handleTunnelPayload (h : VpnHub K) (now : ℕ) (fp : String) (masterKey : K)
    (sessionHash : Octets 4) (payload : Bytes) (src : SocketAddr) :
    (h.handleTunnelPayload A now fp masterKey sessionHash payload src).2.2.txCounters =
      h.txCounters := by
  unfold handleTunnelPayload onAccepted
  dsimp only
  repeat' split
  all_goals rfl

theorem lookup_handleTunnelPayload {A : TunnelCipher K} {now : ℕ} {masterKey : K}
    {sessionHash : Octets 4} {src : SocketAddr} {e : ℕ}
    (he : (h.handleTunnelPayload A now fp masterKey sessionHash payload src).2.2.ingressEpochs.lookup
      fp = some e) : h.ingressEpochs.lookup fp = some e ∨ e = wireEpoch payload := by
  unfold handleTunnelPayload onAccepted at he
  dsimp only at he
  repeat' split at he
  all_goals first
    | exact Or.inl he
    | exact Or.inr (Option.some.inj ((AList.lookup_insert _).symm.trans he)).symm

end VpnHub

end Vantablack.Vpn
