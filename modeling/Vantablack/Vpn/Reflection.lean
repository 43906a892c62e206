import Vantablack.Lib.Runs
import Vantablack.Vpn.Client
import Vantablack.Vpn.Hub

/-!
Tunnel datagrams that come back to the side that sealed them. Both directions use one key and one
nonce layout, and the epochs and counters of both start alike, so that only the replay window of the
receiving direction can turn such a datagram down.
-/

namespace Vantablack.Vpn

open Lib Layers Receive

variable {K : Type}

inductive Side where
  | client
  | hub
  deriving DecidableEq

/-- A datagram with what it was sealed from. -/
structure Sealed (K : Type) where
  side : Side
  key : K
  epoch : ℕ
  ctr : ℕ
  randSeg : Octets 8
  ipPacket : Bytes

def Sealed.wire (A : TunnelCipher K) (d : Sealed K) : Bytes :=
  sealDatagram A d.key d.epoch d.ctr d.randSeg d.ipPacket

/-- A client and its hub, the key of their session, and the datagrams either has sealed. -/
structure Tunnel (K : Type) where
  client : ClientState K
  hub : VpnHub K
  key : K
  seen : List (Sealed K)

/-- `toClient` and `toHub` inject a datagram that was seen. -/
inductive TunnelAct (K : Type) where
  | clientSeals (randSeg : Octets 8) (ipPacket : Bytes)
  | hubSeals (randSeg : Octets 8) (ipPacket : Bytes)
  | toClient (now n : ℕ)
  | toHub (now n : ℕ) (sessionHash : Octets 4) (src : SocketAddr)
  | rotate
  | rekey (k : K)
  | handshake (now : ℕ) (endpoint : SocketAddr)
  | disconnect

namespace Tunnel

def start (hubFp : String) (allowedFingerprints : List String) (key : K) : Tunnel K where
  client := .new hubFp key
  hub := .start allowedFingerprints
  key := key
  seen := []

/-- What `seal_from_tun` seals. -/
def clientSealed (w : Tunnel K) (randSeg : Octets 8) (ipPacket : Bytes) : Sealed K :=
  { side := .client, key := w.client.key, epoch := w.client.epoch, ctr := w.client.txCounter
    randSeg := randSeg, ipPacket := ipPacket }

def hubSealed (w : Tunnel K) (fp : String) (info : ClientSession K) (randSeg : Octets 8)
    (ipPacket : Bytes) : Sealed K :=
  { side := .hub, key := info.masterKey, epoch := (w.hub.ingressEpochs.lookup fp).getD 0
    ctr := VpnHub.nextCtr ((w.hub.txCounters.lookup fp).getD 0), randSeg := randSeg
    ipPacket := ipPacket }

/-- `fp` is the client's fingerprint. -/
def step (A : TunnelCipher K) (fp : String) (w : Tunnel K) : TunnelAct K → Tunnel K
  | .clientSeals randSeg ipPacket =>
      match w.client.sealFromTun A randSeg ipPacket with
      | (none, _) => w
      | (some _, client) =>
          { w with client := client, seen := w.seen ++ [w.clientSealed randSeg ipPacket] }
  | .hubSeals randSeg ipPacket =>
      match w.hub.sessions.lookup fp with
      | none => w
      | some info =>
          { w with
            hub := (w.hub.sealForClient A randSeg fp ipPacket).2
            seen := w.seen ++ [w.hubSealed fp info randSeg ipPacket] }
  | .toClient now n =>
      match w.seen[n]? with
      | none => w
      | some d => { w with client := (w.client.openToTun A now (d.wire A)).2 }
  | .toHub now n sessionHash src =>
      match w.seen[n]? with
      | none => w
      | some d =>
          { w with
            hub := (w.hub.handleTunnelPayload A now fp w.key sessionHash (d.wire A) src).2.2 }
  | .rotate => { w with client := w.client.rotateEpoch }
  | .rekey k => { w with client := w.client.setKey k, key := k }
  | .handshake now endpoint => { w with hub := w.hub.onHandshake now fp endpoint }
  | .disconnect => { w with hub := w.hub.onDisconnect fp }

/-- No datagram is accepted by the side that sealed it. -/
def NotReflected (A : TunnelCipher K) (fp : String) (w : Tunnel K) : TunnelAct K → Prop
  | .toClient now n =>
      ∀ d ∈ w.seen[n]?, d.side = .client →
        (w.client.openToTun A now (d.wire A)).1.isAccepted = false
  | .toHub now n sessionHash src =>
      ∀ d ∈ w.seen[n]?, d.side = .hub →
        (w.hub.handleTunnelPayload A now fp w.key sessionHash (d.wire A) src).1.any
          OpenOutcome.isAccepted = false
  | _ => True

/-- The window has timed out, or has no room for the counter. -/
def Closed (s : VpnIngress) (now : ℕ) (fp : String) (epoch ctr : ℕ) : Prop :=
  (s.window now fp epoch).guard.isValid now = false ∨ (s.window now fp epoch).guard.Spent ctr

/-- A side is handed back its own datagrams only after its key or epoch has changed, or when its
window is closed to them. -/
def Outdated (fp : String) (w : Tunnel K) : TunnelAct K → Prop
  | .toClient now n =>
      ∀ d ∈ w.seen[n]?, d.side = .client →
        w.client.key ≠ d.key ∨ w.client.epoch ≠ d.epoch ∨
          Closed w.client.ingress now w.client.fingerprint d.epoch d.ctr
  | .toHub now n _ _ =>
      ∀ d ∈ w.seen[n]?, d.side = .hub →
        w.hub.authorized fp = false ∨ w.key ≠ d.key ∨
          (∃ e ∈ w.hub.ingressEpochs.lookup fp, d.epoch < e) ∨
          Closed w.hub.ingress now fp d.epoch d.ctr
  | _ => True

instance (A : TunnelCipher K) (fp : String) (w : Tunnel K) (act : TunnelAct K) :
    Decidable (w.NotReflected A fp act) :=
  match act with
  | .toClient _ n => inferInstanceAs (Decidable (∀ d ∈ w.seen[n]?, _ → _))
  | .toHub _ n _ _ => inferInstanceAs (Decidable (∀ d ∈ w.seen[n]?, _ → _))
  | .clientSeals _ _ | .hubSeals _ _ | .rotate | .rekey _ | .handshake _ _ | .disconnect =>
      inferInstanceAs (Decidable True)

instance (s : VpnIngress) (now : ℕ) (fp : String) (epoch ctr : ℕ) :
    Decidable (Closed s now fp epoch ctr) :=
  inferInstanceAs (Decidable (_ ∨ _))

instance [DecidableEq K] (fp : String) (w : Tunnel K) (act : TunnelAct K) :
    Decidable (w.Outdated fp act) :=
  match act with
  | .toClient _ n => inferInstanceAs (Decidable (∀ d ∈ w.seen[n]?, _ → _))
  | .toHub _ n _ _ => inferInstanceAs (Decidable (∀ d ∈ w.seen[n]?, _ → _))
  | .clientSeals _ _ | .hubSeals _ _ | .rotate | .rekey _ | .handshake _ _ | .disconnect =>
      inferInstanceAs (Decidable True)

/-! ### Bounds -/

/-- Epochs and counters fit their fields. -/
structure Bounded (fp : String) (w : Tunnel K) : Prop where
  client : w.client.Bounded
  epochs : ∀ e, w.hub.ingressEpochs.lookup fp = some e → e < 2 ^ 32
  ctrs : ∀ c, w.hub.txCounters.lookup fp = some c → c < 2 ^ 64
  seen : ∀ d ∈ w.seen, d.epoch < 2 ^ 32 ∧ d.ctr < 2 ^ 64

theorem wireEpoch_lt (wire : Bytes) : wireEpoch wire < 2 ^ 32 := by
  refine (fromBeBytes_lt _).trans_le ?_
  exact Nat.pow_le_pow_right (by decide) (List.length_take_le 4 wire)

theorem nextCtr_lt {slot : ℕ} (h : slot < 2 ^ 64) : VpnHub.nextCtr slot < 2 ^ 64 := by
  unfold VpnHub.nextCtr
  split
  · exact Nat.one_lt_two_pow (by decide)
  · omega

theorem getD_lt {o : Option ℕ} {n : ℕ} (h : ∀ x, o = some x → x < n) (hn : 0 < n) :
    o.getD 0 < n := by
  cases o with
  | none => exact hn
  | some x => exact h x rfl

theorem bounded_start (fp hubFp : String) (allowedFingerprints : List String) (key : K) :
    (start hubFp allowedFingerprints key).Bounded fp where
  client := ClientState.bounded_new hubFp key
  epochs e he := by cases he
  ctrs c hc := by cases hc
  seen d hd := absurd hd List.not_mem_nil

theorem Bounded.append {fp : String} {w : Tunnel K} (h : w.Bounded fp) {d : Sealed K}
    (hd : d.epoch < 2 ^ 32 ∧ d.ctr < 2 ^ 64) :
    ∀ d' ∈ w.seen ++ [d], d'.epoch < 2 ^ 32 ∧ d'.ctr < 2 ^ 64 := by
  intro d' hd'
  rcases List.mem_append.mp hd' with hold | hnew
  · exact h.seen d' hold
  · rw [List.mem_singleton.mp hnew]
    exact hd

theorem Bounded.step {fp : String} {w : Tunnel K} (h : w.Bounded fp) (A : TunnelCipher K)
    (act : TunnelAct K) : (w.step A fp act).Bounded fp := by
  cases act with
  | clientSeals randSeg ipPacket =>
      have hclient := h.client.sealFromTun A randSeg ipPacket
      unfold Tunnel.step
      dsimp only
      split
      · exact h
      · rename_i wire client hsealed
        rw [hsealed] at hclient
        exact ⟨hclient, h.epochs, h.ctrs, h.append ⟨h.client.epoch_lt, h.client.txCounter_lt⟩⟩
  | hubSeals randSeg ipPacket =>
      unfold Tunnel.step
      dsimp only
      split
      · exact h
      · rename_i info hinfo
        have hctr := nextCtr_lt (getD_lt h.ctrs (by decide))
        refine ⟨h.client, ?_, ?_, h.append ⟨getD_lt h.epochs (by decide), hctr⟩⟩
        · rw [VpnHub.sealForClient, hinfo]
          exact h.epochs
        · rw [VpnHub.sealForClient, hinfo]
          intro c hc
          rw [← Option.some.inj ((AList.lookup_insert _).symm.trans hc)]
          exact hctr
  | toClient now n =>
      unfold Tunnel.step
      dsimp only
      split
      · exact h
      · exact ⟨h.client.openToTun A now _, h.epochs, h.ctrs, h.seen⟩
  | toHub now n sessionHash src =>
      unfold Tunnel.step
      dsimp only
      split
      · exact h
      · refine ⟨h.client, ?_, ?_, h.seen⟩
        · intro e he
          rcases VpnHub.lookup_handleTunnelPayload he with hold | rfl
          · exact h.epochs e hold
          · exact wireEpoch_lt _
        · rw [VpnHub.txCounters_handleTunnelPayload]
          exact h.ctrs
  | rotate => exact ⟨h.client.rotateEpoch, h.epochs, h.ctrs, h.seen⟩
  | rekey k => exact ⟨h.client.setKey k, h.epochs, h.ctrs, h.seen⟩
  | handshake now endpoint =>
      unfold Tunnel.step VpnHub.onHandshake
      dsimp only
      split
      · exact h
      · split
        · exact ⟨h.client, fun e he => absurd rfl (Table.lookup_erase_eq_some.mp he).1,
            fun c hc => absurd rfl (Table.lookup_erase_eq_some.mp hc).1, h.seen⟩
        · exact ⟨h.client, h.epochs, h.ctrs, h.seen⟩
  | disconnect =>
      exact ⟨h.client, fun e he => absurd rfl (Table.lookup_erase_eq_some.mp he).1,
        fun c hc => absurd rfl (Table.lookup_erase_eq_some.mp hc).1, h.seen⟩

/-! ### When a datagram comes back -/

theorem closed_iff (s : VpnIngress) (now : ℕ) (fp : String) (epoch ctr : ℕ) :
    Closed s now fp epoch ctr ↔
      ¬ ((s.window now fp epoch).guard.checkAndUpdate now ctr).1 = true := by
  rw [Bool.not_eq_true, SessionGuardU64.checkAndUpdate_eq_false_iff]
  rfl

section

variable {A : TunnelCipher K} (hA : A.Lawful) (hbinds : A.BindsKey) {d : Sealed K}
  (hepoch : d.epoch < 2 ^ 32) (hctr : d.ctr < 2 ^ 64)

include hA hbinds hepoch hctr

theorem refused_by_client_iff (client : ClientState K) (now : ℕ) :
    (client.openToTun A now (d.wire A)).1.isAccepted = false ↔
      client.key ≠ d.key ∨ client.epoch ≠ d.epoch ∨
        Closed client.ingress now client.fingerprint d.epoch d.ctr := by
  have haccepted := VpnIngress.isAccepted_sealDatagram hA hbinds hepoch hctr client.key d.key
    d.randSeg d.ipPacket client.ingress now client.fingerprint client.epoch
  rw [ClientState.fst_openToTun, ← Bool.not_eq_true, Sealed.wire, haccepted, not_and_or, not_and_or,
    closed_iff, ne_comm (a := client.epoch)]

theorem refused_by_hub_iff (hub : VpnHub K) (now : ℕ) (fp : String) (key : K)
    (sessionHash : Octets 4) (src : SocketAddr) :
    (hub.handleTunnelPayload A now fp key sessionHash (d.wire A) src).1.any
        OpenOutcome.isAccepted = false ↔
      hub.authorized fp = false ∨ key ≠ d.key ∨
        (∃ e ∈ hub.ingressEpochs.lookup fp, d.epoch < e) ∨
        Closed hub.ingress now fp d.epoch d.ctr := by
  have hlen : ¬ (d.wire A).length < tunnelHdrLen + 16 :=
    not_length_sealDatagram_lt A d.key d.randSeg d.ipPacket hA d.epoch d.ctr
  have hwire : wireEpoch (d.wire A) = d.epoch :=
    wireEpoch_sealDatagram A d.key d.randSeg d.ipPacket hepoch d.ctr
  have hopen := (VpnIngress.isAccepted_sealDatagram hA hbinds hepoch hctr key d.key d.randSeg
    d.ipPacket hub.ingress now fp d.epoch).trans (and_congr_right fun _ => and_iff_right rfl)
  have haccepted : (hub.handleTunnelPayload A now fp key sessionHash (d.wire A) src).1.any
      OpenOutcome.isAccepted = true ↔ _ :=
    VpnHub.isAccepted_handleTunnelPayload A hlen now key sessionHash src
  rw [hwire] at haccepted
  have hstale : (¬ ∀ e, hub.ingressEpochs.lookup fp = some e → e ≤ d.epoch) ↔
      ∃ e ∈ hub.ingressEpochs.lookup fp, d.epoch < e := by
    simp only [not_forall, not_le, exists_prop]
    rfl
  rw [← Bool.not_eq_true, haccepted, Sealed.wire, hopen, not_and_or, not_and_or, not_and_or,
    hstale, closed_iff, Bool.not_eq_true]
  exact or_congr_right or_left_comm

end

theorem notReflected_iff {A : TunnelCipher K} (hA : A.Lawful) (hbinds : A.BindsKey) {fp : String}
    {w : Tunnel K} (h : w.Bounded fp) (act : TunnelAct K) :
    w.NotReflected A fp act ↔ w.Outdated fp act := by
  cases act with
  | toClient now n =>
      refine forall₃_congr fun d hd _ => ?_
      obtain ⟨hepoch, hctr⟩ := h.seen d (List.mem_of_getElem? hd)
      exact refused_by_client_iff hA hbinds hepoch hctr w.client now
  | toHub now n sessionHash src =>
      refine forall₃_congr fun d hd _ => ?_
      obtain ⟨hepoch, hctr⟩ := h.seen d (List.mem_of_getElem? hd)
      exact refused_by_hub_iff hA hbinds hepoch hctr w.hub now fp w.key sessionHash src
  | clientSeals | hubSeals | rotate | rekey | handshake | disconnect => exact Iff.rfl

/-- In every run of a client and a hub with any injections, no datagram is accepted by the side that
sealed it exactly when none is handed back to it before its key or epoch changes, unless the window
is closed to it. -/
theorem never_reflected_iff {A : TunnelCipher K} (hA : A.Lawful) (hbinds : A.BindsKey)
    (fp hubFp : String) (allowedFingerprints : List String) (key : K) (acts : List (TunnelAct K)) :
    Always (step A fp) (NotReflected A fp) (start hubFp allowedFingerprints key) acts ↔
      Always (step A fp) (Outdated fp) (start hubFp allowedFingerprints key) acts :=
  Always.congr_of_invariant (Bounded fp) (fun _ act h => h.step A act)
    (fun _ act h => notReflected_iff hA hbinds h act)
    (bounded_start fp hubFp allowedFingerprints key) acts

def zeroSeg : Octets 8 := List.Vector.replicate 8 0

def zeroHash : Octets 4 := List.Vector.replicate 4 0

def hubAndPhone : Tunnel UInt8 := start "hub" ["phone"] 7

/-- A packet each way, and then the first datagram again, at its sealer. -/
def pingPong : List (TunnelAct UInt8) :=
  [.clientSeals zeroSeg [1], .toHub 1 0 zeroHash unspecified, .hubSeals zeroSeg [2], .toClient 2 1,
    .toClient 3 0]

theorem pingPong_not_reflected :
    Always (step .labelled "phone") (NotReflected .labelled "phone") hubAndPhone pingPong :=
  (never_reflected_iff (TunnelCipher.tagging_lawful _) TunnelCipher.labelled_bindsKey "phone" "hub"
    ["phone"] 7 pingPong).mpr (by decide +kernel)

/-- The client takes its own first datagram for one of the hub, and the hub its own second one for
one of the client. -/
theorem own_datagrams_accepted :
    ¬ Always (step .labelled "phone") (NotReflected .labelled "phone") hubAndPhone
        [.clientSeals zeroSeg [1], .toClient 1 0] ∧
      ¬ Always (step .labelled "phone") (NotReflected .labelled "phone") hubAndPhone
        [.clientSeals zeroSeg [1], .toHub 1 0 zeroHash unspecified, .hubSeals zeroSeg [2],
          .hubSeals zeroSeg [3], .toHub 2 2 zeroHash unspecified] := by
  decide +kernel

end Tunnel

end Vantablack.Vpn
