import Vantablack.Vpn.ReturnPath

/-!
The decay of epochs. The lease of a client says when its epoch expires, and `observe_tunnel_packet`
reports every later packet of that epoch as not acceptable. The hub drops that report and routes the
packet, so that an epoch is dead only for clients that keep quiet after its time.
-/

namespace Vantablack.Vpn

open Lib Layers Receive

variable {K : Type}

theorem LeaseTable.observeTunnelPacket_acceptable {t : LeaseTable} {fp : String} {l : Lease}
    (hl : t.byFp.lookup fp = some l) (now epoch ctr : ℕ) (src : SocketAddr) :
    (t.observeTunnelPacket now fp epoch ctr src).1.1 = true ↔
      l.epoch = epoch ∧ now < l.epochTtl := by
  rw [(lookup_observeTunnelPacket hl now epoch ctr src).1, observe]
  by_cases hepoch : l.epoch ≠ epoch
  · rw [if_pos hepoch]
    exact iff_of_false Bool.false_ne_true fun h => hepoch h.1
  · rw [if_neg hepoch]
    by_cases httl : l.epochTtl ≤ now
    · rw [if_pos httl]
      exact iff_of_false Bool.false_ne_true fun h => not_lt.mpr httl h.2
    · rw [if_neg httl]
      refine iff_of_true ?_ ⟨not_not.mp hepoch, not_le.mp httl⟩
      -- all that follows the two checks reports the packet as acceptable
      dsimp only
      repeat' split
      all_goals rfl

namespace VpnHub

open LeaseTable

/-- The leases as `observe_tunnel_packet` finds them: a new epoch is adopted before. -/
def leasesObserved (h : VpnHub K) (now : ℕ) (fp : String) (payload : Bytes) (src : SocketAddr) :
    LeaseTable :=
  if h.ingressEpochs.lookup fp ≠ some (wireEpoch payload) then
    h.leases.adoptEpoch now fp (wireEpoch payload) src
  else h.leases

theorem leases_onAccepted (h : VpnHub K) (now : ℕ) (fp : String) (payload : Bytes)
    (src : SocketAddr) (ipPacket : Bytes) :
    (h.onAccepted now fp payload src ipPacket).2.leases =
      routeInner ((h.leasesObserved now fp payload src).observeTunnelPacket now fp
        (wireEpoch payload) (headerCtr payload) src).2 now fp ipPacket := by
  unfold onAccepted leasesObserved
  dsimp only
  split <;> rfl

theorem lookup_onAccepted {h : VpnHub K} {now : ℕ} {fp : String} {payload : Bytes}
    {src : SocketAddr} {l : Lease}
    (hl : (h.leasesObserved now fp payload src).byFp.lookup fp = some l) (ipPacket : Bytes) :
    ∃ l', (h.onAccepted now fp payload src ipPacket).2.leases.byFp.lookup fp = some l' ∧
      l'.epoch = l.epoch ∧ l'.epochTtl = l.epochTtl := by
  rw [leases_onAccepted]
  obtain ⟨-, hobserved⟩ := lookup_observeTunnelPacket hl now (wireEpoch payload)
    (headerCtr payload) src
  obtain ⟨ip, hrouted⟩ := lookup_routeInner hobserved now ipPacket
  exact ⟨_, hrouted, observe_epoch l now _ _ src⟩

/-- The inner packet goes to `route_inner`, and `observe_tunnel_packet` reports the packet as not
acceptable. -/
def RoutesDead (A : TunnelCipher K) (h : VpnHub K) : HubAct K → Prop
  | .payload now fp masterKey sessionHash wire src =>
      (h.handleTunnelPayload A now fp masterKey sessionHash wire src).1.any
          OpenOutcome.isAccepted = true ∧
        ((h.leasesObserved now fp wire src).observeTunnelPacket now fp (wireEpoch wire)
          (headerCtr wire) src).1.1 = false
  | _ => False

instance (A : TunnelCipher K) (h : VpnHub K) (act : HubAct K) : Decidable (h.RoutesDead A act) :=
  match act with
  | .handshake .. => inferInstanceAs (Decidable False)
  | .disconnect _ => inferInstanceAs (Decidable False)
  | .payload .. => inferInstanceAs (Decidable (_ ∧ _))
  | .enqueue .. => inferInstanceAs (Decidable False)
  | .poll _ => inferInstanceAs (Decidable False)

end VpnHub

/-- A hub, and when it adopted the epoch of each client. -/
structure Aged (K : Type) where
  hub : VpnHub K
  adoptedAt : String → Option ℕ

namespace Aged

open VpnHub

def start (allowedFingerprints : List String) : Aged K where
  hub := .start allowedFingerprints
  adoptedAt _ := none

/-- When the epoch of the datagram was adopted; if it is not the one in use, now. -/
def adoption (w : Aged K) (now : ℕ) (fp : String) (wire : Bytes) : Option ℕ :=
  if w.hub.ingressEpochs.lookup fp ≠ some (wireEpoch wire) then some now else w.adoptedAt fp

def step (A : TunnelCipher K) (w : Aged K) : HubAct K → Aged K
  | .handshake now fp endpoint => { w with hub := w.hub.onHandshake now fp endpoint }
  | .disconnect fp => { w with hub := w.hub.onDisconnect fp }
  | .payload now fp masterKey sessionHash wire src =>
      let (outcome, _, hub) := w.hub.handleTunnelPayload A now fp masterKey sessionHash wire src
      { hub := hub
        adoptedAt :=
          if outcome.any OpenOutcome.isAccepted then
            Function.update w.adoptedAt fp (w.adoption now fp wire)
          else w.adoptedAt }
  | .enqueue fp ipPacket => { w with hub := w.hub.enqueueToClient fp ipPacket }
  | .poll randSeg => { w with hub := (w.hub.pollEgress A randSeg).2 }

/-- The datagram gets past the allowlist and the epoch check, and opens. -/
def Opens (A : TunnelCipher K) (h : VpnHub K) (now : ℕ) (fp : String) (masterKey : K)
    (wire : Bytes) : Prop :=
  ¬ wire.length < tunnelHdrLen + 16 ∧ h.authorized fp = true ∧
    (∀ e ∈ h.ingressEpochs.lookup fp, e ≤ wireEpoch wire) ∧
    (h.ingress.openWire A now masterKey fp (wireEpoch wire) wire).1.isAccepted = true

/-- A datagram that opens is of a client with a lease, and comes within the time of its epoch if
that is the one in use. -/
def Timely (A : TunnelCipher K) (w : Aged K) : HubAct K → Prop
  | .payload now fp masterKey _ wire _ =>
      Opens A w.hub now fp masterKey wire →
        fp ∈ w.hub.leases.byFp ∧
          (w.hub.ingressEpochs.lookup fp = some (wireEpoch wire) →
            ∀ adopted ∈ w.adoptedAt fp, now < adopted + defaultEpochTtl)
  | _ => True

/-- A client with an adopted epoch has a lease of that epoch, whose time runs since the adoption. -/
def Dated (w : Aged K) : Prop :=
  ∀ fp e, w.hub.ingressEpochs.lookup fp = some e →
    ∃ l adopted, w.hub.leases.byFp.lookup fp = some l ∧ w.adoptedAt fp = some adopted ∧
      l.epoch = e ∧ l.epochTtl = adopted + defaultEpochTtl

theorem dated_start (allowedFingerprints : List String) :
    (start allowedFingerprints : Aged K).Dated := by
  intro fp e he
  cases he

theorem Dated.of_kept {w : Aged K} (h : w.Dated) {hub : VpnHub K}
    (hkept : hub.leases = w.hub.leases ∧ hub.sessions = w.hub.sessions ∧
      hub.ingressEpochs = w.hub.ingressEpochs) : ({ w with hub := hub } : Aged K).Dated := by
  obtain ⟨hleases, -, hepochs⟩ := hkept
  intro fp e he
  dsimp only at he ⊢
  rw [hepochs] at he
  rw [hleases]
  exact h fp e he

theorem Dated.handshake {w : Aged K} (h : w.Dated) (A : TunnelCipher K) (now : ℕ) (fp : String)
    (endpoint : SocketAddr) : (w.step A (.handshake now fp endpoint)).Dated := by
  intro fp' e he
  obtain ⟨he', hkept⟩ := onHandshake_kept (h := w.hub) he
  obtain ⟨l, adopted, hl, hrest⟩ := h fp' e he'
  exact ⟨l, adopted, (hkept l hl).1, hrest⟩

theorem Dated.disconnect {w : Aged K} (h : w.Dated) (A : TunnelCipher K) (fp : String) :
    (w.step A (.disconnect fp)).Dated := by
  intro fp' e he
  by_cases hfp : fp' = fp
  · subst hfp
    have hnone : (w.step A (.disconnect fp')).hub.ingressEpochs.lookup fp' = none :=
      AList.lookup_erase fp' _
    rw [hnone] at he
    cases he
  · have hsame : (w.step A (.disconnect fp)).hub.ingressEpochs.lookup fp' =
        w.hub.ingressEpochs.lookup fp' := AList.lookup_erase_ne hfp
    obtain ⟨l, adopted, hl, hrest⟩ := h fp' e (hsame.symm.trans he)
    exact ⟨l, adopted, (LeaseTable.lookup_evict_of_ne hfp).trans hl, hrest⟩

section

variable {A : TunnelCipher K} {w : Aged K} {now : ℕ} {fp : String} {masterKey : K}
  {sessionHash : Octets 4} {wire : Bytes} {src : SocketAddr}

theorem opens_iff (h : VpnHub K) :
    (h.handleTunnelPayload A now fp masterKey sessionHash wire src).1.any
        OpenOutcome.isAccepted = true ↔ Opens A h now fp masterKey wire := by
  by_cases hlen : wire.length < tunnelHdrLen + 16
  · rw [handleTunnelPayload_dropped A (Or.inl hlen)]
    exact iff_of_false Bool.false_ne_true fun hopens => hopens.1 hlen
  · rw [isAccepted_handleTunnelPayload A hlen, Opens, and_iff_right hlen]
    rfl

theorem Dated.observed (h : w.Dated) (hleased : fp ∈ w.hub.leases.byFp) (wire : Bytes)
    (now : ℕ) (src : SocketAddr) :
    ∃ l adopted, (w.hub.leasesObserved now fp wire src).byFp.lookup fp = some l ∧
      w.adoption now fp wire = some adopted ∧ l.epoch = wireEpoch wire ∧
      l.epochTtl = adopted + defaultEpochTtl := by
  unfold leasesObserved adoption
  by_cases hadopt : w.hub.ingressEpochs.lookup fp ≠ some (wireEpoch wire)
  · rw [if_pos hadopt, if_pos hadopt]
    obtain ⟨l, hl⟩ := Option.isSome_iff_exists.mp (AList.lookup_isSome.mpr hleased)
    exact ⟨_, now, LeaseTable.lookup_modify hl _, rfl, rfl, rfl⟩
  · rw [if_neg hadopt, if_neg hadopt]
    exact h fp _ (not_not.mp hadopt)

theorem Dated.verdict (h : w.Dated) :
    ((w.hub.leasesObserved now fp wire src).observeTunnelPacket now fp (wireEpoch wire)
        (headerCtr wire) src).1.1 = true ↔
      fp ∈ w.hub.leases.byFp ∧
        (w.hub.ingressEpochs.lookup fp = some (wireEpoch wire) →
          ∀ adopted ∈ w.adoptedAt fp, now < adopted + defaultEpochTtl) := by
  by_cases hleased : fp ∈ w.hub.leases.byFp
  · obtain ⟨l, adopted, hl, hadopted, hepoch, httl⟩ := h.observed hleased wire now src
    rw [LeaseTable.observeTunnelPacket_acceptable hl, and_iff_right hepoch, and_iff_right hleased,
      httl]
    rw [adoption] at hadopted
    split at hadopted
    · -- an epoch that is adopted now is fresh
      rename_i hadopt
      obtain rfl : now = adopted := Option.some.inj hadopted
      rw [defaultEpochTtl]
      exact iff_of_true (by omega) fun hcurrent => absurd hcurrent hadopt
    · rename_i hcurrent
      rw [hadopted]
      constructor
      · rintro hlt - _ ⟨⟩
        exact hlt
      · exact fun hlt => hlt (not_not.mp hcurrent) adopted rfl
  · have hnone : w.hub.leases.byFp.lookup fp = none := AList.lookup_eq_none.mpr hleased
    have hobserved : (w.hub.leasesObserved now fp wire src).byFp.lookup fp = none := by
      unfold leasesObserved LeaseTable.adoptEpoch LeaseTable.modify
      rw [hnone, ite_self, hnone]
    rw [LeaseTable.observeTunnelPacket, hobserved]
    exact iff_of_false Bool.false_ne_true fun hcond => hleased hcond.1

theorem Dated.not_routesDead_iff (h : w.Dated) (act : HubAct K) :
    ¬ w.hub.RoutesDead A act ↔ w.Timely A act := by
  cases act with
  | handshake now fp endpoint => exact iff_of_true id trivial
  | disconnect fp => exact iff_of_true id trivial
  | enqueue fp ipPacket => exact iff_of_true id trivial
  | poll randSeg => exact iff_of_true id trivial
  | payload now fp masterKey sessionHash wire src =>
      rw [RoutesDead, Timely, opens_iff, not_and, Bool.not_eq_false, h.verdict]

theorem Dated.accepted (h : w.Dated) (hleased : fp ∈ w.hub.leases.byFp) (ingress : VpnIngress)
    (ipPacket : Bytes) :
    ({ hub := ({ w.hub.noteSession fp masterKey sessionHash src with ingress := ingress }.onAccepted
         now fp wire src ipPacket).2
       adoptedAt := Function.update w.adoptedAt fp (w.adoption now fp wire) } : Aged K).Dated := by
  intro fp' e he
  by_cases hfp : fp' = fp
  · subst hfp
    obtain ⟨l, adopted, hl, hadopted, hepoch, httl⟩ := h.observed hleased wire now src
    obtain ⟨l', hl', hepoch', httl'⟩ := lookup_onAccepted
      (h := { w.hub.noteSession fp' masterKey sessionHash src with ingress := ingress }) hl ipPacket
    obtain ⟨-, -, hcurrent, -⟩ := ingress_onAccepted
      { w.hub.noteSession fp' masterKey sessionHash src with ingress := ingress } now fp' wire src
      ipPacket
    obtain rfl : wireEpoch wire = e := Option.some.inj (hcurrent.symm.trans he)
    exact ⟨l', adopted, hl', (Function.update_self _ _ _).trans hadopted, hepoch'.trans hepoch,
      httl'.trans httl⟩
  · obtain ⟨hepochs, hleases⟩ := lookup_onAccepted_of_ne hfp
      { w.hub.noteSession fp masterKey sessionHash src with ingress := ingress } now wire src ipPacket
    obtain ⟨l, adopted, hl, hadopted, hrest⟩ := h fp' e (hepochs.symm.trans he)
    exact ⟨l, adopted, hleases.trans hl, (Function.update_of_ne hfp _ _).trans hadopted, hrest⟩

theorem Dated.payload (h : w.Dated)
    (htimely : w.Timely A (.payload now fp masterKey sessionHash wire src)) :
    (w.step A (.payload now fp masterKey sessionHash wire src)).Dated := by
  unfold step
  dsimp only
  by_cases hdrop : wire.length < tunnelHdrLen + 16 ∨ w.hub.authorized fp = false
  · rw [handleTunnelPayload_dropped A hdrop]
    exact h
  obtain ⟨hlen, hauth⟩ := not_or.mp hdrop
  rw [Bool.not_eq_false] at hauth
  rcases handleTunnelPayload_cases A hlen hauth now masterKey sessionHash src with
    ⟨outcome, ingress, hresult, hnot, -⟩ | ⟨ipPacket, advanced, ingress, hle, hopen, hresult⟩
  · -- a refused datagram leaves the leases and the epochs
    simp only [hresult, hnot, Bool.false_eq_true, if_false]
    exact h
  · have hopens : Opens A w.hub now fp masterKey wire := by
      refine ⟨hlen, hauth, hle, ?_⟩
      rw [hopen]
      rfl
    rw [hresult]
    exact h.accepted (htimely hopens).1 ingress ipPacket

end

theorem Dated.step {A : TunnelCipher K} {w : Aged K} (h : w.Dated) {act : HubAct K}
    (htimely : w.Timely A act) : (w.step A act).Dated := by
  cases act with
  | handshake now fp endpoint => exact h.handshake A now fp endpoint
  | disconnect fp => exact h.disconnect A fp
  | payload now fp masterKey sessionHash wire src => exact h.payload htimely
  | enqueue fp ipPacket => exact h.of_kept (enqueueToClient_kept w.hub fp ipPacket)
  | poll randSeg => exact h.of_kept (pollQueue_kept A randSeg w.hub.egress w.hub)

/-- In a run of a hub no packet is routed that is reported as not acceptable, exactly if every
datagram that opens is of a client with a lease and comes within the time of its epoch. -/
theorem dead_epoch_not_routed_iff (A : TunnelCipher K) (allowedFingerprints : List String)
    (acts : List (HubAct K)) :
    Always (Aged.step A) (fun w act => ¬ w.hub.RoutesDead A act) (start allowedFingerprints) acts ↔
      Always (Aged.step A) (Timely A) (start allowedFingerprints) acts :=
  Always.congr_of_kept Dated
    (fun _ act hdated hlive => hdated.step ((hdated.not_routesDead_iff act).mp hlive))
    (fun _ act hdated => hdated.not_routesDead_iff act) (dated_start allowedFingerprints) acts

/-- A client that is heard from again when its epoch is over. -/
def lateReturn : List (HubAct UInt8) :=
  [.handshake 0 "phone" Watched.home, Watched.sent 1 1 Watched.home, Watched.sent 76 2 Watched.home]

/-- The packet is routed, though its epoch ended 75 seconds after the first datagram. -/
theorem lateReturn_routed :
    ((lateReturn.take 2).foldl (step .labelled) (start ["phone"])).hub.RoutesDead .labelled
        (Watched.sent 76 2 Watched.home) ∧
      ¬ Always (step .labelled) (fun w act => ¬ w.hub.RoutesDead .labelled act) (start ["phone"])
        lateReturn := by
  have hdead : ((lateReturn.take 2).foldl (step .labelled) (start ["phone"])).hub.RoutesDead
      .labelled (Watched.sent 76 2 Watched.home) := by decide +kernel
  exact ⟨hdead, fun hlive => hlive.2.2.1 hdead⟩

end Aged

end Vantablack.Vpn
