import Vantablack.Lib.Runs
import Vantablack.Vpn.Hub

/-!
Where a hub sends what goes back to a client. The endpoint stands in the session, which every
datagram that gets past the allowlist overwrites before it is opened, and in the lease, which moves
by the re-anchor ladder. The ladder compares the upper half of the counter, so that it does not see
the counters advance.
-/

namespace Vantablack.Vpn

open Lib Layers Receive

variable {K : Type}

/-! ### The ladder -/

namespace LeaseTable

variable {l : Lease} {now epoch ctr : ℕ} {src : SocketAddr}

theorem observe_epoch (l : Lease) (now epoch ctr : ℕ) (src : SocketAddr) :
    (observe l now epoch ctr src).2.epoch = l.epoch ∧
      (observe l now epoch ctr src).2.epochTtl = l.epochTtl := by
  unfold observe
  by_cases hadvanced : l.tunnelVMax < ctr <;> simp only [hadvanced] <;> repeat' split
  all_goals exact ⟨rfl, rfl⟩

theorem observe_endpoint (l : Lease) (now epoch ctr : ℕ) (src : SocketAddr) :
    (observe l now epoch ctr src).2.endpoint = l.endpoint ∨
      (observe l now epoch ctr src).2.endpoint = src := by
  unfold observe
  by_cases hadvanced : l.tunnelVMax < ctr <;> simp only [hadvanced] <;> repeat' split
  all_goals first | exact Or.inl rfl | exact Or.inr rfl

theorem observe_endpoint_of_moves (hepoch : l.epoch = epoch) (httl : now < l.epochTtl)
    (hmoves : l.tunnelVMax < ctr ∨ silenceReanchor ≤ now - l.lastSeen) :
    (observe l now epoch ctr src).2.endpoint = src := by
  rw [observe, if_neg (not_not.mpr hepoch), if_neg (not_le.mpr httl)]
  dsimp only
  by_cases hadvanced : l.tunnelVMax < ctr
  · simp only [hadvanced, decide_true, if_true]
    split
    · rfl
    · rename_i hsame
      exact not_not.mp hsame
  · have hsilent := hmoves.resolve_left hadvanced
    simp only [hadvanced, decide_false, Bool.false_eq_true, if_false, if_pos hsilent]
    split
    · rfl
    · rename_i hsame
      exact not_not.mp hsame

theorem observe_fallback (hepoch : l.epoch = epoch) (httl : now < l.epochTtl)
    (hne : l.endpoint ≠ src) (hctr : ctr ≤ l.tunnelVMax)
    (hsilent : silenceReanchor ≤ now - l.lastSeen) :
    (observe l now epoch ctr src).1.2 = .silenceFallback := by
  rw [observe, if_neg (not_not.mpr hepoch), if_neg (not_le.mpr httl)]
  simp only [not_lt.mpr hctr, decide_false, Bool.false_eq_true, if_false, if_pos hsilent, if_pos hne]

end LeaseTable

namespace VpnHub

open LeaseTable

theorem lookup_routeInner_of_ne {t : LeaseTable} {fp fp' : String} (h : fp' ≠ fp) (now : ℕ)
    (pkt : Bytes) : (routeInner t now fp pkt).byFp.lookup fp' = t.byFp.lookup fp' := by
  unfold routeInner
  split
  · rfl
  · exact lookup_leaseForHint_of_ne h _

theorem lookup_routeInner {t : LeaseTable} {fp : String} {l : Lease}
    (h : t.byFp.lookup fp = some l) (now : ℕ) (pkt : Bytes) :
    ∃ ip, (routeInner t now fp pkt).byFp.lookup fp = some { l with overlayIp := ip } := by
  unfold routeInner
  split
  · exact ⟨l.overlayIp, h⟩
  · exact lookup_leaseForHint h _

theorem onHandshake_kept {h : VpnHub K} {now : ℕ} {fp fp' : String} {endpoint : SocketAddr} {e : ℕ}
    (he : (h.onHandshake now fp endpoint).ingressEpochs.lookup fp' = some e) :
    h.ingressEpochs.lookup fp' = some e ∧
      ∀ l, h.leases.byFp.lookup fp' = some l →
        (h.onHandshake now fp endpoint).leases.byFp.lookup fp' = some l ∧
          (h.onHandshake now fp endpoint).sessions.lookup fp' = h.sessions.lookup fp' := by
  unfold onHandshake at he ⊢
  dsimp only at he ⊢
  split
  · rename_i hdenied
    rw [if_pos hdenied] at he
    exact ⟨he, fun l hl => ⟨hl, rfl⟩⟩
  · rename_i hallowed
    rw [if_neg hallowed] at he
    split
    · rename_i hleased
      rw [if_pos hleased] at he
      by_cases hfp : fp' = fp
      · subst hfp
        rw [AList.lookup_erase] at he
        cases he
      · rw [AList.lookup_erase_ne hfp] at he
        refine ⟨he, fun l hl => ⟨?_, AList.lookup_erase_ne hfp⟩⟩
        rw [LeaseTable.rotateEpoch, LeaseTable.lookup_modify_of_ne hfp,
          LeaseTable.lookup_leaseFor_of_ne hfp, hl]
    · rename_i hpool
      rw [if_neg hpool] at he
      refine ⟨he, fun l hl => ⟨?_, rfl⟩⟩
      by_cases hfp : fp' = fp
      · -- a client that has its lease keeps it
        subst hfp
        rw [LeaseTable.leaseFor, hl]
        exact hl
      · rw [LeaseTable.lookup_leaseFor_of_ne hfp, hl]

/-! ### An accepted datagram -/

section

variable {h : VpnHub K} {fp : String} {payload : Bytes} {l : Lease}

theorem sessions_onAccepted (h : VpnHub K) (now : ℕ) (fp : String) (payload : Bytes)
    (src : SocketAddr) (ipPacket : Bytes) :
    (h.onAccepted now fp payload src ipPacket).2.sessions = h.sessions := by
  unfold onAccepted
  dsimp only
  split <;> rfl

theorem lookup_onAccepted_of_ne {fp' : String} (hne : fp' ≠ fp) (h : VpnHub K) (now : ℕ)
    (payload : Bytes) (src : SocketAddr) (ipPacket : Bytes) :
    (h.onAccepted now fp payload src ipPacket).2.ingressEpochs.lookup fp' =
        h.ingressEpochs.lookup fp' ∧
      (h.onAccepted now fp payload src ipPacket).2.leases.byFp.lookup fp' =
        h.leases.byFp.lookup fp' := by
  unfold onAccepted
  dsimp only
  split
  · refine ⟨AList.lookup_insert_ne hne, ?_⟩
    rw [lookup_routeInner_of_ne hne, lookup_observeTunnelPacket_of_ne hne, adoptEpoch,
      lookup_modify_of_ne hne]
  · refine ⟨rfl, ?_⟩
    rw [lookup_routeInner_of_ne hne, lookup_observeTunnelPacket_of_ne hne]

theorem onAccepted_adopts (hepoch : h.ingressEpochs.lookup fp ≠ some (wireEpoch payload))
    (hl : h.leases.byFp.lookup fp = some l) (now : ℕ) (src : SocketAddr) (ipPacket : Bytes) :
    (h.onAccepted now fp payload src ipPacket).2.ingressEpochs.lookup fp =
        some (wireEpoch payload) ∧
      ∃ l', (h.onAccepted now fp payload src ipPacket).2.leases.byFp.lookup fp = some l' ∧
        l'.endpoint = src ∧ l'.epoch = wireEpoch payload := by
  unfold onAccepted
  dsimp only
  rw [if_pos hepoch]
  refine ⟨AList.lookup_insert _, ?_⟩
  dsimp only
  have hadopted := lookup_modify hl fun l =>
    { l with
      epoch := wireEpoch payload
      tunnelVMax := 0
      endpoint := src
      lastSeen := now
      epochTtl := now + defaultEpochTtl }
  obtain ⟨-, hobserved⟩ := lookup_observeTunnelPacket hadopted now (wireEpoch payload)
    (headerCtr payload) src
  obtain ⟨ip, hl'⟩ := lookup_routeInner hobserved now ipPacket
  refine ⟨_, hl', ?_, (observe_epoch _ now (wireEpoch payload) (headerCtr payload) src).1⟩
  rcases observe_endpoint _ now (wireEpoch payload) (headerCtr payload) src with hsame | hmoved
  · exact hsame
  · exact hmoved

theorem onAccepted_observes (hepoch : h.ingressEpochs.lookup fp = some (wireEpoch payload))
    (hl : h.leases.byFp.lookup fp = some l) (now : ℕ) (src : SocketAddr) (ipPacket : Bytes) :
    (h.onAccepted now fp payload src ipPacket).1 =
        (observe l now (wireEpoch payload) (headerCtr payload) src).1.2 ∧
      (h.onAccepted now fp payload src ipPacket).2.ingressEpochs.lookup fp =
        some (wireEpoch payload) ∧
      ∃ l', (h.onAccepted now fp payload src ipPacket).2.leases.byFp.lookup fp = some l' ∧
        l'.endpoint = (observe l now (wireEpoch payload) (headerCtr payload) src).2.endpoint ∧
        l'.epoch = l.epoch := by
  unfold onAccepted
  dsimp only
  rw [if_neg (not_not.mpr hepoch)]
  obtain ⟨hevent, hobserved⟩ := lookup_observeTunnelPacket hl now (wireEpoch payload)
    (headerCtr payload) src
  obtain ⟨ip, hl'⟩ := lookup_routeInner hobserved now ipPacket
  exact ⟨congrArg Prod.snd hevent, hepoch, _, hl', rfl, (observe_epoch l now _ _ src).1⟩

end

theorem enqueueToClient_kept (h : VpnHub K) (fp : String) (ipPacket : Bytes) :
    (h.enqueueToClient fp ipPacket).leases = h.leases ∧
      (h.enqueueToClient fp ipPacket).sessions = h.sessions ∧
      (h.enqueueToClient fp ipPacket).ingressEpochs = h.ingressEpochs := by
  unfold enqueueToClient
  split <;> exact ⟨rfl, rfl, rfl⟩

theorem pollQueue_kept (A : TunnelCipher K) (randSeg : Octets 8) (l : List (String × Bytes))
    (h : VpnHub K) :
    (pollQueue A randSeg l h).2.leases = h.leases ∧
      (pollQueue A randSeg l h).2.sessions = h.sessions ∧
      (pollQueue A randSeg l h).2.ingressEpochs = h.ingressEpochs := by
  induction l with
  | nil => exact ⟨rfl, rfl, rfl⟩
  | cons item rest ih =>
      obtain ⟨fp, ipPacket⟩ := item
      rw [pollQueue]
      cases hinfo : h.sessions.lookup fp with
      | none =>
          simp only [sealForClient, hinfo]
          exact ih
      | some info =>
          rw [sealForClient, hinfo]
          exact ⟨rfl, rfl, rfl⟩

/-! ### Runs -/

/-- A hub, and for each client the greatest counter it accepted in the current epoch with the source
of that datagram, or of the one that moved the lease after a silence. -/
structure Watched (K : Type) where
  hub : VpnHub K
  best : String → Option (ℕ × SocketAddr)

/-- What happens to a hub. A packet is queued for a client by the routing of an inner packet, by the
reader of one of its flows or by the TCP stack, at any time. -/
inductive HubAct (K : Type) where
  | handshake (now : ℕ) (fp : String) (endpoint : SocketAddr)
  | disconnect (fp : String)
  | payload (now : ℕ) (fp : String) (masterKey : K) (sessionHash : Octets 4) (wire : Bytes)
      (src : SocketAddr)
  | enqueue (fp : String) (ipPacket : Bytes)
  | poll (randSeg : Octets 8)

def noteAccepted (best : Option (ℕ × SocketAddr)) (adopted : Bool) (event : AnchorEvent) (ctr : ℕ)
    (src : SocketAddr) : Option (ℕ × SocketAddr) :=
  match best, adopted with
  | some (c, a), false =>
      if c < ctr then some (ctr, src)
      else if event = .silenceFallback then some (c, src)
      else some (c, a)
  | _, _ => some (ctr, src)

namespace Watched

def start (allowedFingerprints : List String) : Watched K where
  hub := .start allowedFingerprints
  best _ := none

def step (A : TunnelCipher K) (w : Watched K) : HubAct K → Watched K
  | .handshake now fp endpoint => { w with hub := w.hub.onHandshake now fp endpoint }
  | .disconnect fp => { w with hub := w.hub.onDisconnect fp }
  | .payload now fp masterKey sessionHash wire src =>
      let (outcome, event, hub) :=
        w.hub.handleTunnelPayload A now fp masterKey sessionHash wire src
      { hub := hub
        best :=
          if outcome.any OpenOutcome.isAccepted then
            Function.update w.best fp (noteAccepted (w.best fp)
              (w.hub.ingressEpochs.lookup fp ≠ some (wireEpoch wire)) event (wireCtr wire) src)
          else w.best }
  | .enqueue fp ipPacket => { w with hub := w.hub.enqueueToClient fp ipPacket }
  | .poll randSeg => { w with hub := (w.hub.pollEgress A randSeg).2 }

/-- A client with an adopted epoch has a lease of that epoch, and its return path is the source of
the datagram it should be. -/
def Anchored (w : Watched K) : Prop :=
  ∀ fp e, w.hub.ingressEpochs.lookup fp = some e →
    ∃ l info c a, w.hub.leases.byFp.lookup fp = some l ∧ w.hub.sessions.lookup fp = some info ∧
      w.best fp = some (c, a) ∧ l.epoch = e ∧ l.endpoint = a ∧ info.endpoint = a

def Accepts (A : TunnelCipher K) (w : Watched K) (now : ℕ) (fp : String) (masterKey : K)
    (wire : Bytes) : Prop :=
  (w.hub.ingress.openWire A now masterKey fp (wireEpoch wire) wire).1.isAccepted = true

/-- The ladder moves the lease to the source of the datagram: the upper half of its counter is
beyond all before, and so is the counter, or the endpoint was silent. -/
def Moves (w : Watched K) (now : ℕ) (fp : String) (wire : Bytes) : Prop :=
  ∀ l ∈ w.hub.leases.byFp.lookup fp, ∀ b ∈ w.best fp,
    now < l.epochTtl ∧
      ((l.tunnelVMax < headerCtr wire ∧ b.1 < wireCtr wire) ∨
        (headerCtr wire ≤ l.tunnelVMax ∧ silenceReanchor ≤ now - l.lastSeen))

/-- A datagram that gets past the allowlist does no harm to the return path of a client with this
adopted epoch. -/
def KeepsPath (A : TunnelCipher K) (w : Watched K) (now : ℕ) (fp : String) (masterKey : K)
    (wire : Bytes) (src : SocketAddr) : Option ℕ → Prop
  -- the first datagram of a client that has a lease
  | none => w.Accepts A now fp masterKey wire → fp ∈ w.hub.leases.byFp
  -- from the address in use, of a later epoch, or one that moves the lease as well
  | some e =>
      (∀ info ∈ w.hub.sessions.lookup fp, info.endpoint = src) ∨
        (w.Accepts A now fp masterKey wire ∧
          (e < wireEpoch wire ∨ (e = wireEpoch wire ∧ w.Moves now fp wire)))

/-- The steps the return path survives. -/
def Steady (A : TunnelCipher K) (w : Watched K) : HubAct K → Prop
  | .payload now fp masterKey _ wire src =>
      wire.length < tunnelHdrLen + 16 ∨ w.hub.authorized fp = false ∨
        w.KeepsPath A now fp masterKey wire src (w.hub.ingressEpochs.lookup fp)
  | _ => True

instance (A : TunnelCipher K) (w : Watched K) (now : ℕ) (fp : String) (masterKey : K)
    (wire : Bytes) : Decidable (w.Accepts A now fp masterKey wire) :=
  inferInstanceAs (Decidable (_ = true))

instance (w : Watched K) (now : ℕ) (fp : String) (wire : Bytes) :
    Decidable (w.Moves now fp wire) :=
  inferInstanceAs (Decidable (∀ l ∈ w.hub.leases.byFp.lookup fp, ∀ b ∈ w.best fp, _))

instance (A : TunnelCipher K) (w : Watched K) (now : ℕ) (fp : String) (masterKey : K)
    (wire : Bytes) (src : SocketAddr) (current : Option ℕ) :
    Decidable (w.KeepsPath A now fp masterKey wire src current) :=
  match current with
  | none => inferInstanceAs (Decidable (_ → _))
  | some _ => inferInstanceAs (Decidable (_ ∨ _))

instance (A : TunnelCipher K) (w : Watched K) (act : HubAct K) : Decidable (w.Steady A act) :=
  match act with
  | .handshake .. => inferInstanceAs (Decidable True)
  | .disconnect _ => inferInstanceAs (Decidable True)
  | .payload .. => inferInstanceAs (Decidable (_ ∨ _ ∨ _))
  | .enqueue .. => inferInstanceAs (Decidable True)
  | .poll _ => inferInstanceAs (Decidable True)

theorem anchored_start (allowedFingerprints : List String) :
    (start allowedFingerprints : Watched K).Anchored := by
  intro fp e he
  cases he

theorem Anchored.of_frame {w w' : Watched K} (h : w.Anchored) (fp : String)
    (hframe : ∀ fp', fp' ≠ fp →
      w'.hub.ingressEpochs.lookup fp' = w.hub.ingressEpochs.lookup fp' ∧
      w'.hub.leases.byFp.lookup fp' = w.hub.leases.byFp.lookup fp' ∧
      w'.hub.sessions.lookup fp' = w.hub.sessions.lookup fp' ∧ w'.best fp' = w.best fp')
    (hself : ∀ e, w'.hub.ingressEpochs.lookup fp = some e →
      ∃ l info c a, w'.hub.leases.byFp.lookup fp = some l ∧
        w'.hub.sessions.lookup fp = some info ∧ w'.best fp = some (c, a) ∧ l.epoch = e ∧
        l.endpoint = a ∧ info.endpoint = a) : w'.Anchored := by
  intro fp' e he
  by_cases hfp : fp' = fp
  · subst hfp
    exact hself e he
  · obtain ⟨hepochs, hleases, hsessions, hbest⟩ := hframe fp' hfp
    rw [hepochs] at he
    rw [hleases, hsessions, hbest]
    exact h fp' e he

theorem Anchored.of_kept {w : Watched K} (h : w.Anchored) {hub : VpnHub K}
    (hkept : hub.leases = w.hub.leases ∧ hub.sessions = w.hub.sessions ∧
      hub.ingressEpochs = w.hub.ingressEpochs) : ({ w with hub := hub } : Watched K).Anchored := by
  obtain ⟨hleases, hsessions, hepochs⟩ := hkept
  intro fp e he
  dsimp only at he ⊢
  rw [hepochs] at he
  rw [hleases, hsessions]
  exact h fp e he

theorem Anchored.handshake {w : Watched K} (h : w.Anchored) (A : TunnelCipher K) (now : ℕ)
    (fp : String) (endpoint : SocketAddr) : (w.step A (.handshake now fp endpoint)).Anchored := by
  intro fp' e he
  obtain ⟨he', hkept⟩ := onHandshake_kept (h := w.hub) he
  obtain ⟨l, info, c, a, hl, hinfo, hbest, hrest⟩ := h fp' e he'
  obtain ⟨hleases, hsessions⟩ := hkept l hl
  exact ⟨l, info, c, a, hleases, hsessions.trans hinfo, hbest, hrest⟩

theorem Anchored.disconnect {w : Watched K} (h : w.Anchored) (A : TunnelCipher K) (fp : String) :
    (w.step A (.disconnect fp)).Anchored := by
  refine h.of_frame fp (fun fp' hne => ⟨AList.lookup_erase_ne hne,
    LeaseTable.lookup_evict_of_ne hne, AList.lookup_erase_ne hne, rfl⟩) ?_
  intro e he
  have hnone : (w.step A (.disconnect fp)).hub.ingressEpochs.lookup fp = none :=
    AList.lookup_erase fp _
  rw [hnone] at he
  cases he

section

variable {A : TunnelCipher K} {w : Watched K} {now : ℕ} {fp : String} {masterKey : K}
  {sessionHash : Octets 4} {wire : Bytes} {src : SocketAddr}

theorem Anchored.refused (h : w.Anchored) {ingress : VpnIngress}
    (hsrc : ∀ e, w.hub.ingressEpochs.lookup fp = some e →
      ∀ info ∈ w.hub.sessions.lookup fp, info.endpoint = src) :
    ({ hub := { w.hub.noteSession fp masterKey sessionHash src with ingress := ingress }
       best := w.best } : Watched K).Anchored := by
  refine h.of_frame fp (fun fp' hne => ⟨rfl, rfl, AList.lookup_insert_ne hne, rfl⟩) ?_
  intro e he
  obtain ⟨l, info, c, a, hl, hinfo, hbest, hepoch, hlease, hsession⟩ := h fp e he
  refine ⟨l, _, c, a, hl, AList.lookup_insert _, hbest, hepoch, hlease, ?_⟩
  rw [← hsession]
  exact (hsrc e he info hinfo).symm

theorem Anchored.accepted (h : w.Anchored) {hub : VpnHub K} {best : Option (ℕ × SocketAddr)}
    {ipPacket : Bytes} (hsessions : ∃ info, hub.sessions.lookup fp = some info ∧ info.endpoint = src)
    (hothers : ∀ fp', fp' ≠ fp → hub.ingressEpochs.lookup fp' = w.hub.ingressEpochs.lookup fp' ∧
      hub.leases.byFp.lookup fp' = w.hub.leases.byFp.lookup fp' ∧
      hub.sessions.lookup fp' = w.hub.sessions.lookup fp')
    (hepochs : (hub.onAccepted now fp wire src ipPacket).2.ingressEpochs.lookup fp =
      some (wireEpoch wire))
    (hlease : ∃ l, (hub.onAccepted now fp wire src ipPacket).2.leases.byFp.lookup fp = some l ∧
      l.endpoint = src ∧ l.epoch = wireEpoch wire)
    (hbest : ∃ c, best = some (c, src)) :
    ({ hub := (hub.onAccepted now fp wire src ipPacket).2
       best := Function.update w.best fp best } : Watched K).Anchored := by
  refine h.of_frame fp (fun fp' hne => ?_) ?_
  · obtain ⟨hold, hleases, hsame⟩ := hothers fp' hne
    obtain ⟨hepochs', hleases'⟩ := lookup_onAccepted_of_ne hne hub now wire src ipPacket
    refine ⟨hepochs'.trans hold, hleases'.trans hleases, ?_, Function.update_of_ne hne _ _⟩
    dsimp only
    rw [sessions_onAccepted, hsame]
  · intro e he
    obtain rfl : wireEpoch wire = e := Option.some.inj (hepochs.symm.trans he)
    obtain ⟨info, hinfo, hendpoint⟩ := hsessions
    obtain ⟨l, hl, hlsrc, hlepoch⟩ := hlease
    obtain ⟨c, hc⟩ := hbest
    refine ⟨l, info, c, src, hl, ?_, ?_, hlepoch, hlsrc, hendpoint⟩
    · dsimp only
      rw [sessions_onAccepted, hinfo]
    · rw [hc]
      exact Function.update_self _ _ _

theorem observe_anchors {l : Lease} {c : ℕ} {a : SocketAddr}
    (hl : w.hub.leases.byFp.lookup fp = some l) (hbest : w.best fp = some (c, a))
    (hepoch : l.epoch = wireEpoch wire) (hlsrc : l.endpoint = a)
    (hmoves : a ≠ src → w.Moves now fp wire) :
    (observe l now (wireEpoch wire) (headerCtr wire) src).2.endpoint = src ∧
      (a = src ∨ c < wireCtr wire ∨
        (observe l now (wireEpoch wire) (headerCtr wire) src).1.2 = .silenceFallback) := by
  by_cases hasrc : a = src
  · refine ⟨?_, Or.inl hasrc⟩
    rcases observe_endpoint l now (wireEpoch wire) (headerCtr wire) src with hkept | hmoved
    · rw [hkept, hlsrc, hasrc]
    · exact hmoved
  · obtain ⟨httl, hwhich⟩ := hmoves hasrc l hl (c, a) hbest
    rcases hwhich with ⟨hadvance, hgreatest⟩ | ⟨hctr, hsilent⟩
    · exact ⟨observe_endpoint_of_moves hepoch httl (Or.inl hadvance), Or.inr (Or.inl hgreatest)⟩
    · have hne : l.endpoint ≠ src := by
        rw [hlsrc]
        exact hasrc
      exact ⟨observe_endpoint_of_moves hepoch httl (Or.inr hsilent),
        Or.inr (Or.inr (observe_fallback hepoch httl hne hctr hsilent))⟩

theorem noteAccepted_anchors {c ctr : ℕ} {a : SocketAddr} {event : AnchorEvent}
    (h : a = src ∨ c < ctr ∨ event = .silenceFallback) :
    ∃ c', noteAccepted (some (c, a)) false event ctr src = some (c', src) := by
  unfold noteAccepted
  dsimp only
  split
  · exact ⟨ctr, rfl⟩
  · rename_i hctr
    split
    · exact ⟨c, rfl⟩
    · rename_i hfallback
      obtain rfl : a = src := h.resolve_right (not_or_intro hctr hfallback)
      exact ⟨c, rfl⟩

theorem Anchored.adopted (h : w.Anchored) {l : Lease} (hl : w.hub.leases.byFp.lookup fp = some l)
    (hadopt : w.hub.ingressEpochs.lookup fp ≠ some (wireEpoch wire)) (ingress : VpnIngress)
    (ipPacket : Bytes) (event : AnchorEvent) :
    ({ hub := ({ w.hub.noteSession fp masterKey sessionHash src with ingress := ingress }.onAccepted
         now fp wire src ipPacket).2
       best := Function.update w.best fp
         (noteAccepted (w.best fp) true event (wireCtr wire) src) } : Watched K).Anchored := by
  obtain ⟨hepochs, hlease⟩ := onAccepted_adopts
    (h := { w.hub.noteSession fp masterKey sessionHash src with ingress := ingress }) hadopt hl
    now src ipPacket
  refine h.accepted ⟨_, AList.lookup_insert _, rfl⟩
    (fun fp' hne => ⟨rfl, rfl, AList.lookup_insert_ne hne⟩) hepochs hlease ⟨wireCtr wire, ?_⟩
  cases w.best fp <;> rfl

theorem Anchored.observed (h : w.Anchored)
    (hadopted : w.hub.ingressEpochs.lookup fp = some (wireEpoch wire))
    (hmoves : (¬ ∀ info ∈ w.hub.sessions.lookup fp, info.endpoint = src) → w.Moves now fp wire)
    (ingress : VpnIngress) (ipPacket : Bytes) :
    let result := { w.hub.noteSession fp masterKey sessionHash src with
      ingress := ingress }.onAccepted now fp wire src ipPacket
    ({ hub := result.2
       best := Function.update w.best fp
         (noteAccepted (w.best fp) false result.1 (wireCtr wire) src) } : Watched K).Anchored := by
  intro result
  obtain ⟨l, info, c, a, hl, hinfo, hbest, hepoch, hlsrc, hisrc⟩ := h fp _ hadopted
  obtain ⟨hevent, hepochs, l', hl', hendpoint, hlepoch⟩ := onAccepted_observes
    (h := { w.hub.noteSession fp masterKey sessionHash src with ingress := ingress }) hadopted hl
    now src ipPacket
  have hmoves' : a ≠ src → w.Moves now fp wire := fun hasrc =>
    hmoves fun hall => hasrc (hisrc.symm.trans (hall info hinfo))
  obtain ⟨hsrc, hrecord⟩ := observe_anchors hl hbest hepoch hlsrc hmoves'
  refine h.accepted ⟨_, AList.lookup_insert _, rfl⟩
    (fun fp' hne => ⟨rfl, rfl, AList.lookup_insert_ne hne⟩) hepochs
    ⟨l', hl', hendpoint.trans hsrc, hlepoch.trans hepoch⟩ ?_
  rw [hbest, show result.1 = _ from hevent]
  exact noteAccepted_anchors hrecord

theorem Anchored.payload (h : w.Anchored)
    (hsteady : w.Steady A (.payload now fp masterKey sessionHash wire src)) :
    (w.step A (.payload now fp masterKey sessionHash wire src)).Anchored := by
  by_cases hdrop : wire.length < tunnelHdrLen + 16 ∨ w.hub.authorized fp = false
  · unfold step
    dsimp only
    rw [handleTunnelPayload_dropped A hdrop]
    exact h
  have hlen : ¬ wire.length < tunnelHdrLen + 16 := fun hlen => hdrop (Or.inl hlen)
  have hauth : w.hub.authorized fp = true := by
    rw [← Bool.not_eq_false]
    exact fun hauth => hdrop (Or.inr hauth)
  unfold Steady at hsteady
  replace hsteady := (hsteady.resolve_left hlen).resolve_left (by rw [hauth]; decide)
  unfold step
  dsimp only
  rcases handleTunnelPayload_cases A hlen hauth now masterKey sessionHash src with
    ⟨outcome, ingress, hresult, hnot, hwhy⟩ | ⟨ipPacket, advanced, ingress, hle, hopen, hresult⟩
  · rw [hresult]
    dsimp only
    rw [hnot, if_neg Bool.false_ne_true]
    apply h.refused
    intro e he
    rw [he] at hsteady
    refine hsteady.resolve_right ?_
    rintro ⟨haccepts, hlater⟩
    rcases hwhy with ⟨e', he', hstale⟩ | hrefused
    · obtain rfl : e' = e := Option.some.inj (he'.symm.trans he)
      rcases hlater with hlt | ⟨rfl, -⟩
      · omega
      · omega
    · rw [Accepts, hrefused] at haccepts
      cases haccepts
  · rw [hresult]
    dsimp only
    rw [show (some (OpenOutcome.accepted ipPacket advanced)).any OpenOutcome.isAccepted = true
      from rfl, if_pos rfl]
    by_cases hadopt : w.hub.ingressEpochs.lookup fp ≠ some (wireEpoch wire)
    · obtain ⟨l, hl⟩ : ∃ l, w.hub.leases.byFp.lookup fp = some l := by
        cases he : w.hub.ingressEpochs.lookup fp with
        | none =>
            have haccepts : w.Accepts A now fp masterKey wire := by
              rw [Accepts, hopen]
              rfl
            rw [he] at hsteady
            exact Option.isSome_iff_exists.mp (AList.lookup_isSome.mpr (hsteady haccepts))
        | some e =>
            obtain ⟨l, info, c, a, hl, -⟩ := h fp e he
            exact ⟨l, hl⟩
      rw [decide_eq_true hadopt]
      exact h.adopted hl hadopt ingress ipPacket _
    · rw [decide_eq_false hadopt]
      rw [not_not] at hadopt
      rw [hadopt] at hsteady
      refine h.observed hadopt (fun hnot => ?_) ingress ipPacket
      obtain ⟨-, hlater⟩ := hsteady.resolve_left hnot
      exact (hlater.resolve_left (lt_irrefl _)).2

end

theorem Anchored.step {A : TunnelCipher K} {w : Watched K} (h : w.Anchored) {act : HubAct K}
    (hsteady : w.Steady A act) : (w.step A act).Anchored := by
  cases act with
  | handshake now fp endpoint => exact h.handshake A now fp endpoint
  | disconnect fp => exact h.disconnect A fp
  | payload now fp masterKey sessionHash wire src => exact h.payload hsteady
  | enqueue fp ipPacket => exact h.of_kept (enqueueToClient_kept w.hub fp ipPacket)
  | poll randSeg => exact h.of_kept (pollQueue_kept A randSeg w.hub.egress w.hub)

/-- Moreover `poll_egress` hands out what waits for such a client with that address. -/
def ReturnPath (A : TunnelCipher K) (w : Watched K) : Prop :=
  w.Anchored ∧ ∀ randSeg u hub, w.hub.pollEgress A randSeg = (some u, hub) →
    u.fingerprint ∈ w.hub.ingressEpochs → ∃ c, w.best u.fingerprint = some (c, u.endpoint)

theorem Anchored.returnPath {w : Watched K} (h : w.Anchored) (A : TunnelCipher K) :
    w.ReturnPath A := by
  refine ⟨h, fun randSeg u hub hpoll hepoch => ?_⟩
  obtain ⟨e, he⟩ := Option.isSome_iff_exists.mp (AList.lookup_isSome.mpr hepoch)
  obtain ⟨l, info, c, a, -, hinfo, hbest, -, -, hsession⟩ := h _ e he
  obtain ⟨info', hinfo', hendpoint⟩ := endpoint_of_pollEgress hpoll
  obtain rfl : info' = info := Option.some.inj (hinfo'.symm.trans hinfo)
  rw [hendpoint, hsession]
  exact ⟨c, hbest⟩

/-- An empty packet from `10.66.0.10` to the hub. -/
def innerPacket : Bytes :=
  0x45 :: List.replicate 11 0 ++ [10, 66, 0, 10, 10, 66, 0, 1]

def home : SocketAddr := { ip := .v4 ⟨[198, 51, 100, 10], rfl⟩, port := 40000 }

def roaming : SocketAddr := { ip := .v4 ⟨[203, 0, 113, 99], rfl⟩, port := 51000 }

/-- A datagram of the client, in its epoch 1. -/
def sent (now ctr : ℕ) (src : SocketAddr) : HubAct UInt8 :=
  .payload now "phone" 7 (List.Vector.replicate 4 0)
    (sealDatagram .labelled 7 1 ctr (List.Vector.replicate 8 0) innerPacket) src

/-- A client that stays at its address for a while and is heard from elsewhere after a silence, when
a packet waits for it. -/
def quietMove : List (HubAct UInt8) :=
  [.handshake 0 "phone" home, sent 1 1 home, sent 2 2 home, .enqueue "phone" innerPacket,
    sent 30 3 roaming]

/-- A client whose address changes under way. -/
def move : List (HubAct UInt8) :=
  [.handshake 0 "phone" home, sent 1 1 home, sent 2 2 roaming]

end Watched

end VpnHub

end Vantablack.Vpn
