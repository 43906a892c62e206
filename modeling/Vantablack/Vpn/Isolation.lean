import Vantablack.Vpn.Gateway

/-!
For whom a VPN hub seals what it sends in response to a client. A UDP reply and an echo reply carry
the fingerprint of the client with them, and so does the flow of a reader. A packet of the TCP stack
goes to whoever owns its destination, which is the source address that the client wrote.
-/

namespace Vantablack.Vpn

open Lib Layers Receive

variable {K : Type}

/-! ### The leases -/

namespace VpnHub

variable {h : VpnHub K}

theorem indexed_onHandshake (hindexed : h.leases.Indexed) (now : ℕ) (fp : String)
    (endpoint : SocketAddr) : (h.onHandshake now fp endpoint).leases.Indexed := by
  unfold onHandshake
  split
  · exact hindexed
  · dsimp only
    split
    · exact (hindexed.leaseFor now).modify (fun _ => rfl) fun _ => rfl
    · exact hindexed.leaseFor now

theorem indexed_onAccepted (hindexed : h.leases.Indexed) (now : ℕ) (fp : String) (payload : Bytes)
    (src : SocketAddr) (ipPacket : Bytes) :
    (h.onAccepted now fp payload src ipPacket).2.leases.Indexed := by
  have hrouted : ∀ t : LeaseTable, t.Indexed → (routeInner t now fp ipPacket).Indexed := by
    intro t ht
    unfold routeInner
    split
    · exact ht
    · exact ht.leaseForHint now _
  unfold onAccepted
  dsimp only
  split
  · have hadopted : (h.leases.adoptEpoch now fp (wireEpoch payload) src).Indexed :=
      hindexed.modify (fun _ => rfl) fun _ => rfl
    exact hrouted _ (hadopted.observeTunnelPacket now _ _ src)
  · exact hrouted _ (hindexed.observeTunnelPacket now _ _ src)

theorem egress_onAccepted (h : VpnHub K) (now : ℕ) (fp : String) (payload : Bytes)
    (src : SocketAddr) (ipPacket : Bytes) :
    (h.onAccepted now fp payload src ipPacket).2.egress = h.egress := by
  unfold onAccepted
  dsimp only
  split <;> rfl

variable (A : TunnelCipher K)

theorem handleTunnelPayload_frame (hindexed : h.leases.Indexed) (now : ℕ) (fp : String)
    (masterKey : K) (sessionHash : Octets 4) (payload : Bytes) (src : SocketAddr) :
    (h.handleTunnelPayload A now fp masterKey sessionHash payload src).2.2.leases.Indexed ∧
      (h.handleTunnelPayload A now fp masterKey sessionHash payload src).2.2.egress = h.egress := by
  by_cases hdrop : payload.length < tunnelHdrLen + 16 ∨ h.authorized fp = false
  · rw [handleTunnelPayload_dropped A hdrop]
    exact ⟨hindexed, rfl⟩
  · obtain ⟨hlen, hauth⟩ := not_or.mp hdrop
    rw [Bool.not_eq_false] at hauth
    rcases handleTunnelPayload_cases A hlen hauth now masterKey sessionHash src with
      ⟨outcome, ingress, hresult, -⟩ | ⟨ipPacket, advanced, ingress, -, -, hresult⟩
    · rw [hresult]
      exact ⟨hindexed, rfl⟩
    · rw [hresult]
      refine ⟨indexed_onAccepted ?_ now fp payload src ipPacket,
        egress_onAccepted _ now fp payload src ipPacket⟩
      exact hindexed

/-! ### What is sealed -/

/-- The unit carries `pkt` under the key of the session of `fp`, and goes to where that session is. -/
def SealedFor (A : TunnelCipher K) (h : VpnHub K) (fp : String) (pkt : Bytes) (u : EgressUnit) :
    Prop :=
  u.fingerprint = fp ∧
    ∃ info, h.sessions.lookup fp = some info ∧ u.sessionHash = info.sessionHash ∧
      u.endpoint = info.endpoint ∧
      ∃ epoch ctr randSeg, u.wire = sealDatagram A info.masterKey epoch ctr randSeg pkt

theorem pollQueue_spec (randSeg : Octets 8) (l : List (String × Bytes)) (h : VpnHub K) :
    (pollQueue A randSeg l h).2.leases = h.leases ∧
      (((pollQueue A randSeg l h).1 = none ∧ (pollQueue A randSeg l h).2.egress = []) ∨
        ∃ u skipped pkt, (pollQueue A randSeg l h).1 = some u ∧
          l = skipped ++ (u.fingerprint, pkt) :: (pollQueue A randSeg l h).2.egress ∧
          h.SealedFor A u.fingerprint pkt u) := by
  induction l with
  | nil => exact ⟨rfl, Or.inl ⟨rfl, rfl⟩⟩
  | cons item rest ih =>
      obtain ⟨fp, pkt⟩ := item
      rw [pollQueue]
      cases hinfo : h.sessions.lookup fp with
      | none =>
          have hnothing : h.sealForClient A randSeg fp pkt = (none, h) := by
            rw [sealForClient, hinfo]
          rw [hnothing]
          obtain ⟨hleases, hnone | ⟨u, skipped, pkt', hu, hl, hsealed⟩⟩ := ih
          · exact ⟨hleases, Or.inl hnone⟩
          · refine ⟨hleases, Or.inr ⟨u, (fp, pkt) :: skipped, pkt', hu, ?_, hsealed⟩⟩
            rw [List.cons_append]
            exact congrArg _ hl
      | some info =>
          rw [sealForClient, hinfo]
          exact ⟨rfl, Or.inr ⟨_, [], pkt, rfl, rfl, rfl, info, hinfo, rfl, rfl, _, _, _, rfl⟩⟩

theorem pollNetstackEgress_spec (h : VpnHub K) (randSeg : Octets 8) {pkt : Bytes}
    (hlen : 20 ≤ pkt.length) :
    ((h.pollNetstackEgress A randSeg pkt).1 = none ∧
        ∀ fp ∈ h.sessions, h.recipient (dstIp pkt) ≠ some fp) ∨
      ∃ u, (h.pollNetstackEgress A randSeg pkt).1 = some u ∧
        h.recipient (dstIp pkt) = some u.fingerprint ∧ h.SealedFor A u.fingerprint pkt u := by
  rw [pollNetstackEgress, if_neg (not_lt.mpr hlen)]
  cases hrecipient : h.recipient (dstIp pkt) with
  | none =>
      refine Or.inl ⟨rfl, ?_⟩
      rintro fp - hfp
      cases hfp
  | some fp =>
      cases hinfo : h.sessions.lookup fp with
      | none =>
          refine Or.inl ⟨by simp only [sealForClient, hinfo], ?_⟩
          rintro fp' hmem hfp
          cases hfp
          rw [← AList.lookup_isSome, hinfo] at hmem
          cases hmem
      | some info =>
          simp only [sealForClient, hinfo]
          exact Or.inr ⟨_, rfl, rfl, rfl, info, hinfo, rfl, rfl, _, _, _, rfl⟩

theorem pollNetstackEgress_frame (h : VpnHub K) (randSeg : Octets 8) (pkt : Bytes) :
    (h.pollNetstackEgress A randSeg pkt).2.leases = h.leases ∧
      (h.pollNetstackEgress A randSeg pkt).2.egress = h.egress := by
  rw [pollNetstackEgress]
  split
  · exact ⟨rfl, rfl⟩
  · cases h.recipient (dstIp pkt) with
    | none => exact ⟨rfl, rfl⟩
    | some fp =>
        cases hinfo : h.sessions.lookup fp with
        | none => simp only [sealForClient, hinfo, and_self]
        | some info => simp only [sealForClient, hinfo, and_self]

/-- Whom a packet to `ip` is for, of those with a session: the client with that address in its
lease. If there is none, a client whose lease is the only one, for an address of the overlay, and a
client whose session is the only one, for any other. -/
def Receives (h : VpnHub K) (ip : Octets 4) (fp : String) : Prop :=
  h.leases.Leased ip fp ∨
    (h.leases.Unleased ip ∧
      if h.leases.HasDefault ip then fp ∈ h.leases.byFp else h.sessions.size = 1)
  deriving Decidable

theorem recipient_eq_some_iff (hindexed : h.leases.Indexed) {ip : Octets 4} {fp : String}
    (hsession : fp ∈ h.sessions) : h.recipient ip = some fp ↔ h.Receives ip fp := by
  by_cases hleased : ∃ owner, h.leases.Leased ip owner
  · obtain ⟨owner, howner⟩ := hleased
    have hrecipient : h.recipient ip = some owner := by
      rw [recipient, LeaseTable.fingerprintForIp_of_leased hindexed howner]
    rw [hrecipient, Option.some.injEq]
    constructor
    · rintro rfl
      exact Or.inl howner
    · rintro (hfp | ⟨hfree, -⟩)
      · exact hindexed.leased_unique howner hfp
      · exact absurd howner (hfree owner (AList.mem_keys.mp howner.mem))
  · have hfree : h.leases.Unleased ip := fun owner _ howner => hleased ⟨owner, howner⟩
    have hnot : ¬ h.leases.Leased ip fp := fun hfp => hleased ⟨fp, hfp⟩
    rw [recipient, LeaseTable.fingerprintForIp_of_unleased hindexed hfree, Receives, or_iff_right hnot,
      and_iff_right hfree]
    by_cases hdefault : h.leases.HasDefault ip
    · obtain ⟨owner, hl⟩ : ∃ owner, h.leases.byFp.keys.head? = some owner := by
        obtain ⟨e, he⟩ := List.length_eq_one_iff.mp hdefault.1
        refine ⟨e.1, ?_⟩
        rw [AList.keys, he]
        rfl
      rw [if_pos hdefault, if_pos hdefault, hl]
      dsimp only
      rw [← hl]
      exact Table.head?_keys_eq_some_iff hdefault.1
    · rw [if_neg hdefault, if_neg hdefault]
      dsimp only
      split
      · rename_i hone
        rw [Table.head?_keys_eq_some_iff hone]
        exact iff_of_true hsession hone
      · rename_i hmany
        exact iff_of_false (fun hfp => by cases hfp) hmany

end VpnHub

namespace Gateway

/-! ### The invariant -/

structure Inv (w : Gateway K) : Prop where
  leases : w.hub.leases.Indexed
  causes : w.causes = w.hub.egress.map Prod.fst
  netstack : w.netstack.Inv
  sockets : ∃ owner, w.udp.Sockets owner

variable {w : Gateway K}

theorem inv_start (allowedFingerprints : List String) :
    (start allowedFingerprints : Gateway K).Inv where
  leases := LeaseTable.indexed_new
  causes := rfl
  netstack := Netstack.inv_start
  sockets := ⟨fun _ => "", UdpFlows.sockets_start _⟩

theorem Inv.enqueue (h : w.Inv) (fp : String) (pkt : Bytes) : (w.enqueue fp fp pkt).Inv where
  leases := h.leases
  causes := by
    have hcauses := h.causes
    simp only [Gateway.enqueue, List.map_append, List.map_cons, List.map_nil, hcauses]
  netstack := h.netstack
  sockets := h.sockets

theorem Inv.enqueueToClient (h : w.Inv) (fp : String) (pkt : Bytes) :
    (w.enqueueToClient fp pkt).Inv := by
  unfold Gateway.enqueueToClient VpnHub.enqueueToClient
  split
  · exact h.enqueue fp pkt
  · exact ⟨h.leases, h.causes, h.netstack, h.sockets⟩

theorem Inv.of_hub (h : w.Inv) {hub : VpnHub K} (hleases : hub.leases.Indexed)
    (hegress : hub.egress = w.hub.egress) : ({ w with hub := hub } : Gateway K).Inv where
  leases := hleases
  causes := by
    rw [hegress]
    exact h.causes
  netstack := h.netstack
  sockets := h.sockets

theorem Inv.of_netstack (h : w.Inv) {n : Netstack} (hn : n.Inv) :
    ({ w with netstack := n } : Gateway K).Inv :=
  ⟨h.leases, h.causes, hn, h.sockets⟩

theorem Inv.of_udp (h : w.Inv) {u : UdpFlows} (hu : ∃ owner, u.Sockets owner) :
    ({ w with udp := u } : Gateway K).Inv :=
  ⟨h.leases, h.causes, h.netstack, hu⟩

theorem Inv.routeInner (h : w.Inv) (cfg : VpnConfig) (now : ℕ) (fp : String) (pkt : Bytes)
    (binds : Bool) : (w.routeInner cfg now fp pkt binds).Inv := by
  unfold Gateway.routeInner
  split
  · exact h
  · split
    · exact h.of_netstack (h.netstack.tryFeed fp pkt)
    · obtain ⟨owner, hsockets⟩ := h.sockets
      have hrouted := h.of_udp (hsockets.route cfg now fp (w.hub.leases.overlayOf fp) pkt binds)
      dsimp only
      split
      · exact hrouted.enqueue fp _
      · exact hrouted
    · split
      · exact h.enqueueToClient fp _
      · exact h
    · exact h

theorem Inv.handleTunnelPayload (h : w.Inv) (A : TunnelCipher K) (cfg : VpnConfig) (now : ℕ)
    (fp : String) (masterKey : K) (sessionHash : Octets 4) (wire : Bytes) (src : SocketAddr)
    (binds : Bool) :
    (w.handleTunnelPayload A cfg now fp masterKey sessionHash wire src binds).Inv := by
  obtain ⟨hleases, hegress⟩ :=
    VpnHub.handleTunnelPayload_frame A h.leases now fp masterKey sessionHash wire src
  have hhub := h.of_hub hleases hegress
  unfold Gateway.handleTunnelPayload
  dsimp only
  split
  · exact hhub.routeInner cfg now fp _ binds
  · exact hhub

theorem Inv.pollEgress (h : w.Inv) (A : TunnelCipher K) (randSeg : Octets 8) :
    (w.pollEgress A randSeg).Inv := by
  obtain ⟨hleases, hpolled⟩ := VpnHub.pollQueue_spec A randSeg w.hub.egress w.hub
  have hsuffix : ∃ taken, w.hub.egress = taken ++ (w.hub.pollEgress A randSeg).2.egress := by
    rcases hpolled with ⟨-, hempty⟩ | ⟨u, skipped, pkt, -, hl, -⟩
    · exact ⟨w.hub.egress, by rw [VpnHub.pollEgress, hempty, List.append_nil]⟩
    · exact ⟨skipped ++ [(u.fingerprint, pkt)], by rw [List.append_assoc]; exact hl⟩
  obtain ⟨taken, htaken⟩ := hsuffix
  refine ⟨?_, ?_, h.netstack, h.sockets⟩
  · show (VpnHub.pollQueue A randSeg w.hub.egress w.hub).2.leases.Indexed
    rw [hleases]
    exact h.leases
  · show w.causes.drop (w.hub.egress.length - (w.hub.pollEgress A randSeg).2.egress.length) = _
    rw [h.causes, ← List.map_drop]
    refine congrArg _ ?_
    nth_rewrite 2 [htaken]
    rw [htaken, List.length_append, Nat.add_sub_cancel, List.drop_left]
    rfl

theorem Inv.pollNetstackEgress (h : w.Inv) (A : TunnelCipher K) (randSeg : Octets 8) :
    (w.pollNetstackEgress A randSeg).Inv := by
  unfold Gateway.pollNetstackEgress
  split
  · exact h
  · rename_i a rest hout
    obtain ⟨hleases, hegress⟩ := w.hub.pollNetstackEgress_frame A randSeg a.packet
    have htail := h.netstack.tail
    rw [hout] at htail
    refine (h.of_hub ?_ hegress).of_netstack htail
    rw [hleases]
    exact h.leases

theorem Inv.onHandshake (h : w.Inv) (now : ℕ) (fp : String) (endpoint : SocketAddr) :
    (w.onHandshake now fp endpoint).Inv := by
  obtain ⟨owner, hsockets⟩ := h.sockets
  have hegress : (w.hub.onHandshake now fp endpoint).egress = w.hub.egress := by
    unfold VpnHub.onHandshake
    dsimp only
    repeat' split
    all_goals rfl
  refine (h.of_hub (VpnHub.indexed_onHandshake h.leases now fp endpoint) hegress).of_udp ⟨owner, ?_⟩
  split
  · exact hsockets.forgetReaders fp
  · exact hsockets

theorem Inv.reply (h : w.Inv) {key : FlowKey} {socket : ℕ} {client : String} {payload pkt : Bytes}
    (hreply : w.udp.replyPacket key socket payload = some pkt)
    (hanswers : (key, socket) ∈ w.udp.readers → w.udp.Answers client socket) :
    (w.enqueue client key.fp pkt).Inv := by
  obtain ⟨owner, hsockets⟩ := h.sockets
  have hreader : (key, socket) ∈ w.udp.readers := by
    unfold UdpFlows.replyPacket at hreply
    split at hreply
    · rename_i hcond
      exact hcond.1
    · cases hreply
  rw [hsockets.client_of_answers hreader (hanswers hreader)]
  exact h.enqueue key.fp pkt

theorem Inv.step (h : w.Inv) (A : TunnelCipher K) (cfg : VpnConfig) {act : GatewayAct K}
    (hanswers : w.Answers act) : (w.step A cfg act).Inv := by
  obtain ⟨owner, hsockets⟩ := h.sockets
  cases act with
  | handshake now fp endpoint => exact h.onHandshake now fp endpoint
  | disconnect fp =>
      have hevicted : (w.hub.onDisconnect fp).leases.Indexed := h.leases.evict
      exact (h.of_hub hevicted rfl).of_udp ⟨owner, (hsockets.evictFor fp).forgetReaders fp⟩
  | evictAll =>
      have hcleared : w.hub.evictAll.leases.Indexed := h.leases.clear
      exact (h.of_hub hcleared rfl).of_udp ⟨owner, hsockets.clear⟩
  | payload now fp masterKey sessionHash wire src binds =>
      exact h.handleTunnelPayload A cfg now fp masterKey sessionHash wire src binds
  | sweep now => exact h.of_udp ⟨owner, hsockets.sweep now⟩
  | ingest => exact h.of_netstack h.netstack.ingest
  | collect localPort => exact h.of_netstack (h.netstack.collect localPort)
  | emit client request pkt => exact h.of_netstack (h.netstack.emit hanswers)
  | reply key socket client payload =>
      unfold Gateway.step
      dsimp only
      split
      · rename_i hreply
        exact h.reply hreply hanswers
      · exact h
  | readerExits key socket => exact h.of_udp ⟨owner, hsockets.readerExits key socket⟩
  | pollEgress randSeg => exact h.pollEgress A randSeg
  | pollNetstackEgress randSeg => exact h.pollNetstackEgress A randSeg

/-! ### Isolation -/

/-- What a step seals is sealed for the client that it answers. -/
def Isolated (A : TunnelCipher K) (w : Gateway K) (act : GatewayAct K) : Prop :=
  ∀ e, w.emitted A act = some e → w.hub.SealedFor A e.client e.packet e.unit

/-- Of the clients with a session, the source address that the client wrote into the packet that is
answered is that of the client itself, if it is that of any. -/
def OwnAddress (w : Gateway K) : GatewayAct K → Prop
  | .pollNetstackEgress _ =>
      ∀ a ∈ w.netstack.out.head?, ∀ fp ∈ w.hub.sessions.keys,
        w.hub.Receives (srcIp a.request) fp → fp = a.client
  | _ => True

instance (w : Gateway K) (act : GatewayAct K) : Decidable (w.OwnAddress act) :=
  match act with
  | .pollNetstackEgress _ =>
      inferInstanceAs (Decidable (∀ a ∈ w.netstack.out.head?, ∀ fp ∈ w.hub.sessions.keys,
        w.hub.Receives (srcIp a.request) fp → fp = a.client))
  | .handshake .. | .disconnect _ | .evictAll | .payload .. | .sweep _ | .ingest | .collect _
  | .emit .. | .reply .. | .readerExits .. | .pollEgress _ => inferInstanceAs (Decidable True)

theorem Inv.isolated_pollEgress (h : w.Inv) (A : TunnelCipher K) (randSeg : Octets 8) :
    w.Isolated A (.pollEgress randSeg) := by
  intro e he
  obtain ⟨-, ⟨hnone, -⟩ | ⟨u, skipped, pkt, hu, hl, hsealed⟩⟩ :=
    VpnHub.pollQueue_spec A randSeg w.hub.egress w.hub
  · simp only [emitted, VpnHub.pollEgress, hnone] at he
    cases he
  · -- the item that was sealed stands behind those that were skipped
    have hindex : w.hub.egress.length -
        (VpnHub.pollQueue A randSeg w.hub.egress w.hub).2.egress.length - 1 = skipped.length := by
      have hlen := congrArg List.length hl
      rw [List.length_append, List.length_cons] at hlen
      omega
    have hitem : w.hub.egress[skipped.length]? = some (u.fingerprint, pkt) := by
      rw [hl, List.getElem?_append_right le_rfl, Nat.sub_self, List.getElem?_cons_zero]
    have hzip : (w.causes.zip w.hub.egress)[skipped.length]? =
        some (u.fingerprint, u.fingerprint, pkt) := by
      rw [List.getElem?_zip_eq_some, h.causes, List.getElem?_map, hitem]
      exact ⟨rfl, rfl⟩
    simp only [emitted, VpnHub.pollEgress, hu, hindex, hzip, Option.some.injEq] at he
    subst he
    exact hsealed

theorem Inv.isolated_pollNetstackEgress_iff (h : w.Inv) (A : TunnelCipher K) (randSeg : Octets 8) :
    w.Isolated A (.pollNetstackEgress randSeg) ↔ w.OwnAddress (.pollNetstackEgress randSeg) := by
  unfold Isolated OwnAddress emitted
  cases hout : w.netstack.out with
  | nil =>
      constructor
      · intro _ a ha
        cases ha
      · intro _ e he
        cases he
  | cons a rest =>
      obtain ⟨haddressed, hlen⟩ := h.netstack.addressed a (hout ▸ List.mem_cons_self)
      have hreceives : ∀ fp ∈ w.hub.sessions,
          w.hub.recipient (dstIp a.packet) = some fp ↔ w.hub.Receives (srcIp a.request) fp := by
        intro fp hfp
        rw [haddressed]
        exact VpnHub.recipient_eq_some_iff h.leases hfp
      simp only [List.head?_cons, Option.mem_some_iff, forall_eq']
      rcases VpnHub.pollNetstackEgress_spec A w.hub randSeg hlen with
        ⟨hnone, hnobody⟩ | ⟨u, hu, hrecipient, hsealed⟩
      · rw [hnone]
        constructor
        · intro _ fp hfp hto
          have hsession := AList.mem_keys.mpr hfp
          exact absurd ((hreceives fp hsession).mpr hto) (hnobody fp hsession)
        · intro _ e he
          cases he
      · rw [hu]
        have hsession : u.fingerprint ∈ w.hub.sessions := by
          obtain ⟨-, info, hinfo, -⟩ := hsealed
          rw [← AList.lookup_isSome, hinfo]
          rfl
        constructor
        · intro hisolated fp hfp hto
          have hfor := (hreceives fp (AList.mem_keys.mpr hfp)).mpr hto
          obtain rfl : u.fingerprint = fp := Option.some.inj (hrecipient.symm.trans hfor)
          exact (hisolated _ rfl).1
        · intro hown e he
          cases he
          have hto := (hreceives _ hsession).mp hrecipient
          have hclient := hown _ (AList.mem_keys.mp hsession) hto
          show w.hub.SealedFor A a.client a.packet u
          rw [← hclient]
          exact hsealed

theorem Inv.isolated_iff (h : w.Inv) (A : TunnelCipher K) (act : GatewayAct K) :
    w.Isolated A act ↔ w.OwnAddress act := by
  cases act with
  | pollEgress randSeg => exact iff_of_true (h.isolated_pollEgress A randSeg) trivial
  | pollNetstackEgress randSeg => exact h.isolated_pollNetstackEgress_iff A randSeg
  | _ =>
      refine iff_of_true (fun e he => ?_) trivial
      cases he

/-- In every run in which the TCP stack and the LAN answer what they were given, everything is
sealed for the client that it answers exactly as long as no packet of the stack is taken while the
address that its request came from belongs to another client. -/
theorem isolated_iff_ownAddress (A : TunnelCipher K) (cfg : VpnConfig)
    (allowedFingerprints : List String) (acts : List (GatewayAct K))
    (hanswers : Always (step A cfg) Answers (start allowedFingerprints) acts) :
    Always (step A cfg) (Isolated A) (start allowedFingerprints) acts ↔
      Always (step A cfg) OwnAddress (start allowedFingerprints) acts := by
  have hpres : ∀ (w : Gateway K) act, w.Inv → w.Answers act → (w.step A cfg act).Inv :=
    fun w act h hanswers => h.step A cfg hanswers
  constructor
  · intro hisolated
    exact Always.of_invariant Inv (fun w act h hboth => hpres w act h hboth.1)
      (fun w act h hboth => (h.isolated_iff A act).mp hboth.2)
      (inv_start allowedFingerprints) (hanswers.and hisolated)
  · intro hown
    exact Always.of_invariant Inv (fun w act h hboth => hpres w act h hboth.1)
      (fun w act h hboth => (h.isolated_iff A act).mpr hboth.2)
      (inv_start allowedFingerprints) (hanswers.and hown)

/-! ### Two clients -/

def lanConfig : VpnConfig where
  hubOverlay := hubAddr
  dnsServer := ⟨[192, 168, 1, 1], rfl⟩

def server : Octets 4 := ⟨[192, 168, 1, 50], by decide⟩

def tcpPacket (src : Octets 4) (srcPort : ℕ) (dst : Octets 4) (dstPort : ℕ) (flags : UInt8) : Bytes :=
  fixChecksums ([0x45, 0] ++ toBeBytes 2 40 ++ [0, 0, 0, 0, 64, 6, 0, 0] ++ src.toList ++ dst.toList ++
    toBeBytes 2 srcPort ++ toBeBytes 2 dstPort ++ List.replicate 8 0 ++ [0x50, flags] ++
    [0xFF, 0xFF, 0, 0, 0, 0]) 20 true

/-- A client sends an inner packet, as the first of its epoch 1. -/
def sends (fp : String) (masterKey : UInt8) (pkt : Bytes) : GatewayAct UInt8 :=
  .payload 0 fp masterKey (List.Vector.replicate 4 0)
    (sealDatagram .labelled masterKey 1 1 (List.Vector.replicate 8 0) pkt) unspecified true

/-- A client opens a connection to the server, from an address of its choice. -/
def syn (src : Octets 4) : Bytes :=
  tcpPacket src 51234 server 445 0x02

/-- The answer of the stack to the first flow. -/
def synAck : Bytes :=
  tcpPacket netstackAddr firstLocalPort natAddr 51234 0x12

/-- A client connects from the address in its lease. -/
def ownAddressRun : List (GatewayAct UInt8) :=
  [sends "alice" 7 (syn (overlayIp 11)), .ingest, .emit "alice" (syn (overlayIp 11)) synAck,
    .pollNetstackEgress (List.Vector.replicate 8 0)]

theorem ownAddressRun_isolated :
    Always (step .labelled lanConfig) (Isolated .labelled) (start ["*"]) ownAddressRun :=
  (isolated_iff_ownAddress .labelled lanConfig ["*"] ownAddressRun (by decide +kernel)).mpr
    (by decide +kernel)

/-- One client takes an address for its lease, and another one connects from that address. -/
def borrowedAddressRun : List (GatewayAct UInt8) :=
  [sends "alice" 7 (syn (overlayIp 11)), .ingest,
    sends "mallory" 8 (tcpPacket (overlayIp 11) 40000 server 80 0x02), .ingest,
    .emit "mallory" (tcpPacket (overlayIp 11) 40000 server 80 0x02)
      (tcpPacket netstackAddr (firstLocalPort + 1) natAddr 40000 0x12)]

/-- What answers the second client is sealed for the first. -/
theorem borrowed_address_misdelivers :
    Always (step .labelled lanConfig) Answers (start ["*"]) borrowedAddressRun ∧
      ((borrowedAddressRun.foldl (step .labelled lanConfig) (start ["*"])).emitted .labelled
        (.pollNetstackEgress (List.Vector.replicate 8 0))).map (fun e =>
          (e.client, e.unit.fingerprint)) = some ("mallory", "alice") ∧
      ¬ Always (step .labelled lanConfig) (Isolated .labelled) (start ["*"])
        (borrowedAddressRun ++ [.pollNetstackEgress (List.Vector.replicate 8 0)]) := by
  have hanswers : Always (step .labelled lanConfig) Answers (start ["*"]) borrowedAddressRun := by
    decide +kernel
  have hemitted : ((borrowedAddressRun.foldl (step .labelled lanConfig) (start ["*"])).emitted
      .labelled (.pollNetstackEgress (List.Vector.replicate 8 0))).map (fun e =>
        (e.client, e.unit.fingerprint)) = some ("mallory", "alice") := by
    decide +kernel
  refine ⟨hanswers, hemitted, fun h => ?_⟩
  have hlast := ((always_append _ _ _ _ _).mp h).2.1
  obtain ⟨e, he, hwho⟩ := Option.map_eq_some_iff.mp hemitted
  obtain ⟨hfingerprint, -⟩ := hlast e he
  obtain ⟨hclient, hunit⟩ := Prod.mk.inj hwho
  rw [hclient, hunit] at hfingerprint
  exact absurd hfingerprint (by decide)

end Gateway

end Vantablack.Vpn
