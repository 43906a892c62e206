import Vantablack.Handshake.HandlePkt
import Vantablack.Net.Beacon

/-!
The beacon listener of `main.rs`. It verifies the signature of a beacon, which is over the public key
alone, and then acts on the sections that follow: it pins a post-quantum commitment, keeps an ICE
offer and marks a relay, all under the fingerprint of the key.

The signature, the membership proof with its clock and the decoding of an offer are parameters. The
connectivity checks and the handshake that a new peer starts are left out.
-/

namespace Vantablack.Net

open Lib Layers Handshake Receive

/-- What the listener calls. -/
structure BeaconChecks (Offer : Type) where
  verifyPeerSignature : Octets 32 → Bytes → Octets 64 → Bool
  verifyProof : Octets 32 → Option (Octets 32) → Octets 32 → Octets 64 → Bool
  decodeOffer : String → Option Offer

/-- What does not change while the listener runs. `relayRole` says that the node has a relay role,
`localAddr` is its own address if it parses. -/
structure ListenerConfig where
  fingerprint : String
  zkRequired : Bool
  psk : Option (Octets 32)
  relayRole : Bool
  localAddr : Option SocketAddr

/-- What the listener has learned, by fingerprint. A peer of the NAT puncher is kept with its public
address and ours. -/
structure BeaconListener (Offer : Type) where
  pins : Table String (Octets 32)
  natPeers : Table String (SocketAddr × SocketAddr)
  relayCandidates : Table String SocketAddr
  authorized : Table String SocketAddr
  offers : Table String Offer

variable {Offer : Type}

namespace BeaconListener

def start : BeaconListener Offer where
  pins := ∅
  natPeers := ∅
  relayCandidates := ∅
  authorized := ∅
  offers := ∅

/-- `Carrier::pin_commitment`: the first commitment stays. -/
def pinCommitment (s : BeaconListener Offer) (fp : String) (commitment : Octets 32) :
    BeaconListener Offer :=
  match s.pins.lookup fp with
  | none => { s with pins := s.pins.insert fp commitment }
  | some _ => s

def registerPeer (s : BeaconListener Offer) (cfg : ListenerConfig) (fp : String)
    (src : SocketAddr) : BeaconListener Offer :=
  match cfg.localAddr with
  | some localAddr => { s with natPeers := s.natPeers.insert fp (src, localAddr) }
  | none => s

def noteRelay (s : BeaconListener Offer) (cfg : ListenerConfig) (fp : String) (src : SocketAddr)
    (advertisesRelay : Bool) : BeaconListener Offer :=
  if cfg.relayRole then
    { s with
      relayCandidates :=
        if advertisesRelay then s.relayCandidates.insert fp src else s.relayCandidates
      authorized := s.authorized.insert fp src }
  else s

def setIceOffer (s : BeaconListener Offer) (K : BeaconChecks Offer) (fp : String)
    (peerOffer : Option String) : BeaconListener Offer :=
  match peerOffer.bind K.decodeOffer with
  | some offer => { s with offers := s.offers.insert fp offer }
  | none => s

/-- What happens to a beacon that was not dropped. -/
def discovered (s : BeaconListener Offer) (K : BeaconChecks Offer) (cfg : ListenerConfig)
    (fp : String) (src : SocketAddr) (advertisesRelay : Bool) (peerOffer : Option String) :
    BeaconListener Offer :=
  if fp = cfg.fingerprint then s
  else ((s.registerPeer cfg fp src).noteRelay cfg fp src advertisesRelay).setIceOffer K fp peerOffer

/-- What the listener does with the key of a beacon whose signature is good. -/
def onSections (s : BeaconListener Offer) (K : BeaconChecks Offer) (cfg : ListenerConfig)
    (src : SocketAddr) (pk : Octets 32) : Option BeaconSections → BeaconListener Offer
  | some sections =>
      let fp := fingerprint pk
      -- the commitment is pinned before the proof is looked at
      let s := match sections.pqCommitment with
        | some commitment => s.pinCommitment fp commitment
        | none => s
      match sections.zk with
      | some (context, proof) =>
          if !K.verifyProof pk cfg.psk context proof then s
          else s.discovered K cfg fp src sections.relayCapable sections.iceOffer
      | none =>
          if cfg.zkRequired then s
          else s.discovered K cfg fp src sections.relayCapable sections.iceOffer
  | none => if cfg.zkRequired then s else s.discovered K cfg (fingerprint pk) src false none

/-- The buffer of the listener; the rest of a longer datagram is cut off. -/
def beaconBufLen : ℕ := 1472

/-- The key of a datagram that passes for a beacon. -/
def beaconKey (K : BeaconChecks Offer) (data : Bytes) : Option (Octets 32) := do
  if data.length < beaconLegacyLen then none
  if !beaconPrefix.isPrefixOf data then none
  let pk ← blockAt data 16 32
  let sig ← blockAt data 48 64
  if K.verifyPeerSignature pk pk.toList sig then some pk else none

/-- A datagram from `src`. -/
def onBeacon (K : BeaconChecks Offer) (cfg : ListenerConfig) (s : BeaconListener Offer)
    (datagram : SocketAddr × Bytes) : BeaconListener Offer :=
  let data := datagram.2.take beaconBufLen
  match beaconKey K data with
  | some pk => s.onSections K cfg datagram.1 pk (parseBeaconSections data)
  | none => s

/-! ### Whose word it is -/

variable (made : Octets 32 → BeaconSections → Prop) (K : BeaconChecks Offer)

/-- All that the listener keeps under a fingerprint was put into a beacon by the holder of an identity
key with that fingerprint. `made pk b` says that the holder of `pk` made a beacon with the sections
`b`. -/
structure Authentic (s : BeaconListener Offer) : Prop where
  pins : ∀ fp commitment, s.pins.lookup fp = some commitment →
    ∃ pk b, fingerprint pk = fp ∧ made pk b ∧ b.pqCommitment = some commitment
  offers : ∀ fp offer, s.offers.lookup fp = some offer →
    ∃ pk b text, fingerprint pk = fp ∧ made pk b ∧ b.iceOffer = some text ∧
      K.decodeOffer text = some offer
  relays : ∀ fp addr, s.relayCandidates.lookup fp = some addr →
    ∃ pk b, fingerprint pk = fp ∧ made pk b ∧ b.relayCapable = true

/-- Every section of a datagram that passes for a beacon of `pk`, a membership proof apart, is one
that the holder of `pk` put into a beacon. -/
def Unspliced (datagram : SocketAddr × Bytes) : Prop :=
  ∀ pk sections, beaconKey K (datagram.2.take beaconBufLen) = some pk →
    Tiles ((datagram.2.take beaconBufLen).drop beaconLegacyLen) sections →
      ∀ x ∈ sections, x.1 ≠ beaconSectionZk → ∃ b, made pk b ∧ x ∈ b.toList

theorem authentic_start : (start : BeaconListener Offer).Authentic made K where
  pins _ _ h := by simp [start] at h
  offers _ _ h := by simp [start] at h
  relays _ _ h := by simp [start] at h

/-- What is parsed from a datagram that is not spliced was put into beacons by the holder of its
key. -/
structure FromHolder (pk : Octets 32) (sections : BeaconSections) : Prop where
  pqCommitment : ∀ c, sections.pqCommitment = some c → ∃ b, made pk b ∧ b.pqCommitment = some c
  iceOffer : ∀ text, sections.iceOffer = some text → ∃ b, made pk b ∧ b.iceOffer = some text
  relayCapable : sections.relayCapable = true → ∃ b, made pk b ∧ b.relayCapable = true

end BeaconListener

variable {b : BeaconSections}

theorem pqCommitment_of_mem {c : Octets 32} (h : (beaconSectionPqCommit, c.toList) ∈ b.toList) :
    b.pqCommitment = some c := by
  rcases mem_toList.mp h with ⟨zk, -, heq⟩ | ⟨offer, -, heq⟩ | ⟨-, heq⟩ | ⟨c', hc', heq⟩
  · exact (show beaconSectionPqCommit ≠ beaconSectionZk by decide).elim (congrArg Prod.fst heq)
  · exact (show beaconSectionPqCommit ≠ beaconSectionIce by decide).elim (congrArg Prod.fst heq)
  · exact (show beaconSectionPqCommit ≠ beaconSectionRelay by decide).elim (congrArg Prod.fst heq)
  · rw [hc', Block.toList_inj.mp (congrArg Prod.snd heq)]

theorem iceOffer_of_mem {text : String} (h : (beaconSectionIce, utf8 text) ∈ b.toList) :
    b.iceOffer = some text := by
  rcases mem_toList.mp h with ⟨zk, -, heq⟩ | ⟨offer, hoffer, heq⟩ | ⟨-, heq⟩ | ⟨c, -, heq⟩
  · exact (show beaconSectionIce ≠ beaconSectionZk by decide).elim (congrArg Prod.fst heq)
  · rw [hoffer, utf8_inj (congrArg Prod.snd heq)]
  · exact (show beaconSectionIce ≠ beaconSectionRelay by decide).elim (congrArg Prod.fst heq)
  · exact (show beaconSectionIce ≠ beaconSectionPqCommit by decide).elim (congrArg Prod.fst heq)

theorem relayCapable_of_mem (h : (beaconSectionRelay, []) ∈ b.toList) : b.relayCapable = true := by
  rcases mem_toList.mp h with ⟨zk, -, heq⟩ | ⟨offer, -, heq⟩ | ⟨hrelay, -⟩ | ⟨c, -, heq⟩
  · exact (show beaconSectionRelay ≠ beaconSectionZk by decide).elim (congrArg Prod.fst heq)
  · exact (show beaconSectionRelay ≠ beaconSectionIce by decide).elim (congrArg Prod.fst heq)
  · exact hrelay
  · exact (show beaconSectionRelay ≠ beaconSectionPqCommit by decide).elim (congrArg Prod.fst heq)

namespace BeaconListener

variable {made : Octets 32 → BeaconSections → Prop} {K : BeaconChecks Offer}

theorem fromHolder_of_unspliced {datagram : SocketAddr × Bytes} (h : Unspliced made K datagram)
    {pk : Octets 32} {sections : BeaconSections}
    (hkey : beaconKey K (datagram.2.take beaconBufLen) = some pk)
    (hparse : parseBeaconSections (datagram.2.take beaconBufLen) = some sections) :
    FromHolder made pk sections := by
  obtain ⟨tiles, htiles, hmem⟩ := tiles_of_parseBeaconSections hparse
  have hmade := h pk tiles hkey htiles
  constructor
  · intro c hc
    obtain ⟨b, hb, hx⟩ := hmade (beaconSectionPqCommit, c.toList)
      (hmem _ (mem_toList.mpr (.inr (.inr (.inr ⟨c, hc, rfl⟩)))))
      (show beaconSectionPqCommit ≠ beaconSectionZk by decide)
    exact ⟨b, hb, pqCommitment_of_mem hx⟩
  · intro text htext
    obtain ⟨b, hb, hx⟩ := hmade (beaconSectionIce, utf8 text)
      (hmem _ (mem_toList.mpr (.inr (.inl ⟨text, htext, rfl⟩))))
      (show beaconSectionIce ≠ beaconSectionZk by decide)
    exact ⟨b, hb, iceOffer_of_mem hx⟩
  · intro hrelay
    obtain ⟨b, hb, hx⟩ := hmade (beaconSectionRelay, [])
      (hmem _ (mem_toList.mpr (.inr (.inr (.inl ⟨hrelay, rfl⟩)))))
      (show beaconSectionRelay ≠ beaconSectionZk by decide)
    exact ⟨b, hb, relayCapable_of_mem hx⟩

namespace Authentic

variable {s : BeaconListener Offer} (h : s.Authentic made K) {cfg : ListenerConfig}
  {pk : Octets 32} {src : SocketAddr}

include h

theorem pinCommitment {commitment : Octets 32}
    (hb : ∃ b, made pk b ∧ b.pqCommitment = some commitment) :
    (s.pinCommitment (fingerprint pk) commitment).Authentic made K := by
  unfold BeaconListener.pinCommitment
  split
  · refine ⟨fun fp c hlookup => ?_, h.offers, h.relays⟩
    rcases Table.lookup_insert_eq_some.mp hlookup with ⟨rfl, rfl⟩ | ⟨-, hold⟩
    · obtain ⟨b, hmade, hc⟩ := hb
      exact ⟨pk, b, rfl, hmade, hc⟩
    · exact h.pins fp c hold
  · exact h

theorem registerPeer : (s.registerPeer cfg (fingerprint pk) src).Authentic made K := by
  unfold BeaconListener.registerPeer
  split
  · exact ⟨h.pins, h.offers, h.relays⟩
  · exact h

theorem noteRelay {advertisesRelay : Bool}
    (hb : advertisesRelay = true → ∃ b, made pk b ∧ b.relayCapable = true) :
    (s.noteRelay cfg (fingerprint pk) src advertisesRelay).Authentic made K := by
  unfold BeaconListener.noteRelay
  split
  · refine ⟨h.pins, h.offers, fun fp addr hlookup => ?_⟩
    simp only [] at hlookup
    split at hlookup
    · rename_i hadvertises
      rcases Table.lookup_insert_eq_some.mp hlookup with ⟨rfl, -⟩ | ⟨-, hold⟩
      · obtain ⟨b, hmade, hrelay⟩ := hb hadvertises
        exact ⟨pk, b, rfl, hmade, hrelay⟩
      · exact h.relays fp addr hold
    · exact h.relays fp addr hlookup
  · exact h

theorem setIceOffer {peerOffer : Option String}
    (hb : ∀ text, peerOffer = some text → ∃ b, made pk b ∧ b.iceOffer = some text) :
    (s.setIceOffer K (fingerprint pk) peerOffer).Authentic made K := by
  unfold BeaconListener.setIceOffer
  split
  · rename_i offer hoffer
    obtain ⟨text, htext, hdecode⟩ := Option.bind_eq_some_iff.mp hoffer
    refine ⟨h.pins, fun fp o hlookup => ?_, h.relays⟩
    rcases Table.lookup_insert_eq_some.mp hlookup with ⟨rfl, rfl⟩ | ⟨-, hold⟩
    · obtain ⟨b, hmade, hice⟩ := hb text htext
      exact ⟨pk, b, text, rfl, hmade, hice, hdecode⟩
    · exact h.offers fp o hold
  · exact h

theorem discovered {advertisesRelay : Bool} {peerOffer : Option String}
    (hrelay : advertisesRelay = true → ∃ b, made pk b ∧ b.relayCapable = true)
    (hoffer : ∀ text, peerOffer = some text → ∃ b, made pk b ∧ b.iceOffer = some text) :
    (s.discovered K cfg (fingerprint pk) src advertisesRelay peerOffer).Authentic made K := by
  unfold BeaconListener.discovered
  split
  · exact h
  · exact (h.registerPeer.noteRelay hrelay).setIceOffer hoffer

theorem onSections {parsed : Option BeaconSections}
    (hfrom : ∀ sections, parsed = some sections → FromHolder made pk sections) :
    (s.onSections K cfg src pk parsed).Authentic made K := by
  match parsed with
  | none =>
      simp only [BeaconListener.onSections]
      split
      · exact h
      · exact h.discovered (fun hfalse => by cases hfalse) (fun _ hnone => by cases hnone)
  | some sections =>
      have hholder := hfrom sections rfl
      have hpinned : (match sections.pqCommitment with
          | some commitment => s.pinCommitment (fingerprint pk) commitment
          | none => s).Authentic made K := by
        split
        · rename_i c hc
          exact h.pinCommitment (hholder.pqCommitment c hc)
        · exact h
      simp only [BeaconListener.onSections]
      split
      · split
        · exact hpinned
        · exact hpinned.discovered hholder.relayCapable hholder.iceOffer
      · split
        · exact hpinned
        · exact hpinned.discovered hholder.relayCapable hholder.iceOffer

theorem onBeacon {datagram : SocketAddr × Bytes} (hd : Unspliced made K datagram) :
    (s.onBeacon K cfg datagram).Authentic made K := by
  simp only [BeaconListener.onBeacon]
  split
  · rename_i pk hkey
    exact h.onSections fun sections hparse => fromHolder_of_unspliced hd hkey hparse
  · exact h

end Authentic

theorem beaconKey_buildBeaconPacket {pk pk' : Octets 32} {signer : Bytes → Octets 64}
    {b : BeaconSections} (h : beaconKey K (buildBeaconPacket pk signer b) = some pk') :
    pk' = pk := by
  have hrest : RestAt (buildBeaconPacket pk signer b) 16
      (pk.toList ++ ((signer pk.toList).toList ++
        b.toList.flatMap fun x => sectionBytes x.1 x.2)) := by
    have hstart := RestAt.start (buildBeaconPacket pk signer b)
    nth_rewrite 2 [buildBeaconPacket_eq] at hstart
    simp only [List.append_assoc] at hstart
    exact hstart.skip (show beaconPrefix.length = 16 by decide)
  unfold beaconKey at h
  simp only [hrest.blockAt] at h
  split at h
  · cases h
  split at h
  · cases h
  obtain ⟨key, hkey, h⟩ := Option.bind_eq_some_iff.mp h
  obtain ⟨sig, -, hsig⟩ := Option.bind_eq_some_iff.mp h
  cases hkey
  split at hsig
  · exact (Option.some.inj hsig).symm
  · cases hsig

theorem unspliced_buildBeaconPacket {pk : Octets 32} {b : BeaconSections} (hmade : made pk b)
    (hfits : b.Fits) (signer : Bytes → Octets 64) (src : SocketAddr)
    (hlen : (buildBeaconPacket pk signer b).length ≤ beaconBufLen) :
    Unspliced made K (src, buildBeaconPacket pk signer b) := by
  intro pk' sections hkey htiles x hx _
  rw [List.take_of_length_le hlen] at hkey htiles
  rw [beaconKey_buildBeaconPacket hkey]
  rw [htiles.unique (tiles_buildBeaconPacket pk signer hfits)] at hx
  exact ⟨b, hmade, hx⟩

/-- In every run of the listener in which each section of each datagram is one that the holder of its
key put into a beacon, so is all that the listener keeps. -/
theorem listener_authentic (cfg : ListenerConfig) (datagrams : List (SocketAddr × Bytes))
    (h : Always (onBeacon K cfg) (fun _ d => Unspliced made K d) start datagrams) :
    Always (onBeacon K cfg) (fun s d => (s.onBeacon K cfg d).Authentic made K) start datagrams :=
  Always.of_invariant (Authentic made K) (fun _ _ hs hd => hs.onBeacon hd)
    (fun _ _ hs hd => hs.onBeacon hd) (authentic_start made K) h

/-! ### An overheard beacon -/

def alice : Octets 32 := .replicate 32 1

def aliceAddr : SocketAddr := { ip := .v4 ⟨[192, 168, 1, 20], rfl⟩, port := 2270 }

def malloryAddr : SocketAddr := { ip := .v4 ⟨[192, 168, 1, 66], rfl⟩, port := 2270 }

def aliceSigner (_ : Bytes) : Octets 64 := .replicate 64 2

def aliceSections : BeaconSections where
  zk := none
  iceOffer := none
  relayCapable := false
  pqCommitment := some (.replicate 32 3)

/-- The one signature there is, is alice's over her key. -/
def aliceChecks : BeaconChecks String where
  verifyPeerSignature pk msg sig :=
    pk = alice ∧ msg = alice.toList ∧ sig = aliceSigner alice.toList
  verifyProof _ _ _ _ := false
  decodeOffer := some

def bob : ListenerConfig where
  fingerprint := "0909090909090909"
  zkRequired := false
  psk := none
  relayRole := true
  localAddr := none

theorem alice_authentic :
    Always (onBeacon aliceChecks bob)
      (fun s d => (s.onBeacon aliceChecks bob d).Authentic
        (fun pk b => pk = alice ∧ b = aliceSections) aliceChecks)
      start [(aliceAddr, buildBeaconPacket alice aliceSigner aliceSections)] :=
  listener_authentic bob _ ⟨unspliced_buildBeaconPacket ⟨rfl, rfl⟩
    (fun _ h => by cases h) aliceSigner aliceAddr (by decide +kernel), trivial⟩

/-- The signed prefix of alice's beacon with a section of another hand. -/
def splicedBeacon : Bytes :=
  (buildBeaconPacket alice aliceSigner aliceSections).take beaconLegacyLen ++
    sectionBytes beaconSectionPqCommit (List.replicate 32 9)

/-- No signature is forged, and a commitment is pinned for alice that she never put into a beacon. -/
theorem spliced_commitment_pinned :
    (∀ pk sig, aliceChecks.verifyPeerSignature pk pk.toList sig = true →
      pk = alice ∧ sig = aliceSigner alice.toList) ∧
    ¬ Always (onBeacon aliceChecks bob)
      (fun s d => (s.onBeacon aliceChecks bob d).Authentic
        (fun pk b => pk = alice ∧ b = aliceSections) aliceChecks)
      start [(malloryAddr, splicedBeacon)] := by
  constructor
  · intro pk sig h
    obtain ⟨hpk, -, hsig⟩ := of_decide_eq_true h
    exact ⟨hpk, hsig⟩
  · intro h
    have hpinned : ((start.onBeacon aliceChecks bob (malloryAddr, splicedBeacon)).pins.lookup
        (fingerprint alice)) = some (.replicate 32 9) := by decide +kernel
    obtain ⟨pk, b, -, ⟨-, rfl⟩, hc⟩ := h.1.pins _ _ hpinned
    exact absurd hc (by decide)

end BeaconListener

end Vantablack.Net
