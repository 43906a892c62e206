import Vantablack.Send.RoundTrip
import Vantablack.Vpn.Client
import Vantablack.Vpn.Hub

/-!
Which inner packets the tunnel carries. The hub seals whatever it is given and the frame has room to
spare, but the client takes twenty bytes off the MTU for a header that is not part of the packet.
-/

namespace Vantablack.Vpn

open Lib Layers Receive Send

variable {C : Crypto}

def vpnPayloadMagic : Octets 5 :=
  ⟨utf8 "GVPN1", by decide +kernel⟩

/-- A datagram was produced, and it fits a bulk frame. -/
def Carried (B : Aead C) (ctx : SealCtx C) (wire : Option Bytes) : Prop :=
  ∃ w frame, wire = some w ∧ sealSingle B ctx (vpnPayloadMagic.toList ++ w) = .ok frame ∧
    frame.length = 1472

theorem carried_sealDatagram {A : TunnelCipher C.Key} (hA : A.Lawful) {B : Aead C} (hB : B.Lawful)
    (ctx : SealCtx C) (key : C.Key) (epoch ctr : ℕ) (randSeg : Octets 8) {ipPacket : Bytes}
    (hmtu : ipPacket.length ≤ tunMtu) :
    Carried B ctx (some (sealDatagram A key epoch ctr randSeg ipPacket)) := by
  have hlen : (vpnPayloadMagic.toList ++ sealDatagram A key epoch ctr randSeg ipPacket).length ≤
      1398 := by
    rw [List.length_append, length_sealDatagram A key randSeg ipPacket hA,
      List.Vector.toList_length]
    have : tunMtu = 1280 := rfl
    omega
  obtain ⟨frame, hframe, hsize⟩ := sealSingle_eq_ok hB ctx hlen
  exact ⟨_, frame, rfl, hframe, hsize⟩

theorem carried_sealForClient {A : TunnelCipher C.Key} (hA : A.Lawful) {B : Aead C}
    (hB : B.Lawful) (ctx : SealCtx C) {h : VpnHub C.Key} {fp : String} (hfp : fp ∈ h.sessions)
    (randSeg : Octets 8) {ipPacket : Bytes} (hmtu : ipPacket.length ≤ tunMtu) :
    Carried B ctx (h.sealForClient A randSeg fp ipPacket).1 := by
  obtain ⟨info, hinfo⟩ := Option.isSome_iff_exists.mp (AList.lookup_isSome.mpr hfp)
  rw [VpnHub.sealForClient, hinfo]
  exact carried_sealDatagram hA hB ctx _ _ _ randSeg hmtu

/-- Of the packets within the MTU, both directions carry exactly those that leave room for the
header of the datagram. -/
theorem carried_iff {A : TunnelCipher C.Key} (hA : A.Lawful) {B : Aead C} (hB : B.Lawful)
    (ctx ctx' : SealCtx C) (s : ClientState C.Key) (h : VpnHub C.Key) (fp : String)
    (hfp : fp ∈ h.sessions) (randSeg randSeg' : Octets 8) (ipPacket : Bytes)
    (hmtu : ipPacket.length ≤ tunMtu) :
    (Carried B ctx (s.sealFromTun A randSeg ipPacket).1 ∧
        Carried B ctx' (h.sealForClient A randSeg' fp ipPacket).1) ↔
      ipPacket.length + tunnelHdrLen ≤ tunMtu := by
  have hmax : ipPacket.length + tunnelHdrLen ≤ tunMtu ↔ ¬ maxIpPacket < ipPacket.length := by
    have : maxIpPacket = 1260 := rfl
    have : tunMtu = 1280 := rfl
    have : tunnelHdrLen = 20 := rfl
    omega
  rw [hmax]
  constructor
  · rintro ⟨⟨w, frame, hw, -, -⟩, -⟩ hbig
    rw [ClientState.sealFromTun, if_pos hbig] at hw
    cases hw
  · intro hsmall
    refine ⟨?_, carried_sealForClient hA hB ctx' hfp randSeg' hmtu⟩
    rw [ClientState.sealFromTun, if_neg hsmall]
    exact carried_sealDatagram hA hB ctx _ _ _ randSeg hmtu

def plainTunnel : TunnelCipher Crypto.symbolic.Key :=
  .tagging fun _ _ => List.Vector.replicate 16 0

def hubOfPhone : VpnHub Crypto.symbolic.Key :=
  { VpnHub.start (K := Crypto.symbolic.Key) ["phone"] with
    sessions := (∅ : Table String (ClientSession Crypto.symbolic.Key)).insert "phone"
      { masterKey := Term.master 7, sessionHash := List.Vector.replicate 4 0
        endpoint := localhost } }

/-- A TCP segment over IPv4 with `n` bytes of data, less its addresses, ports and checksums. -/
def segment (n : ℕ) : Bytes :=
  [0x45, 0] ++ toBeBytes 2 (40 + n) ++ List.replicate 4 0 ++ [64, 6] ++ List.replicate 10 0 ++
    List.replicate 12 0 ++ [0x50, 0x10] ++ List.replicate 6 0 ++ List.replicate n 0

theorem length_segment (n : ℕ) : (segment n).length = 40 + n := by
  simp [segment]
  omega

def phone : ClientState Crypto.symbolic.Key :=
  .new "hub" (Term.master 7)

theorem phone_mem_sessions : "phone" ∈ hubOfPhone.sessions :=
  (AList.mem_insert _).mpr (Or.inl rfl)

theorem carried_of_small_segment :
    Carried firstAead firstCtx
        (phone.sealFromTun plainTunnel (List.Vector.replicate 8 0) (segment 1220)).1 ∧
      Carried firstAead firstCtx
        (hubOfPhone.sealForClient plainTunnel (List.Vector.replicate 8 0) "phone" (segment 1220)).1 :=
  (carried_iff (TunnelCipher.tagging_lawful _) (Aead.tagging_lawful _ _) firstCtx firstCtx phone
    hubOfPhone "phone" phone_mem_sessions _ _ (segment 1220)
    (by rw [length_segment]; decide)).mpr (by rw [length_segment]; decide)

/-- A segment with as much data as the MSS allows is within the MTU, and the client refuses it. -/
theorem full_segment_refused :
    (segment overlayMss).length ≤ tunMtu ∧
      (phone.sealFromTun plainTunnel (List.Vector.replicate 8 0) (segment overlayMss)).1 = none ∧
      ¬ Carried firstAead firstCtx
        (phone.sealFromTun plainTunnel (List.Vector.replicate 8 0) (segment overlayMss)).1 := by
  have hrefused : (phone.sealFromTun plainTunnel (List.Vector.replicate 8 0)
      (segment overlayMss)).1 = none := by
    rw [ClientState.sealFromTun, if_pos]
    rw [length_segment]
    decide
  refine ⟨by rw [length_segment]; decide, hrefused, ?_⟩
  rw [hrefused]
  rintro ⟨w, frame, hw, -, -⟩
  cases hw

end Vantablack.Vpn
