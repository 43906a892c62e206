import Vantablack.Vpn.Checksums

/-!
The UDP packets that a VPN hub builds around what comes back from the LAN, `build_udp_packet` of
`net/vpn/hub.rs`, field by field. Two things are not looked at there: the length of the whole packet,
which has 16 bits as that of the UDP part has, and a checksum that comes out as zero.
-/

namespace Vantablack.Vpn

open Lib Layers

/-- An IPv4 packet without options around a UDP datagram that carries a checksum. -/
structure IsUdpPacket (pkt : Bytes) : Prop where
  version : ipVersion pkt = 4
  header : ihl pkt = 20
  proto : ipProto pkt = 17
  totalLength : u16At pkt 2 = pkt.length
  udpLength : u16At pkt 24 = pkt.length - 20
  headerSum : internetChecksum (pkt.take 20) = 0
  udpSum : internetChecksum (pseudoPacket pkt 20) = 0
  summed : u16At pkt 26 ≠ 0

theorem u16At_of_restAt {pkt rest : Bytes} {i n : ℕ} (h : RestAt pkt i (toBeBytes 2 n ++ rest)) :
    u16At pkt i = n % 2 ^ 16 := by
  rw [u16At, h.2, List.take_left' (length_toBeBytes 2 n)]
  exact fromBeBytes_toBeBytes_mod 2 n

theorem headD_overwrite {pkt bs : Bytes} {i : ℕ} (h : 0 < i) :
    (overwrite pkt i bs).headD 0 = pkt.headD 0 :=
  headD_congr (getElem?_overwrite_of_outside (Or.inl h))

/-! ### The packet before its checksums -/

def unsummed (srcIp : Octets 4) (srcPort : ℕ) (dstIp : Octets 4) (dstPort : ℕ) (payload : Bytes) :
    Bytes :=
  [0x45, 0] ++ toBeBytes 2 (20 + (8 + payload.length)) ++ [0, 0, 0, 0, 64, 17, 0, 0] ++
    srcIp.toList ++ dstIp.toList ++ toBeBytes 2 srcPort ++ toBeBytes 2 dstPort ++
    toBeBytes 2 (8 + payload.length) ++ [0, 0] ++ payload

section Unsummed

variable (srcIp dstIp : Octets 4) (srcPort dstPort : ℕ) (payload : Bytes)

theorem length_unsummed :
    (unsummed srcIp srcPort dstIp dstPort payload).length = 28 + payload.length := by
  simp only [unsummed, List.length_append, List.length_cons, List.length_nil, length_toBeBytes,
    srcIp.toList_length, dstIp.toList_length]

theorem restAt_unsummed_addresses : RestAt (unsummed srcIp srcPort dstIp dstPort payload) 12
    ((srcIp.toList ++ dstIp.toList) ++ (toBeBytes 2 srcPort ++ (toBeBytes 2 dstPort ++
      (toBeBytes 2 (8 + payload.length) ++ ([0, 0] ++ payload))))) :=
  ⟨by rw [length_unsummed]; omega, by simp only [unsummed, List.append_assoc]; rfl⟩

theorem restAt_unsummed_ports : RestAt (unsummed srcIp srcPort dstIp dstPort payload) 20
    (toBeBytes 2 srcPort ++ (toBeBytes 2 dstPort ++
      (toBeBytes 2 (8 + payload.length) ++ ([0, 0] ++ payload)))) :=
  (restAt_unsummed_addresses srcIp dstIp srcPort dstPort payload).skip (n := 8) (by
    rw [List.length_append, srcIp.toList_length, dstIp.toList_length])

theorem restAt_unsummed_checksum :
    RestAt (unsummed srcIp srcPort dstIp dstPort payload) 26 ([0, 0] ++ payload) :=
  (((restAt_unsummed_ports srcIp dstIp srcPort dstPort payload).skip
    (length_toBeBytes 2 _)).skip (length_toBeBytes 2 _)).skip (length_toBeBytes 2 _)

theorem u16At_unsummed_two : u16At (unsummed srcIp srcPort dstIp dstPort payload) 2 =
    (28 + payload.length) % 2 ^ 16 := by
  have hrest : RestAt (unsummed srcIp srcPort dstIp dstPort payload) 2
      (toBeBytes 2 (20 + (8 + payload.length)) ++
        (unsummed srcIp srcPort dstIp dstPort payload).drop 4) :=
    ⟨by rw [length_unsummed]; omega, by simp only [unsummed, List.append_assoc]; rfl⟩
  rw [u16At_of_restAt hrest, show 20 + (8 + payload.length) = 28 + payload.length by omega]

theorem u16At_unsummed_udpLength : u16At (unsummed srcIp srcPort dstIp dstPort payload) 24 =
    (8 + payload.length) % 2 ^ 16 :=
  u16At_of_restAt (((restAt_unsummed_ports srcIp dstIp srcPort dstPort payload).skip
    (length_toBeBytes 2 _)).skip (length_toBeBytes 2 _))

end Unsummed

/-! ### The packet -/

/-- The words that the checksum of the UDP part adds up, its own field left out. -/
def udpSum (srcIp : Octets 4) (srcPort : ℕ) (dstIp : Octets 4) (dstPort : ℕ) (payload : Bytes) : ℕ :=
  sumWords srcIp.toList + sumWords dstIp.toList + 17 + (8 + payload.length) + srcPort + dstPort +
    (8 + payload.length) + sumWords payload

section Built

variable {srcIp dstIp : Octets 4} {srcPort dstPort : ℕ} {payload pkt : Bytes}

theorem pseudoPacket_unsummed :
    pseudoPacket (fixIpChecksum (unsummed srcIp srcPort dstIp dstPort payload) 20) 20 =
      srcIp.toList ++ dstIp.toList ++ [0, 17] ++ toBeBytes 2 (8 + payload.length) ++
        (fixIpChecksum (unsummed srcIp srcPort dstIp dstPort payload) 20).drop 20 := by
  have haddrs := (restAt_unsummed_addresses srcIp dstIp srcPort dstPort payload).2
  have hproto : (unsummed srcIp srcPort dstIp dstPort payload)[9]? = some 17 := rfl
  have hlen : (unsummed srcIp srcPort dstIp dstPort payload).length - 20 = 8 + payload.length := by
    rw [length_unsummed]
    omega
  rw [pseudoPacket, drop_fixIpChecksum _ _ le_rfl, haddrs, List.take_left' (by simp),
    List.getD_eq_getElem?_getD, getElem?_fixIpChecksum _ _ (Or.inl (by norm_num)), hproto,
    length_fixIpChecksum, hlen]
  rfl

theorem sumWords_pseudoPacket (hsrc : srcPort < 2 ^ 16) (hdst : dstPort < 2 ^ 16)
    (h : 8 + payload.length ≤ 0xFFFF) :
    sumWords (pseudoPacket (fixIpChecksum (unsummed srcIp srcPort dstIp dstPort payload) 20) 20) =
      udpSum srcIp srcPort dstIp dstPort payload := by
  rw [pseudoPacket_unsummed, drop_fixIpChecksum _ _ (by norm_num),
    (restAt_unsummed_ports srcIp dstIp srcPort dstPort payload).2, sumWords_append (by simp),
    sumWords_append (by simp), sumWords_append (by simp), sumWords_append (by simp),
    sumWords_append (by simp), sumWords_append (by simp), sumWords_append (by simp),
    sumWords_append (by simp), sumWords_toBeBytes (by omega), sumWords_toBeBytes hsrc,
    sumWords_toBeBytes hdst, udpSum]
  have hproto : sumWords [0, 17] = 17 := rfl
  have hplaceholder : sumWords [0, 0] = 0 := rfl
  omega

theorem internetChecksum_pseudoPacket_eq_zero_iff (hsrc : srcPort < 2 ^ 16) (hdst : dstPort < 2 ^ 16)
    (h : 8 + payload.length ≤ 0xFFFF) :
    internetChecksum
      (pseudoPacket (fixIpChecksum (unsummed srcIp srcPort dstIp dstPort payload) 20) 20) = 0 ↔
      65535 ∣ udpSum srcIp srcPort dstIp dstPort payload := by
  have hsum : sumWords (pseudoPacket (fixIpChecksum
      (unsummed srcIp srcPort dstIp dstPort payload) 20) 20) =
      udpSum srcIp srcPort dstIp dstPort payload := sumWords_pseudoPacket hsrc hdst h
  have hsrcSum := sumWords_le srcIp.toList
  have hdstSum := sumWords_le dstIp.toList
  have hpayload := sumWords_le payload
  have hpos : 0 < udpSum srcIp srcPort dstIp dstPort payload := by
    rw [udpSum]
    omega
  have hbound : udpSum srcIp srcPort dstIp dstPort payload < 2 ^ 32 := by
    rw [srcIp.toList_length] at hsrcSum
    rw [dstIp.toList_length] at hdstSum
    rw [udpSum]
    omega
  rw [internetChecksum_eq (by rwa [hsum]), hsum]
  exact onesComplement_eq_zero_iff hbound hpos

end Built

/-! ### The packet with its checksums -/

def summed (srcIp : Octets 4) (srcPort : ℕ) (dstIp : Octets 4) (dstPort : ℕ) (payload : Bytes) :
    Bytes :=
  let pkt := fixIpChecksum (unsummed srcIp srcPort dstIp dstPort payload) 20
  overwrite pkt 26 (toBeBytes 2 (internetChecksum (pseudoPacket pkt 20)))

theorem buildUdpPacket_eq_some_iff {srcIp dstIp : Octets 4} {srcPort dstPort : ℕ}
    {payload pkt : Bytes} : buildUdpPacket srcIp srcPort dstIp dstPort payload = some pkt ↔
      8 + payload.length ≤ 0xFFFF ∧ pkt = summed srcIp srcPort dstIp dstPort payload := by
  have hbuild : buildUdpPacket srcIp srcPort dstIp dstPort payload =
      if 0xFFFF < 8 + payload.length then none
      else some (summed srcIp srcPort dstIp dstPort payload) := by
    rw [summed, pseudoPacket_unsummed]
    rfl
  rw [hbuild]
  split
  · constructor
    · rintro ⟨⟩
    · rintro ⟨hsmall, -⟩
      omega
  · rw [Option.some.injEq, eq_comm, iff_and_self]
    rintro -
    omega

section Summed

variable (srcIp dstIp : Octets 4) (srcPort dstPort : ℕ) (payload : Bytes)

theorem length_summed : (summed srcIp srcPort dstIp dstPort payload).length = 28 + payload.length := by
  rw [summed, length_overwrite, length_fixIpChecksum, length_unsummed]

theorem headD_summed : (summed srcIp srcPort dstIp dstPort payload).headD 0 = 0x45 := by
  rw [summed, headD_overwrite (by norm_num), fixIpChecksum, headD_overwrite (by norm_num),
    headD_overwrite (by norm_num)]
  rfl

theorem ipProto_summed : ipProto (summed srcIp srcPort dstIp dstPort payload) = 17 := by
  rw [ipProto, summed, List.getD_eq_getElem?_getD,
    getElem?_overwrite_of_outside (Or.inl (by norm_num)),
    getElem?_fixIpChecksum _ _ (Or.inl (by norm_num))]
  rfl

theorem u16At_summed_two :
    u16At (summed srcIp srcPort dstIp dstPort payload) 2 = (28 + payload.length) % 2 ^ 16 := by
  rw [summed, u16At_overwrite_of_disjoint (Or.inl (by norm_num)), fixIpChecksum,
    u16At_overwrite_of_disjoint (Or.inl (by norm_num)),
    u16At_overwrite_of_disjoint (Or.inl (by norm_num)), u16At_unsummed_two]

theorem u16At_summed_udpLength :
    u16At (summed srcIp srcPort dstIp dstPort payload) 24 = (8 + payload.length) % 2 ^ 16 := by
  rw [summed, u16At_overwrite_of_disjoint (Or.inl (by norm_num)), u16At,
    drop_fixIpChecksum _ _ (by norm_num), ← u16At, u16At_unsummed_udpLength]

theorem u16At_summed_checksum : u16At (summed srcIp srcPort dstIp dstPort payload) 26 =
    internetChecksum
      (pseudoPacket (fixIpChecksum (unsummed srcIp srcPort dstIp dstPort payload) 20) 20) := by
  refine u16At_overwrite_self ?_ (internetChecksum_lt _)
  rw [length_fixIpChecksum, length_unsummed]
  omega

theorem internetChecksum_take_summed :
    internetChecksum ((summed srcIp srcPort dstIp dstPort payload).take 20) = 0 := by
  have hlen := length_unsummed srcIp dstIp srcPort dstPort payload
  have htake : (summed srcIp srcPort dstIp dstPort payload).take 20 =
      (fixIpChecksum (unsummed srcIp srcPort dstIp dstPort payload) 20).take 20 :=
    slice_overwrite_of_disjoint (j := 0) (Or.inl (by norm_num))
  rw [htake]
  exact internetChecksum_fixIpChecksum le_rfl (by norm_num) (by omega)

theorem internetChecksum_pseudoPacket_summed (h : 8 + payload.length ≤ 0xFFFF) :
    internetChecksum (pseudoPacket (summed srcIp srcPort dstIp dstPort payload) 20) = 0 := by
  have hlen := length_unsummed srcIp dstIp srcPort dstPort payload
  refine internetChecksum_pseudoPacket (k := 6) le_rfl rfl ?_ ?_ ?_
  · rw [length_fixIpChecksum]
    omega
  · rw [drop_fixIpChecksum _ _ (by norm_num), (restAt_unsummed_checksum _ _ _ _ _).2]
    rfl
  · rw [length_fixIpChecksum]
    omega

end Summed

/-- What the builder returns is well formed exactly if the whole packet has a length of 16 bits and
the sum of the UDP part is not a multiple of `0xFFFF`. -/
theorem buildUdpPacket_wellFormed_iff (srcIp dstIp : Octets 4) (srcPort dstPort : UInt16)
    (payload : Bytes) {pkt : Bytes}
    (h : buildUdpPacket srcIp srcPort.toNat dstIp dstPort.toNat payload = some pkt) :
    IsUdpPacket pkt ↔ payload.length ≤ 65507 ∧
      ¬ 65535 ∣ udpSum srcIp srcPort.toNat dstIp dstPort.toNat payload := by
  obtain ⟨hsmall, rfl⟩ := buildUdpPacket_eq_some_iff.mp h
  have hlen := length_summed srcIp dstIp srcPort.toNat dstPort.toNat payload
  have htotal := u16At_summed_two srcIp dstIp srcPort.toNat dstPort.toNat payload
  have hfield := u16At_summed_checksum srcIp dstIp srcPort.toNat dstPort.toNat payload
  have hzero : u16At (summed srcIp srcPort.toNat dstIp dstPort.toNat payload) 26 = 0 ↔
      65535 ∣ udpSum srcIp srcPort.toNat dstIp dstPort.toNat payload := by
    rw [hfield]
    exact internetChecksum_pseudoPacket_eq_zero_iff srcPort.toNat_lt dstPort.toNat_lt hsmall
  constructor
  · intro hpkt
    have hwhole := hpkt.totalLength
    exact ⟨by omega, fun hdvd => hpkt.summed (hzero.mpr hdvd)⟩
  · rintro ⟨hshort, hdvd⟩
    have hfirst := headD_summed srcIp dstIp srcPort.toNat dstPort.toNat payload
    have hudp := u16At_summed_udpLength srcIp dstIp srcPort.toNat dstPort.toNat payload
    exact {
      version := by rw [ipVersion, hfirst]; rfl
      header := by rw [ihl, hfirst]; rfl
      proto := ipProto_summed srcIp dstIp srcPort.toNat dstPort.toNat payload
      totalLength := by omega
      udpLength := by omega
      headerSum := internetChecksum_take_summed srcIp dstIp srcPort.toNat dstPort.toNat payload
      udpSum := internetChecksum_pseudoPacket_summed _ _ _ _ _ hsmall
      summed := fun hnone => hdvd (hzero.mp hnone) }

/-- `192.168.1.1`, of a host on the LAN, and `10.66.0.10`, of a client. -/
def lanHost : Octets 4 := ⟨[192, 168, 1, 1], by decide⟩
def overlayClient : Octets 4 := ⟨[10, 66, 0, 10], by decide⟩

theorem answers_wellFormed :
    IsUdpPacket (summed lanHost 53 overlayClient 51000 [97, 110, 115, 119, 101, 114, 115]) :=
  (buildUdpPacket_wellFormed_iff lanHost overlayClient 53 51000 [97, 110, 115, 119, 101, 114, 115]
    (buildUdpPacket_eq_some_iff.mpr ⟨by decide, rfl⟩)).mpr ⟨by decide, by decide⟩

/-- The words of this packet add up to twice `0xFFFF`, and its checksum says that it has none. -/
theorem lw_unsummed : ∃ pkt, buildUdpPacket lanHost 53 overlayClient 51000 [0x6C, 0x77] = some pkt ∧
    ¬ IsUdpPacket pkt := by
  have hbuild : buildUdpPacket lanHost 53 overlayClient 51000 [0x6C, 0x77] =
      some [0x45, 0, 0, 30, 0, 0, 0, 0, 64, 17, 0xAE, 0xDA, 192, 168, 1, 1, 10, 66, 0, 10, 0, 53, 0xC7,
        0x38, 0, 10, 0, 0, 0x6C, 0x77] := by decide +kernel
  exact ⟨_, hbuild, fun hpkt => hpkt.summed (by decide)⟩

end Vantablack.Vpn
