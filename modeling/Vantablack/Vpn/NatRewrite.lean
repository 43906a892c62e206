import Vantablack.Vpn.Checksums
import Vantablack.Vpn.TcpOptions

/-!
What the address translation of `net/vpn/netstack.rs` does to the bytes of a TCP packet in the two
directions: addresses, ports and checksums change, and the MSS value of a packet that opens a flow
or goes to a client. The walk over the options ends at the first MSS option, so a second one stays as
it was.
-/

namespace Vantablack.Vpn

open Lib Layers

/-! ### TCP packets -/

/-- Where the TCP header ends, with its options. -/
def headerEnd (pkt : Bytes) : ℕ :=
  ihl pkt + (pkt.getD (ihl pkt + 12) 0).toNat / 16 * 4

/-- An IPv4 packet with a whole TCP header. Its length is one of 16 bits. -/
structure IsTcpPacket (pkt : Bytes) : Prop where
  version : ipVersion pkt = 4
  header : 20 ≤ ihl pkt
  proto : ipProto pkt = 6
  tcpHeader : ihl pkt + 20 ≤ headerEnd pkt
  whole : headerEnd pkt ≤ pkt.length
  short : pkt.length < 2 ^ 16

def IsMss (pkt : Bytes) (off : ℕ) : Prop :=
  MssFrom pkt (headerEnd pkt) (ihl pkt + 20) off

/-- The bytes of the two checksums, the addresses and the ports. -/
def IsAddressing (pkt : Bytes) (k : ℕ) : Prop :=
  (10 ≤ k ∧ k < 20) ∨ (ihl pkt ≤ k ∧ k < ihl pkt + 4) ∨ (ihl pkt + 16 ≤ k ∧ k < ihl pkt + 18)

/-! ### What a rewriting is to do -/

/-- A packet of the same length with valid checksums and new addresses, and otherwise the same but
for MSS values. -/
structure Rewritten (pkt out : Bytes) : Prop where
  length : out.length = pkt.length
  headerSum : internetChecksum (out.take (ihl pkt)) = 0
  tcpSum : internetChecksum (pseudoPacket out (ihl pkt)) = 0
  frame : ∀ k, out[k]? ≠ pkt[k]? →
    IsAddressing pkt k ∨ ∃ off, IsMss pkt off ∧ (k = off + 2 ∨ k = off + 3)

/-- No MSS option is left above what the overlay takes, and those that were not stay. -/
structure Clamped (pkt out : Bytes) : Prop where
  most : ∀ off, IsMss out off → u16At out (off + 2) ≤ overlayMss
  kept : ∀ off, IsMss pkt off → u16At pkt (off + 2) ≤ overlayMss →
    u16At out (off + 2) = u16At pkt (off + 2)

/-- A reply comes from where the packet went, and goes to where it came from. -/
structure Restored (pkt out : Bytes) : Prop where
  source : srcIp out = dstIp pkt
  sourcePort : u16At out (ihl out) = u16At pkt (ihl pkt + 2)
  destination : dstIp out = srcIp pkt
  destinationPort : u16At out (ihl out + 2) = u16At pkt (ihl pkt)

/-- Only the first MSS option is above what the overlay takes. -/
def OnlyFirstOversized (pkt : Bytes) : Prop :=
  ∀ off off', IsMss pkt off → IsMss pkt off' → off < off' → u16At pkt (off' + 2) ≤ overlayMss

/-! ### What changes -/

/-- A packet that differs from another in its addressing and in the value of an MSS option `m`, or in
its addressing only: then `m` is the position whose value is the target port. -/
structure SameBut (pkt out : Bytes) (m : ℕ) : Prop where
  length : out.length = pkt.length
  value : m = ihl pkt ∨ IsMss pkt m
  same : ∀ k, ¬ IsAddressing pkt k → k ≠ m + 2 → k ≠ m + 3 → out[k]? = pkt[k]?

section Changes

variable {pkt out : Bytes} {m off : ℕ}

theorem SameBut.le (h : SameBut pkt out m) : ihl pkt ≤ m ∧ (m = ihl pkt ∨ ihl pkt + 20 ≤ m) := by
  rcases h.value with rfl | hmss
  · exact ⟨le_rfl, Or.inl rfl⟩
  · have hle := hmss.1.start_le
    exact ⟨by omega, Or.inr hle⟩

theorem SameBut.ihl_eq (h : SameBut pkt out m) (hpkt : IsTcpPacket pkt) : ihl out = ihl pkt := by
  have hheader := hpkt.header
  have hle := h.le
  rw [ihl, headD_congr (h.same 0 (by unfold IsAddressing; omega) (by omega) (by omega)), ihl]

theorem SameBut.ipProto_eq (h : SameBut pkt out m) (hpkt : IsTcpPacket pkt) : ipProto out = 6 := by
  have hheader := hpkt.header
  have hle := h.le
  rw [ipProto, getD_congr (h.same 9 (by unfold IsAddressing; omega) (by omega) (by omega)), ← ipProto,
    hpkt.proto]

theorem SameBut.headerEnd_eq (h : SameBut pkt out m) (hpkt : IsTcpPacket pkt) :
    headerEnd out = headerEnd pkt := by
  have hheader := hpkt.header
  have hle := h.le
  have hoff : out[ihl pkt + 12]? = pkt[ihl pkt + 12]? :=
    h.same _ (by unfold IsAddressing; omega) (by omega) (by omega)
  rw [headerEnd, h.ihl_eq hpkt, getD_congr hoff, headerEnd]

theorem SameBut.getD_eq (h : SameBut pkt out m) (hpkt : IsTcpPacket pkt) {k : ℕ}
    (hk : ihl pkt + 20 ≤ k) (hk2 : k ≠ m + 2) (hk3 : k ≠ m + 3) : out[k]? = pkt[k]? := by
  have hheader := hpkt.header
  exact h.same k (by unfold IsAddressing; omega) hk2 hk3

theorem SameBut.isMss_iff (h : SameBut pkt out m) (hpkt : IsTcpPacket pkt) :
    IsMss out off ↔ IsMss pkt off := by
  rw [IsMss, h.headerEnd_eq hpkt, h.ihl_eq hpkt]
  refine mssFrom_iff ?_ fun k hk hk2 hk3 => getD_congr (h.getD_eq hpkt hk hk2 hk3)
  exact h.value.imp_left fun hm => by omega

theorem SameBut.u16At_eq (h : SameBut pkt out m) (hpkt : IsTcpPacket pkt) (hoff : IsMss pkt off)
    (hne : off ≠ m) : u16At out (off + 2) = u16At pkt (off + 2) := by
  have hstart := hoff.1.start_le
  have hapart : off + 4 ≤ m ∨ m + 4 ≤ off := by
    rcases h.value with rfl | hmss
    · exact Or.inr (by omega)
    · rcases lt_or_gt_of_ne hne with hlt | hgt
      · have hle := hoff.1.add_length_le hmss.1 hlt
        rw [hoff.2.2] at hle
        exact Or.inl hle
      · have hle := hmss.1.add_length_le hoff.1 hgt
        rw [hmss.2.2] at hle
        exact Or.inr hle
  exact u16At_congr (h.getD_eq hpkt (by omega) (by omega) (by omega))
    (h.getD_eq hpkt (by omega) (by omega) (by omega))

theorem getElem?_fixChecksums {ihl k : ℕ} (h : k < 10 ∨ 12 ≤ k) (h' : k < ihl + 16 ∨ ihl + 18 ≤ k) :
    (fixChecksums out ihl true)[k]? = out[k]? := by
  unfold fixChecksums
  dsimp only
  split
  · exact getElem?_fixIpChecksum _ _ h
  · have hout : k < csumOff ihl true ∨ csumOff ihl true + 2 ≤ k := h'
    rw [getElem?_overwrite_of_outside (by rwa [length_toBeBytes]),
      getElem?_overwrite_of_outside hout, getElem?_fixIpChecksum _ _ h]

theorem SameBut.fixChecksums (h : SameBut pkt out m) :
    SameBut pkt (fixChecksums out (ihl pkt) true) m where
  length := by rw [length_fixChecksums, h.length]
  value := h.value
  same k hk hk2 hk3 := by
    rw [getElem?_fixChecksums (by unfold IsAddressing at hk; omega)
      (by unfold IsAddressing at hk; omega)]
    exact h.same k hk hk2 hk3

theorem fixChecksums_valid (hpkt : IsTcpPacket pkt) (hlen : out.length = pkt.length) :
    internetChecksum ((fixChecksums out (ihl pkt) true).take (ihl pkt)) = 0 ∧
      internetChecksum (pseudoPacket (fixChecksums out (ihl pkt) true) (ihl pkt)) = 0 := by
  have hheader := hpkt.header
  have htcp := hpkt.tcpHeader
  have hwhole := hpkt.whole
  have hshort := hpkt.short
  have hsmall : ihl pkt ≤ 60 := by
    unfold ihl
    omega
  have hoff : csumOff (ihl pkt) true = ihl pkt + 16 := rfl
  set zeroed := overwrite (fixIpChecksum out (ihl pkt)) (ihl pkt + 16) [0, 0] with hzeroed
  have hlenZeroed : zeroed.length = pkt.length := by
    rw [hzeroed, length_overwrite, length_fixIpChecksum, hlen]
  have hfix : fixChecksums out (ihl pkt) true = overwrite zeroed (ihl pkt + 16)
      (toBeBytes 2 (internetChecksum (pseudoPacket zeroed (ihl pkt)))) := by
    unfold Vpn.fixChecksums
    dsimp only
    rw [hoff, if_neg (by rw [length_fixIpChecksum]; omega)]
    rfl
  rw [hfix]
  constructor
  · have htake : ∀ (l bs : Bytes), (overwrite l (ihl pkt + 16) bs).take (ihl pkt) = l.take (ihl pkt) :=
      fun l bs => slice_overwrite_of_disjoint (j := 0) (Or.inl (by omega))
    rw [htake, hzeroed, htake]
    exact internetChecksum_fixIpChecksum hheader hsmall (by omega)
  · have hfit : ihl pkt + 16 + ([0, 0] : Bytes).length ≤ (fixIpChecksum out (ihl pkt)).length := by
      rw [length_fixIpChecksum, hlen, List.length_cons, List.length_singleton]
      omega
    exact internetChecksum_pseudoPacket hheader rfl (by omega) (slice_overwrite hfit) (by omega)

theorem isFirst_mssOption (hpkt : IsTcpPacket pkt) (h : SameBut pkt out (ihl pkt)) :
    IsFirst (IsMss pkt) (mssOption out (headerEnd pkt) out.length (ihl pkt + 20)) := by
  have hmss : IsMss pkt = MssFrom out (headerEnd pkt) (ihl pkt + 20) := by
    funext off
    rw [← h.headerEnd_eq hpkt, ← h.ihl_eq hpkt]
    exact propext (h.isMss_iff hpkt).symm
  have hwhole := hpkt.whole
  rw [hmss]
  exact mssOption_spec (by rw [h.length]; omega)

theorem clampMss_cases (hpkt : IsTcpPacket pkt) (h : SameBut pkt out (ihl pkt)) :
    (∃ m, IsFirst (IsMss pkt) (some m) ∧ overlayMss < u16At pkt (m + 2) ∧
      clampMss out (ihl pkt) =
        fixChecksums (overwrite out (m + 2) (toBeBytes 2 overlayMss)) (ihl pkt) true) ∨
    ((∀ m, IsFirst (IsMss pkt) (some m) → u16At pkt (m + 2) ≤ overlayMss) ∧
      clampMss out (ihl pkt) = out) := by
  have htcp := hpkt.tcpHeader
  have hwhole := hpkt.whole
  have hfirst := isFirst_mssOption hpkt h
  have hend : ihl pkt + (out.getD (ihl pkt + 12) 0).toNat / 16 * 4 = headerEnd pkt := by
    rw [← h.headerEnd_eq hpkt, headerEnd, h.ihl_eq hpkt]
  have hclamp : clampMss out (ihl pkt) =
      (mssOption out (headerEnd pkt) out.length (ihl pkt + 20)).elim out fun off =>
        if overlayMss < u16At out (off + 2) then
          fixChecksums (overwrite out (off + 2) (toBeBytes 2 overlayMss)) (ihl pkt) true
        else out := by
    have hlong : ¬ (out.length < ihl pkt + 20 ∨ ipProto out ≠ 6) := by
      rw [h.length, h.ipProto_eq hpkt]
      omega
    have hheader : ¬ ((out.getD (ihl pkt + 12) 0).toNat / 16 * 4 < 20 ∨
        out.length < ihl pkt + (out.getD (ihl pkt + 12) 0).toNat / 16 * 4) := by
      rw [h.length]
      omega
    rw [← hend]
    unfold clampMss
    dsimp only
    rw [if_neg hlong, if_neg hheader]
    cases mssOption out _ out.length (ihl pkt + 20) <;> rfl
  cases hwalk : mssOption out (headerEnd pkt) out.length (ihl pkt + 20) with
  | none =>
      rw [hwalk] at hfirst hclamp
      exact Or.inr ⟨fun m hm => absurd hm.1 (hfirst m), hclamp⟩
  | some m =>
      rw [hwalk] at hfirst hclamp
      have hvalue : u16At out (m + 2) = u16At pkt (m + 2) := by
        have hstart := hfirst.1.1.start_le
        exact h.u16At_eq hpkt hfirst.1 (by omega)
      rw [Option.elim_some, hvalue] at hclamp
      split at hclamp
      · rename_i hlarge
        exact Or.inl ⟨m, hfirst, hlarge, hclamp⟩
      · rename_i hsmall
        refine Or.inr ⟨fun m' hm' => ?_, hclamp⟩
        rw [le_antisymm (hm'.2 m hfirst.1) (hfirst.2 m' hm'.1)]
        exact not_lt.mp hsmall

end Changes

/-! ### The value of the first option -/

/-- The first MSS option gets the lesser value, and the others stay. -/
structure FirstClamped (pkt out : Bytes) : Prop where
  options : ∀ off, IsMss out off ↔ IsMss pkt off
  first : ∀ off, IsFirst (IsMss pkt) (some off) →
    u16At out (off + 2) = min (u16At pkt (off + 2)) overlayMss
  others : ∀ off off', IsMss pkt off → IsMss pkt off' → off < off' →
    u16At out (off' + 2) = u16At pkt (off' + 2)

section Clamp

variable {pkt out : Bytes}

theorem SameBut.overwrite (h : SameBut pkt out (ihl pkt)) {m : ℕ} (hm : IsMss pkt m) (value : ℕ) :
    SameBut pkt (overwrite out (m + 2) (toBeBytes 2 value)) m where
  length := by rw [length_overwrite, h.length]
  value := Or.inr hm
  same k hk hk2 hk3 := by
    have hstart := hm.1.start_le
    rw [getElem?_overwrite_of_outside (by rw [length_toBeBytes]; omega)]
    exact h.same k hk (by unfold IsAddressing at hk; omega) (by unfold IsAddressing at hk; omega)

theorem clampMss_sameBut (hpkt : IsTcpPacket pkt) (h : SameBut pkt out (ihl pkt)) :
    ∃ m, SameBut pkt (clampMss out (ihl pkt)) m := by
  rcases clampMss_cases hpkt h with ⟨m, hfirst, -, hclamp⟩ | ⟨-, hclamp⟩
  · rw [hclamp]
    exact ⟨m, (h.overwrite hfirst.1 overlayMss).fixChecksums⟩
  · rw [hclamp]
    exact ⟨ihl pkt, h⟩

theorem firstClamped_clampMss (hpkt : IsTcpPacket pkt) (h : SameBut pkt out (ihl pkt)) :
    FirstClamped pkt (clampMss out (ihl pkt)) := by
  rcases clampMss_cases hpkt h with ⟨m, hfirst, hlarge, hclamp⟩ | ⟨hsmall, hclamp⟩
  · have hsame := (h.overwrite hfirst.1 overlayMss).fixChecksums
    have hstart := hfirst.1.1.start_le
    have hfits := hfirst.1.1.fits.2.2.2
    have hwhole := hpkt.whole
    rw [hfirst.1.2.2] at hfits
    rw [hclamp]
    refine ⟨fun off => hsame.isMss_iff hpkt, ?_, ?_⟩
    · intro off hoff
      obtain rfl : off = m := le_antisymm (hoff.2 m hfirst.1) (hfirst.2 off hoff.1)
      have hkept : ∀ k, off + 2 ≤ k → k < off + 4 →
          (fixChecksums (Lib.overwrite out (off + 2) (toBeBytes 2 overlayMss)) (ihl pkt) true)[k]? =
            (Lib.overwrite out (off + 2) (toBeBytes 2 overlayMss))[k]? := by
        intro k hk hk'
        have hheader := hpkt.header
        exact getElem?_fixChecksums (Or.inr (by omega)) (Or.inr (by omega))
      rw [u16At_congr (hkept _ le_rfl (by omega)) (hkept _ (by omega) (by omega)),
        u16At_overwrite_self (by rw [h.length]; omega) (by decide), min_eq_right hlarge.le]
    · intro off off' hoff hoff' hlt
      have hle := hfirst.2 off hoff
      exact hsame.u16At_eq hpkt hoff' (by omega)
  · rw [hclamp]
    have hkept : ∀ off, IsMss pkt off → u16At out (off + 2) = u16At pkt (off + 2) := by
      intro off hoff
      have hstart := hoff.1.start_le
      exact h.u16At_eq hpkt hoff (by omega)
    exact ⟨fun off => h.isMss_iff hpkt,
      fun off hoff => by rw [hkept off hoff.1, min_eq_left (hsmall off hoff)],
      fun off off' _ hoff' _ => hkept off' hoff'⟩

theorem FirstClamped.clamped_iff (h : FirstClamped pkt out) :
    Clamped pkt out ↔ OnlyFirstOversized pkt := by
  constructor
  · intro hclamped off off' hoff hoff' hlt
    rw [← h.others off off' hoff hoff' hlt]
    exact hclamped.most off' ((h.options off').mpr hoff')
  · intro honly
    have hvalue : ∀ off, IsMss pkt off → u16At out (off + 2) = min (u16At pkt (off + 2)) overlayMss := by
      intro off hoff
      by_cases hfirst : ∀ off', IsMss pkt off' → off ≤ off'
      · exact h.first off ⟨hoff, hfirst⟩
      · push Not at hfirst
        obtain ⟨off', hoff', hlt⟩ := hfirst
        rw [h.others off' off hoff' hoff hlt, min_eq_left (honly off' off hoff' hoff hlt)]
    constructor
    · intro off hoff
      rw [hvalue off ((h.options off).mp hoff)]
      exact min_le_right _ _
    · intro off hoff hsmall
      rw [hvalue off hoff, min_eq_left hsmall]

end Clamp

/-! ### The two directions -/

section Directions

variable {pkt out : Bytes}

/-- The checksums of a packet with the header length of another. -/
def Summed (pkt out : Bytes) : Prop :=
  internetChecksum (out.take (ihl pkt)) = 0 ∧ internetChecksum (pseudoPacket out (ihl pkt)) = 0

theorem SameBut.rewritten {m : ℕ} (h : SameBut pkt out m) (hsum : Summed pkt out) :
    Rewritten pkt out where
  length := h.length
  headerSum := hsum.1
  tcpSum := hsum.2
  frame k hk := by
    by_contra hnone
    rw [not_or] at hnone
    obtain ⟨hplain, hvalue⟩ := hnone
    refine hk (h.same k hplain ?_ ?_)
    · rintro rfl
      rcases h.value with rfl | hmss
      · exact hplain (Or.inr (Or.inl ⟨by omega, by omega⟩))
      · exact hvalue ⟨m, hmss, Or.inl rfl⟩
    · rintro rfl
      rcases h.value with rfl | hmss
      · exact hplain (Or.inr (Or.inl ⟨by omega, by omega⟩))
      · exact hvalue ⟨m, hmss, Or.inr rfl⟩

theorem Summed.clampMss (hpkt : IsTcpPacket pkt) (h : SameBut pkt out (ihl pkt))
    (hsum : Summed pkt out) : Summed pkt (clampMss out (ihl pkt)) := by
  rcases clampMss_cases hpkt h with ⟨m, -, -, hclamp⟩ | ⟨-, hclamp⟩
  · rw [hclamp]
    exact fixChecksums_valid hpkt (by rw [length_overwrite, h.length])
  · rwa [hclamp]

theorem sameBut_ingress (pkt : Bytes) (localPort : ℕ) :
    SameBut pkt (overwrite (overwrite (overwrite pkt 12 natAddr.toList) 16 netstackAddr.toList)
      (ihl pkt + 2) (toBeBytes 2 localPort)) (ihl pkt) where
  length := by simp
  value := Or.inl rfl
  same k hk _ _ := by
    unfold IsAddressing at hk
    rw [getElem?_overwrite_of_outside (by rw [length_toBeBytes]; omega),
      getElem?_overwrite_of_outside (by rw [List.Vector.toList_length]; omega),
      getElem?_overwrite_of_outside (by rw [List.Vector.toList_length]; omega)]

theorem sameBut_egress (pkt : Bytes) (tuple : Tuple) :
    SameBut pkt (overwrite (overwrite (overwrite (overwrite pkt 12 tuple.target.toList) 16
      tuple.client.toList) (ihl pkt) (toBeBytes 2 tuple.targetPort)) (ihl pkt + 2)
      (toBeBytes 2 tuple.clientPort)) (ihl pkt) where
  length := by simp
  value := Or.inl rfl
  same k hk _ _ := by
    unfold IsAddressing at hk
    rw [getElem?_overwrite_of_outside (by rw [length_toBeBytes]; omega),
      getElem?_overwrite_of_outside (by rw [length_toBeBytes]; omega),
      getElem?_overwrite_of_outside (by rw [List.Vector.toList_length]; omega),
      getElem?_overwrite_of_outside (by rw [List.Vector.toList_length]; omega)]

theorem rewriteIngress_right (hpkt : IsTcpPacket pkt) (localPort : ℕ) :
    Rewritten pkt (rewriteIngress pkt localPort) ∧
      (isSyn pkt = true → (Clamped pkt (rewriteIngress pkt localPort) ↔ OnlyFirstOversized pkt)) := by
  have hsame := (sameBut_ingress pkt localPort).fixChecksums
  have hsum : Summed pkt _ := fixChecksums_valid hpkt (sameBut_ingress pkt localPort).length
  have hproto : decide (ipProto pkt = 6) = true := decide_eq_true hpkt.proto
  unfold rewriteIngress
  dsimp only
  rw [hproto]
  split
  · obtain ⟨m, hm⟩ := clampMss_sameBut hpkt hsame
    exact ⟨hm.rewritten (hsum.clampMss hpkt hsame),
      fun _ => (firstClamped_clampMss hpkt hsame).clamped_iff⟩
  · rename_i hsyn
    exact ⟨hsame.rewritten hsum, fun htrue => absurd htrue hsyn⟩

theorem rewriteEgress_right (hpkt : IsTcpPacket pkt) (tuple : Tuple) :
    Rewritten pkt (rewriteEgress pkt tuple) ∧
      (Clamped pkt (rewriteEgress pkt tuple) ↔ OnlyFirstOversized pkt) := by
  have hsame := (sameBut_egress pkt tuple).fixChecksums
  have hsum : Summed pkt _ := fixChecksums_valid hpkt (sameBut_egress pkt tuple).length
  have hproto : decide (ipProto pkt = 6) = true := decide_eq_true hpkt.proto
  obtain ⟨m, hm⟩ := clampMss_sameBut hpkt hsame
  unfold rewriteEgress
  dsimp only
  rw [hproto]
  exact ⟨hm.rewritten (hsum.clampMss hpkt hsame), (firstClamped_clampMss hpkt hsame).clamped_iff⟩

/-! ### There and back -/

theorem ihl_rewriteEgress (hpkt : IsTcpPacket pkt) (tuple : Tuple) :
    ihl (rewriteEgress pkt tuple) = ihl pkt := by
  have hproto : decide (ipProto pkt = 6) = true := decide_eq_true hpkt.proto
  obtain ⟨m, hm⟩ := clampMss_sameBut hpkt (sameBut_egress pkt tuple).fixChecksums
  unfold rewriteEgress
  dsimp only
  rw [hproto, hm.ihl_eq hpkt]

theorem u16At_lt (pkt : Bytes) (i : ℕ) : u16At pkt i < 2 ^ 16 := by
  have hlt := fromBeBytes_lt ((pkt.drop i).take 2)
  have hlen : ((pkt.drop i).take 2).length ≤ 2 := List.length_take_le _ _
  exact hlt.trans_le (Nat.pow_le_pow_right (by norm_num) hlen)

theorem getElem?_clampMss (hpkt : IsTcpPacket pkt) (h : SameBut pkt out (ihl pkt)) {k : ℕ}
    (hk : k < 10 ∨ 12 ≤ k) (hk' : k < ihl pkt + 16) : (clampMss out (ihl pkt))[k]? = out[k]? := by
  rcases clampMss_cases hpkt h with ⟨m, hfirst, -, hclamp⟩ | ⟨-, hclamp⟩
  · have hstart := hfirst.1.1.start_le
    rw [hclamp, getElem?_fixChecksums hk (Or.inl hk'),
      getElem?_overwrite_of_outside (Or.inl (by omega))]
  · rw [hclamp]

theorem rewriteEgress_addresses (hpkt : IsTcpPacket pkt) (tuple : Tuple)
    (htarget : tuple.targetPort < 2 ^ 16) (hclient : tuple.clientPort < 2 ^ 16) :
    srcIp (rewriteEgress pkt tuple) = tuple.target ∧
      u16At (rewriteEgress pkt tuple) (ihl pkt) = tuple.targetPort ∧
      dstIp (rewriteEgress pkt tuple) = tuple.client ∧
      u16At (rewriteEgress pkt tuple) (ihl pkt + 2) = tuple.clientPort := by
  have hheader := hpkt.header
  have htcp := hpkt.tcpHeader
  have hwhole := hpkt.whole
  set base := overwrite (overwrite (overwrite (overwrite pkt 12 tuple.target.toList) 16
      tuple.client.toList) (ihl pkt) (toBeBytes 2 tuple.targetPort)) (ihl pkt + 2)
      (toBeBytes 2 tuple.clientPort) with hbase
  have hkept : ∀ k, 12 ≤ k → k < ihl pkt + 16 → (rewriteEgress pkt tuple)[k]? = base[k]? := by
    intro k hk hk'
    have hproto : decide (ipProto pkt = 6) = true := decide_eq_true hpkt.proto
    rw [rewriteEgress, hproto, getElem?_clampMss hpkt (sameBut_egress pkt tuple).fixChecksums
      (Or.inr hk) hk', getElem?_fixChecksums (Or.inr hk) (Or.inl hk')]
  refine ⟨?_, ?_, dstIp_rewriteEgress (by omega) hheader tuple, ?_⟩
  · have hread : ((overwrite pkt 12 tuple.target.toList).drop 12).take tuple.target.toList.length =
        tuple.target.toList := slice_overwrite (by rw [tuple.target.toList_length]; omega)
    rw [tuple.target.toList_length] at hread
    have hslice : ((rewriteEgress pkt tuple).drop 12).take 4 = tuple.target.toList := by
      rw [slice_congr fun k hk hk' => hkept k hk (by omega), hbase,
        slice_overwrite_of_disjoint (Or.inl (by omega)),
        slice_overwrite_of_disjoint (Or.inl (by omega)),
        slice_overwrite_of_disjoint (Or.inl (by omega)), hread]
    rw [srcIp, hslice]
    exact List.Vector.eq _ _ (Block.toList_zeroPadded_of_length tuple.target.toList_length)
  · rw [u16At_congr (hkept _ (by omega) (by omega)) (hkept _ (by omega) (by omega)), hbase,
      u16At_overwrite_of_disjoint (Or.inl le_rfl), u16At_overwrite_self _ htarget]
    simp only [length_overwrite]
    omega
  · rw [u16At_congr (hkept _ (by omega) (by omega)) (hkept _ (by omega) (by omega)), hbase,
      u16At_overwrite_self _ hclient]
    simp only [length_overwrite]
    omega

end Directions

end Vantablack.Vpn
