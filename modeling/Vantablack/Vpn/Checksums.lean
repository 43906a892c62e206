import Vantablack.Lib.OnesComplement
import Vantablack.Vpn.Packet

/-!
The Internet checksum of `net/vpn/hub.rs` and `net/vpn/netstack.rs` as a ones-complement sum of
words of 16 bits: filling a field of zeros with the checksum makes the checksum zero.
-/

namespace Vantablack.Vpn

open Lib Layers List

/-! ### Reading fields -/

section Same

variable {pkt out : Bytes} {k i : ℕ}

theorem getD_congr (h : out[k]? = pkt[k]?) : out.getD k 0 = pkt.getD k 0 := by
  rw [getD_eq_getElem?_getD, h, getD_eq_getElem?_getD]

theorem headD_congr (h : out[0]? = pkt[0]?) : out.headD 0 = pkt.headD 0 := by
  rw [← head?_eq_getElem?, ← head?_eq_getElem?] at h
  rw [headD_eq_head?_getD, h, headD_eq_head?_getD]

theorem u16At_congr (h : out[i]? = pkt[i]?) (h' : out[i + 1]? = pkt[i + 1]?) :
    u16At out i = u16At pkt i := by
  have hslice : (out.drop i).take 2 = (pkt.drop i).take 2 := by
    apply slice_congr
    intro k hik hk
    obtain rfl | rfl : k = i ∨ k = i + 1 := by omega
    · exact h
    · exact h'
  rw [u16At, hslice, u16At]

theorem u16At_overwrite_of_disjoint {bs : Bytes} {j : ℕ} (h : j + 2 ≤ i ∨ i + bs.length ≤ j) :
    u16At (overwrite pkt i bs) j = u16At pkt j := by
  rw [u16At, slice_overwrite_of_disjoint h, u16At]

theorem u16At_overwrite_self {n : ℕ} (h : i + 2 ≤ pkt.length) (hn : n < 2 ^ 16) :
    u16At (overwrite pkt i (toBeBytes 2 n)) i = n := by
  have hslice : ((overwrite pkt i (toBeBytes 2 n)).drop i).take (toBeBytes 2 n).length =
      toBeBytes 2 n := slice_overwrite (by rwa [length_toBeBytes])
  rw [length_toBeBytes] at hslice
  rw [u16At, hslice, fromBeBytes_toBeBytes hn]

end Same

/-! ### The sum of the words -/

theorem sumWords_append {l rest : Bytes} (h : l.length % 2 = 0) :
    sumWords (l ++ rest) = sumWords l + sumWords rest := by
  induction l using sumWords.induct with
  | case1 a b l ih =>
      simp only [length_cons] at h
      simp only [cons_append, sumWords, ih (by omega), Nat.add_assoc]
  | case2 a => simp at h
  | case3 => simp [sumWords]

theorem sumWords_toBeBytes {n : ℕ} (h : n < 2 ^ 16) : sumWords (toBeBytes 2 n) = n := by
  have hlow : (UInt8.ofNat n).toNat = n % 256 := by simp
  have hhigh : (UInt8.ofNat (n / 256)).toNat = n / 256 % 256 := by simp
  simp only [toBeBytes, nil_append, cons_append, sumWords, hlow, hhigh]
  omega

theorem sumWords_le (buf : Bytes) : sumWords buf ≤ 65535 * ((buf.length + 1) / 2) := by
  induction buf using sumWords.induct with
  | case1 a b rest ih =>
      have ha := a.toNat_lt
      have hb := b.toNat_lt
      have hhalf : (rest.length + 1 + 1 + 1) / 2 = (rest.length + 1) / 2 + 1 := by omega
      rw [sumWords, length_cons, length_cons, hhalf]
      omega
  | case2 a =>
      have ha := a.toNat_lt
      simp only [sumWords, length_singleton]
      omega
  | case3 => simp [sumWords]

theorem sumWords_overwrite {buf : Bytes} {i n : ℕ} (heven : i % 2 = 0) (hin : i + 2 ≤ buf.length)
    (hzero : (buf.drop i).take 2 = [0, 0]) (hn : n < 2 ^ 16) :
    sumWords (overwrite buf i (toBeBytes 2 n)) = sumWords buf + n := by
  have htake : (buf.take i).length % 2 = 0 := by
    rw [length_take, min_eq_left (by omega), heven]
  have hbuf : buf = buf.take i ++ ([0, 0] ++ buf.drop (i + 2)) := by
    rw [← hzero, ← drop_drop, take_append_drop, take_append_drop]
  have hout : overwrite buf i (toBeBytes 2 n) =
      buf.take i ++ (toBeBytes 2 n ++ buf.drop (i + 2)) := by
    rw [overwrite_eq (by rw [length_toBeBytes]; exact hin), length_toBeBytes]
  conv_rhs => rw [hbuf]
  rw [hout, sumWords_append htake, sumWords_append htake, sumWords_append (by simp),
    sumWords_append (by simp), sumWords_toBeBytes hn]
  simp only [sumWords, UInt8.toNat_zero]
  omega

theorem internetChecksum_eq {buf : Bytes} (h : sumWords buf < 2 ^ 32) :
    internetChecksum buf = onesComplement 65535 (sumWords buf) := by
  have hle : onesSum 65535 (sumWords buf) ≤ 65535 := onesSum_le h
  have hfold : foldCarry (foldCarry (sumWords buf)) = onesSum 65535 (sumWords buf) := rfl
  have hmod : onesSum 65535 (sumWords buf) % 2 ^ 16 = onesSum 65535 (sumWords buf) :=
    Nat.mod_eq_of_lt (by omega)
  rw [internetChecksum, hfold, hmod]
  rfl

theorem internetChecksum_lt (buf : Bytes) : internetChecksum buf < 2 ^ 16 := by
  rw [internetChecksum]
  omega

theorem internetChecksum_fill {buf : Bytes} {i : ℕ} (heven : i % 2 = 0) (hin : i + 2 ≤ buf.length)
    (hzero : (buf.drop i).take 2 = [0, 0]) (hlen : buf.length ≤ 2 ^ 17 - 2) :
    internetChecksum (overwrite buf i (toBeBytes 2 (internetChecksum buf))) = 0 := by
  have hbound := sumWords_le buf
  have hsum : sumWords buf + 65535 < 2 ^ 32 := by omega
  have hle := onesComplement_le 65535 (sumWords buf)
  have hfill : sumWords (overwrite buf i (toBeBytes 2 (internetChecksum buf))) =
      sumWords buf + onesComplement 65535 (sumWords buf) := by
    rw [sumWords_overwrite heven hin hzero (internetChecksum_lt buf), internetChecksum_eq (by omega)]
  rw [internetChecksum_eq (by omega), hfill]
  exact onesComplement_add (by norm_num) (by omega)

/-! ### In a packet -/

/-- What the checksum of the payload of an IPv4 packet is over. -/
def pseudoPacket (pkt : Bytes) (ihl : ℕ) : Bytes :=
  (pkt.drop 12).take 8 ++ [0, pkt.getD 9 0] ++ toBeBytes 2 (pkt.length - ihl) ++ pkt.drop ihl

theorem length_pseudoHeader {pkt : Bytes} (h : 20 ≤ pkt.length) (proto : UInt8) (n : ℕ) :
    ((pkt.drop 12).take 8 ++ [0, proto] ++ toBeBytes 2 n).length = 12 := by
  simp only [length_append, length_take, length_drop, length_cons,
    length_nil, length_toBeBytes]
  omega

variable {ihl : ℕ}

theorem length_pseudoPacket {pkt : Bytes} (h : 20 ≤ pkt.length) :
    (pseudoPacket pkt ihl).length = 12 + (pkt.length - ihl) := by
  rw [pseudoPacket, length_append, length_pseudoHeader h, length_drop]

theorem drop_pseudoPacket {pkt : Bytes} (h : 20 ≤ pkt.length) (k : ℕ) :
    (pseudoPacket pkt ihl).drop (12 + k) = pkt.drop (ihl + k) := by
  rw [pseudoPacket, ← drop_drop, drop_left' (length_pseudoHeader h _ _), drop_drop]

theorem pseudoPacket_overwrite {pkt as : Bytes} {k : ℕ} (h : 20 ≤ pkt.length) (hihl : 20 ≤ ihl) :
    pseudoPacket (overwrite pkt (ihl + k) as) ihl = overwrite (pseudoPacket pkt ihl) (12 + k) as := by
  have haddrs : ((overwrite pkt (ihl + k) as).drop 12).take 8 = (pkt.drop 12).take 8 :=
    slice_overwrite_of_disjoint (Or.inl (by omega))
  have hproto : (overwrite pkt (ihl + k) as).getD 9 0 = pkt.getD 9 0 := by
    rw [getD_eq_getElem?_getD, getElem?_overwrite_of_outside (Or.inl (by omega)),
      getD_eq_getElem?_getD]
  rw [pseudoPacket, haddrs, hproto, length_overwrite, drop_overwrite_add, pseudoPacket,
    overwrite_append (length_pseudoHeader h _ _)]

theorem drop_fixIpChecksum (pkt : Bytes) (ihl : ℕ) {j : ℕ} (h : 12 ≤ j) :
    (fixIpChecksum pkt ihl).drop j = pkt.drop j := by
  rw [fixIpChecksum, drop_overwrite (by simpa using h), drop_overwrite (by simpa using h)]

theorem getElem?_fixIpChecksum (pkt : Bytes) (ihl : ℕ) {k : ℕ} (h : k < 10 ∨ 12 ≤ k) :
    (fixIpChecksum pkt ihl)[k]? = pkt[k]? := by
  rw [fixIpChecksum, getElem?_overwrite_of_outside (by simpa using h),
    getElem?_overwrite_of_outside (by simpa using h)]

theorem internetChecksum_fixIpChecksum {pkt : Bytes} (hihl : 20 ≤ ihl) (hsmall : ihl ≤ 60)
    (hlen : ihl ≤ pkt.length) : internetChecksum ((fixIpChecksum pkt ihl).take ihl) = 0 := by
  rw [fixIpChecksum, take_overwrite]
  refine internetChecksum_fill rfl ?_ ?_ ?_
  · rw [length_take, length_overwrite]
    omega
  · have hfit : 10 + ([0, 0] : Bytes).length ≤ (pkt.take ihl).length := by
      simp only [length_take, length_cons, length_nil]
      omega
    rw [take_overwrite]
    exact slice_overwrite hfit
  · rw [length_take, length_overwrite]
    omega

theorem internetChecksum_pseudoPacket {pkt : Bytes} {k : ℕ} (hihl : 20 ≤ ihl) (heven : k % 2 = 0)
    (hin : ihl + k + 2 ≤ pkt.length) (hzero : (pkt.drop (ihl + k)).take 2 = [0, 0])
    (hlen : pkt.length ≤ 2 ^ 16 + 20) :
    internetChecksum (pseudoPacket (overwrite pkt (ihl + k)
      (toBeBytes 2 (internetChecksum (pseudoPacket pkt ihl)))) ihl) = 0 := by
  have hlong : 20 ≤ pkt.length := by omega
  have hlength : (pseudoPacket pkt ihl).length = 12 + (pkt.length - ihl) := length_pseudoPacket hlong
  rw [pseudoPacket_overwrite hlong hihl]
  refine internetChecksum_fill (by omega) (by omega) ?_ (by omega)
  rw [drop_pseudoPacket hlong, hzero]

end Vantablack.Vpn
