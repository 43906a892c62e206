import Vantablack.Vpn.Datagram

/-!
The inner packets a VPN hub makes itself, of `net/vpn/hub.rs`: UDP packets around what comes back
from the LAN, the empty answer to an AAAA query, and echo replies. All addresses are of IPv4.
-/

namespace Vantablack.Vpn

open Lib Layers

/-! ### Fields -/

/-- The upper half of the first byte. -/
def ipVersion (pkt : Bytes) : ℕ :=
  (pkt.headD 0).toNat / 16

/-- The length of the header, as the first byte gives it. -/
def ihl (pkt : Bytes) : ℕ :=
  (pkt.headD 0).toNat % 16 * 4

def ipProto (pkt : Bytes) : ℕ :=
  (pkt.getD 9 0).toNat

def srcIp (pkt : Bytes) : Octets 4 :=
  Block.zeroPadded 4 ((pkt.drop 12).take 4)

def dstIp (pkt : Bytes) : Octets 4 :=
  Block.zeroPadded 4 ((pkt.drop 16).take 4)

def u16At (pkt : Bytes) (i : ℕ) : ℕ :=
  fromBeBytes ((pkt.drop i).take 2)

/-! ### Checksums -/

def sumWords : Bytes → ℕ
  | a :: b :: rest => a.toNat * 256 + b.toNat + sumWords rest
  | [a] => a.toNat * 256
  | [] => 0

/-- The carries of a sum of 32 bits are added to it in at most two turns, and a turn too many
changes nothing. -/
def foldCarry (sum : ℕ) : ℕ :=
  sum % 2 ^ 16 + sum / 2 ^ 16

def internetChecksum (buf : Bytes) : ℕ :=
  2 ^ 16 - 1 - foldCarry (foldCarry (sumWords buf)) % 2 ^ 16

def fixIpChecksum (pkt : Bytes) (ihl : ℕ) : Bytes :=
  let pkt := overwrite pkt 10 [0, 0]
  overwrite pkt 10 (toBeBytes 2 (internetChecksum (pkt.take ihl)))

/-! ### Packets -/

def buildUdpPacket (srcIp : Octets 4) (srcPort : ℕ) (dstIp : Octets 4) (dstPort : ℕ)
    (payload : Bytes) : Option Bytes :=
  let udpLen := 8 + payload.length
  if 0xFFFF < udpLen then none
  else
    let pkt : Bytes :=
      [0x45, 0] ++ toBeBytes 2 (20 + udpLen) ++ [0, 0, 0, 0, 64, 17, 0, 0] ++ srcIp.toList ++
        dstIp.toList ++ toBeBytes 2 srcPort ++ toBeBytes 2 dstPort ++ toBeBytes 2 udpLen ++ [0, 0] ++
        payload
    let pkt := fixIpChecksum pkt 20
    let buf := srcIp.toList ++ dstIp.toList ++ [0, 17] ++ toBeBytes 2 udpLen ++ pkt.drop 20
    some (overwrite pkt 26 (toBeBytes 2 (internetChecksum buf)))

/-- Where the name that starts at `idx` ends; every turn of the loop goes on by a byte at least. -/
def skipName (payload : Bytes) : ℕ → ℕ → ℕ
  | 0, idx => idx
  | fuel + 1, idx =>
      if payload.length ≤ idx then idx
      else
        let len := payload.getD idx 0
        if len = 0 then idx + 1
        else if len &&& 0xC0 = 0xC0 then idx + 2
        else skipName payload fuel (idx + 1 + len.toNat)

def isDnsAaaaQuery (payload : Bytes) : Bool :=
  if payload.length < 12 then false
  else if payload.getD 2 0 &&& 0x80 ≠ 0 then false
  else if u16At payload 4 = 0 then false
  else
    let idx := skipName payload payload.length 12
    if idx + 4 ≤ payload.length then u16At payload idx = 28 && u16At payload (idx + 2) = 1
    else false

def buildDnsNodataResponse (query : Bytes) : Option Bytes :=
  if query.length < 12 then none
  else
    let resp := overwrite (overwrite query 2 [0x81, 0x80]) 6 [0, 0, 0, 0, 0, 0]
    let idx := skipName resp resp.length 12
    if idx + 4 ≤ resp.length then some (resp.take (idx + 4)) else none

/-- The reply of `answer_icmp`, to an echo request to the hub itself. -/
def answerIcmp (hubOverlay : Octets 4) (pkt : Bytes) : Option Bytes :=
  if pkt.length < 28 then none
  else if dstIp pkt ≠ hubOverlay then none
  else if pkt.length < ihl pkt + 8 ∨ pkt.getD (ihl pkt) 0 ≠ 8 then none
  else
    let n := ihl pkt
    let reply := overwrite pkt n [0]
    let s := (reply.drop 12).take 4
    let d := (reply.drop 16).take 4
    let reply := fixIpChecksum (overwrite (overwrite reply 12 d) 16 s) n
    let reply := overwrite reply (n + 2) [0, 0]
    some (overwrite reply (n + 2) (toBeBytes 2 (internetChecksum (reply.drop n))))

/-! ### What a checksum leaves alone -/

@[simp] theorem length_fixIpChecksum (pkt : Bytes) (ihl : ℕ) :
    (fixIpChecksum pkt ihl).length = pkt.length := by
  simp [fixIpChecksum]

theorem dstIp_overwrite {pkt bs : Bytes} {i : ℕ} (h : 20 ≤ i ∨ i + bs.length ≤ 16) :
    dstIp (overwrite pkt i bs) = dstIp pkt := by
  rw [dstIp, slice_overwrite_of_disjoint h, dstIp]

theorem dstIp_fixIpChecksum (pkt : Bytes) (ihl : ℕ) : dstIp (fixIpChecksum pkt ihl) = dstIp pkt := by
  unfold fixIpChecksum
  rw [dstIp_overwrite (Or.inr (by simp)), dstIp_overwrite (Or.inr (by simp))]

theorem dstIp_overwrite_self {pkt : Bytes} (h : 20 ≤ pkt.length) (ip : Octets 4) :
    dstIp (overwrite pkt 16 ip.toList) = ip := by
  have hread : ((overwrite pkt 16 ip.toList).drop 16).take ip.toList.length = ip.toList :=
    slice_overwrite (by simpa using h)
  rw [ip.toList_length] at hread
  rw [dstIp, hread]
  exact List.Vector.eq _ _ (Block.toList_zeroPadded_of_length ip.toList_length)

end Vantablack.Vpn
