import Vantablack.Vpn.Packet

/-!
The address translation in front of the TCP stack of a VPN hub, `net/vpn/netstack.rs`: what the
driver does with the packets the hub feeds it and with those the stack emits. A flow is known by
what the client wrote into its packets, the source address among it.

The stack itself is not modelled here. What is fed and what is emitted are recorded with the client
behind it.
-/

namespace Vantablack.Vpn

open Lib Layers

def netstackAddr : Octets 4 := ⟨[10, 200, 0, 1], rfl⟩

def natAddr : Octets 4 := ⟨[10, 200, 0, 2], rfl⟩

def firstLocalPort : ℕ := 20000
def localPortEnd : ℕ := 40000
def maxTcpSockets : ℕ := 512

/-- The length of the queue to the driver, and of that from it. -/
def netstackQueue : ℕ := 2048

/-- The addresses and ports of a flow as its packets carry them. -/
structure Tuple where
  client : Octets 4
  clientPort : ℕ
  target : Octets 4
  targetPort : ℕ
  deriving DecidableEq

/-! ### Rewriting -/

def csumOff (ihl : ℕ) (isTcp : Bool) : ℕ :=
  ihl + if isTcp then 16 else 6

def fixChecksums (pkt : Bytes) (ihl : ℕ) (isTcp : Bool) : Bytes :=
  let pkt := fixIpChecksum pkt ihl
  if pkt.length < csumOff ihl isTcp + 2 then pkt
  else
    let pkt := overwrite pkt (csumOff ihl isTcp) [0, 0]
    let buf := (pkt.drop 12).take 8 ++ [0, pkt.getD 9 0] ++ toBeBytes 2 (pkt.length - ihl) ++
      pkt.drop ihl
    overwrite pkt (csumOff ihl isTcp) (toBeBytes 2 (internetChecksum buf))

/-- The MSS option among the TCP options from `off` on; each turn of the loop goes on by a byte at
least. -/
def mssOption (pkt : Bytes) (stop : ℕ) : ℕ → ℕ → Option ℕ
  | 0, _ => none
  | fuel + 1, off =>
      if stop ≤ off + 1 then none
      else
        let kind := pkt.getD off 0
        if kind = 0 then none
        else if kind = 1 then mssOption pkt stop fuel (off + 1)
        else
          let len := (pkt.getD (off + 1) 0).toNat
          if len < 2 ∨ stop < off + len then none
          else if kind = 2 ∧ len = 4 then some off
          else mssOption pkt stop fuel (off + len)

def clampMss (pkt : Bytes) (ihl : ℕ) : Bytes :=
  if pkt.length < ihl + 20 ∨ ipProto pkt ≠ 6 then pkt
  else
    let doff := (pkt.getD (ihl + 12) 0).toNat / 16 * 4
    if doff < 20 ∨ pkt.length < ihl + doff then pkt
    else
      match mssOption pkt (ihl + doff) pkt.length (ihl + 20) with
      | some off =>
          if overlayMss < u16At pkt (off + 2) then
            fixChecksums (overwrite pkt (off + 2) (toBeBytes 2 overlayMss)) ihl true
          else pkt
      | none => pkt

/-- What `nat_ingress` makes of a packet. -/
structure Ingress where
  packet : Bytes
  tuple : Tuple
  isSyn : Bool
  localPort : ℕ

def tupleOf (pkt : Bytes) : Tuple where
  client := srcIp pkt
  clientPort := u16At pkt (ihl pkt)
  target := dstIp pkt
  targetPort := u16At pkt (ihl pkt + 2)

def isSyn (pkt : Bytes) : Bool :=
  let off := ihl pkt + 13
  decide (off < pkt.length) && pkt.getD off 0 &&& 0x12 = 0x02 && pkt.getD off 0 &&& 0x10 = 0

def rewriteIngress (pkt : Bytes) (localPort : ℕ) : Bytes :=
  let out := overwrite pkt 12 natAddr.toList
  let out := overwrite out 16 netstackAddr.toList
  let out := overwrite out (ihl pkt + 2) (toBeBytes 2 localPort)
  let out := fixChecksums out (ihl pkt) (ipProto pkt = 6)
  if isSyn pkt then clampMss out (ihl pkt) else out

/-- The packet for the stack, with the next port and the table afterwards. -/
def natIngress (pkt : Bytes) (nextPort : ℕ) (nat : Table Tuple ℕ) :
    Option (Ingress × ℕ × Table Tuple ℕ) :=
  if pkt.length < 20 ∨ ipVersion pkt ≠ 4 then none
  else if pkt.length < ihl pkt + 4 then none
  else if ipProto pkt ≠ 6 ∧ ipProto pkt ≠ 17 then none
  else
    let tuple := tupleOf pkt
    let ingress (localPort : ℕ) : Ingress :=
      { packet := rewriteIngress pkt localPort, tuple := tuple, isSyn := isSyn pkt
        localPort := localPort }
    match nat.lookup tuple with
    | some l => some (ingress l, nextPort, nat)
    | none =>
        if isSyn pkt then
          if localPortEnd ≤ nextPort then none
          else some (ingress nextPort, nextPort + 1, nat.insert tuple nextPort)
        else none

def rewriteEgress (pkt : Bytes) (tuple : Tuple) : Bytes :=
  let out := overwrite pkt 12 tuple.target.toList
  let out := overwrite out 16 tuple.client.toList
  let out := overwrite out (ihl pkt) (toBeBytes 2 tuple.targetPort)
  let out := overwrite out (ihl pkt + 2) (toBeBytes 2 tuple.clientPort)
  clampMss (fixChecksums out (ihl pkt) (ipProto pkt = 6)) (ihl pkt)

def natEgress (pkt : Bytes) (reverse : Table ℕ Tuple) : Option Bytes :=
  if pkt.length < 20 ∨ ipVersion pkt ≠ 4 then none
  else if pkt.length < ihl pkt + 4 then none
  else if ipProto pkt ≠ 6 ∧ ipProto pkt ≠ 17 then none
  else (reverse.lookup (u16At pkt (ihl pkt))).map (rewriteEgress pkt)

/-! ### What the rewriting leaves -/

variable (pkt : Bytes)

@[simp] theorem length_fixChecksums (ihl : ℕ) (isTcp : Bool) :
    (fixChecksums pkt ihl isTcp).length = pkt.length := by
  unfold fixChecksums
  dsimp only
  split <;> simp

@[simp] theorem length_clampMss (ihl : ℕ) : (clampMss pkt ihl).length = pkt.length := by
  unfold clampMss
  dsimp only
  repeat' split
  all_goals simp

@[simp] theorem length_rewriteEgress (tuple : Tuple) :
    (rewriteEgress pkt tuple).length = pkt.length := by
  simp [rewriteEgress]

theorem dstIp_fixChecksums {ihl : ℕ} (h : 20 ≤ ihl) (isTcp : Bool) :
    dstIp (fixChecksums pkt ihl isTcp) = dstIp pkt := by
  unfold fixChecksums
  dsimp only
  split
  · exact dstIp_fixIpChecksum pkt ihl
  · have hoff : 20 ≤ csumOff ihl isTcp := le_add_right h
    rw [dstIp_overwrite (Or.inl hoff), dstIp_overwrite (Or.inl hoff), dstIp_fixIpChecksum]

theorem le_of_mssOption {pkt : Bytes} {stop fuel start off : ℕ}
    (h : mssOption pkt stop fuel start = some off) : start ≤ off := by
  induction fuel generalizing start with
  | zero => cases h
  | succ fuel ih =>
      rw [mssOption] at h
      dsimp only at h
      split at h
      · cases h
      · split at h
        · cases h
        · split at h
          · exact (Nat.le_add_right _ _).trans (ih h)
          · split at h
            · cases h
            · split at h
              · cases h
                exact le_rfl
              · exact (Nat.le_add_right _ _).trans (ih h)

theorem dstIp_clampMss {ihl : ℕ} (h : 20 ≤ ihl) : dstIp (clampMss pkt ihl) = dstIp pkt := by
  unfold clampMss
  dsimp only
  split
  · rfl
  · split
    · rfl
    · split
      · rename_i off hoff
        have hle := le_of_mssOption hoff
        split
        · rw [dstIp_fixChecksums _ h, dstIp_overwrite (Or.inl (by omega))]
        · rfl
      · rfl

theorem dstIp_rewriteEgress {pkt : Bytes} (hlen : 20 ≤ pkt.length) (hihl : 20 ≤ ihl pkt)
    (tuple : Tuple) : dstIp (rewriteEgress pkt tuple) = tuple.client := by
  unfold rewriteEgress
  dsimp only
  rw [dstIp_clampMss _ hihl, dstIp_fixChecksums _ hihl, dstIp_overwrite (Or.inl (by omega)),
    dstIp_overwrite (Or.inl (by omega)), dstIp_overwrite_self (by simpa using hlen)]

theorem natEgress_spec {pkt out : Bytes} {reverse : Table ℕ Tuple}
    (h : natEgress pkt reverse = some out) :
    20 ≤ pkt.length ∧
      ∃ tuple, reverse.lookup (u16At pkt (ihl pkt)) = some tuple ∧ out = rewriteEgress pkt tuple := by
  unfold natEgress at h
  split at h
  · cases h
  · rename_i hshort
    split at h
    · cases h
    · split at h
      · cases h
      · obtain ⟨tuple, htuple, rfl⟩ := Option.map_eq_some_iff.mp h
        exact ⟨by omega, tuple, htuple, rfl⟩

theorem natIngress_spec {pkt : Bytes} {nextPort nextPort' : ℕ} {nat nat' : Table Tuple ℕ}
    {i : Ingress} (h : natIngress pkt nextPort nat = some (i, nextPort', nat')) :
    i.tuple = tupleOf pkt ∧
      ((nat.lookup i.tuple = some i.localPort ∧ nextPort' = nextPort ∧ nat' = nat) ∨
        (nat.lookup i.tuple = none ∧ i.localPort = nextPort ∧ nextPort' = nextPort + 1 ∧
          nat' = nat.insert i.tuple nextPort)) := by
  unfold natIngress at h
  dsimp only at h
  split at h
  · cases h
  · split at h
    · cases h
    · split at h
      · cases h
      · split at h
        · rename_i l hl
          cases h
          exact ⟨rfl, Or.inl ⟨hl, rfl, rfl⟩⟩
        · rename_i hnone
          split at h
          · split at h
            · cases h
            · cases h
              exact ⟨rfl, Or.inr ⟨hnone, rfl, rfl, rfl⟩⟩
          · cases h

end Vantablack.Vpn
