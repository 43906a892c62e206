import Vantablack.Vpn.Datagram

/-!
The tunnel state of a VPN client, `ClientState` of `net/vpn/client.rs`, with calls that run one after
the other. The watchdog and its clock are left out.
-/

namespace Vantablack.Vpn

open Lib Layers

variable {K : Type}

/-- `fingerprint` is that of the hub. -/
structure ClientState (K : Type) where
  fingerprint : String
  epoch : ℕ
  txCounter : ℕ
  key : K
  ingress : VpnIngress

/-- The largest inner packet `seal_from_tun` takes. -/
def maxIpPacket : ℕ := tunnelMaxPayload - 16 - tunnelHdrLen

namespace ClientState

def new (fingerprint : String) (key : K) : ClientState K :=
  { fingerprint := fingerprint, epoch := 1, txCounter := 1, key := key, ingress := .new }

def setKey (s : ClientState K) (k : K) : ClientState K :=
  { s with key := k }

def rotateEpoch (s : ClientState K) : ClientState K :=
  { s with
    txCounter := 1
    epoch := (s.epoch + 1) % 2 ^ 32
    ingress := s.ingress.evict s.fingerprint }

def sealFromTun (A : TunnelCipher K) (s : ClientState K) (randSeg : Octets 8) (ipPacket : Bytes) :
    Option Bytes × ClientState K :=
  if maxIpPacket < ipPacket.length then (none, s)
  else
    (some (sealDatagram A s.key s.epoch s.txCounter randSeg ipPacket),
      { s with txCounter := (s.txCounter + 1) % 2 ^ 64 })

/-- What `open_to_tun` makes of a datagram; an accepted one is written to the TUN device. -/
def openToTun (A : TunnelCipher K) (s : ClientState K) (now : ℕ) (wire : Bytes) :
    OpenOutcome × ClientState K :=
  let (outcome, ingress) := s.ingress.openWire A now s.key s.fingerprint s.epoch wire
  (outcome, { s with ingress := ingress })

theorem fst_openToTun (A : TunnelCipher K) (s : ClientState K) (now : ℕ) (wire : Bytes) :
    (s.openToTun A now wire).1 =
      (s.ingress.openWire A now s.key s.fingerprint s.epoch wire).1 := by
  unfold openToTun
  rfl

/-- The counters fit their fields of the header. -/
structure Bounded (s : ClientState K) : Prop where
  epoch_lt : s.epoch < 2 ^ 32
  txCounter_lt : s.txCounter < 2 ^ 64

theorem bounded_new (fingerprint : String) (key : K) : (new fingerprint key).Bounded where
  epoch_lt := Nat.one_lt_two_pow (by decide)
  txCounter_lt := Nat.one_lt_two_pow (by decide)

variable {s : ClientState K}

theorem Bounded.setKey (h : s.Bounded) (k : K) : (s.setKey k).Bounded :=
  ⟨h.epoch_lt, h.txCounter_lt⟩

theorem Bounded.rotateEpoch (_ : s.Bounded) : s.rotateEpoch.Bounded where
  epoch_lt := Nat.mod_lt _ (by decide)
  txCounter_lt := Nat.one_lt_two_pow (by decide)

theorem Bounded.sealFromTun (h : s.Bounded) (A : TunnelCipher K) (randSeg : Octets 8)
    (ipPacket : Bytes) : (s.sealFromTun A randSeg ipPacket).2.Bounded := by
  unfold ClientState.sealFromTun
  split
  · exact h
  · exact ⟨h.epoch_lt, Nat.mod_lt _ (by decide)⟩

theorem Bounded.openToTun (h : s.Bounded) (A : TunnelCipher K) (now : ℕ) (wire : Bytes) :
    (s.openToTun A now wire).2.Bounded :=
  ⟨h.epoch_lt, h.txCounter_lt⟩

end ClientState

end Vantablack.Vpn
