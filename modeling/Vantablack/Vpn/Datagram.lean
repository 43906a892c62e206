import Vantablack.Layers.Kem
import Vantablack.Layers.SessionGuard
import Vantablack.Lib.Table

/-!
The datagrams of the VPN tunnel, `seal_datagram` and `VpnIngress` of `net/vpn/mod.rs`. A datagram
carries its epoch and counter in the clear, and its ingress keeps a replay window for each peer and
epoch. XChaCha20-Poly1305 comes from a third-party crate and is a parameter.
-/

namespace Vantablack.Vpn

open Lib Layers

def tunMtu : ℕ := 1280

/-- The MSS of the TCP flows inside the overlay. -/
def overlayMss : ℕ := tunMtu - 40

def tunnelHdrLen : ℕ := 20

/-- `TUNNEL_MAX_PAYLOAD`: the largest inner packet and its tag. -/
def tunnelMaxPayload : ℕ := tunMtu + 16

variable {K : Type}

/-- The cipher of the tunnel: what is sealed ends with its tag of sixteen bytes. -/
structure TunnelCipher (K : Type) where
  xseal : K → Octets 24 → Bytes → Bytes
  xopen : K → Octets 24 → Bytes → Option Bytes

structure TunnelCipher.Lawful (A : TunnelCipher K) : Prop where
  length_seal : ∀ key nonce packet, (A.xseal key nonce packet).length = packet.length + 16
  open_seal : ∀ key nonce packet, A.xopen key nonce (A.xseal key nonce packet) = some packet

/-- What was sealed under one key opens under no other. -/
def TunnelCipher.BindsKey (A : TunnelCipher K) : Prop :=
  ∀ key key' nonce packet packet', A.xopen key nonce (A.xseal key' nonce packet) = some packet' →
    key = key'

/-- A cipher that hides nothing: it appends a tag of the key and the nonce. -/
def TunnelCipher.tagging (tag : K → Octets 24 → Octets 16) : TunnelCipher K where
  xseal key nonce packet := packet ++ (tag key nonce).toList
  xopen key nonce data :=
    if data.drop (data.length - 16) = (tag key nonce).toList then
      some (data.take (data.length - 16))
    else none

theorem TunnelCipher.tagging_lawful (tag : K → Octets 24 → Octets 16) :
    (TunnelCipher.tagging tag).Lawful where
  length_seal key nonce packet := by
    simp [TunnelCipher.tagging]
  open_seal key nonce packet := by
    simp [TunnelCipher.tagging]

/-- The one whose tag is the key. -/
def TunnelCipher.labelled : TunnelCipher UInt8 :=
  .tagging fun key _ => List.Vector.replicate 16 key

theorem TunnelCipher.labelled_bindsKey : TunnelCipher.labelled.BindsKey := by
  intro key key' nonce packet packet' h
  simp only [TunnelCipher.labelled, TunnelCipher.tagging, List.length_append,
    List.Vector.toList_length, Nat.add_sub_cancel, List.drop_left'] at h
  split at h
  · rename_i htag
    have hhead := congrArg List.head? htag
    exact (Option.some.inj hhead).symm
  · cases h

def tunnelContext : Octets 4 :=
  ⟨utf8 "GTun", by decide +kernel⟩

def tunnelXnonce (epoch ctr : ℕ) (randSeg : Octets 8) : Octets 24 :=
  ⟨tunnelContext.toList ++ (toBeBytes 4 epoch ++ (toBeBytes 8 ctr ++ randSeg.toList)), by simp⟩

/-- The random segment is passed in. -/
def sealDatagram (A : TunnelCipher K) (key : K) (epoch ctr : ℕ) (randSeg : Octets 8)
    (ipPacket : Bytes) : Bytes :=
  toBeBytes 4 epoch ++ (toBeBytes 8 ctr ++ (randSeg.toList ++
    A.xseal key (tunnelXnonce epoch ctr randSeg) ipPacket))

/-! ### The header -/

def wireEpoch (wire : Bytes) : ℕ :=
  fromBeBytes (wire.take 4)

def wireCtr (wire : Bytes) : ℕ :=
  fromBeBytes ((wire.drop 4).take 8)

def wireRandSeg (wire : Bytes) : Octets 8 :=
  Block.zeroPadded 8 ((wire.drop 12).take 8)

section

variable (A : TunnelCipher K) (key : K) {epoch ctr : ℕ} (randSeg : Octets 8) (ipPacket : Bytes)

theorem wireEpoch_sealDatagram (hepoch : epoch < 2 ^ 32) (ctr : ℕ) :
    wireEpoch (sealDatagram A key epoch ctr randSeg ipPacket) = epoch := by
  rw [wireEpoch, sealDatagram, List.take_left' (length_toBeBytes 4 epoch)]
  exact fromBeBytes_toBeBytes hepoch

theorem drop_four_sealDatagram (epoch ctr : ℕ) :
    (sealDatagram A key epoch ctr randSeg ipPacket).drop 4 =
      toBeBytes 8 ctr ++ (randSeg.toList ++
        A.xseal key (tunnelXnonce epoch ctr randSeg) ipPacket) := by
  rw [sealDatagram, List.drop_left' (length_toBeBytes 4 epoch)]

theorem wireCtr_sealDatagram (epoch : ℕ) (hctr : ctr < 2 ^ 64) :
    wireCtr (sealDatagram A key epoch ctr randSeg ipPacket) = ctr := by
  rw [wireCtr, drop_four_sealDatagram, List.take_left' (length_toBeBytes 8 ctr)]
  exact fromBeBytes_toBeBytes hctr

theorem drop_twelve_sealDatagram (epoch ctr : ℕ) :
    (sealDatagram A key epoch ctr randSeg ipPacket).drop 12 =
      randSeg.toList ++ A.xseal key (tunnelXnonce epoch ctr randSeg) ipPacket := by
  rw [show 12 = 4 + 8 from rfl, ← List.drop_drop, drop_four_sealDatagram,
    List.drop_left' (length_toBeBytes 8 ctr)]

theorem wireRandSeg_sealDatagram (epoch ctr : ℕ) :
    wireRandSeg (sealDatagram A key epoch ctr randSeg ipPacket) = randSeg := by
  apply List.Vector.toList_injective
  rw [wireRandSeg, drop_twelve_sealDatagram, List.take_left' randSeg.toList_length,
    Block.toList_zeroPadded_of_length randSeg.toList_length]

theorem drop_tunnelHdrLen_sealDatagram (epoch ctr : ℕ) :
    (sealDatagram A key epoch ctr randSeg ipPacket).drop tunnelHdrLen =
      A.xseal key (tunnelXnonce epoch ctr randSeg) ipPacket := by
  rw [show tunnelHdrLen = 12 + 8 from rfl, ← List.drop_drop, drop_twelve_sealDatagram,
    List.drop_left' randSeg.toList_length]

theorem length_sealDatagram (hA : A.Lawful) (epoch ctr : ℕ) :
    (sealDatagram A key epoch ctr randSeg ipPacket).length = ipPacket.length + 36 := by
  simp only [sealDatagram, List.length_append, length_toBeBytes, List.Vector.toList_length,
    hA.length_seal]
  omega

theorem not_length_sealDatagram_lt (hA : A.Lawful) (epoch ctr : ℕ) :
    ¬ (sealDatagram A key epoch ctr randSeg ipPacket).length < tunnelHdrLen + 16 := by
  rw [length_sealDatagram A key randSeg ipPacket hA]
  have : tunnelHdrLen = 20 := rfl
  omega

end

/-! ### The ingress -/

inductive OpenOutcome where
  | accepted (ipPacket : Bytes) (advanced : Bool)
  | replay
  | authFail
  deriving DecidableEq

def OpenOutcome.isAccepted : OpenOutcome → Bool
  | .accepted _ _ => true
  | _ => false

structure TunnelRx where
  guard : SessionGuardU64
  vMax : ℕ

def TunnelRx.new (now : ℕ) : TunnelRx :=
  { guard := .new now, vMax := 0 }

structure VpnIngress where
  rx : Table (String × ℕ) TunnelRx

namespace VpnIngress

def new : VpnIngress :=
  { rx := ∅ }

/-- The window a datagram is checked against; there is a fresh one for a new epoch. -/
def window (s : VpnIngress) (now : ℕ) (fp : String) (epoch : ℕ) : TunnelRx :=
  (s.rx.lookup (fp, epoch)).getD (.new now)

/-- The payload of a datagram that authenticates. -/
def opened (A : TunnelCipher K) (key : K) (wire : Bytes) : Option Bytes :=
  A.xopen key (tunnelXnonce (wireEpoch wire) (wireCtr wire) (wireRandSeg wire))
    (wire.drop tunnelHdrLen)

def openWire (A : TunnelCipher K) (s : VpnIngress) (now : ℕ) (key : K) (fp : String)
    (expectedEpoch : ℕ) (wire : Bytes) : OpenOutcome × VpnIngress :=
  if wire.length < tunnelHdrLen + 16 then (.authFail, s)
  else if wireEpoch wire ≠ expectedEpoch then (.authFail, s)
  else
    match opened A key wire with
    | none => (.authFail, s)
    | some ipPacket =>
        let ctr := wireCtr wire
        let state := s.window now fp (wireEpoch wire)
        let advanced := decide (state.vMax < ctr)
        let (ok, guard) := state.guard.checkAndUpdate now ctr
        if !ok then
          (.replay, { rx := s.rx.insert (fp, wireEpoch wire) { state with guard := guard } })
        else
          (.accepted ipPacket advanced,
            { rx := s.rx.insert (fp, wireEpoch wire)
                { guard := guard, vMax := if advanced then ctr else state.vMax } })

/-- Forget all the windows of a peer. -/
def evict (s : VpnIngress) (fp : String) : VpnIngress :=
  { rx := Table.retain (fun k _ => k.1 ≠ fp) s.rx }

/-- Forget the windows of a peer but that of one epoch. -/
def retainEpoch (s : VpnIngress) (fp : String) (epoch : ℕ) : VpnIngress :=
  { rx := Table.retain (fun k _ => k.1 ≠ fp || k.2 = epoch) s.rx }

theorem window_of_lookup {s : VpnIngress} {fp : String} {epoch : ℕ} {st : TunnelRx}
    (h : s.rx.lookup (fp, epoch) = some st) (now : ℕ) : s.window now fp epoch = st := by
  rw [window, h, Option.getD_some]

theorem lookup_retainEpoch_self (s : VpnIngress) (fp : String) (epoch : ℕ) :
    (s.retainEpoch fp epoch).rx.lookup (fp, epoch) = s.rx.lookup (fp, epoch) := by
  apply Option.ext
  intro st
  refine Table.lookup_retain.trans (and_iff_left ?_)
  simp

theorem lookup_retainEpoch_of_none {s : VpnIngress} {key : String × ℕ}
    (h : s.rx.lookup key = none) (fp : String) (epoch : ℕ) :
    (s.retainEpoch fp epoch).rx.lookup key = none := by
  rw [Option.eq_none_iff_forall_not_mem]
  intro st hst
  exact absurd ((Table.lookup_retain.mp hst).1.symm.trans h) (Option.some_ne_none st)

theorem openWire_cases (A : TunnelCipher K) (s : VpnIngress) (now : ℕ) (key : K) (fp : String)
    (expectedEpoch : ℕ) (wire : Bytes) :
    openWire A s now key fp expectedEpoch wire = (.authFail, s) ∨
    (wireEpoch wire = expectedEpoch ∧
      ((s.window now fp expectedEpoch).guard.checkAndUpdate now (wireCtr wire)).1 = false ∧
      openWire A s now key fp expectedEpoch wire = (.replay,
        { rx := s.rx.insert (fp, expectedEpoch)
            { s.window now fp expectedEpoch with
              guard := ((s.window now fp expectedEpoch).guard.checkAndUpdate now
                (wireCtr wire)).2 } })) ∨
    ∃ ipPacket, wireEpoch wire = expectedEpoch ∧ opened A key wire = some ipPacket ∧
      ((s.window now fp expectedEpoch).guard.checkAndUpdate now (wireCtr wire)).1 = true ∧
      openWire A s now key fp expectedEpoch wire =
        (.accepted ipPacket ((s.window now fp expectedEpoch).vMax < wireCtr wire),
          { rx := s.rx.insert (fp, expectedEpoch)
              { guard := ((s.window now fp expectedEpoch).guard.checkAndUpdate now
                  (wireCtr wire)).2
                vMax := if (s.window now fp expectedEpoch).vMax < wireCtr wire then wireCtr wire
                  else (s.window now fp expectedEpoch).vMax } }) := by
  by_cases hlen : wire.length < tunnelHdrLen + 16
  · rw [openWire, if_pos hlen]
    exact Or.inl rfl
  by_cases hepoch : wireEpoch wire ≠ expectedEpoch
  · rw [openWire, if_neg hlen, if_pos hepoch]
    exact Or.inl rfl
  rw [openWire, if_neg hlen, if_neg hepoch]
  rw [not_not] at hepoch
  cases hopened : opened A key wire with
  | none => exact Or.inl rfl
  | some ipPacket =>
      right
      subst hepoch
      dsimp only
      cases hok : ((s.window now fp (wireEpoch wire)).guard.checkAndUpdate now
          (wireCtr wire)).1 with
      | false => exact Or.inl ⟨rfl, rfl, rfl⟩
      | true =>
          refine Or.inr ⟨ipPacket, rfl, rfl, rfl, ?_⟩
          simp

section

variable {A : TunnelCipher K} {epoch ctr : ℕ}

theorem opened_sealDatagram (A : TunnelCipher K) (key key' : K) (randSeg : Octets 8)
    (ipPacket : Bytes) (hepoch : epoch < 2 ^ 32) (hctr : ctr < 2 ^ 64) :
    opened A key (sealDatagram A key' epoch ctr randSeg ipPacket) =
      A.xopen key (tunnelXnonce epoch ctr randSeg)
        (A.xseal key' (tunnelXnonce epoch ctr randSeg) ipPacket) := by
  rw [opened, wireEpoch_sealDatagram A key' randSeg ipPacket hepoch,
    wireCtr_sealDatagram A key' randSeg ipPacket epoch hctr, wireRandSeg_sealDatagram,
    drop_tunnelHdrLen_sealDatagram]

theorem openWire_sealDatagram (hA : A.Lawful) (hepoch : epoch < 2 ^ 32) (hctr : ctr < 2 ^ 64)
    (key : K) (randSeg : Octets 8) (ipPacket : Bytes) {s : VpnIngress} {now : ℕ} {fp : String}
    (hroom : ((s.window now fp epoch).guard.checkAndUpdate now ctr).1 = true) :
    openWire A s now key fp epoch (sealDatagram A key epoch ctr randSeg ipPacket) =
      (.accepted ipPacket ((s.window now fp epoch).vMax < ctr),
        { rx := s.rx.insert (fp, epoch)
            { guard := ((s.window now fp epoch).guard.checkAndUpdate now ctr).2
              vMax := if (s.window now fp epoch).vMax < ctr then ctr
                else (s.window now fp epoch).vMax } }) := by
  have hopened := opened_sealDatagram A key key randSeg ipPacket hepoch hctr
  rw [hA.open_seal] at hopened
  have hwireEpoch := wireEpoch_sealDatagram A key randSeg ipPacket hepoch ctr
  have hwireCtr := wireCtr_sealDatagram A key randSeg ipPacket epoch hctr
  have hlen := not_length_sealDatagram_lt A key randSeg ipPacket hA epoch ctr
  rw [openWire, if_neg hlen, if_neg (not_not.mpr hwireEpoch), hopened, hwireEpoch, hwireCtr]
  dsimp only
  rw [hroom, Bool.not_true, if_neg Bool.false_ne_true]
  simp only [decide_eq_true_eq]

theorem isAccepted_sealDatagram (hA : A.Lawful) (hbinds : A.BindsKey) (hepoch : epoch < 2 ^ 32)
    (hctr : ctr < 2 ^ 64) (key key' : K) (randSeg : Octets 8) (ipPacket : Bytes) (s : VpnIngress)
    (now : ℕ) (fp : String) (expectedEpoch : ℕ) :
    (openWire A s now key fp expectedEpoch
        (sealDatagram A key' epoch ctr randSeg ipPacket)).1.isAccepted = true ↔
      key = key' ∧ epoch = expectedEpoch ∧
        ((s.window now fp epoch).guard.checkAndUpdate now ctr).1 = true := by
  have hopened := opened_sealDatagram A key key' randSeg ipPacket hepoch hctr
  have hwireEpoch := wireEpoch_sealDatagram A key' randSeg ipPacket hepoch ctr
  have hwireCtr := wireCtr_sealDatagram A key' randSeg ipPacket epoch hctr
  constructor
  · intro haccepted
    rcases openWire_cases A s now key fp expectedEpoch
        (sealDatagram A key' epoch ctr randSeg ipPacket) with
      hfail | ⟨-, -, hreplay⟩ | ⟨packet, hexpected, hpacket, hroom, -⟩
    · rw [hfail] at haccepted
      cases haccepted
    · rw [hreplay] at haccepted
      cases haccepted
    · rw [hwireEpoch] at hexpected
      subst hexpected
      rw [hwireCtr] at hroom
      rw [hopened] at hpacket
      exact ⟨hbinds key key' _ ipPacket packet hpacket, rfl, hroom⟩
  · rintro ⟨rfl, rfl, hroom⟩
    rw [openWire_sealDatagram hA hepoch hctr key randSeg ipPacket hroom]
    rfl

end

end VpnIngress

end Vantablack.Vpn
