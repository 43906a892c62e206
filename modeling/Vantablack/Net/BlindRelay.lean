import Vantablack.Lib.Runs
import Vantablack.Receive.Spool

/-!
Blind forwarding of `net/relay.rs`: capability tokens that name no client, and the table of the
channels a relay opens for them. Times are seconds. SHA-256 comes from a third-party crate and is a
parameter.

The history adds up the bytes that were forwarded under each token id.
-/

namespace Vantablack.Net

open Lib Layers Receive

/-! ### Tokens -/

structure BlindCapabilityToken where
  tokenId : Octets 32
  maxBytes : UInt64
  expiresAt : UInt64
  authTag : Octets 32
  deriving DecidableEq

namespace BlindCapabilityToken

variable (sha256 : Bytes → Octets 32)

def computeTokenId (seed : Bytes) (flowSalt : Octets 32) : Octets 32 :=
  sha256 (utf8 "GGN_BLIND_TOKEN_ID_V1" ++ seed ++ flowSalt.toList)

def computeAuthTag (authKey tokenId : Octets 32) (maxBytes expiresAt : UInt64) : Octets 32 :=
  sha256 (utf8 "GGN_BLIND_CAP_AUTH_V1" ++ authKey.toList ++ tokenId.toList ++
    toBeBytes 8 maxBytes.toNat ++ toBeBytes 8 expiresAt.toNat)

def mint (authKey : Octets 32) (seed : Bytes) (flowSalt : Octets 32) (maxBytes expiresAt : UInt64) :
    BlindCapabilityToken :=
  let tokenId := computeTokenId sha256 seed flowSalt
  { tokenId := tokenId, maxBytes := maxBytes, expiresAt := expiresAt
    authTag := computeAuthTag sha256 authKey tokenId maxBytes expiresAt }

/-- The tag is that of the token's own fields. -/
def Authentic (authKey : Octets 32) (token : BlindCapabilityToken) : Prop :=
  token.authTag = computeAuthTag sha256 authKey token.tokenId token.maxBytes token.expiresAt
  deriving Decidable

def verify (authKey : Octets 32) (now requestedBytes : UInt64) (token : BlindCapabilityToken) :
    Bool :=
  if token.expiresAt < now ∨ token.maxBytes < requestedBytes then false
  else decide (Authentic sha256 authKey token)

theorem verify_eq_true_iff {authKey : Octets 32} {now : UInt64} {token : BlindCapabilityToken} :
    verify sha256 authKey now 0 token = true ↔
      now ≤ token.expiresAt ∧ Authentic sha256 authKey token := by
  unfold verify
  split
  · rename_i hlate
    refine iff_of_false Bool.false_ne_true ?_
    rintro ⟨htime, -⟩
    rcases hlate with hlate | hquota
    · exact absurd hlate (not_lt.mpr htime)
    · exact absurd hquota (not_lt.mpr UInt64.zero_le)
  · rename_i hearly
    rw [decide_eq_true_eq]
    exact ⟨fun h => ⟨not_lt.mp (not_or.mp hearly).1, h⟩, And.right⟩

end BlindCapabilityToken

/-! ### Channels -/

structure IdentityAgnosticChannel where
  egressEndpoint : SocketAddr
  maxBytes : UInt64
  forwardedBytes : UInt64
  expiresAt : UInt64

def saturatingAdd (a b : UInt64) : UInt64 :=
  UInt64.ofNat (min (a.toNat + b.toNat) (2 ^ 64 - 1))

theorem toNat_saturatingAdd (a b : UInt64) :
    (saturatingAdd a b).toNat = min (a.toNat + b.toNat) (2 ^ 64 - 1) := by
  rw [saturatingAdd, UInt64.toNat_ofNat']
  exact Nat.mod_eq_of_lt (lt_of_le_of_lt (min_le_right _ _) (by norm_num))

abbrev IdentityAgnosticRelayTable := Table (Octets 32) IdentityAgnosticChannel

namespace IdentityAgnosticRelayTable

def registerChannel (sha256 : Bytes → Octets 32) (authKey : Octets 32)
    (channels : IdentityAgnosticRelayTable) (token : BlindCapabilityToken)
    (egressEndpoint : SocketAddr) (now : UInt64) :
    Except String Unit × IdentityAgnosticRelayTable :=
  if !token.verify sha256 authKey now 0 then
    (.error "Invalid blind capability voucher or expired", channels)
  else
    (.ok (), channels.insert token.tokenId
      { egressEndpoint := egressEndpoint, maxBytes := token.maxBytes, forwardedBytes := 0
        expiresAt := token.expiresAt })

def forward (channels : IdentityAgnosticRelayTable) (tokenId : Octets 32) (packetLen now : UInt64) :
    Except String SocketAddr × IdentityAgnosticRelayTable :=
  match channels.lookup tokenId with
  | none => (.error "Channel not found", channels)
  | some chan =>
      if chan.expiresAt < now then (.error "Channel expired", channels)
      else
        let nextTotal := saturatingAdd chan.forwardedBytes packetLen
        if chan.maxBytes < nextTotal then (.error "Quota exceeded", channels)
        else
          (.ok chan.egressEndpoint,
            channels.insert tokenId { chan with forwardedBytes := nextTotal })

end IdentityAgnosticRelayTable

/-! ### A relay and its history -/

/-- `sent` counts the bytes for which `forward` returned `Ok`, under each token id. -/
structure BlindRelay where
  channels : IdentityAgnosticRelayTable
  sent : Octets 32 → ℕ

inductive BlindRelayAct
  | register (token : BlindCapabilityToken) (egressEndpoint : SocketAddr) (now : UInt64)
  | forward (tokenId : Octets 32) (packetLen now : UInt64)

namespace BlindRelay

open BlindCapabilityToken IdentityAgnosticRelayTable

variable (sha256 : Bytes → Octets 32) (authKey : Octets 32)

def start : BlindRelay where
  channels := ∅
  sent _ := 0

def step (w : BlindRelay) : BlindRelayAct → BlindRelay
  | .register token egressEndpoint now =>
      { w with channels := (registerChannel sha256 authKey w.channels token egressEndpoint now).2 }
  | .forward tokenId packetLen now =>
      match IdentityAgnosticRelayTable.forward w.channels tokenId packetLen now with
      | (.ok _, channels) =>
          { channels := channels
            sent := Function.update w.sent tokenId (w.sent tokenId + packetLen.toNat) }
      | (.error _, channels) => { w with channels := channels }

/-- The bytes that the issuer authorised under a token id; `minted` has the one token it minted for
each. -/
def authorised (minted : Octets 32 → Option BlindCapabilityToken) (tokenId : Octets 32) : ℕ :=
  (minted tokenId).elim 0 fun token => token.maxBytes.toNat

/-- A tag that verifies is one the issuer made. -/
def Unforged (minted : Octets 32 → Option BlindCapabilityToken) : BlindRelayAct → Prop
  | .register token _ _ => Authentic sha256 authKey token → minted token.tokenId = some token
  | .forward .. => True

def WithinQuota (minted : Octets 32 → Option BlindCapabilityToken) (w : BlindRelay) : Prop :=
  ∀ tokenId, w.sent tokenId ≤ authorised minted tokenId

/-- The quota is kept by a step, and by using up at once a channel that the step registers. -/
structure KeepsQuota (minted : Octets 32 → Option BlindCapabilityToken) (w : BlindRelay)
    (act : BlindRelayAct) : Prop where
  now : (w.step sha256 authKey act).WithinQuota minted
  usedUp : ∀ token egressEndpoint time, act = .register token egressEndpoint time →
    token.verify sha256 authKey time 0 = true →
      ((w.step sha256 authKey act).step sha256 authKey
        (.forward token.tokenId token.maxBytes time)).WithinQuota minted

/-- A token is registered only while nothing was forwarded in a channel of its id, and no packet of a
live channel without a bound, one for all of the `u64`, takes its total past the `u64`. -/
def CountsAll (w : BlindRelay) : BlindRelayAct → Prop
  | .register token _ now =>
      token.verify sha256 authKey now 0 = true →
        ∀ chan ∈ w.channels.lookup token.tokenId, chan.forwardedBytes = 0
  | .forward tokenId packetLen now =>
      ∀ chan ∈ w.channels.lookup tokenId, now ≤ chan.expiresAt →
        chan.maxBytes.toNat = 2 ^ 64 - 1 →
          chan.forwardedBytes.toNat + packetLen.toNat ≤ 2 ^ 64 - 1

instance (w : BlindRelay) : ∀ act, Decidable (w.CountsAll sha256 authKey act)
  | .register token _ now =>
      inferInstanceAs (Decidable (token.verify sha256 authKey now 0 = true →
        ∀ chan ∈ w.channels.lookup token.tokenId, chan.forwardedBytes = 0))
  | .forward tokenId packetLen now =>
      inferInstanceAs (Decidable (∀ chan ∈ w.channels.lookup tokenId, now ≤ chan.expiresAt →
        chan.maxBytes.toNat = 2 ^ 64 - 1 →
          chan.forwardedBytes.toNat + packetLen.toNat ≤ 2 ^ 64 - 1))

/-! ### One step -/

/-- A channel has the quota of its token and counts what was sent under it. -/
structure Inv (minted : Octets 32 → Option BlindCapabilityToken) (w : BlindRelay) : Prop where
  unsent : ∀ tokenId, w.channels.lookup tokenId = none → w.sent tokenId = 0
  counted : ∀ tokenId chan, w.channels.lookup tokenId = some chan →
    w.sent tokenId = chan.forwardedBytes.toNat
  quota : ∀ tokenId chan, w.channels.lookup tokenId = some chan →
    chan.maxBytes.toNat = authorised minted tokenId
  within : ∀ tokenId chan, w.channels.lookup tokenId = some chan →
    chan.forwardedBytes ≤ chan.maxBytes

variable {sha256 authKey} {minted : Octets 32 → Option BlindCapabilityToken} {w : BlindRelay}

theorem inv_start : start.Inv minted where
  unsent _ _ := rfl
  counted tokenId chan h := by cases h
  quota tokenId chan h := by cases h
  within tokenId chan h := by cases h

theorem Inv.withinQuota (h : w.Inv minted) : w.WithinQuota minted := by
  intro tokenId
  cases hchan : w.channels.lookup tokenId with
  | none => exact (h.unsent tokenId hchan).le.trans (Nat.zero_le _)
  | some chan =>
      rw [h.counted tokenId chan hchan, ← h.quota tokenId chan hchan]
      exact UInt64.le_iff_toNat_le.mp (h.within tokenId chan hchan)

variable {token : BlindCapabilityToken} {now : UInt64}

theorem step_register (hverify : token.verify sha256 authKey now 0 = true)
    (egressEndpoint : SocketAddr) :
    w.step sha256 authKey (.register token egressEndpoint now) =
      { w with
        channels := w.channels.insert token.tokenId
          { egressEndpoint := egressEndpoint, maxBytes := token.maxBytes, forwardedBytes := 0
            expiresAt := token.expiresAt } } := by
  simp only [step, registerChannel, hverify, Bool.not_true, if_neg Bool.false_ne_true]

theorem step_register_refused (hverify : token.verify sha256 authKey now 0 = false)
    (egressEndpoint : SocketAddr) :
    w.step sha256 authKey (.register token egressEndpoint now) = w := by
  simp only [step, registerChannel, hverify, Bool.not_false, if_true]

theorem step_forward_cases (tokenId : Octets 32) (packetLen now : UInt64) :
    w.step sha256 authKey (.forward tokenId packetLen now) = w ∨
      ∃ chan, w.channels.lookup tokenId = some chan ∧ now ≤ chan.expiresAt ∧
        saturatingAdd chan.forwardedBytes packetLen ≤ chan.maxBytes ∧
        w.step sha256 authKey (.forward tokenId packetLen now) =
          { channels := w.channels.insert tokenId
              { chan with forwardedBytes := saturatingAdd chan.forwardedBytes packetLen }
            sent := Function.update w.sent tokenId (w.sent tokenId + packetLen.toNat) } := by
  cases hchan : w.channels.lookup tokenId with
  | none =>
      left
      simp only [step, IdentityAgnosticRelayTable.forward, hchan]
  | some chan =>
      by_cases hlate : chan.expiresAt < now
      · left
        simp only [step, IdentityAgnosticRelayTable.forward, hchan, if_pos hlate]
      by_cases hover : chan.maxBytes < saturatingAdd chan.forwardedBytes packetLen
      · left
        simp only [step, IdentityAgnosticRelayTable.forward, hchan, if_neg hlate, if_pos hover]
      · right
        refine ⟨chan, rfl, not_lt.mp hlate, not_lt.mp hover, ?_⟩
        simp only [step, IdentityAgnosticRelayTable.forward, hchan, if_neg hlate, if_neg hover]

variable {tokenId : Octets 32} {chan : IdentityAgnosticChannel}

theorem Inv.insert (h : w.Inv minted) {sent : Octets 32 → ℕ}
    (hothers : ∀ tokenId', tokenId' ≠ tokenId → sent tokenId' = w.sent tokenId')
    (hcounted : sent tokenId = chan.forwardedBytes.toNat)
    (hquota : chan.maxBytes.toNat = authorised minted tokenId)
    (hwithin : chan.forwardedBytes ≤ chan.maxBytes) :
    ({ channels := w.channels.insert tokenId chan, sent := sent } : BlindRelay).Inv minted := by
  refine ⟨?_, ?_, ?_, ?_⟩
  · intro tokenId' hnone
    by_cases hid : tokenId' = tokenId
    · rw [hid, AList.lookup_insert] at hnone
      cases hnone
    · rw [AList.lookup_insert_ne hid] at hnone
      exact (hothers tokenId' hid).trans (h.unsent tokenId' hnone)
  · intro tokenId' chan' hchan
    rcases Table.lookup_insert_eq_some.mp hchan with ⟨rfl, rfl⟩ | ⟨hne, hchan⟩
    · exact hcounted
    · exact (hothers tokenId' hne).trans (h.counted tokenId' chan' hchan)
  · intro tokenId' chan' hchan
    rcases Table.lookup_insert_eq_some.mp hchan with ⟨rfl, rfl⟩ | ⟨-, hchan⟩
    · exact hquota
    · exact h.quota tokenId' chan' hchan
  · intro tokenId' chan' hchan
    rcases Table.lookup_insert_eq_some.mp hchan with ⟨rfl, rfl⟩ | ⟨-, hchan⟩
    · exact hwithin
    · exact h.within tokenId' chan' hchan

theorem Inv.register (h : w.Inv minted) {egressEndpoint : SocketAddr}
    (hunforged : Unforged sha256 authKey minted (.register token egressEndpoint now))
    (hfresh : w.CountsAll sha256 authKey (.register token egressEndpoint now)) :
    (w.step sha256 authKey (.register token egressEndpoint now)).Inv minted := by
  cases hverify : token.verify sha256 authKey now 0 with
  | false =>
      rw [step_register_refused hverify]
      exact h
  | true =>
      have hminted := hunforged ((verify_eq_true_iff sha256).mp hverify).2
      have hunsent : w.sent token.tokenId = 0 := by
        cases hchan : w.channels.lookup token.tokenId with
        | none => exact h.unsent _ hchan
        | some chan =>
            rw [h.counted _ chan hchan, hfresh hverify chan hchan]
            rfl
      rw [step_register hverify]
      refine h.insert (fun _ _ => rfl) hunsent ?_ UInt64.zero_le
      rw [authorised, hminted]
      rfl

theorem Inv.forward (h : w.Inv minted) {packetLen : UInt64}
    (hcounts : w.CountsAll sha256 authKey (.forward tokenId packetLen now)) :
    (w.step sha256 authKey (.forward tokenId packetLen now)).Inv minted := by
  rcases @step_forward_cases sha256 authKey w tokenId packetLen now with
    hstep | ⟨chan, hchan, htime, hfits, hstep⟩
  · rw [hstep]
    exact h
  have htotal := toNat_saturatingAdd chan.forwardedBytes packetLen
  -- an addition that saturates is caught by every bound but the largest
  have hexact : (saturatingAdd chan.forwardedBytes packetLen).toNat =
      chan.forwardedBytes.toNat + packetLen.toNat := by
    rw [htotal]
    refine min_eq_left ?_
    by_contra hover
    have hmax : chan.maxBytes.toNat = 2 ^ 64 - 1 := by
      have hle := UInt64.le_iff_toNat_le.mp hfits
      have hlt := chan.maxBytes.toNat_lt
      omega
    exact hover (hcounts chan hchan htime hmax)
  rw [hstep]
  refine h.insert (fun tokenId' hne => Function.update_of_ne hne _ _) ?_ (h.quota tokenId chan hchan)
    hfits
  rw [Function.update_self, hexact, h.counted tokenId chan hchan]

theorem Inv.step (h : w.Inv minted) {act : BlindRelayAct}
    (hunforged : Unforged sha256 authKey minted act) (hcounts : w.CountsAll sha256 authKey act) :
    (w.step sha256 authKey act).Inv minted := by
  cases act with
  | register token egressEndpoint now => exact h.register hunforged hcounts
  | forward tokenId packetLen now => exact h.forward hcounts

theorem not_withinQuota_of_renewed (h : w.Inv minted) {egressEndpoint : SocketAddr}
    (hunforged : Unforged sha256 authKey minted (.register token egressEndpoint now))
    (hverify : token.verify sha256 authKey now 0 = true)
    (hchan : w.channels.lookup token.tokenId = some chan) (hused : chan.forwardedBytes ≠ 0) :
    ¬ ((w.step sha256 authKey (.register token egressEndpoint now)).step sha256 authKey
      (.forward token.tokenId token.maxBytes now)).WithinQuota minted := by
  obtain ⟨htime, hauthentic⟩ := (verify_eq_true_iff sha256).mp hverify
  have hminted := hunforged hauthentic
  have hpos : 0 < chan.forwardedBytes.toNat := by
    rw [Nat.pos_iff_ne_zero]
    exact fun hzero => hused (UInt64.toNat_inj.mp hzero)
  have hfits : ¬ token.maxBytes < saturatingAdd 0 token.maxBytes := by
    rw [UInt64.lt_iff_toNat_lt, toNat_saturatingAdd]
    simp
  rw [step_register hverify]
  simp only [BlindRelay.step, IdentityAgnosticRelayTable.forward, AList.lookup_insert,
    if_neg (not_lt.mpr htime), if_neg hfits]
  intro hwithin
  have htotal := hwithin token.tokenId
  simp only [Function.update_self, authorised, hminted, Option.elim_some,
    h.counted _ chan hchan] at htotal
  omega

theorem not_withinQuota_of_saturated (h : w.Inv minted) {packetLen : UInt64}
    (hchan : w.channels.lookup tokenId = some chan) (htime : now ≤ chan.expiresAt)
    (hmax : chan.maxBytes.toNat = 2 ^ 64 - 1)
    (hover : 2 ^ 64 - 1 < chan.forwardedBytes.toNat + packetLen.toNat) :
    ¬ (w.step sha256 authKey (.forward tokenId packetLen now)).WithinQuota minted := by
  have hfits : ¬ chan.maxBytes < saturatingAdd chan.forwardedBytes packetLen := by
    rw [UInt64.lt_iff_toNat_lt, toNat_saturatingAdd, hmax]
    exact not_lt.mpr (min_le_right _ _)
  simp only [BlindRelay.step, IdentityAgnosticRelayTable.forward, hchan,
    if_neg (not_lt.mpr htime), if_neg hfits]
  intro hwithin
  have htotal := hwithin tokenId
  simp only [Function.update_self, ← h.quota tokenId chan hchan, hmax,
    h.counted _ chan hchan] at htotal
  omega

theorem Inv.keepsQuota_iff (h : w.Inv minted) {act : BlindRelayAct}
    (hunforged : Unforged sha256 authKey minted act) :
    w.KeepsQuota sha256 authKey minted act ↔ w.CountsAll sha256 authKey act := by
  constructor
  · intro hkeeps
    cases act with
    | register token egressEndpoint now =>
        intro hverify chan hchan
        by_contra hused
        exact not_withinQuota_of_renewed h hunforged hverify hchan hused
          (hkeeps.usedUp token egressEndpoint now rfl hverify)
    | forward tokenId packetLen now =>
        intro chan hchan htime hmax
        by_contra hover
        exact not_withinQuota_of_saturated h hchan htime hmax (not_le.mp hover) hkeeps.now
  · intro hcounts
    have hnext := h.step hunforged hcounts
    refine ⟨hnext.withinQuota, ?_⟩
    rintro token egressEndpoint now rfl hverify
    refine (hnext.forward ?_).withinQuota
    -- the channel is a new one, so that its total is the token's bound
    intro chan hchan _ _
    rw [step_register hverify] at hchan
    rcases Table.lookup_insert_eq_some.mp hchan with ⟨-, rfl⟩ | ⟨hne, -⟩
    · have hlt := token.maxBytes.toNat_lt
      show 0 + token.maxBytes.toNat ≤ 2 ^ 64 - 1
      omega
    · exact absurd rfl hne

/-- In any order of registrations and packets, the bytes forwarded under a token id stay within what
its token authorises exactly as long as no token is registered again after its channel was used, and
no total passes the `u64`. -/
theorem quota_kept_iff (sha256 : Bytes → Octets 32) (authKey : Octets 32)
    (minted : Octets 32 → Option BlindCapabilityToken) (acts : List BlindRelayAct)
    (hunforged : ∀ act ∈ acts, Unforged sha256 authKey minted act) :
    Always (step sha256 authKey) (fun w act => w.KeepsQuota sha256 authKey minted act) start acts ↔
      Always (step sha256 authKey) (fun w act => w.CountsAll sha256 authKey act) start acts := by
  have hall : Always (step sha256 authKey)
      (fun _ act => Unforged sha256 authKey minted act) start acts :=
    .of_forall (fun _ act hact => hunforged act hact) start
  have hboth : Always (step sha256 authKey) (fun w act => w.CountsAll sha256 authKey act ∧
        Unforged sha256 authKey minted act) start acts ↔
      Always (step sha256 authKey) (fun w act => w.KeepsQuota sha256 authKey minted act ∧
        Unforged sha256 authKey minted act) start acts :=
    Always.congr_of_kept (Inv minted) (fun _ _ hw hP => hw.step hP.2 hP.1)
      (fun _ _ hw => and_congr_left fun hu => (hw.keepsQuota_iff hu).symm) inv_start acts
  exact ⟨fun h => (hboth.mpr (h.and hall)).imp fun _ _ => And.left,
    fun h => (hboth.mp (h.and hall)).imp fun _ _ => And.left⟩

/-! ### One token -/

/-- A digest that takes every tag for the issuer's. -/
def plainDigest (_ : Bytes) : Octets 32 :=
  List.Vector.replicate 32 0

def hundredBytes : BlindCapabilityToken :=
  .mint plainDigest (List.Vector.replicate 32 7) [1] (List.Vector.replicate 32 2) 100 60

def onlyToken (tokenId : Octets 32) : Option BlindCapabilityToken :=
  if tokenId = hundredBytes.tokenId then some hundredBytes else none

def exitAddr : SocketAddr := { ip := .v4 ⟨[192, 0, 2, 1], rfl⟩, port := 443 }

/-- Two packets in one channel. -/
def sixtyAndForty : List BlindRelayAct :=
  [.register hundredBytes exitAddr 0, .forward hundredBytes.tokenId 60 1,
    .forward hundredBytes.tokenId 40 2]

theorem sixtyAndForty_within :
    Always (step plainDigest (List.Vector.replicate 32 7))
      (fun w act => w.KeepsQuota plainDigest (List.Vector.replicate 32 7) onlyToken act) start
      sixtyAndForty :=
  (quota_kept_iff plainDigest (List.Vector.replicate 32 7) onlyToken sixtyAndForty (by
    intro act hact
    simp only [sixtyAndForty, List.mem_cons, List.not_mem_nil, or_false] at hact
    rcases hact with rfl | rfl | rfl
    · exact fun _ => if_pos rfl
    · trivial
    · trivial)).mpr (by decide +kernel)

/-- The token is registered again between two packets. -/
def registeredAgain : List BlindRelayAct :=
  [.register hundredBytes exitAddr 0, .forward hundredBytes.tokenId 60 1,
    .register hundredBytes exitAddr 2, .forward hundredBytes.tokenId 60 3]

/-- Of the hundred bytes, a hundred and twenty are forwarded. -/
theorem registeredAgain_exceeds :
    (∀ act ∈ registeredAgain,
      Unforged plainDigest (List.Vector.replicate 32 7) onlyToken act) ∧
      authorised onlyToken hundredBytes.tokenId = 100 ∧
      (registeredAgain.foldl (step plainDigest (List.Vector.replicate 32 7)) start).sent
        hundredBytes.tokenId = 120 := by
  refine ⟨?_, by decide +kernel, by decide +kernel⟩
  intro act hact
  simp only [registeredAgain, List.mem_cons, List.not_mem_nil, or_false] at hact
  rcases hact with rfl | rfl | rfl | rfl
  · exact fun _ => if_pos rfl
  · trivial
  · exact fun _ => if_pos rfl
  · trivial

end BlindRelay

end Vantablack.Net
