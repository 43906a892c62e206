import Vantablack.Turn.TwoRuns

/-!
Requests that arrive twice: two runs of a server that differ by one datagram that it has handled
before. What the second run has of a client is compared with what the first one has.
-/

namespace Vantablack.Turn

open Lib Layers Receive Net Stun

/-! ### What one allocation has of another -/

/-- The second allocation has the channels of the first and its unexpired permissions, and lasts as
long. -/
structure ServerAllocation.CoveredBy (now : ℕ) (a b : ServerAllocation) : Prop where
  channels : ∀ channel, b.channels.lookup channel = a.channels.lookup channel
  channelPeers : ∀ peer, b.channelPeers.lookup peer = a.channelPeers.lookup peer
  permissions : ∀ ip expiry, a.permissions.lookup ip = some expiry → now < expiry →
    ∃ later, b.permissions.lookup ip = some later ∧ expiry ≤ later
  expiresAt : a.expiresAt ≤ b.expiresAt

namespace ServerAllocation.CoveredBy

variable {now : ℕ} {a b : ServerAllocation} (h : a.CoveredBy now b)

include h

theorem conflicts (channel : UInt16) (peer : SocketAddr) :
    b.conflicts channel peer = a.conflicts channel peer := by
  rw [ServerAllocation.conflicts, h.channels, h.channelPeers, ServerAllocation.conflicts]

theorem prune (t : ℕ) : (a.prune t).CoveredBy now (b.prune t) where
  channels := h.channels
  channelPeers := h.channelPeers
  permissions ip expiry hexpiry hlive := by
    obtain ⟨hlookup, hlt⟩ := lookup_permissions_prune.mp hexpiry
    obtain ⟨later, hlater, hle⟩ := h.permissions ip expiry hlookup hlive
    exact ⟨later, lookup_permissions_prune.mpr ⟨hlater, by omega⟩, hle⟩
  expiresAt := h.expiresAt

theorem refresh (expiry : ℕ) :
    { a with expiresAt := expiry }.CoveredBy now { b with expiresAt := expiry } where
  channels := h.channels
  channelPeers := h.channelPeers
  permissions := h.permissions
  expiresAt := le_rfl

theorem permit (ip : IpAddr) (t : ℕ) : (a.permit ip t).CoveredBy now (b.permit ip t) where
  channels := h.channels
  channelPeers := h.channelPeers
  permissions ip' expiry hexpiry hlive := by
    rcases Table.lookup_insert_eq_some.mp hexpiry with ⟨rfl, rfl⟩ | ⟨hne, hlookup⟩
    · exact ⟨_, AList.lookup_insert _, le_rfl⟩
    · obtain ⟨later, hlater, hle⟩ := h.permissions ip' expiry hlookup hlive
      exact ⟨later, (AList.lookup_insert_ne hne).trans hlater, hle⟩
  expiresAt := h.expiresAt

theorem bind (channel : UInt16) (peer : SocketAddr) (t : ℕ) :
    (a.bind channel peer t).CoveredBy now (b.bind channel peer t) where
  channels channel' := by
    by_cases heq : channel' = channel
    · subst heq
      exact (AList.lookup_insert _).trans (AList.lookup_insert a.channels).symm
    · exact (AList.lookup_insert_ne heq).trans
        ((h.channels channel').trans (AList.lookup_insert_ne heq).symm)
  channelPeers peer' := by
    by_cases heq : peer' = peer
    · subst heq
      exact (AList.lookup_insert _).trans (AList.lookup_insert a.channelPeers).symm
    · exact (AList.lookup_insert_ne heq).trans
        ((h.channelPeers peer').trans (AList.lookup_insert_ne heq).symm)
  permissions := (h.permit peer.ip t).permissions
  expiresAt := h.expiresAt

theorem after {t : ℕ} {op : Op} {a' : ServerAllocation} (ha : a.after t op = some a') :
    ∃ b', b.after t op = some b' ∧ a'.CoveredBy now b' := by
  cases op with
  | allocate secs =>
      cases ha
      exact ⟨b, rfl, h⟩
  | release => cases ha
  | refresh secs =>
      cases ha
      exact ⟨_, rfl, h.refresh _⟩
  | permit ip =>
      cases ha
      exact ⟨_, rfl, h.permit ip t⟩
  | bind channel peer =>
      simp only [ServerAllocation.after, h.conflicts] at ha ⊢
      split at ha
      · cases ha
        exact ⟨b, by rw [if_pos (by assumption)], h⟩
      · cases ha
        exact ⟨_, by rw [if_neg (by assumption)], h.bind channel peer t⟩

end ServerAllocation.CoveredBy

theorem ServerAllocation.coveredBy_fresh (now : ℕ) (port port' : UInt16) (expiry : ℕ) :
    (fresh port expiry).CoveredBy now (fresh port' expiry) where
  channels _ := rfl
  channelPeers _ := rfl
  permissions ip e he := by cases he
  expiresAt := le_rfl

/-- A request takes nothing from an allocation: an Allocate finds nothing to reset, neither it nor
a Refresh shortens the lifetime, and a channel is bound already or cannot be. -/
def Op.Spares (now : ℕ) (a : ServerAllocation) : Op → Prop
  | .allocate secs =>
      a.permissions = ∅ ∧ a.channels = ∅ ∧ a.channelPeers = ∅ ∧ a.expiresAt ≤ now + secs.toNat
  | .release => True
  | .refresh secs => a.expiresAt ≤ now + secs.toNat
  | .permit _ => True
  | .bind channel peer =>
      a.conflicts channel peer ∨
        a.channels.lookup channel = some peer ∧ a.channelPeers.lookup peer = some channel

/-- The instant up to which a request makes the allocation last. -/
def Op.until (now : ℕ) : Op → Option ℕ
  | .allocate secs => some (now + secs.toNat)
  | .release => none
  | .refresh secs => some (now + secs.toNat)
  | .permit _ => none
  | .bind _ _ => none

namespace ServerAllocation

theorem coveredBy_self (a : ServerAllocation) (now : ℕ) : a.CoveredBy now a where
  channels _ := rfl
  channelPeers _ := rfl
  permissions _ expiry hexpiry _ := ⟨expiry, hexpiry, le_rfl⟩
  expiresAt := le_rfl

theorem coveredBy_prune (a : ServerAllocation) (now : ℕ) : a.CoveredBy now (a.prune now) where
  channels _ := rfl
  channelPeers _ := rfl
  permissions _ expiry hexpiry hlive :=
    ⟨expiry, lookup_permissions_prune.mpr ⟨hexpiry, hlive⟩, le_rfl⟩
  expiresAt := le_rfl

theorem CoveredBy.trans {now : ℕ} {a b c : ServerAllocation} (h : a.CoveredBy now b)
    (h' : b.CoveredBy now c) : a.CoveredBy now c where
  channels channel := (h'.channels channel).trans (h.channels channel)
  channelPeers peer := (h'.channelPeers peer).trans (h.channelPeers peer)
  permissions ip expiry hexpiry hlive := by
    obtain ⟨later, hlater, hle⟩ := h.permissions ip expiry hexpiry hlive
    obtain ⟨last, hlast, hle'⟩ := h'.permissions ip later hlater (hlive.trans_le hle)
    exact ⟨last, hlast, hle.trans hle'⟩
  expiresAt := h.expiresAt.trans h'.expiresAt

section Spares

variable {a : ServerAllocation} {now : ℕ}

theorem coveredBy_fresh_of_spares {secs : UInt32} (h : (Op.allocate secs).Spares now a)
    (port : UInt16) : a.CoveredBy now (fresh port (now + secs.toNat)) := by
  obtain ⟨hpermissions, hchannels, hpeers, hle⟩ := h
  refine ⟨?_, ?_, ?_, hle⟩
  · intro channel
    rw [hchannels]
    rfl
  · intro peer
    rw [hpeers]
    rfl
  · intro ip expiry hexpiry
    rw [hpermissions] at hexpiry
    cases hexpiry

theorem coveredBy_permit (hbound : ∀ ip expiry, a.permissions.lookup ip = some expiry →
    expiry ≤ now + defaultPermissionLifetime) (ip : IpAddr) : a.CoveredBy now (a.permit ip now) where
  channels _ := rfl
  channelPeers _ := rfl
  permissions ip' expiry hexpiry _ := by
    by_cases heq : ip' = ip
    · subst heq
      exact ⟨_, AList.lookup_insert _, hbound ip' expiry hexpiry⟩
    · exact ⟨expiry, (AList.lookup_insert_ne heq).trans hexpiry, le_rfl⟩
  expiresAt := le_rfl

theorem coveredBy_after (hbound : ∀ ip expiry, a.permissions.lookup ip = some expiry →
    expiry ≤ now + defaultPermissionLifetime) {op : Op} (hop : op.Spares now a)
    {b : ServerAllocation} (h : a.after now op = some b) : a.CoveredBy now b := by
  cases op with
  | allocate secs =>
      cases h
      exact a.coveredBy_self now
  | release => cases h
  | refresh secs =>
      cases h
      exact { a.coveredBy_self now with expiresAt := hop }
  | permit ip =>
      cases h
      exact coveredBy_permit hbound ip
  | bind channel peer =>
      cases h
      split
      · exact a.coveredBy_self now
      · rename_i hfree
        obtain ⟨hchannel, hpeer⟩ := hop.resolve_left hfree
        have hpermit := coveredBy_permit hbound peer.ip
        refine ⟨?_, ?_, hpermit.permissions, le_rfl⟩
        · intro channel'
          by_cases heq : channel' = channel
          · subst heq
            exact (AList.lookup_insert _).trans hchannel.symm
          · exact AList.lookup_insert_ne heq
        · intro peer'
          by_cases heq : peer' = peer
          · subst heq
            exact (AList.lookup_insert _).trans hpeer.symm
          · exact AList.lookup_insert_ne heq

theorem relayPort_after {op : Op} {b : ServerAllocation} (h : a.after now op = some b) :
    b.relayPort = a.relayPort := by
  cases op with
  | bind channel peer =>
      cases h
      split <;> rfl
  | release => cases h
  | _ =>
      cases h
      rfl

end Spares

end ServerAllocation

namespace TurnServer

variable (d : Digests) (client : SocketAddr) (now : ℕ)

/-- The client has in `t` what it has in `s`. -/
structure Covered (s t : TurnServer) : Prop where
  auth : SameAuth s t
  allocation : ∀ a, s.allocations.lookup client = some a → now < a.expiresAt →
    ∃ b, t.allocations.lookup client = some b ∧ a.CoveredBy now b

/-- For an Allocate of the client, a relay port is free in `t` if one is free in `s`, unless the
client has an allocation there. -/
def Room (w : TurnServer × TurnServer) : Event → Prop
  | .handle _ raw src t =>
      src = client → (∃ secs, (w.1.expire t).asked d raw = some (.allocate secs)) →
        (w.1.expire t).freePort.isSome →
          ((w.2.expire t).allocations.lookup client).isSome ∨ (w.2.expire t).freePort.isSome
  | .peerData .. => True
  | .sweep _ => True

variable {d client now} {s t : TurnServer}

/-! ### Two runs -/

theorem Covered.expire (h : Covered client now s t) (t' : ℕ) :
    Covered client now (s.expire t') (t.expire t') where
  auth := h.auth.expire t'
  allocation a ha hlive := by
    obtain ⟨a, hs, halive, rfl⟩ := lookup_expire.mp ha
    obtain ⟨b, hb, hcovered⟩ := h.allocation a hs hlive
    exact ⟨b.prune t', lookup_expire.mpr ⟨b, hb, halive.trans_le hcovered.expiresAt, rfl⟩,
      hcovered.prune t'⟩

theorem Covered.granted (h : Covered client now s t) {t' : ℕ}
    (hlive : ∀ a, s.allocations.lookup client = some a → now < a.expiresAt) (op : Op)
    (hroom : (∃ secs, op = .allocate secs) → s.freePort.isSome →
      (t.allocations.lookup client).isSome ∨ t.freePort.isSome)
    {a : ServerAllocation} (ha : (s.granted client t' op).lookup client = some a) :
    ∃ b, (t.granted client t' op).lookup client = some b ∧ a.CoveredBy now b := by
  by_cases hop : ∃ secs, op = .allocate secs
  · obtain ⟨secs, rfl⟩ := hop
    have hrelay : s.relayIp = t.relayIp := congrArg ServerConfig.relayIp h.auth.config
    rw [lookup_granted_allocate] at ha ⊢
    rw [← hrelay]
    split
    · rename_i hself
      rw [if_pos hself] at ha
      exact h.allocation a ha (hlive a ha)
    · rename_i hself
      rw [if_neg hself] at ha
      obtain ⟨port, hport, rfl⟩ := Option.map_eq_some_iff.mp ha
      have hsome : (t.portFor client).isSome := by
        unfold portFor at hport ⊢
        cases ht : t.allocations.lookup client with
        | some b => rfl
        | none =>
            cases hs : s.allocations.lookup client with
            | some a =>
                obtain ⟨b, hb, -⟩ := h.allocation a hs (hlive a hs)
                rw [ht] at hb
                cases hb
            | none =>
                rw [hs] at hport
                rcases hroom ⟨secs, rfl⟩ (Option.isSome_of_eq_some hport) with hlookup | hfree
                · rw [ht] at hlookup
                  cases hlookup
                · exact hfree
      obtain ⟨port', hport'⟩ := Option.isSome_iff_exists.mp hsome
      exact ⟨_, congrArg _ hport', ServerAllocation.coveredBy_fresh now port port' _⟩
  · have hop' : ∀ secs, op ≠ .allocate secs := fun secs heq => hop ⟨secs, heq⟩
    rw [lookup_granted hop'] at ha ⊢
    obtain ⟨a', ha', hafter⟩ := Option.bind_eq_some_iff.mp ha
    obtain ⟨b', hb', hcovered⟩ := h.allocation a' ha' (hlive a' ha')
    obtain ⟨b, hb, hcovers⟩ := hcovered.after hafter
    exact ⟨b, Option.bind_eq_some_iff.mpr ⟨b', hb', hb⟩, hcovers⟩

variable {raw : Bytes}

variable (d) in
theorem Covered.handle (h : Covered client now s t) {t' : ℕ} (ht : now ≤ t') {draw : Draw}
    {src : SocketAddr} (hroom : Room d client (s, t) (.handle draw raw src t')) :
    Covered client now (s.handle d draw raw src t').1 (t.handle d draw raw src t').1 where
  auth := h.auth.handle d draw raw src t'
  allocation a ha hlive := by
    have hexpired := h.expire t'
    rw [allocations_handle_granted] at ha ⊢
    rw [← hexpired.auth.asked]
    cases hasked : (s.expire t').asked d raw with
    | none =>
        rw [hasked] at ha
        exact hexpired.allocation a ha hlive
    | some op =>
        rw [hasked] at ha
        dsimp only at ha ⊢
        by_cases hsrc : src = client
        · subst hsrc
          refine hexpired.granted ?_ op ?_ ha
          · intro b hb
            obtain ⟨b, -, hblive, rfl⟩ := lookup_expire.mp hb
            exact ht.trans_lt hblive
          · rintro ⟨secs, rfl⟩
            exact hroom rfl ⟨secs, hasked⟩
        · rw [lookup_granted_of_ne (Ne.symm hsrc)] at ha ⊢
          exact hexpired.allocation a ha hlive

variable (d) in
theorem Covered.step (h : Covered client now s t) {e : Event} (ht : now ≤ e.time)
    (hroom : Room d client (s, t) e) : Covered client now (s.step d e) (t.step d e) := by
  cases e with
  | handle draw raw src t' => exact h.handle d ht hroom
  | peerData txid relayPort peer payload t' => exact h
  | sweep t' => exact h.expire t'

theorem Covered.relayed (h : Covered client now s t) {t' : ℕ} (ht : now ≤ t') {draw : Draw}
    {port : UInt16} {peer : SocketAddr} {data : Bytes}
    (hout : .toPeer port peer data ∈ (s.handle d draw raw client t').2) :
    ∃ port', .toPeer port' peer data ∈ (t.handle d draw raw client t').2 := by
  obtain ⟨a, ha, hcarries, -⟩ := (toPeer_handle d s draw raw client t').mp hout
  have hexpired := h.expire t'
  obtain ⟨a', -, halive, hprune⟩ := lookup_expire.mp ha
  have hlive : now < a.expiresAt := by
    rw [← hprune]
    exact ht.trans_lt halive
  obtain ⟨b, hb, hcovered⟩ := hexpired.allocation a ha hlive
  refine ⟨b.relayPort, (toPeer_handle d t draw raw client t').mpr ⟨b, hb, ?_, rfl⟩⟩
  rcases hcarries with ⟨channel, hraw, hchannel⟩ | ⟨hindicated, hperm⟩
  · exact .inl ⟨channel, hraw, (hcovered.channels channel).trans hchannel⟩
  · refine .inr ⟨(hexpired.auth.indicated raw).symm.trans hindicated, ?_⟩
    obtain ⟨expiry, hexpiry⟩ := Option.isSome_iff_exists.mp (AList.lookup_isSome.mpr hperm)
    rw [← hprune] at hexpiry
    have hlt := (ServerAllocation.lookup_permissions_prune.mp hexpiry).2
    rw [hprune] at hexpiry
    obtain ⟨later, hlater, -⟩ := hcovered.permissions peer.ip expiry hexpiry (ht.trans_lt hlt)
    exact AList.lookup_isSome.mp (Option.isSome_of_eq_some hlater)

/-! ### A datagram that is delivered again -/

variable (d)

/-- A request with the credentials of a user. -/
def Authentic (s : TurnServer) (raw : Bytes) : Prop :=
  parseChannelData raw = none ∧ ∃ msg, parse raw = .ok msg ∧ msg.typ.cls = .request ∧
    (s.authenticate d raw msg).isSome

/-- The datagram was handled as an authenticated request of the client, which has held an
allocation since. -/
def Processed (s : TurnServer) (es : List Event) (raw : Bytes) (client : SocketAddr) : Prop :=
  ∃ before draw t after, es = before ++ .handle draw raw client t :: after ∧
    (before.foldl (step d) s).Authentic d raw ∧
    ∀ mid, mid <+: after →
      (((before ++ .handle draw raw client t :: mid).foldl (step d) s).allocations.lookup
        client).isSome

/-- A request is still authenticated, and it takes nothing from the client's allocation. -/
structure Spares (s : TurnServer) (raw : Bytes) (client : SocketAddr) (now : ℕ) : Prop where
  authentic : s.Authentic d raw
  op : ∀ op a, (s.expire now).asked d raw = some op →
    (s.expire now).allocations.lookup client = some a → Op.Spares now a op

/-- The request makes the client's allocation last longer than it would. -/
def Extends (s : TurnServer) (raw : Bytes) (client : SocketAddr) (now : ℕ) : Prop :=
  ∃ op expiry, (s.expire now).asked d raw = some op ∧ Op.until now op = some expiry ∧
    ∀ a, (s.expire now).allocations.lookup client = some a → a.expiresAt < expiry

/-- Of the client's allocation no unexpired permission and no channel is lost and the relay port is
the same, and after the events `bs` all that would be relayed for the client is relayed. -/
structure Harmless (s : TurnServer) (draw : Draw) (raw : Bytes) (client : SocketAddr) (now : ℕ)
    (bs : List Event) : Prop where
  kept : ∀ a, s.allocations.lookup client = some a → now < a.expiresAt →
    ∃ b, (s.step d (.handle draw raw client now)).allocations.lookup client = some b ∧
      b.relayPort = a.relayPort ∧
      (∀ ip expiry, a.permissions.lookup ip = some expiry → now < expiry →
        ∃ later, b.permissions.lookup ip = some later ∧ now < later) ∧
      ∀ channel peer, a.channels.lookup channel = some peer →
        b.channels.lookup channel = some peer
  relayed : ∀ draw' raw' now', now ≤ now' → ∀ port peer data,
    .toPeer port peer data ∈ ((bs.foldl (step d) s).handle d draw' raw' client now').2 →
      ∃ port', .toPeer port' peer data ∈
        ((bs.foldl (step d) (s.step d (.handle draw raw client now))).handle d draw' raw' client
          now').2

variable {d}

/-- No permission lasts longer than one that is made now. -/
def PermissionsBound (now : ℕ) (s : TurnServer) : Prop :=
  ∀ c a ip expiry, s.allocations.lookup c = some a → a.permissions.lookup ip = some expiry →
    expiry ≤ now + defaultPermissionLifetime

theorem PermissionsBound.expire (h : PermissionsBound now s) (t' : ℕ) :
    PermissionsBound now (s.expire t') := by
  intro c a ip expiry ha hexpiry
  obtain ⟨a, hs, -, rfl⟩ := lookup_expire.mp ha
  exact h c a ip expiry hs (ServerAllocation.lookup_permissions_prune.mp hexpiry).1

theorem PermissionsBound.granted (h : PermissionsBound now s) {t' : ℕ} (ht : t' ≤ now)
    (src : SocketAddr) (op : Op) {c : SocketAddr} {a : ServerAllocation} {ip : IpAddr} {expiry : ℕ}
    (ha : (s.granted src t' op).lookup c = some a) (hexpiry : a.permissions.lookup ip = some expiry) :
    expiry ≤ now + defaultPermissionLifetime := by
  by_cases hc : c = src
  · subst hc
    by_cases hop : ∃ secs, op = .allocate secs
    · obtain ⟨secs, rfl⟩ := hop
      rw [lookup_granted_allocate] at ha
      split at ha
      · exact h c a ip expiry ha hexpiry
      · obtain ⟨port, -, rfl⟩ := Option.map_eq_some_iff.mp ha
        cases hexpiry
    · rw [lookup_granted fun secs heq => hop ⟨secs, heq⟩] at ha
      obtain ⟨b, hb, hafter⟩ := Option.bind_eq_some_iff.mp ha
      have hpermit : ∀ ip', (b.permit ip' t').permissions.lookup ip = some expiry →
          expiry ≤ now + defaultPermissionLifetime := by
        intro ip' hlookup
        rcases Table.lookup_insert_eq_some.mp hlookup with ⟨-, rfl⟩ | ⟨-, hold⟩
        · exact Nat.add_le_add_right ht _
        · exact h c b ip expiry hb hold
      cases op with
      | allocate secs => exact absurd ⟨secs, rfl⟩ hop
      | release => cases hafter
      | refresh secs =>
          cases hafter
          exact h c b ip expiry hb hexpiry
      | permit ip' =>
          cases hafter
          exact hpermit ip' hexpiry
      | bind channel peer =>
          simp only [ServerAllocation.after] at hafter
          split at hafter
          · cases hafter
            exact h c _ ip expiry hb hexpiry
          · cases hafter
            exact hpermit peer.ip hexpiry
  · rw [lookup_granted_of_ne hc] at ha
    exact h c a ip expiry ha hexpiry

variable (d) in
theorem PermissionsBound.step (h : PermissionsBound now s) {e : Event} (ht : e.time ≤ now) :
    PermissionsBound now (s.step d e) := by
  cases e with
  | handle draw raw src t' =>
      intro c a ip expiry ha hexpiry
      change (s.handle d draw raw src t').1.allocations.lookup c = some a at ha
      rw [allocations_handle_granted] at ha
      split at ha
      · exact (h.expire t').granted ht src _ ha hexpiry
      · exact h.expire t' c a ip expiry ha hexpiry
  | peerData txid relayPort peer payload t' => exact h
  | sweep t' => exact h.expire t'

/-! ### What the second delivery leaves -/

theorem asked_of_authentic (h : s.Authentic d raw) :
    ∃ msg, parse raw = .ok msg ∧ s.asked d raw = Op.ofMessage msg := by
  obtain ⟨hchannel, msg, hparse, -, hauth⟩ := h
  exact ⟨msg, hparse, by simp [TurnServer.asked, hchannel, hparse, hauth]⟩

theorem nonces_handle_of_authentic (h : s.Authentic d raw) (draw : Draw) (src : SocketAddr) :
    (s.handle d draw raw src now).1.nonces = s.nonces := by
  obtain ⟨hchannel, msg, hparse, -, hauth⟩ := h
  have hexpired : ((s.expire now).authenticate d raw msg).isSome := hauth
  simp only [handle, hchannel, hparse]
  rw [nonces_dispatch, if_neg]
  · rfl
  · rintro ⟨-, hnone⟩
    rw [Option.isNone_iff_eq_none] at hnone
    rw [hnone] at hexpired
    cases hexpired

theorem Processed.not_release {es : List Event} (h : Processed d s es raw client)
    (ht : t.Authentic d raw) : t.asked d raw ≠ some .release := by
  obtain ⟨before, draw, t', after, rfl, hauth, hheld⟩ := h
  intro hrelease
  obtain ⟨msg, hparse, hasked⟩ := asked_of_authentic ht
  obtain ⟨msg', hparse', hasked'⟩ := asked_of_authentic hauth
  rw [hparse] at hparse'
  cases hparse'
  have hfirst : ((before.foldl (step d) s).expire t').asked d raw = some .release :=
    hasked'.trans (hasked.symm.trans hrelease)
  have hsome := hheld [] List.nil_prefix
  rw [List.foldl_append, List.foldl_cons, List.foldl_nil] at hsome
  change ((step d (before.foldl (step d) s) (.handle draw raw client t')).allocations.lookup
    client).isSome at hsome
  rw [step, allocations_handle_granted, hfirst] at hsome
  dsimp only at hsome
  rw [lookup_granted (by nofun)] at hsome
  obtain ⟨a, ha⟩ := Option.isSome_iff_exists.mp hsome
  obtain ⟨b, -, hafter⟩ := Option.bind_eq_some_iff.mp ha
  cases hafter

theorem Spares.kept (h : Spares d s raw client now) (hbound : PermissionsBound now s)
    (hrelease : s.asked d raw ≠ some .release) (draw : Draw) {a : ServerAllocation}
    (ha : s.allocations.lookup client = some a) (hlive : now < a.expiresAt) :
    ∃ b, (s.handle d draw raw client now).1.allocations.lookup client = some b ∧
      b.relayPort = a.relayPort ∧ a.CoveredBy now b := by
  have hexpired : (s.expire now).allocations.lookup client = some (a.prune now) :=
    lookup_expire.mpr ⟨a, ha, hlive, rfl⟩
  have hpruned := a.coveredBy_prune now
  rw [allocations_handle_granted]
  cases hasked : (s.expire now).asked d raw with
  | none => exact ⟨a.prune now, hexpired, Eq.refl _, hpruned⟩
  | some op =>
      have hspares := h.op op (a.prune now) hasked hexpired
      by_cases hop : ∃ secs, op = .allocate secs
      · obtain ⟨secs, rfl⟩ := hop
        dsimp only
        rw [lookup_granted_allocate]
        split
        · exact ⟨a.prune now, hexpired, Eq.refl _, hpruned⟩
        · rw [portFor, hexpired]
          exact ⟨_, Eq.refl _, Eq.refl _,
            hpruned.trans (ServerAllocation.coveredBy_fresh_of_spares hspares _)⟩
      · have hafter : ∃ b, (a.prune now).after now op = some b := by
          cases op with
          | release => exact absurd hasked hrelease
          | _ => exact ⟨_, Eq.refl _⟩
        obtain ⟨b, hb⟩ := hafter
        have hbound' : ∀ ip expiry, (a.prune now).permissions.lookup ip = some expiry →
            expiry ≤ now + defaultPermissionLifetime :=
          fun ip expiry => hbound.expire now client _ ip expiry hexpired
        have hport : b.relayPort = (a.prune now).relayPort := ServerAllocation.relayPort_after hb
        refine ⟨b, ?_, hport,
          hpruned.trans (ServerAllocation.coveredBy_after hbound' hspares hb)⟩
        dsimp only
        rw [lookup_granted fun secs heq => hop ⟨secs, heq⟩, hexpired]
        exact hb

theorem Spares.covered (h : Spares d s raw client now) (hbound : PermissionsBound now s)
    (hrelease : s.asked d raw ≠ some .release) (draw : Draw) :
    Covered client now s (s.step d (.handle draw raw client now)) where
  auth := ⟨(config_handle d s draw raw client now).symm,
    (nonces_handle_of_authentic h.authentic draw client).symm⟩
  allocation a ha hlive := by
    obtain ⟨b, hb, -, hcovered⟩ := h.kept hbound hrelease draw ha hlive
    exact ⟨b, hb, hcovered⟩

theorem SameLeases.room (hauth : SameAuth s t) (h : SameLeases now s t) {e : Event}
    (ht : now ≤ e.time) : Room d client (s, t) e := by
  cases e with
  | handle draw raw src t' =>
      intro _ _ hfree
      right
      rwa [← freePort_eq (hauth.expire t').config fun c => h.expire_eq ht c]
  | peerData txid relayPort peer payload t' => trivial
  | sweep t' => trivial

theorem Spares.sameLeases (h : Spares d s raw client now) (hrelease : s.asked d raw ≠ some .release)
    (hextends : ¬ Extends d s raw client now) (draw : Draw) :
    SameLeases now s (s.step d (.handle draw raw client now)) := by
  apply sameLeases_of_expire_eq
  intro c
  change _ = (s.handle d draw raw client now).1.lease c
  by_cases hc : c = client
  · subst hc
    cases hasked : (s.expire now).asked d raw with
    | none => rw [lease_handle_of_none hasked]
    | some op =>
        have hlast : ∀ expiry, op.until now = some expiry → ∃ a,
            (s.expire now).allocations.lookup c = some a ∧ expiry ≤ a.expiresAt := by
          intro expiry huntil
          by_contra hnone
          refine hextends ⟨op, expiry, hasked, huntil, fun a ha => ?_⟩
          by_contra hle
          exact hnone ⟨a, ha, Nat.le_of_not_lt hle⟩
        cases op with
        | allocate secs =>
            obtain ⟨a, ha, hle⟩ := hlast _ (Eq.refl _)
            have hexpiry : now + secs.toNat = a.expiresAt :=
              le_antisymm hle (h.op _ a hasked ha).2.2.2
            rw [lease_handle_allocate hasked, portFor, ha, lease, ha, hexpiry]
            split <;> rfl
        | release => exact absurd hasked hrelease
        | refresh secs =>
            obtain ⟨a, ha, hle⟩ := hlast _ (Eq.refl _)
            have hexpiry : now + secs.toNat = a.expiresAt := le_antisymm hle (h.op _ a hasked ha)
            rw [lease_handle (by rintro _ ⟨⟩) hasked, lease, ha, Option.map_some, Option.bind_some,
              Op.lease, hexpiry]
        | permit ip =>
            rw [lease_handle (by rintro _ ⟨⟩) hasked]
            exact (Option.bind_fun_some _).symm
        | bind channel peer =>
            rw [lease_handle (by rintro _ ⟨⟩) hasked]
            exact (Option.bind_fun_some _).symm
  · rw [lease_handle_of_ne hc]

/-! ### The run with the second delivery -/

theorem rooms_of_sameLeases {w : TurnServer × TurnServer} {bs : List Event}
    (hauth : SameAuth w.1 w.2) (hleases : SameLeases now w.1 w.2)
    (htimes : Always (bothStep d) (fun _ e => now ≤ e.time) w bs) :
    Always (bothStep d) (Room d client) w bs := by
  refine Always.of_invariant (fun w => SameAuth w.1 w.2 ∧ SameLeases now w.1 w.2) ?_ ?_
    ⟨hauth, hleases⟩ htimes
  · rintro ⟨s, t⟩ e ⟨hauth, hleases⟩ ht
    exact ⟨hauth.step d e, hleases.step d hauth ht⟩
  · rintro ⟨s, t⟩ e ⟨hauth, hleases⟩ ht
    exact hleases.room hauth ht

variable (d) in
/-- In every run of a server: a request of a client that is delivered again in the lifetime of the
allocation does no harm if it takes nothing from the allocation and, where it makes the allocation
last longer, every later Allocate of the client still finds room. -/
theorem harmless_of_spares (realm : String) (users : Table String String) (relayIp : IpAddr)
    (portMin portMax : UInt16) {as bs : List Event} {draw : Draw} {raw : Bytes}
    {client : SocketAddr} {now : ℕ} (hbefore : ∀ e ∈ as, e.time ≤ now)
    (hafter : ∀ e ∈ bs, now ≤ e.time) :
    let s := as.foldl (step d) (new realm users relayIp portMin portMax)
    Processed d (new realm users relayIp portMin portMax) as raw client →
      Spares d s raw client now →
        (Extends d s raw client now →
          Always (bothStep d) (Room d client) (s, s.step d (.handle draw raw client now)) bs) →
          Harmless d s draw raw client now bs := by
  intro s hprocessed hspares hroom
  have hrelease := hprocessed.not_release hspares.authentic
  have hbound : PermissionsBound now s :=
    Always.invariant (PermissionsBound now) (fun _ _ hs ht => hs.step d ht)
      (fun c a ip expiry ha _ => by cases ha)
      (Always.of_forall (fun _ => hbefore) _)
  have hcovered := hspares.covered hbound hrelease draw
  have htimes : ∀ w, Always (bothStep d) (fun _ e => now ≤ e.time) w bs :=
    Always.of_forall fun _ => hafter
  have hrooms : Always (bothStep d) (Room d client) (s, s.step d (.handle draw raw client now)) bs := by
    by_cases hextends : Extends d s raw client now
    · exact hroom hextends
    · exact rooms_of_sameLeases hcovered.auth (hspares.sameLeases hrelease hextends draw) (htimes _)
  have hrun := Always.invariant (fun w => Covered client now w.1 w.2)
    (fun w e hw he => hw.step d he.1 he.2) hcovered ((htimes _).and hrooms)
  rw [foldl_bothStep] at hrun
  refine ⟨fun a ha hlive => ?_, fun draw' raw' now' hnow port peer data hout => hrun.relayed hnow hout⟩
  obtain ⟨b, hb, hport, hcovers⟩ := hspares.kept hbound hrelease draw ha hlive
  refine ⟨b, hb, hport, fun ip expiry hexpiry hlt => ?_, fun channel peer hchannel => ?_⟩
  · obtain ⟨later, hlater, hle⟩ := hcovers.permissions ip expiry hexpiry hlt
    exact ⟨later, hlater, hlt.trans_le hle⟩
  · exact (hcovers.channels channel).trans hchannel

/-- The Allocate of the run, as it was sent. -/
def allocateBytes : Bytes := signed 1 (TurnClient.allocateMessage (txid 2) 600)

def bindBytes : Bytes := signed 1 (TurnClient.bindMessage (txid 3) 0x4000 peerAddr)

theorem authentic_of_any {s : TurnServer} (hchannel : parseChannelData raw = none)
    (h : (parse raw).toOption.any fun msg =>
      msg.typ.cls = .request ∧ (s.authenticate d raw msg).isSome) : s.Authentic d raw := by
  refine ⟨hchannel, ?_⟩
  cases hparse : parse raw with
  | error e =>
      rw [hparse] at h
      cases h
  | ok msg =>
      rw [hparse] at h
      exact ⟨msg, Eq.refl _, of_decide_eq_true h⟩

/-- The bind request is delivered again after a second. -/
theorem harmless_bind :
    Harmless .front (bindEvents.foldl (step .front) relay) (draw 2) bindBytes clientAddr 1 [] := by
  have hbefore : ∀ e ∈ bindEvents, e.time ≤ 1 := by decide
  refine harmless_of_spares .front "realm" _ _ _ _ hbefore (by nofun) ?_ ?_ (fun _ => trivial)
  · refine ⟨bindEvents.take 2, draw 2, 0, [], Eq.refl _, ?_, ?_⟩
    · exact authentic_of_any (by decide +kernel) (by decide +kernel)
    · intro mid hmid
      rw [List.prefix_nil.mp hmid]
      decide +kernel
  · refine ⟨authentic_of_any (by decide +kernel) (by decide +kernel), fun op a hop ha => ?_⟩
    have hasked : ((bindEvents.foldl (step .front) relay).expire 1).asked .front bindBytes =
        some (.bind 0x4000 peerAddr) := by decide +kernel
    have hbound : (((bindEvents.foldl (step .front) relay).expire 1).allocations.lookup
        clientAddr).map (fun a => (a.channels.lookup 0x4000, a.channelPeers.lookup peerAddr)) =
          some (some peerAddr, some 0x4000) := by decide +kernel
    cases hop.symm.trans hasked
    have ha' := (congrArg (Option.map fun a : ServerAllocation =>
      (a.channels.lookup 0x4000, a.channelPeers.lookup peerAddr)) ha).symm.trans hbound
    obtain ⟨hchannel, hpeer⟩ := Prod.mk.inj (Option.some.inj ha')
    exact .inr ⟨hchannel, hpeer⟩

/-- The Allocate is delivered again after a second, and the channel that was bound since is lost. -/
theorem repeated_allocate_drops :
    Processed .front relay bindEvents allocateBytes clientAddr ∧ (∀ e ∈ bindEvents, e.time ≤ 1) ∧
      ¬ Harmless .front (bindEvents.foldl (step .front) relay) (draw 2) allocateBytes clientAddr 1
        [] := by
  refine ⟨⟨[bindEvents.head (by decide)], draw 2, 0, bindEvents.drop 2, Eq.refl _,
    authentic_of_any (by decide +kernel) (by decide +kernel), ?_⟩, by decide, ?_⟩
  · intro mid hmid
    revert mid
    simp only [← List.mem_inits]
    decide +kernel
  · rintro ⟨-, hrelayed⟩
    obtain ⟨port, hout⟩ := hrelayed (draw 2) (channelData 0x4000 [1, 2, 3]) 2 (by decide) 49152 peerAddr
      [1, 2, 3] (by decide +kernel)
    have hnone : (((bindEvents.foldl (step .front) relay).step .front
        (.handle (draw 2) allocateBytes clientAddr 1)).handle .front (draw 2)
          (channelData 0x4000 [1, 2, 3]) clientAddr 2).2 = [] := by decide +kernel
    rw [List.foldl_nil, hnone] at hout
    cases hout

end TurnServer

end Vantablack.Turn
