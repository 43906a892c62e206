import Vantablack.Turn.Client
import Vantablack.Turn.Server

/-!
What the relay emits and for whom it may: every datagram to a peer, and every datagram of a peer,
should be under a permission that has not expired. A run is any sequence of datagrams of clients,
datagrams of peers and sweeps.
-/

namespace Vantablack.Turn.TurnServer

open Lib Layers Receive Net Stun

inductive Event where
  | handle (draw : Draw) (raw : Bytes) (src : SocketAddr) (now : ℕ)
  | peerData (txid : TransactionId) (relayPort : UInt16) (peer : SocketAddr) (payload : Bytes)
      (now : ℕ)
  | sweep (now : ℕ)

def Event.time : Event → ℕ
  | .handle _ _ _ now => now
  | .peerData _ _ _ _ now => now
  | .sweep now => now

variable (d : Digests)

def step (s : TurnServer) : Event → TurnServer
  | .handle draw raw src now => (s.handle d draw raw src now).1
  | .peerData .. => s
  | .sweep now => (s.sweep now).1

/-- The allocation and the permission are both unexpired. -/
def Permits (s : TurnServer) (client : SocketAddr) (ip : IpAddr) (now : ℕ) : Prop :=
  ∃ a, s.allocations.lookup client = some a ∧ now < a.expiresAt ∧
    ∃ expiry, a.permissions.lookup ip = some expiry ∧ now < expiry

/-- What an event makes the server emit is permitted at that time. -/
def Permitted (s : TurnServer) : Event → Prop
  | .handle draw raw src now =>
      ∀ fromPort dest data, .toPeer fromPort dest data ∈ (s.handle d draw raw src now).2 →
        s.Permits src dest.ip now
  | .peerData txid relayPort peer payload now =>
      ∀ client data, s.handlePeerData txid relayPort peer payload = some (.toClient client data) →
        s.Permits client peer.ip now
  | .sweep _ => True

/-- No permission has lapsed that the event rests on: that of the peer a channel is bound to, and
those of an allocation that a peer's datagram arrives for. -/
def NoneLapsed (s : TurnServer) : Event → Prop
  | .handle _ raw src now =>
      ∀ channel payload a peer, parseChannelData raw = some (channel, payload) →
        s.allocations.lookup src = some a → now < a.expiresAt →
          a.channels.lookup channel = some peer →
            ∃ expiry, a.permissions.lookup peer.ip = some expiry ∧ now < expiry
  | .peerData _ relayPort peer _ now =>
      ∀ client a expiry, s.allocations.lookup client = some a → a.relayPort = relayPort →
        a.permissions.lookup peer.ip = some expiry → now < a.expiresAt ∧ now < expiry
  | .sweep _ => True

variable {s : TurnServer}

theorem DistinctPorts.step (h : s.DistinctPorts) (e : Event) : (s.step d e).DistinctPorts := by
  cases e with
  | handle draw raw src now => exact h.handle d draw raw src now
  | peerData txid relayPort peer payload now => exact h
  | sweep now => exact h.expire now

theorem permits_of_indicated {src peer : SocketAddr} {now : ℕ} {a : ServerAllocation}
    (ha : (s.expire now).allocations.lookup src = some a) (hperm : peer.ip ∈ a.permissions) :
    s.Permits src peer.ip now := by
  obtain ⟨b, hb, hlive, rfl⟩ := lookup_expire.mp ha
  obtain ⟨expiry, hexpiry⟩ := Option.isSome_iff_exists.mp (AList.lookup_isSome.mpr hperm)
  exact ⟨b, hb, hlive, expiry, ServerAllocation.lookup_permissions_prune.mp hexpiry⟩

theorem permitted_handle_iff (s : TurnServer) (draw : Draw) (raw : Bytes) (src : SocketAddr)
    (now : ℕ) :
    s.Permitted d (.handle draw raw src now) ↔ s.NoneLapsed (.handle draw raw src now) := by
  constructor
  · intro h channel payload a peer hraw ha hlive hpeer
    have hexpired : (s.expire now).allocations.lookup src = some (a.prune now) :=
      lookup_expire.mpr ⟨a, ha, hlive, rfl⟩
    have hemitted : .toPeer a.relayPort peer payload ∈ (s.handle d draw raw src now).2 :=
      (toPeer_handle d s draw raw src now).mpr
        ⟨a.prune now, hexpired, .inl ⟨channel, hraw, hpeer⟩, rfl⟩
    obtain ⟨b, hb, -, hexpiry⟩ := h _ _ _ hemitted
    rw [ha] at hb
    cases hb
    exact hexpiry
  · intro h fromPort dest data hmem
    obtain ⟨a, ha, hcarries, -⟩ := (toPeer_handle d s draw raw src now).mp hmem
    rcases hcarries with ⟨channel, hraw, hpeer⟩ | ⟨-, hperm⟩
    · obtain ⟨b, hb, hlive, rfl⟩ := lookup_expire.mp ha
      exact ⟨b, hb, hlive, h channel data b dest hraw hb hlive hpeer⟩
    · exact permits_of_indicated ha hperm

theorem handlePeerData_eq_some (hs : s.DistinctPorts) {txid : TransactionId} {relayPort : UInt16}
    {peer client : SocketAddr} {payload data : Bytes} :
    s.handlePeerData txid relayPort peer payload = some (.toClient client data) ↔
      ∃ a, s.allocations.lookup client = some a ∧ a.relayPort = relayPort ∧
        peer.ip ∈ a.permissions ∧ frameFor a txid peer payload = data := by
  unfold handlePeerData
  constructor
  · intro h
    split at h
    · cases h
    · rename_i client' a howner
      split at h
      · cases h
      · rename_i hperm
        cases h
        obtain ⟨ha, hport⟩ := (ownerOf_eq_some hs).mp howner
        exact ⟨a, ha, hport, not_not.mp hperm, rfl⟩
  · rintro ⟨a, ha, hport, hperm, rfl⟩
    rw [(ownerOf_eq_some hs).mpr ⟨ha, hport⟩]
    simp only [hperm, not_true_eq_false, if_false]

theorem permitted_peerData_iff (hs : s.DistinctPorts) (txid : TransactionId) (relayPort : UInt16)
    (peer : SocketAddr) (payload : Bytes) (now : ℕ) :
    s.Permitted d (.peerData txid relayPort peer payload now) ↔
      s.NoneLapsed (.peerData txid relayPort peer payload now) := by
  simp only [Permitted, NoneLapsed, handlePeerData_eq_some hs]
  constructor
  · intro h client a expiry ha hport hexpiry
    have hperm : peer.ip ∈ a.permissions := AList.lookup_isSome.mp (by rw [hexpiry]; rfl)
    obtain ⟨b, hb, hlive, e, he, hlt⟩ := h client _ ⟨a, ha, hport, hperm, rfl⟩
    rw [ha] at hb
    cases hb
    rw [hexpiry] at he
    cases he
    exact ⟨hlive, hlt⟩
  · rintro h client data ⟨a, ha, hport, hperm, -⟩
    obtain ⟨expiry, hexpiry⟩ := Option.isSome_iff_exists.mp (AList.lookup_isSome.mpr hperm)
    obtain ⟨hlive, hlt⟩ := h client a expiry ha hport hexpiry
    exact ⟨a, ha, hlive, expiry, hexpiry, hlt⟩

/-- In every run of a server, all that it emits is permitted at its time exactly if nothing rests
on a permission that has lapsed. -/
theorem always_permitted_iff (realm : String) (users : Table String String) (relayIp : IpAddr)
    (portMin portMax : UInt16) (es : List Event) :
    Always (step d) (Permitted d) (new realm users relayIp portMin portMax) es ↔
      Always (step d) NoneLapsed (new realm users relayIp portMin portMax) es := by
  refine Always.congr_of_invariant DistinctPorts (fun s e hs => hs.step d e) ?_
    (distinctPorts_new realm users relayIp portMin portMax) es
  intro s e hs
  cases e with
  | handle draw raw src now => exact permitted_handle_iff d s draw raw src now
  | peerData txid relayPort peer payload now =>
      exact permitted_peerData_iff d hs txid relayPort peer payload now
  | sweep now => exact Iff.rfl

/-! ### A channel that outlives its permission -/

def relay : TurnServer :=
  new "realm" (AList.insert "user" "secret" ∅) (.v4 ⟨[203, 0, 113, 9], rfl⟩) 49152 49160

def clientAddr : SocketAddr := { ip := .v4 ⟨[192, 168, 1, 50], rfl⟩, port := 40000 }

def peerAddr : SocketAddr := { ip := .v4 ⟨[198, 51, 100, 7], rfl⟩, port := 6000 }

def draw (n : UInt8) : Draw := { clock := 0, random := Block.zeroPadded 16 [n] }

def txid (n : UInt8) : TransactionId := Block.zeroPadded 12 [n]

/-- The user of the relay, holding the nonce of a draw. -/
def user (n : UInt8) : TurnClient :=
  { TurnClient.new { ip := relay.relayIp, port := 3478 } "user" "secret" with
    realm := some relay.realm
    nonce := some (relay.issueNonce (draw n)).2 }

def signed (n : UInt8) (msg : Message) : Bytes := ((user n).seal_ .front msg).toOption.getD []

/-- Challenged, allocated, and bound to the peer. -/
def bindEvents : List Event :=
  [.handle (draw 1) (TurnClient.allocateMessage (txid 1) 600).encode clientAddr 0,
    .handle (draw 2) (signed 1 (TurnClient.allocateMessage (txid 2) 600)) clientAddr 0,
    .handle (draw 2) (signed 1 (TurnClient.bindMessage (txid 3) 0x4000 peerAddr)) clientAddr 0]

/-- The permission lapses after 300 seconds, and after 400 the channel still relays. -/
theorem channel_outlives_permission :
    ¬ Always (step .front) (Permitted .front) relay
      (bindEvents ++ [.handle (draw 2) (channelData 0x4000 [1, 2, 3]) clientAddr 400]) := by
  rw [always_append]
  rintro ⟨-, h, -⟩
  set s := bindEvents.foldl (step .front) relay with hs
  have hrelayed : .toPeer 49152 peerAddr [1, 2, 3] ∈
      (s.handle .front (draw 2) (channelData 0x4000 [1, 2, 3]) clientAddr 400).2 := by
    rw [hs]
    decide +kernel
  have hexpiry : (s.allocations.lookup clientAddr).map (·.permissions.lookup peerAddr.ip) =
      some (some 300) := by
    rw [hs]
    decide +kernel
  obtain ⟨a, ha, -, expiry, hlookup, hlt⟩ := h 49152 peerAddr [1, 2, 3] hrelayed
  rw [ha, Option.map_some, hlookup] at hexpiry
  have h300 : expiry = 300 := Option.some.inj (Option.some.inj hexpiry)
  omega

end Vantablack.Turn.TurnServer
