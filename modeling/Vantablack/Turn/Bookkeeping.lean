import Vantablack.Turn.TwoRuns

/-!
The tables of the TURN server along every run: relay ports, channels and outstanding nonces. A
request that is not authenticated touches none of them but the nonces.
-/

namespace Vantablack.Turn

open Lib Layers Receive Net Stun

/-! ### Channels -/

/-- `channels` and `channel_peers` are inverses of each other, on channel numbers. -/
structure ServerAllocation.Matched (a : ServerAllocation) : Prop where
  inverse : ∀ channel peer,
    a.channels.lookup channel = some peer ↔ a.channelPeers.lookup peer = some channel
  range : ∀ channel peer, a.channels.lookup channel = some peer → IsChannel channel

namespace ServerAllocation

variable {a : ServerAllocation} {channel : UInt16} {peer : SocketAddr}

theorem matched_fresh (relayPort : UInt16) (expiresAt : ℕ) :
    (fresh relayPort expiresAt).Matched where
  inverse channel peer := by simp [fresh]
  range channel peer h := by simp [fresh] at h

theorem not_conflicts (h : a.conflicts channel peer = false) :
    (∀ p, a.channels.lookup channel = some p → p = peer) ∧
      ∀ c, a.channelPeers.lookup peer = some c → c = channel := by
  rw [conflicts, Bool.or_eq_false_iff, Option.any_eq_false, Option.any_eq_false] at h
  constructor
  · intro p hp
    have hne := h.1 p hp
    simpa using hne
  · intro c hc
    have hne := h.2 c hc
    simpa using hne

theorem Matched.bind (h : a.Matched) (hchannel : IsChannel channel)
    (hfree : a.conflicts channel peer = false) (now : ℕ) : (a.bind channel peer now).Matched := by
  obtain ⟨hpeer, hother⟩ := not_conflicts hfree
  constructor
  · intro c p
    change (a.channels.insert channel peer).lookup c = some p ↔
      (a.channelPeers.insert peer channel).lookup p = some c
    rw [Table.lookup_insert_eq_some, Table.lookup_insert_eq_some]
    constructor
    · rintro (⟨rfl, rfl⟩ | ⟨hne, hlookup⟩)
      · exact .inl ⟨rfl, rfl⟩
      · have hback := (h.inverse c p).mp hlookup
        refine .inr ⟨?_, hback⟩
        rintro rfl
        exact hne (hother c hback)
    · rintro (⟨rfl, rfl⟩ | ⟨hne, hlookup⟩)
      · exact .inl ⟨rfl, rfl⟩
      · have hback := (h.inverse c p).mpr hlookup
        refine .inr ⟨?_, hback⟩
        rintro rfl
        exact hne (hpeer p hback)
  · intro c p hlookup
    change (a.channels.insert channel peer).lookup c = some p at hlookup
    rcases Table.lookup_insert_eq_some.mp hlookup with ⟨rfl, -⟩ | ⟨-, hc⟩
    · exact hchannel
    · exact h.range c p hc

end ServerAllocation

namespace TurnServer

variable {d : Digests} {s : TurnServer} {src : SocketAddr} {now : ℕ}

theorem matched_of_grant {op : Op} {t : Table SocketAddr ServerAllocation}
    (h : s.grant src now op = some t)
    (hop : ∀ channel peer, op = .bind channel peer → IsChannel channel)
    (hs : ∀ c a, s.allocations.lookup c = some a → a.Matched) :
    ∀ c a, t.lookup c = some a → a.Matched := by
  have hinsert : ∀ b : ServerAllocation, b.Matched → ∀ c a,
      (s.allocations.insert src b).lookup c = some a → a.Matched := by
    intro b hb c a ha
    rcases Table.lookup_insert_eq_some.mp ha with ⟨-, rfl⟩ | ⟨-, hlookup⟩
    · exact hb
    · exact hs c a hlookup
  cases granted_of_grant h with
  | allocate secs port => exact hinsert _ (ServerAllocation.matched_fresh port _)
  | release =>
      intro c a ha
      exact hs c a (Table.lookup_erase_eq_some.mp ha).2
  | refresh secs b hb | permit ip b hb =>
      exact hinsert _ ⟨(hs src b hb).inverse, (hs src b hb).range⟩
  | bind channel peer b hb hfree =>
      exact hinsert _ ((hs src b hb).bind (hop channel peer rfl) hfree now)

theorem isChannel_of_ofMessage {msg : Message} {channel : UInt16} {peer : SocketAddr}
    (h : Op.ofMessage msg = some (.bind channel peer)) : IsChannel channel := by
  unfold Op.ofMessage at h
  split_ifs at h
  · cases h
  · cases h
  · cases h
  · obtain ⟨p, -, hp⟩ := Option.bind_eq_some_iff.mp h
    split at hp <;> cases hp
  · split at h
    · split at h
      · rename_i hchannel
        cases h
        exact hchannel
      · cases h
    · cases h

theorem isChannel_of_asked {raw : Bytes} {channel : UInt16} {peer : SocketAddr}
    (h : s.asked d raw = some (.bind channel peer)) : IsChannel channel := by
  unfold asked at h
  split at h
  · cases h
  split at h
  · cases h
  split at h
  · exact isChannel_of_ofMessage h
  · cases h

/-! ### Ports -/

theorem freePort_mem {port : UInt16} (h : s.freePort = some port) :
    s.portMin ≤ port ∧ port ≤ s.portMax := by
  obtain ⟨n, hn, rfl⟩ := List.mem_map.mp (List.mem_of_find?_eq_some h)
  obtain ⟨hle, hlt⟩ := List.mem_range'_1.mp hn
  have hmax := s.portMax.toNat_lt
  have hport : (UInt16.ofNat n).toNat = n := by
    rw [UInt16.toNat_ofNat', Nat.mod_eq_of_lt (by omega)]
  rw [UInt16.le_iff_toNat_le, UInt16.le_iff_toNat_le, hport]
  omega

/-- The tables as they should be. -/
structure Kept (portMin portMax : UInt16) (s : TurnServer) : Prop where
  pool : s.portMin = portMin ∧ s.portMax = portMax
  distinct : s.DistinctPorts
  inRange : ∀ c a, s.allocations.lookup c = some a → portMin ≤ a.relayPort ∧ a.relayPort ≤ portMax
  matched : ∀ c a, s.allocations.lookup c = some a → a.Matched
  bounded : s.nonces.size ≤ maxOutstandingNonces

theorem size_issueNonce_le (s : TurnServer) (draw : Draw) :
    (s.issueNonce draw).1.nonces.size ≤ maxOutstandingNonces := by
  rw [issueNonce]
  refine (Table.size_insert_le _ _ _).trans ?_
  split
  · decide
  · omega

section Requests

variable (d s) (draw : Draw) (raw : Bytes) (src now)

theorem size_handle_le (h : s.nonces.size ≤ maxOutstandingNonces) :
    (s.handle d draw raw src now).1.nonces.size ≤ maxOutstandingNonces := by
  simp only [handle]
  split
  · exact h
  split
  · exact h
  · rw [nonces_dispatch]
    split
    · exact size_issueNonce_le _ draw
    · exact h

/-- A request that is not authenticated changes the nonces only, behind the sweep of what has
expired that every datagram starts with. -/
def RefusalsKeep : Prop :=
  ∀ draw raw src now msg, parseChannelData raw = none → parse raw = .ok msg →
    s.authenticate d raw msg = none →
      ∃ nonces, (s.handle d draw raw src now).1 = { s.expire now with nonces := nonces }

theorem refusalsKeep : s.RefusalsKeep d := by
  intro draw raw src now msg hchannel hparse hauth
  have hauth' : (s.expire now).authenticate d raw msg = none := hauth
  have hasked : (s.expire now).asked d raw = none := by
    simp only [asked, hchannel, hparse, hauth', Option.isSome_none, Bool.false_eq_true, if_false]
  have hallocs := allocations_handle d s draw raw src now
  have hconfig := config_handle d s draw raw src now
  rw [hasked, Option.bind_none, Option.getD_none] at hallocs
  refine ⟨(s.handle d draw raw src now).1.nonces, ?_⟩
  generalize (s.handle d draw raw src now).1 = t at hallocs hconfig ⊢
  obtain ⟨realm, users, relayIp, portMin, portMax, allocations, nonces, nonceLifetime⟩ := t
  cases hconfig
  cases hallocs
  rfl

end Requests

namespace Kept

variable {portMin portMax : UInt16}

theorem expire (h : s.Kept portMin portMax) (now : ℕ) : (s.expire now).Kept portMin portMax where
  pool := h.pool
  distinct := h.distinct.expire now
  inRange c a ha := by
    obtain ⟨b, hb, -, rfl⟩ := lookup_expire.mp ha
    exact h.inRange c b hb
  matched c a ha := by
    obtain ⟨b, hb, -, rfl⟩ := lookup_expire.mp ha
    exact ⟨(h.matched c b hb).inverse, (h.matched c b hb).range⟩
  bounded := h.bounded

theorem inRange_grant (h : s.Kept portMin portMax) {op : Op}
    {t : Table SocketAddr ServerAllocation} (ht : s.grant src now op = some t) :
    ∀ c a, t.lookup c = some a → portMin ≤ a.relayPort ∧ a.relayPort ≤ portMax := by
  intro c a ha
  by_cases hc : c = src
  · subst hc
    rcases relayPort_grant ht ha with ⟨b, hb, hport⟩ | ⟨-, hfree⟩
    · rw [← hport]
      exact h.inRange c b hb
    · rw [← h.pool.1, ← h.pool.2]
      exact freePort_mem hfree
  · rw [lookup_grant_of_ne ht hc] at ha
    exact h.inRange c a ha

theorem handle (h : s.Kept portMin portMax) (d : Digests) (draw : Draw) (raw : Bytes)
    (src : SocketAddr) (now : ℕ) : (s.handle d draw raw src now).1.Kept portMin portMax := by
  have hexpired := h.expire now
  have hallocs := allocations_handle d s draw raw src now
  have hconfig := config_handle d s draw raw src now
  have htables : (∀ c a, (s.handle d draw raw src now).1.allocations.lookup c = some a →
      portMin ≤ a.relayPort ∧ a.relayPort ≤ portMax) ∧
      ∀ c a, (s.handle d draw raw src now).1.allocations.lookup c = some a → a.Matched := by
    cases hgrant : ((s.expire now).asked d raw).bind ((s.expire now).grant src now) with
    | none =>
        rw [hallocs, hgrant, Option.getD_none]
        exact ⟨hexpired.inRange, hexpired.matched⟩
    | some t =>
        obtain ⟨op, hasked, hop⟩ := Option.bind_eq_some_iff.mp hgrant
        rw [hallocs, hgrant, Option.getD_some]
        refine ⟨hexpired.inRange_grant hop, matched_of_grant hop ?_ hexpired.matched⟩
        rintro channel peer rfl
        exact isChannel_of_asked hasked
  exact
    { pool := ⟨(congrArg ServerConfig.portMin hconfig).trans h.pool.1,
        (congrArg ServerConfig.portMax hconfig).trans h.pool.2⟩
      distinct := h.distinct.handle d draw raw src now
      inRange := htables.1
      matched := htables.2
      bounded := size_handle_le d s src now draw raw h.bounded }

theorem step (h : s.Kept portMin portMax) (d : Digests) (e : Event) :
    (s.step d e).Kept portMin portMax := by
  cases e with
  | handle draw raw src now => exact h.handle d draw raw src now
  | peerData txid relayPort peer payload now => exact h
  | sweep now => exact h.expire now

theorem new (realm : String) (users : Table String String) (relayIp : IpAddr)
    (portMin portMax : UInt16) :
    (TurnServer.new realm users relayIp portMin portMax).Kept portMin portMax where
  pool := ⟨rfl, rfl⟩
  distinct := distinctPorts_new realm users relayIp portMin portMax
  inRange c a ha := by cases ha
  matched c a ha := by cases ha
  bounded := Nat.zero_le _

end Kept

/-- In every state that a server gets to the tables are as they should be, and a request that is not
authenticated changes the nonces only. -/
theorem kept_of_run (d : Digests) (realm : String) (users : Table String String) (relayIp : IpAddr)
    (portMin portMax : UInt16) (es : List Event) :
    (es.foldl (step d) (new realm users relayIp portMin portMax)).Kept portMin portMax ∧
      (es.foldl (step d) (new realm users relayIp portMin portMax)).RefusalsKeep d :=
  ⟨foldl_invariant (Kept portMin portMax) (fun _ e h => h.step d e)
    (.new realm users relayIp portMin portMax) es, refusalsKeep d _⟩

theorem ne_of_lookup {t : TurnServer} (client : SocketAddr)
    (hs : (s.allocations.lookup client).isSome = true)
    (ht : (t.allocations.lookup client).isSome = false) (nonces : Table String ℕ) :
    t ≠ { s with nonces := nonces } := by
  rintro rfl
  dsimp only at ht
  rw [hs] at ht
  cases ht

/-- A stranger's request for an allocation, which is answered with a challenge, makes the server
drop the allocation of a client that has expired. -/
theorem refusal_sweeps :
    ∃ raw msg, parseChannelData raw = none ∧ parse raw = .ok msg ∧
      (bindEvents.foldl (step .front) relay).authenticate .front raw msg = none ∧
      ∀ nonces, ((bindEvents.foldl (step .front) relay).handle .front (draw 9) raw peerAddr 700).1 ≠
        { bindEvents.foldl (step .front) relay with nonces := nonces } :=
  ⟨(TurnClient.allocateMessage (txid 9) 600).encode, TurnClient.allocateMessage (txid 9) 600,
    by decide +kernel, by decide +kernel, by decide +kernel,
    ne_of_lookup clientAddr (by decide +kernel) (by decide +kernel)⟩

end TurnServer

end Vantablack.Turn
