import Vantablack.Turn.Link

/-!
What a client and its server agree on in every run of the link: the client holds the server's
realm, and it knows every channel that the server has bound for it.
-/

namespace Vantablack.Turn.Link

open Lib Layers Receive Net Stun TurnClient

/-- The channels of a client: each is a channel number that is bound to one peer. -/
structure Paired (channels : Table UInt16 SocketAddr) (peers : Table SocketAddr UInt16) :
    Prop where
  iff : ∀ channel peer, channels.lookup channel = some peer ↔ peers.lookup peer = some channel

theorem Paired.empty : Paired ∅ ∅ where
  iff channel peer := by simp

variable {channel : UInt16} {peer : SocketAddr}

theorem Paired.insert {channels : Table UInt16 SocketAddr} {peers : Table SocketAddr UInt16}
    (h : Paired channels peers) (hchannel : ∀ p, channels.lookup channel = some p → p = peer)
    (hpeer : ∀ c, peers.lookup peer = some c → c = channel) :
    Paired (channels.insert channel peer) (peers.insert peer channel) where
  iff c p := by
    rw [Table.lookup_insert_eq_some, Table.lookup_insert_eq_some]
    constructor
    · rintro (⟨rfl, rfl⟩ | ⟨hne, hlookup⟩)
      · exact .inl ⟨rfl, rfl⟩
      · have hback := (h.iff c p).mp hlookup
        refine .inr ⟨?_, hback⟩
        rintro rfl
        exact hne (hpeer c hback)
    · rintro (⟨rfl, rfl⟩ | ⟨hne, hlookup⟩)
      · exact .inl ⟨rfl, rfl⟩
      · have hback := (h.iff c p).mpr hlookup
        refine .inr ⟨?_, hback⟩
        rintro rfl
        exact hne (hchannel p hback)

/-- The client's side of the agreement: its credentials are those of a user of the server, and its
channels are channel numbers, each bound to one peer. -/
structure ClientFit (c : TurnClient) (s : TurnServer) : Prop where
  user : s.users.lookup c.username = some c.password
  realm : ∀ r, c.realm = some r → r = s.realm
  credentials : c.allocation.isSome → c.realm.isSome ∧ c.nonce.isSome
  next : IsChannel c.nextChannel
  paired : Paired c.channels c.channelPeers
  range : ∀ channel, channel ∈ c.channels → IsChannel channel

/-- Every binding of the server is one of the client. -/
structure Agrees (me : Endpoint) (w : Link) : Prop where
  client : ClientFit w.client w.server
  paired : ∀ a, w.server.allocations.lookup me.1 = some a → Paired a.channels a.channelPeers
  known : ∀ a, w.server.allocations.lookup me.1 = some a → ∀ channel peer,
    a.channels.lookup channel = some peer → w.client.channels.lookup channel = some peer

variable {c : TurnClient} {s s' : TurnServer}

theorem ClientFit.congr (h : ClientFit c s) (hconfig : s'.config = s.config) : ClientFit c s' where
  user := by rw [users_of_config hconfig]; exact h.user
  realm r hr := by rw [realm_of_config hconfig]; exact h.realm r hr
  credentials := h.credentials
  next := h.next
  paired := h.paired
  range := h.range

theorem Agrees.credentials {me : Endpoint} {w : Link} (h : w.Agrees me)
    (halloc : w.client.allocation.isSome) :
    ∃ realm nonce, w.client.realm = some realm ∧ w.client.nonce = some nonce := by
  obtain ⟨hrealm, hnonce⟩ := h.client.credentials halloc
  obtain ⟨realm, hrealm⟩ := Option.isSome_iff_exists.mp hrealm
  obtain ⟨nonce, hnonce⟩ := Option.isSome_iff_exists.mp hnonce
  exact ⟨realm, nonce, hrealm, hnonce⟩

variable (d : Digests) (me : Endpoint)

theorem Agrees.server {w : Link} (h : w.Agrees me) (hconfig : s'.config = w.server.config)
    (hkept : ∀ a, s'.allocations.lookup me.1 = some a →
      (a.channels = ∅ ∧ a.channelPeers = ∅) ∨
        ∃ b, w.server.allocations.lookup me.1 = some b ∧ a.channels = b.channels ∧
          a.channelPeers = b.channelPeers) : (⟨w.client, s'⟩ : Link).Agrees me where
  client := h.client.congr hconfig
  paired a ha := by
    rcases hkept a ha with ⟨hchannels, hpeers⟩ | ⟨b, hb, hchannels, hpeers⟩
    · rw [hchannels, hpeers]
      exact .empty
    · rw [hchannels, hpeers]
      exact h.paired b hb
  known a ha channel peer hlookup := by
    rcases hkept a ha with ⟨hchannels, -⟩ | ⟨b, hb, hchannels, -⟩
    · rw [hchannels] at hlookup
      cases hlookup
    · rw [hchannels] at hlookup
      exact h.known b hb channel peer hlookup

theorem Agrees.other {w : Link} (h : w.Agrees me) (e : TurnServer.Event) :
    (⟨w.client, Link.other d me w.server e⟩ : Link).Agrees me :=
  h.server me (config_other d me w.server e) fun _ ha => .inr (lookup_other d me ha)

variable {raw : Bytes} {a : ServerAllocation}

theorem lookup_arrival {env : Surroundings} {now : ℕ}
    (h : (arrival d me env now s raw).allocations.lookup me.1 = some a) :
    ∃ b, s.allocations.lookup me.1 = some b ∧ a.channels = b.channels ∧
      a.channelPeers = b.channelPeers := by
  obtain ⟨b, hb, -, rfl⟩ := TurnServer.lookup_expire.mp h
  obtain ⟨b', hb', hchannels, hpeers⟩ := lookup_others d me hb
  exact ⟨b', hb', hchannels, hpeers⟩

theorem Agrees.arrival {w : Link} (h : w.Agrees me) (env : Surroundings) (now : ℕ) (raw : Bytes) :
    (⟨w.client, Link.arrival d me env now w.server raw⟩ : Link).Agrees me :=
  h.server me (config_arrival d me env now w.server raw) fun _ ha => .inr (lookup_arrival d me ha)

/-! ### Refresh and permission -/

variable (txid : TransactionId)

theorem methods_refresh (lifetime : ℕ) :
    (refreshMessage txid lifetime).typ.method ∈
      [Method.allocate, .refresh, .createPermission, .channelBind] := by
  change (MessageType.new .refresh .request).method ∈ _
  decide

theorem methods_permission (peer : SocketAddr) :
    (permissionMessage txid peer).typ.method ∈
      [Method.allocate, .refresh, .createPermission, .channelBind] := by
  change (MessageType.new .createPermission .request).method ∈ _
  decide

theorem methods_bind (channel : UInt16) (peer : SocketAddr) :
    (bindMessage txid channel peer).typ.method ∈
      [Method.allocate, .refresh, .createPermission, .channelBind] := by
  change (MessageType.new .channelBind .request).method ∈ _
  decide

theorem methods_allocate (secs : UInt32) :
    (allocateMessage txid secs).typ.method ∈
      [Method.allocate, .refresh, .createPermission, .channelBind] := by
  change (MessageType.new .allocate .request).method ∈ _
  decide

theorem ofMessage_refreshMessage (lifetime : ℕ) :
    Op.ofMessage (refreshMessage txid lifetime) =
      if UInt32.ofNat lifetime = 0 then some .release
      else some (.refresh (max (UInt32.ofNat lifetime) minLifetimeSecs)) :=
  Op.ofMessage_refresh (by change (MessageType.new .refresh .request).method = .refresh; decide)
    (requestable_refresh txid lifetime).cls

theorem ofMessage_permissionMessage (peer : SocketAddr) :
    Op.ofMessage (permissionMessage txid peer) =
      if isUnspecified peer.ip then none else some (.permit peer.ip) :=
  Op.ofMessage_createPermission
    (by change (MessageType.new .createPermission .request).method = .createPermission; decide)
    (by change (MessageType.new .createPermission .request).cls = .request; decide)

theorem ofMessage_bindMessage (h : IsChannel channel) (peer : SocketAddr) :
    Op.ofMessage (bindMessage txid channel peer) = some (.bind channel peer) :=
  (Op.ofMessage_channelBind
    (by change (MessageType.new .channelBind .request).method = .channelBind; decide)
    (by change (MessageType.new .channelBind .request).cls = .request; decide)).trans (if_pos h)

variable {t : Table SocketAddr ServerAllocation}

theorem granted_eq_some {realm nonce : String} {m : Message} {now : ℕ}
    (h : granted me s realm nonce m now = some t) :
    ∃ op, Op.ofMessage m = some op ∧ s.grant me.1 now op = some t := by
  obtain ⟨op, hop, hgrant⟩ := Option.bind_eq_some_iff.mp h
  split at hop
  · exact ⟨op, hop, hgrant⟩
  · cases hop

theorem channels_grant {src : SocketAddr} {now : ℕ} {op : Op} (h : s.grant src now op = some t)
    (ha : t.lookup src = some a) (hop : ∀ channel peer, op ≠ .bind channel peer) :
    (a.channels = ∅ ∧ a.channelPeers = ∅) ∨
      ∃ b, s.allocations.lookup src = some b ∧ a.channels = b.channels ∧
        a.channelPeers = b.channelPeers := by
  cases TurnServer.granted_of_grant h with
  | allocate secs port =>
      rw [AList.lookup_insert] at ha
      cases ha
      exact .inl ⟨rfl, rfl⟩
  | release =>
      rw [AList.lookup_erase] at ha
      cases ha
  | refresh secs b hb | permit ip b hb =>
      rw [AList.lookup_insert] at ha
      cases ha
      exact .inr ⟨b, hb, rfl, rfl⟩
  | bind channel peer => exact absurd rfl (hop channel peer)

theorem grant_bind {src : SocketAddr} {now : ℕ}
    (h : s.grant src now (.bind channel peer) = some t) :
    ∃ b, s.allocations.lookup src = some b ∧
      t = s.allocations.insert src (b.bind channel peer now) := by
  cases TurnServer.granted_of_grant h with
  | bind _ _ b hb => exact ⟨b, hb, rfl⟩

section Requests

variable {d me} {w : Link} (h : w.Agrees me) {m : Message} {realm nonce : String}
  (hm : Requestable m)
  (hmethod : m.typ.method ∈ [Method.allocate, .refresh, .createPermission, .channelBind])
  (hrealm : w.client.realm = some realm) (hnonce : w.client.nonce = some nonce)

include h hm hmethod hrealm hnonce

theorem Agrees.ask_error {env : Surroundings} {now : ℕ} {s' : TurnServer} {e : TurnError}
    (hask : w.client.ask d (wire d me env now) w.server m = (s', .error e)) :
    (⟨w.client, s'⟩ : Link).Agrees me := by
  by_cases hfits : (sealedRequest d w.client realm nonce m).length ≤ maxPayload w.client.server.ip
  · cases hgrant : granted me
        (Link.arrival d me env now w.server (sealedRequest d w.client realm nonce m)) realm nonce m
        now with
    | none =>
        obtain ⟨t, e', heq, hconfig, hallocs⟩ :=
          ask_refused hm hmethod hrealm hnonce hfits h.client.user env now hgrant
        rw [hask] at heq
        cases heq
        refine h.server me hconfig fun a ha => .inr ?_
        rw [hallocs] at ha
        exact lookup_arrival d me ha
    | some t =>
        obtain ⟨u, resp, heq, -⟩ :=
          ask_granted hm hmethod hrealm hnonce hfits h.client.user env now hgrant
        rw [hask] at heq
        cases heq
  · rw [ask_long hrealm hnonce (Nat.lt_of_not_le hfits)] at hask
    cases hask
    exact h

theorem Agrees.ask_ok {env : Surroundings} {now : ℕ} {s' : TurnServer} {response : Message}
    (hask : w.client.ask d (wire d me env now) w.server m = (s', .ok response)) :
    s'.config = w.server.config ∧
      (∃ op, Op.ofMessage m = some op ∧
        (Link.arrival d me env now w.server (sealedRequest d w.client realm nonce m)).grant me.1 now
          op = some s'.allocations) ∧
      (m.typ.method = .refresh → response.lifetime = some
        (if m.lifetime.getD 600 = 0 then 0 else max (m.lifetime.getD 600) minLifetimeSecs)) := by
  by_cases hfits : (sealedRequest d w.client realm nonce m).length ≤ maxPayload w.client.server.ip
  · cases hgrant : granted me
        (Link.arrival d me env now w.server (sealedRequest d w.client realm nonce m)) realm nonce m
        now with
    | none =>
        obtain ⟨t, e', heq, -⟩ :=
          ask_refused hm hmethod hrealm hnonce hfits h.client.user env now hgrant
        rw [hask] at heq
        cases heq
    | some t =>
        obtain ⟨u, resp, heq, hconfig, hallocs, hlifetime⟩ :=
          ask_granted hm hmethod hrealm hnonce hfits h.client.user env now hgrant
        rw [hask] at heq
        cases heq
        rw [← hallocs] at hgrant
        exact ⟨hconfig, granted_eq_some me hgrant, hlifetime⟩
  · rw [ask_long hrealm hnonce (Nat.lt_of_not_le hfits)] at hask
    cases hask

end Requests

theorem allocation_of_require (h : c.requireAllocation = .ok ()) : c.allocation.isSome := by
  unfold requireAllocation at h
  split at h
  · assumption
  · cases h

theorem Agrees.of_grant {w : Link} (h : w.Agrees me) {env : Surroundings} {now : ℕ} {op : Op}
    (hconfig : s'.config = w.server.config)
    (hgrant : (Link.arrival d me env now w.server raw).grant me.1 now op = some s'.allocations)
    (hop : ∀ channel peer, op ≠ .bind channel peer) : (⟨w.client, s'⟩ : Link).Agrees me := by
  refine h.server me hconfig fun a ha => ?_
  rcases channels_grant hgrant ha hop with hempty | ⟨b, hb, hchannels, hpeers⟩
  · exact .inl hempty
  · obtain ⟨b', hb', hchannels', hpeers'⟩ := lookup_arrival d me hb
    exact .inr ⟨b', hb', hchannels.trans hchannels', hpeers.trans hpeers'⟩

theorem Agrees.client_congr (h : (⟨c, s⟩ : Link).Agrees me) {allocation : Option Allocation}
    {permissions : Table IpAddr ℕ} (hsome : allocation.isSome → c.allocation.isSome) :
    (⟨{ c with allocation := allocation, permissions := permissions }, s⟩ : Link).Agrees me where
  client := {
    user := h.client.user
    realm := h.client.realm
    credentials := fun hs => h.client.credentials (hsome hs)
    next := h.client.next
    paired := h.client.paired
    range := h.client.range }
  paired := h.paired
  known := h.known

theorem Agrees.refresh {w : Link} (h : w.Agrees me) (env : Surroundings) (txid : TransactionId)
    (lifetime now : ℕ) : (w.step d me (.refresh env txid lifetime now)).Agrees me := by
  simp only [step, TurnClient.refresh]
  cases hrequire : w.client.requireAllocation with
  | error e => exact h
  | ok u =>
      have halloc := allocation_of_require hrequire
      obtain ⟨realm, nonce, hrealm, hnonce⟩ := h.credentials halloc
      have hm := requestable_refresh txid lifetime
      have hmethod := methods_refresh txid lifetime
      generalize hask : w.client.ask d (wire d me env now) w.server
        (refreshMessage txid lifetime) = result
      obtain ⟨s', _ | response⟩ := result
      · exact h.ask_error hm hmethod hrealm hnonce hask
      · obtain ⟨hconfig, ⟨op, hop, hgrant⟩, hlifetime⟩ := h.ask_ok hm hmethod hrealm hnonce hask
        rw [ofMessage_refreshMessage] at hop
        have hbinds : ∀ channel peer, op ≠ .bind channel peer := by
          rintro channel peer rfl
          split at hop <;> cases hop
        have hserver := h.of_grant d me hconfig hgrant hbinds
        have hgranted := hlifetime
          (by change (MessageType.new .refresh .request).method = .refresh; decide)
        change response.lifetime = some (if UInt32.ofNat lifetime = 0 then 0
          else max (UInt32.ofNat lifetime) minLifetimeSecs) at hgranted
        simp only [hgranted, Option.getD_some, refreshed]
        by_cases hzero : UInt32.ofNat lifetime = 0
        · -- The allocation is gone on both sides.
          rw [if_pos hzero] at hop
          cases hop
          obtain ⟨b, -, herase⟩ := Option.map_eq_some_iff.mp hgrant
          have hnone : s'.allocations.lookup me.1 = none := by
            rw [← herase, AList.lookup_erase]
          rw [if_pos hzero, UInt32.toNat_zero, if_pos rfl]
          exact {
            client := {
              user := hserver.client.user
              realm := hserver.client.realm
              credentials := fun hs => by cases hs
              next := hserver.client.next
              paired := .empty
              range := fun channel hmem => absurd hmem (AList.notMem_empty channel) }
            paired := fun a ha => by rw [hnone] at ha; cases ha
            known := fun a ha => by rw [hnone] at ha; cases ha }
        · have hpos : (max (UInt32.ofNat lifetime) minLifetimeSecs).toNat ≠ 0 := by
            have hle := le_toNat_max_minLifetimeSecs (UInt32.ofNat lifetime)
            omega
          rw [if_neg hzero, if_neg hpos]
          exact hserver.client_congr me fun hs => by
            rwa [Option.isSome_map] at hs

theorem Agrees.createPermission {w : Link} (h : w.Agrees me) (env : Surroundings)
    (txid : TransactionId) (peer : Endpoint) (now : ℕ) :
    (w.step d me (.createPermission env txid peer now)).Agrees me := by
  simp only [step, TurnClient.createPermission]
  cases hrequire : w.client.requireAllocation with
  | error e => exact h
  | ok u =>
      have halloc := allocation_of_require hrequire
      obtain ⟨realm, nonce, hrealm, hnonce⟩ := h.credentials halloc
      have hm := requestable_permission txid peer.2
      have hmethod := methods_permission txid peer.1
      generalize hask : w.client.ask d (wire d me env now) w.server
        (permissionMessage txid peer.1) = result
      obtain ⟨s', _ | response⟩ := result
      · exact h.ask_error hm hmethod hrealm hnonce hask
      · obtain ⟨hconfig, ⟨op, hop, hgrant⟩, -⟩ := h.ask_ok hm hmethod hrealm hnonce hask
        rw [ofMessage_permissionMessage] at hop
        have hbinds : ∀ channel peer, op ≠ .bind channel peer := by
          rintro channel peer rfl
          split at hop <;> cases hop
        exact (h.of_grant d me hconfig hgrant hbinds).client_congr me id

/-! ### Channel binding -/

theorem isChannel_next {candidate : UInt16} (h : IsChannel candidate) :
    IsChannel (if channelNumberMax ≤ candidate then channelNumberMin else candidate + 1) := by
  split
  · decide
  · rename_i hlt
    have hmin : (0x4000 : ℕ) ≤ candidate.toNat := h.1
    have hmax : candidate.toNat < 0x7FFF := Nat.lt_of_not_le hlt
    have hnext : (candidate + 1).toNat = candidate.toNat + 1 := by
      rw [UInt16.toNat_add]
      exact Nat.mod_eq_of_lt (by change candidate.toNat + 1 < 65536; omega)
    constructor
    · change (0x4000 : ℕ) ≤ (candidate + 1).toNat
      omega
    · change (candidate + 1).toNat ≤ 0x7FFF
      omega

theorem searchChannel_spec (channels : Table UInt16 SocketAddr) (fuel : ℕ) {start : UInt16}
    (h : IsChannel start) :
    IsChannel (searchChannel channels fuel start).1 ∧
      ∀ channel, (searchChannel channels fuel start).2 = some channel →
        channel ∉ channels ∧ IsChannel channel := by
  induction fuel generalizing start with
  | zero => exact ⟨h, fun channel hfound => by cases hfound⟩
  | succ fuel ih =>
      simp only [searchChannel]
      split
      · rename_i hfree
        refine ⟨isChannel_next h, fun channel hfound => ?_⟩
        cases hfound
        exact ⟨hfree, h⟩
      · exact ih (isChannel_next h)

theorem Agrees.nextChannel {w : Link} (h : w.Agrees me) {next : UInt16} (hnext : IsChannel next) :
    (⟨{ w.client with nextChannel := next }, w.server⟩ : Link).Agrees me where
  client := {
    user := h.client.user
    realm := h.client.realm
    credentials := h.client.credentials
    next := hnext
    paired := h.client.paired
    range := h.client.range }
  paired := h.paired
  known := h.known

theorem Agrees.not_conflicts {w : Link} (h : w.Agrees me)
    (ha : w.server.allocations.lookup me.1 = some a) (hchannel : channel ∉ w.client.channels)
    (hpeer : w.client.channelPeers.lookup peer = none) :
    a.channels.lookup channel = none ∧ a.channelPeers.lookup peer = none := by
  constructor
  · by_contra hne
    obtain ⟨p, hp⟩ := Option.ne_none_iff_exists'.mp hne
    have hmem : channel ∈ w.client.channels :=
      AList.lookup_isSome.mp (by rw [h.known a ha channel p hp]; rfl)
    exact hchannel hmem
  · by_contra hne
    obtain ⟨c, hc⟩ := Option.ne_none_iff_exists'.mp hne
    have hbound := h.known a ha c peer (((h.paired a ha).iff c peer).mpr hc)
    rw [(h.client.paired.iff c peer).mp hbound] at hpeer
    cases hpeer

theorem Agrees.bound {w : Link} (h : w.Agrees me) {env : Surroundings} {now : ℕ}
    (hconfig : s'.config = w.server.config)
    (hgrant : (Link.arrival d me env now w.server raw).grant me.1 now (.bind channel peer) =
      some s'.allocations) (hchannel : channel ∉ w.client.channels) (hrange : IsChannel channel)
    (hpeer : w.client.channelPeers.lookup peer = none) :
    (⟨w.client.bound channel peer now, s'⟩ : Link).Agrees me := by
  obtain ⟨b, hb, hallocs⟩ := grant_bind hgrant
  obtain ⟨hfree, hunbound⟩ := (h.arrival d me env now raw).not_conflicts me hb hchannel hpeer
  have hclientFree : w.client.channels.lookup channel = none :=
    AList.lookup_eq_none.mpr hchannel
  have hlookup : ∀ a, s'.allocations.lookup me.1 = some a → a = b.bind channel peer now := by
    intro a ha
    rw [hallocs, AList.lookup_insert] at ha
    exact (Option.some.inj ha).symm
  exact {
    client := {
      user := by rw [users_of_config hconfig]; exact h.client.user
      realm := fun r hr => by rw [realm_of_config hconfig]; exact h.client.realm r hr
      credentials := h.client.credentials
      next := h.client.next
      paired := h.client.paired.insert (fun p hp => by rw [hclientFree] at hp; cases hp)
        (fun c hc => by rw [hpeer] at hc; cases hc)
      range := by
        intro c hmem
        rcases (AList.mem_insert _).mp hmem with rfl | hold
        · exact hrange
        · exact h.client.range c hold }
    paired := by
      intro a ha
      rw [hlookup a ha]
      exact ((h.arrival d me env now raw).paired b hb).insert
        (fun p hp => by rw [hfree] at hp; cases hp) (fun c hc => by rw [hunbound] at hc; cases hc)
    known := by
      intro a ha c p hp
      rw [hlookup a ha] at hp
      have hcases := Table.lookup_insert_eq_some.mp hp
      apply Table.lookup_insert_eq_some.mpr
      exact hcases.imp_right fun hold =>
        ⟨hold.1, (h.arrival d me env now raw).known b hb c p hold.2⟩ }

theorem Agrees.channelBind {w : Link} (h : w.Agrees me) (env : Surroundings)
    (txid : TransactionId) (peer : Endpoint) (now : ℕ) :
    (w.step d me (.channelBind env txid peer now)).Agrees me := by
  simp only [step, TurnClient.channelBind]
  cases hrequire : w.client.requireAllocation with
  | error e => exact h
  | ok u =>
      have halloc := allocation_of_require hrequire
      obtain ⟨realm, nonce, hrealm, hnonce⟩ := h.credentials halloc
      cases hpeer : w.client.channelPeers.lookup peer.1 with
      | some existing => exact h
      | none =>
          obtain ⟨hnext, hfound⟩ := searchChannel_spec w.client.channels
            ((channelNumberMax - channelNumberMin).toNat + 1) h.client.next
          simp only [allocateChannel]
          generalize hsearch : searchChannel w.client.channels
            ((channelNumberMax - channelNumberMin).toNat + 1) w.client.nextChannel = search
          rw [hsearch] at hnext hfound
          obtain ⟨next, found⟩ := search
          have hadvanced := h.nextChannel me hnext
          cases found with
          | none => exact hadvanced
          | some channel =>
              obtain ⟨hfree, hrange⟩ := hfound channel rfl
              have hm := requestable_bind txid channel peer.2
              have hmethod := methods_bind txid channel peer.1
              simp only
              generalize hask : ask d (wire d me env now)
                { w.client with nextChannel := next } w.server
                (bindMessage txid channel peer.1) = result
              obtain ⟨s', _ | response⟩ := result
              · exact hadvanced.ask_error hm hmethod hrealm hnonce hask
              · obtain ⟨hconfig, ⟨op, hop, hgrant⟩, -⟩ :=
                  hadvanced.ask_ok hm hmethod hrealm hnonce hask
                rw [ofMessage_bindMessage txid hrange] at hop
                cases hop
                exact hadvanced.bound d me hconfig hgrant hfree hrange hpeer

/-! ### Allocation -/

theorem Agrees.allocated_error (h : (⟨c, s⟩ : Link).Agrees me) {response : Message}
    (hcls : response.typ.cls = .errorResponse) (hrealm : ∀ r, response.realm = some r → r = s.realm)
    (lifetime now : ℕ) : (⟨(c.allocated response lifetime now).1, s⟩ : Link).Agrees me := by
  simp only [allocated, hcls]
  split
  · split
    · rename_i realm nonce hadopted _
      refine ⟨⟨h.client.user, ?_, fun _ => ⟨rfl, rfl⟩, h.client.next, h.client.paired,
        h.client.range⟩, h.paired, h.known⟩
      intro r hr
      cases hr
      rcases Option.or_eq_some_iff.mp hadopted with hnew | ⟨-, hold⟩
      · exact hrealm _ hnew
      · exact h.client.realm _ hold
    · exact h
  · exact h

theorem Agrees.allocated_success (h : (⟨c, s⟩ : Link).Agrees me) {response : Message}
    (hcls : response.typ.cls = .successResponse) (hcredentials : c.realm.isSome ∧ c.nonce.isSome)
    (lifetime now : ℕ) : (⟨(c.allocated response lifetime now).1, s⟩ : Link).Agrees me := by
  simp only [allocated, hcls]
  split
  · exact h
  · exact ⟨⟨h.client.user, h.client.realm, fun _ => hcredentials, h.client.next, h.client.paired,
      h.client.range⟩, h.paired, h.known⟩

theorem encodable_allocate (secs : UInt32) : (allocateMessage txid secs).Encodable := by
  constructor
  · intro a ha
    simp only [allocateMessage, Message.new, Message.push, List.nil_append,
      List.cons_append, List.mem_cons, List.not_mem_nil, or_false] at ha
    rcases ha with rfl | rfl | rfl
    · exact .requestedTransport _
    · exact .lifetime _
    · exact .dontFragment
  · simp [allocateMessage, Message.push, Message.new, encodeAttributes,
      Attribute.encodeInto, Attribute.encodeValue, paddedLen]

theorem length_allocate (secs : UInt32) :
    (allocateMessage txid secs).encode.length = 40 := by
  rw [Message.length_encode]
  simp [allocateMessage, Message.push, Message.new, encodeAttributes,
    Attribute.encodeInto, Attribute.encodeValue, paddedLen, headerLen]

theorem Agrees.round_refused {w : Link} (h : (⟨w.client, s'⟩ : Link).Agrees me)
    (hsame : s.realm = s'.realm) {request refusal : Message} {code : UInt16}
    (hrefusal : Refusal s request code refusal)
    (hmethod : request.typ.method ∈ [Method.allocate, .refresh, .createPermission, .channelBind])
    {env : Surroundings} {bytes : Bytes} {lifetime now : ℕ}
    (htransact : w.client.transact d (wire d me env now) w.server bytes request.txid =
      (s', w.client.awaitResponse d request.txid
        ([.toClient me.1 refusal.encode].filterMap (received me)))) :
    let r := w.client.allocateRound d (wire d me env now) w.server (.ok bytes) request.txid lifetime now
    (⟨r.1, r.2.1⟩ : Link).Agrees me := by
  simp only [allocateRound, htransact]
  rcases @awaitResponse_refusal d me w.client _ _ _ _ hrefusal with hawait | hawait
  · simp only [hawait]
    exact h
  · simp only [hawait]
    refine h.allocated_error me (cls_refusal hrefusal hmethod) (fun r hr => ?_) _ _
    rw [hrefusal.realm r hr, hsame]

theorem Agrees.firstRound {w : Link} (h : w.Agrees me) (env : Surroundings) (txid : TransactionId)
    (secs : UInt32) (lifetime now : ℕ) :
    let r := w.client.allocateRound d (wire d me env now) w.server
      (.ok (allocateMessage txid secs).encode) txid lifetime now
    (⟨r.1, r.2.1⟩ : Link).Agrees me := by
  set m := allocateMessage txid secs with hm
  set raw := m.encode with hraw
  set a := Link.arrival d me env now w.server raw with ha
  have hfits : ¬ maxPayload w.client.server.ip < raw.length := by
    have hmax := le_maxPayload w.client.server.ip
    have hlen : raw.length = 40 := length_allocate txid secs
    omega
  have hchannel : parseChannelData raw = none :=
    parseChannelData_writeHeader (requestable_allocate txid secs).value_lt _ _ _
  have hparse : parse raw = .ok m := by
    have := parse_encode (encodable_allocate txid secs) []
    rwa [List.append_nil] at this
  have hwire : wire d me env now w.server raw =
      ((a.dispatch d (env.draw raw) raw m me.1 now).1,
        (a.dispatch d (env.draw raw) raw m me.1 now).2.filterMap (received me)) := by
    simp only [wire, TurnServer.handle, hchannel, hparse, ha, Link.arrival]
  have hauth : a.authenticate d raw m = none := rfl
  have hallocs := TurnServer.allocations_dispatch d a (env.draw raw) raw m me.1 now
  rw [hauth, Option.isSome_none, if_neg Bool.false_ne_true, Option.bind_none,
    Option.getD_none] at hallocs
  have hserver : (⟨w.client, (a.dispatch d (env.draw raw) raw m me.1 now).1⟩ : Link).Agrees me := by
    refine h.server me ((TurnServer.config_dispatch ..).trans (config_arrival ..)) ?_
    intro b hb
    rw [hallocs] at hb
    exact .inr (lookup_arrival d me hb)
  have hanswered := @answered_dispatch d a (env.draw raw) raw m me.1 now me.2
    (requestable_allocate txid secs).cls (methods_allocate txid secs)
  rcases hanswered with ⟨key, resp, hkey, -⟩ | ⟨-, code, refusal, hrefusal, houts⟩
  · rw [hauth] at hkey
    cases hkey
  · have htransact : w.client.transact d (wire d me env now) w.server raw m.txid =
        ((a.dispatch d (env.draw raw) raw m me.1 now).1, w.client.awaitResponse d m.txid
          ([.toClient me.1 refusal.encode].filterMap (received me))) := by
      rw [transact, if_neg hfits, hwire, houts]
    exact hserver.round_refused d me (realm_of_config (TurnServer.config_dispatch ..)).symm hrefusal
      (methods_allocate txid secs) htransact

theorem Agrees.round_granted {w : Link} (h : w.Agrees me) {env : Surroundings}
    {txid : TransactionId} {secs : UInt32} {lifetime now : ℕ} {realm nonce : String}
    (hrealm : w.client.realm = some realm) (hnonce : w.client.nonce = some nonce)
    {request resp : Message} {bytes : Bytes} (hreply : Reply request resp)
    (htxid : request.txid = txid)
    (hmethod : request.typ.method ∈ [Method.allocate, .refresh, .createPermission, .channelBind])
    (hconfig : s'.config = w.server.config)
    (hgranted : granted me (Link.arrival d me env now w.server raw) realm nonce
      (allocateMessage txid secs) now = some s'.allocations)
    (htransact : w.client.transact d (wire d me env now) w.server bytes txid =
      (s', w.client.awaitResponse d txid ((TurnServer.success d me.1
        (longTermKey d w.client.username realm w.client.password) resp).filterMap (received me)))) :
    let r := w.client.allocateRound d (wire d me env now) w.server (.ok bytes) txid lifetime now
    (⟨r.1, r.2.1⟩ : Link).Agrees me := by
  obtain ⟨op, hop, hgrant⟩ := granted_eq_some me hgranted
  have hbinds : ∀ channel peer, op ≠ .bind channel peer := by
    rintro channel peer rfl
    rw [Op.ofMessage_allocate
      (by change (MessageType.new .allocate .request).method = .allocate; decide)
      (requestable_allocate txid secs).cls] at hop
    split at hop <;> cases hop
  have hkey : w.client.key d = .ok (longTermKey d w.client.username realm w.client.password) := by
    simp only [TurnClient.key, hrealm]
  have hawait := @awaitResponse_success d me w.client _ _ hkey resp hreply
  rw [htxid] at hawait
  have hcls : resp.typ.cls = .successResponse := cls_reply hreply hmethod
  have hsealed : (resp.sealed d (longTermKey d w.client.username realm
    w.client.password).toList).typ.cls = .successResponse := hcls
  simp only [allocateRound, htransact, hawait]
  exact (h.of_grant d me hconfig hgrant hbinds).allocated_success me hsealed
    ⟨by rw [hrealm]; rfl, by rw [hnonce]; rfl⟩ _ _

theorem Agrees.secondRound {w : Link} (h : w.Agrees me) (env : Surroundings) (txid : TransactionId)
    (secs : UInt32) (lifetime now : ℕ) :
    let r := w.client.allocateRound d (wire d me env now) w.server
      (w.client.seal_ d (allocateMessage txid secs)) txid lifetime now
    (⟨r.1, r.2.1⟩ : Link).Agrees me := by
  have hm := requestable_allocate txid secs
  have hmethod := methods_allocate txid secs
  cases hrealm : w.client.realm with
  | none =>
      simp only [allocateRound, seal_, hrealm]
      exact h
  | some realm =>
      cases hnonce : w.client.nonce with
      | none =>
          simp only [allocateRound, seal_, hrealm, hnonce]
          exact h
      | some nonce =>
          have hseal : w.client.seal_ d (allocateMessage txid secs) =
              .ok (sealedRequest d w.client realm nonce (allocateMessage txid secs)) := by
            simp only [seal_, hrealm, hnonce, sealedRequest]
          rw [hseal]
          by_cases hfits : (sealedRequest d w.client realm nonce
              (allocateMessage txid secs)).length ≤ maxPayload w.client.server.ip
          · have htransact := @transact_eq d me w.client _ realm nonce hm hfits env now w.server
            obtain ⟨hconfig, hallocs, hanswer⟩ := answered_arrival hm hmethod hfits h.client.user env now
            rcases hanswer with ⟨resp, hreply, hsome, houts⟩ | ⟨hnone, code, refusal, hrefusal, houts⟩
            · obtain ⟨t, ht⟩ := Option.isSome_iff_exists.mp hsome
              rw [ht, Option.getD_some] at hallocs
              rw [← hallocs] at ht
              dsimp only at htransact
              rw [houts] at htransact
              exact h.round_granted d me hrealm hnonce hreply rfl hmethod hconfig ht htransact
            · rw [hnone, Option.getD_none] at hallocs
              have hserver := h.server me hconfig fun b hb => .inr (by
                rw [hallocs] at hb
                exact lookup_arrival d me hb)
              dsimp only at htransact
              rw [houts] at htransact
              exact hserver.round_refused d me (realm_of_config (TurnServer.config_dispatch ..)).symm
                hrefusal hmethod htransact
          · simp only [allocateRound, transact, if_pos (Nat.lt_of_not_le hfits)]
            exact h

theorem Agrees.allocate {w : Link} (h : w.Agrees me) (env : Surroundings)
    (txid txid' : TransactionId) (lifetime now : ℕ) :
    (w.step d me (.allocate env txid txid' lifetime now)).Agrees me := by
  have hfirst := h.firstRound d me env txid (max (UInt32.ofNat lifetime) minLifetimeSecs) lifetime now
  simp only [step, TurnClient.allocate]
  generalize w.client.allocateRound d (wire d me env now) w.server
    (.ok (allocateMessage txid (max (UInt32.ofNat lifetime) minLifetimeSecs)).encode)
    txid lifetime now = first at hfirst
  obtain ⟨c, s, _ | result⟩ := first
  · have hsecond := hfirst.secondRound d me env txid' (max (UInt32.ofNat lifetime) minLifetimeSecs)
      lifetime now
    simp only at hsecond ⊢
    generalize c.allocateRound d (wire d me env now) s
      (c.seal_ d (allocateMessage txid' (max (UInt32.ofNat lifetime) minLifetimeSecs)))
      txid' lifetime now = second at hsecond
    obtain ⟨c', s', _ | result⟩ := second
    · exact hsecond
    · exact hsecond
  · exact hfirst

theorem Agrees.step {w : Link} (h : w.Agrees me) (act : Act) : (w.step d me act).Agrees me := by
  cases act with
  | allocate env txid txid' lifetime now => exact h.allocate d me env txid txid' lifetime now
  | refresh env txid lifetime now => exact h.refresh d me env txid lifetime now
  | createPermission env txid peer now => exact h.createPermission d me env txid peer now
  | channelBind env txid peer now => exact h.channelBind d me env txid peer now
  | other e => exact h.other d me e

/-- A new client of a server at which it is a user. -/
structure Start (w : Link) : Prop where
  client : w.client = new w.client.server w.client.username w.client.password
  user : w.server.users.lookup w.client.username = some w.client.password
  allocation : w.server.allocations.lookup me.1 = none

theorem Start.agrees {w : Link} (h : w.Start me) : w.Agrees me where
  client := {
    user := h.user
    realm := fun r hr => by
      rw [h.client] at hr
      cases hr
    credentials := fun hs => by
      rw [h.client] at hs
      cases hs
    next := by
      rw [h.client]
      change IsChannel channelNumberMin
      decide
    paired := by
      rw [h.client]
      exact .empty
    range := fun channel hmem => by
      rw [h.client] at hmem
      exact absurd hmem (AList.notMem_empty channel) }
  paired a ha := by
    rw [h.allocation] at ha
    cases ha
  known a ha := by
    rw [h.allocation] at ha
    cases ha

theorem Start.run {w : Link} (h : w.Start me) (as : List Act) :
    (as.foldl (Link.step d me) w).Agrees me :=
  foldl_invariant _ (fun _ act hu => hu.step d me act) h.agrees as

/-! ### A user at home -/

def homeAddr : Endpoint := ⟨TurnServer.clientAddr, by decide⟩

def peerHome : Endpoint := ⟨TurnServer.peerAddr, by decide⟩

/-- The user of the relay, before it has sent anything. -/
def home : Link where
  client := new { ip := TurnServer.relay.relayIp, port := 3478 } "user" "secret"
  server := TurnServer.relay

theorem start_home : home.Start homeAddr where
  client := rfl
  user := by decide
  allocation := rfl

def alone (n : UInt8) : Surroundings where
  draw _ := TurnServer.draw n
  before _ := []

end Vantablack.Turn.Link
