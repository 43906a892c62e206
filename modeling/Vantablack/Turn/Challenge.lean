import Vantablack.Turn.Agreement

/-!
Refresh, permission and channel binding while other parties are at the server: each of their
unauthenticated requests makes it issue a nonce, and may make it forget the client's.
-/

namespace Vantablack.Turn.Link

open Lib Layers Receive Net Stun TurnClient

/-- What a client calls while it has an allocation. -/
inductive Call where
  | refresh (lifetime : ℕ)
  | createPermission (peer : Endpoint)
  | channelBind (peer : Endpoint)

/-- A refresh with the lifetime zero. -/
def Call.Releases : Call → Prop
  | .refresh lifetime => UInt32.ofNat lifetime = 0
  | .createPermission _ => False
  | .channelBind _ => False

variable (d : Digests) (me : Endpoint)

/-- A call, with the state it leaves. -/
def call (w : Link) (env : Surroundings) (txid : TransactionId) (now : ℕ) :
    Call → Link × Except TurnError Unit
  | .refresh lifetime =>
      let (c, s, r) := w.client.refresh d (wire d me env now) w.server txid lifetime now
      (⟨c, s⟩, r.map fun _ => ())
  | .createPermission peer =>
      let (c, s, r) := w.client.createPermission d (wire d me env now) w.server txid peer.1 now
      (⟨c, s⟩, r)
  | .channelBind peer =>
      let (c, s, r) := w.client.channelBind d (wire d me env now) w.server txid peer.1 now
      (⟨c, s⟩, r.map fun _ => ())

/-- Both sides hold the allocation, and it has not expired at the server. -/
def HasAllocation (w : Link) (now : ℕ) : Prop :=
  w.client.allocation.isSome ∧
    ∃ a, w.server.allocations.lookup me.1 = some a ∧ now < a.expiresAt

/-- The call succeeds, and the allocation is there afterwards unless it was released. -/
def Succeeds (w : Link) (env : Surroundings) (txid : TransactionId) (now : ℕ) (q : Call) : Prop :=
  (w.call d me env txid now q).2 = .ok () ∧
    (¬ q.Releases → (w.call d me env txid now q).1.HasAllocation me now)

/-- The client's request fits in a datagram, and the server still knows the client's nonce when it
arrives. -/
def Known (w : Link) (env : Surroundings) (m : Message) : Prop :=
  ∃ realm nonce, w.client.realm = some realm ∧ w.client.nonce = some nonce ∧
    (sealedRequest d w.client realm nonce m).length ≤ maxPayload w.client.server.ip ∧
    nonce ∈ (others d me w.server (env.before (sealedRequest d w.client realm nonce m))).nonces

/-- The request of a call is known, and it asks for something that there is: a peer that is not
the unspecified address, or a free channel unless the peer has one. -/
def Accepted (w : Link) (env : Surroundings) (txid : TransactionId) : Call → Prop
  | .refresh lifetime => w.Known d me env (refreshMessage txid lifetime)
  | .createPermission peer =>
      isUnspecified peer.1.ip = false ∧
        w.Known d me env (permissionMessage txid peer.1)
  | .channelBind peer =>
      (w.client.channelPeers.lookup peer.1).isSome ∨
        ∃ channel, w.client.allocateChannel.2 = some channel ∧
          w.Known d me env (bindMessage txid channel peer.1)

/-! ### The client's allocation while others are at the server -/

variable {s : TurnServer} {a : ServerAllocation}

theorem live_expire {t now : ℕ} (ha : s.allocations.lookup me.1 = some a)
    (hlive : now < a.expiresAt) (ht : t ≤ now) :
    ∃ b, (s.expire t).allocations.lookup me.1 = some b ∧ now < b.expiresAt :=
  ⟨a.prune t, TurnServer.lookup_expire.mpr ⟨a, ha, by omega, rfl⟩, hlive⟩

theorem live_other {e : TurnServer.Event} {now : ℕ} (ha : s.allocations.lookup me.1 = some a)
    (hlive : now < a.expiresAt) (ht : e.time ≤ now) :
    ∃ b, (other d me s e).allocations.lookup me.1 = some b ∧ now < b.expiresAt := by
  unfold other
  split
  · rename_i hforeign
    cases e with
    | handle draw raw src t =>
        rw [TurnServer.step, TurnServer.allocations_handle]
        cases hgrant : ((s.expire t).asked d raw).bind ((s.expire t).grant src t) with
        | none => exact live_expire me ha hlive ht
        | some table =>
            obtain ⟨op, hasked, hop⟩ := Option.bind_eq_some_iff.mp hgrant
            have hne : me.1 ≠ src := by
              intro heq
              have hnone : s.asked d raw = none := hforeign heq.symm
              have hsome : s.asked d raw = some op := hasked
              rw [hnone] at hsome
              cases hsome
            rw [Option.getD_some, TurnServer.lookup_grant_of_ne hop hne]
            exact live_expire me ha hlive ht
    | peerData txid relayPort peer payload t => exact ⟨a, ha, hlive⟩
    | sweep t => exact live_expire me ha hlive ht
  · exact ⟨a, ha, hlive⟩

theorem live_others {es : List TurnServer.Event} {now : ℕ} (ha : s.allocations.lookup me.1 = some a)
    (hlive : now < a.expiresAt) (ht : ∀ e ∈ es, e.time ≤ now) :
    ∃ b, (others d me s es).allocations.lookup me.1 = some b ∧ now < b.expiresAt := by
  induction es generalizing s a with
  | nil => exact ⟨a, ha, hlive⟩
  | cons e es ih =>
      obtain ⟨b, hb, hblive⟩ := live_other d me ha hlive (ht e List.mem_cons_self)
      exact ih hb hblive fun e' he' => ht e' (List.mem_cons_of_mem _ he')

theorem live_arrival {env : Surroundings} {raw : Bytes} {now : ℕ}
    (ha : s.allocations.lookup me.1 = some a) (hlive : now < a.expiresAt)
    (ht : ∀ raw, ∀ e ∈ env.before raw, e.time ≤ now) :
    ∃ b, (arrival d me env now s raw).allocations.lookup me.1 = some b ∧ now < b.expiresAt := by
  obtain ⟨b, hb, hblive⟩ := live_others d me ha hlive (ht raw)
  exact live_expire me hb hblive le_rfl

theorem live_grant {src : SocketAddr} {now : ℕ} {op : Op} {t : Table SocketAddr ServerAllocation}
    (h : s.grant src now op = some t) (ha : s.allocations.lookup src = some a)
    (hlive : now < a.expiresAt) (hrelease : op ≠ .release)
    (hsecs : ∀ secs, op = .allocate secs ∨ op = .refresh secs → 0 < secs.toNat) :
    ∃ b, t.lookup src = some b ∧ now < b.expiresAt := by
  cases TurnServer.granted_of_grant h with
  | allocate secs port =>
      have hpos := hsecs secs (.inl rfl)
      exact ⟨_, AList.lookup_insert _, by simp only [ServerAllocation.fresh]; omega⟩
  | release => exact absurd rfl hrelease
  | refresh secs =>
      have hpos := hsecs secs (.inr rfl)
      exact ⟨_, AList.lookup_insert _, by dsimp only; omega⟩
  | permit ip b hb | bind channel peer b hb =>
      rw [ha] at hb
      cases hb
      exact ⟨_, AList.lookup_insert _, hlive⟩

/-! ### When a request succeeds -/

section Requests

variable {d me} {w : Link} (h : w.Agrees me) {m : Message} {realm nonce : String}
  (hm : Requestable m)
  (hmethod : m.typ.method ∈ [Method.allocate, .refresh, .createPermission, .channelBind])
  (hrealm : w.client.realm = some realm) (hnonce : w.client.nonce = some nonce)

include h hm hmethod hrealm hnonce in
theorem Agrees.ask_ok_iff (env : Surroundings) (now : ℕ) :
    (∃ s' response, w.client.ask d (wire d me env now) w.server m = (s', .ok response)) ↔
      w.Known d me env m ∧
        ((Op.ofMessage m).bind ((Link.arrival d me env now w.server
          (sealedRequest d w.client realm nonce m)).grant me.1 now)).isSome := by
  have hknown : w.Known d me env m ↔
      (sealedRequest d w.client realm nonce m).length ≤ maxPayload w.client.server.ip ∧
        nonce ∈ (Link.arrival d me env now w.server
          (sealedRequest d w.client realm nonce m)).nonces := by
    constructor
    · rintro ⟨r, n, hr, hn, hfits, hmem⟩
      rw [hrealm] at hr
      rw [hnonce] at hn
      cases hr
      cases hn
      exact ⟨hfits, hmem⟩
    · rintro ⟨hfits, hmem⟩
      exact ⟨realm, nonce, hrealm, hnonce, hfits, hmem⟩
  have hsame : realm = (Link.arrival d me env now w.server
      (sealedRequest d w.client realm nonce m)).realm := by
    rw [h.client.realm realm hrealm]
    exact (realm_of_config (config_arrival d me env now w.server _)).symm
  rw [hknown]
  by_cases hfits : (sealedRequest d w.client realm nonce m).length ≤ maxPayload w.client.server.ip
  · cases hgrant : granted me
        (Link.arrival d me env now w.server (sealedRequest d w.client realm nonce m)) realm nonce m
        now with
    | none =>
        obtain ⟨s', e, heq, -⟩ :=
          ask_refused hm hmethod hrealm hnonce hfits h.client.user env now hgrant
        rw [granted] at hgrant
        constructor
        · rintro ⟨t, response, ht⟩
          rw [ht] at heq
          cases heq
        · rintro ⟨⟨-, hmem⟩, hsome⟩
          rw [if_pos ⟨hsame, hmem⟩] at hgrant
          rw [hgrant] at hsome
          cases hsome
    | some t =>
        obtain ⟨s', response, heq, -⟩ :=
          ask_granted hm hmethod hrealm hnonce hfits h.client.user env now hgrant
        rw [granted] at hgrant
        refine ⟨fun _ => ?_, fun _ => ⟨s', response, heq⟩⟩
        split at hgrant
        · rename_i hmem
          exact ⟨⟨hfits, hmem.2⟩, by rw [hgrant]; rfl⟩
        · cases hgrant
  · constructor
    · rintro ⟨s', response, heq⟩
      rw [ask_long hrealm hnonce (Nat.lt_of_not_le hfits)] at heq
      cases heq
    · rintro ⟨⟨hle, -⟩, -⟩
      exact absurd hle hfits

end Requests

section Calls

variable {d me} {w : Link} {env : Surroundings} {now : ℕ}

theorem Agrees.live_of_ask (h : w.Agrees me) {m : Message} {realm nonce : String}
    (hm : Requestable m)
    (hmethod : m.typ.method ∈ [Method.allocate, .refresh, .createPermission, .channelBind])
    (hrealm : w.client.realm = some realm) (hnonce : w.client.nonce = some nonce)
    (hlive : ∃ a, w.server.allocations.lookup me.1 = some a ∧ now < a.expiresAt)
    (ht : ∀ raw, ∀ e ∈ env.before raw, e.time ≤ now) {op : Op} (hop : Op.ofMessage m = some op)
    (hrelease : op ≠ .release)
    (hsecs : ∀ secs, op = .allocate secs ∨ op = .refresh secs → 0 < secs.toNat)
    {s' : TurnServer} {response : Message}
    (hask : w.client.ask d (wire d me env now) w.server m = (s', .ok response)) :
    ∃ a, s'.allocations.lookup me.1 = some a ∧ now < a.expiresAt := by
  obtain ⟨a, ha, halive⟩ := hlive
  obtain ⟨-, ⟨op', hop', hgrant⟩, -⟩ := h.ask_ok hm hmethod hrealm hnonce hask
  rw [hop] at hop'
  cases hop'
  obtain ⟨b, hb, hblive⟩ := live_arrival d me ha halive ht
  exact live_grant hgrant hb hblive hrelease hsecs

theorem Agrees.ask_iff_known (h : w.Agrees me) {m : Message} {realm nonce : String}
    (hm : Requestable m)
    (hmethod : m.typ.method ∈ [Method.allocate, .refresh, .createPermission, .channelBind])
    (hrealm : w.client.realm = some realm) (hnonce : w.client.nonce = some nonce)
    (hlive : ∃ a, w.server.allocations.lookup me.1 = some a ∧ now < a.expiresAt)
    (ht : ∀ raw, ∀ e ∈ env.before raw, e.time ≤ now) {P : Prop}
    (hgranted : ∀ s b, (⟨w.client, s⟩ : Link).Agrees me → s.allocations.lookup me.1 = some b →
      (((Op.ofMessage m).bind (s.grant me.1 now)).isSome ↔ P)) :
    (∃ s' response, w.client.ask d (wire d me env now) w.server m = (s', .ok response)) ↔
      w.Known d me env m ∧ P := by
  obtain ⟨a, ha, halive⟩ := hlive
  rw [h.ask_ok_iff hm hmethod hrealm hnonce env now]
  refine and_congr_right fun _ => ?_
  obtain ⟨b, hb, -⟩ := live_arrival d me ha halive ht
  exact hgranted _ b (h.arrival d me env now _) hb

theorem requireAllocation_of_isSome {c : TurnClient} (h : c.allocation.isSome) :
    c.requireAllocation = .ok () := if_pos h

variable (h : w.Agrees me) (hhas : w.HasAllocation me now)
  (ht : ∀ raw, ∀ e ∈ env.before raw, e.time ≤ now) (txid : TransactionId)

include h hhas ht

theorem Agrees.refresh_iff (lifetime : ℕ) :
    w.Succeeds d me env txid now (.refresh lifetime) ↔
      w.Accepted d me env txid (.refresh lifetime) := by
  obtain ⟨halloc, hlive⟩ := hhas
  obtain ⟨realm, nonce, hrealm, hnonce⟩ := h.credentials halloc
  have hm := requestable_refresh txid lifetime
  have hmethod := methods_refresh txid lifetime
  have hiff : (∃ s' response, w.client.ask d (wire d me env now) w.server
      (refreshMessage txid lifetime) = (s', .ok response)) ↔
        w.Known d me env (refreshMessage txid lifetime) ∧ True := by
    refine h.ask_iff_known hm hmethod hrealm hnonce hlive ht fun s b _ hb => ?_
    rw [ofMessage_refreshMessage]
    split <;> simp [TurnServer.grant, hb]
  rw [and_true] at hiff
  rw [Accepted, ← hiff, Succeeds, call, TurnClient.refresh,
    requireAllocation_of_isSome halloc]
  generalize hask : w.client.ask d (wire d me env now) w.server
    (refreshMessage txid lifetime) = result
  obtain ⟨s', e | response⟩ := result
  · constructor
    · rintro ⟨hok, -⟩
      cases hok
    · rintro ⟨t, r, hr⟩
      cases hr
  · refine ⟨fun _ => ⟨s', response, rfl⟩, fun _ => ⟨rfl, fun hrelease => ?_⟩⟩
    have hzero : ¬ UInt32.ofNat lifetime = 0 := hrelease
    have hop : Op.ofMessage (refreshMessage txid lifetime) =
        some (.refresh (max (UInt32.ofNat lifetime) minLifetimeSecs)) := by
      rw [ofMessage_refreshMessage, if_neg hzero]
    have hpos := le_toNat_max_minLifetimeSecs (UInt32.ofNat lifetime)
    have hlifetime := (h.ask_ok hm hmethod hrealm hnonce hask).2.2
      (by change (MessageType.new .refresh .request).method = .refresh; decide)
    change response.lifetime = some (if UInt32.ofNat lifetime = 0 then 0
      else max (UInt32.ofNat lifetime) minLifetimeSecs) at hlifetime
    rw [if_neg hzero] at hlifetime
    have hclient : (w.client.refreshed (response.lifetime.getD 0).toNat now).allocation.isSome := by
      rw [hlifetime, Option.getD_some, refreshed, if_neg (by omega), Option.isSome_map]
      exact halloc
    exact ⟨hclient, h.live_of_ask hm hmethod hrealm hnonce hlive ht hop (by rintro ⟨⟩)
      (by rintro secs (hs | hs) <;> cases hs; omega) hask⟩

theorem Agrees.createPermission_iff (peer : Endpoint) :
    w.Succeeds d me env txid now (.createPermission peer) ↔
      w.Accepted d me env txid (.createPermission peer) := by
  obtain ⟨halloc, hlive⟩ := hhas
  obtain ⟨realm, nonce, hrealm, hnonce⟩ := h.credentials halloc
  have hm := requestable_permission txid peer.2
  have hmethod := methods_permission txid peer.1
  have hiff : (∃ s' response, w.client.ask d (wire d me env now) w.server
      (permissionMessage txid peer.1) = (s', .ok response)) ↔
        w.Known d me env (permissionMessage txid peer.1) ∧
          isUnspecified peer.1.ip = false := by
    refine h.ask_iff_known hm hmethod hrealm hnonce hlive ht fun s b _ hb => ?_
    rw [ofMessage_permissionMessage]
    cases isUnspecified peer.1.ip <;> simp [TurnServer.grant, hb]
  rw [Accepted, and_comm, ← hiff, Succeeds, call, TurnClient.createPermission,
    requireAllocation_of_isSome halloc]
  generalize hask : w.client.ask d (wire d me env now) w.server
    (permissionMessage txid peer.1) = result
  obtain ⟨s', e | response⟩ := result
  · constructor
    · rintro ⟨hok, -⟩
      cases hok
    · rintro ⟨t, r, hr⟩
      cases hr
  · refine ⟨fun _ => ⟨s', response, rfl⟩, fun _ => ⟨rfl, fun _ => ⟨halloc, ?_⟩⟩⟩
    obtain ⟨-, ⟨op, hop, -⟩, -⟩ := h.ask_ok hm hmethod hrealm hnonce hask
    have hpermit : op = .permit peer.1.ip := by
      rw [ofMessage_permissionMessage] at hop
      split at hop
      · cases hop
      · exact (Option.some.inj hop).symm
    subst hpermit
    exact h.live_of_ask hm hmethod hrealm hnonce hlive ht hop (by rintro ⟨⟩)
      (by rintro secs (hs | hs) <;> cases hs) hask

theorem Agrees.channelBind_iff (peer : Endpoint) :
    w.Succeeds d me env txid now (.channelBind peer) ↔
      w.Accepted d me env txid (.channelBind peer) := by
  have hhas' := hhas
  obtain ⟨halloc, hlive⟩ := hhas
  obtain ⟨realm, nonce, hrealm, hnonce⟩ := h.credentials halloc
  rw [Accepted, Succeeds, call, TurnClient.channelBind, requireAllocation_of_isSome halloc]
  cases hpeer : w.client.channelPeers.lookup peer.1 with
  | some existing => exact ⟨fun _ => .inl rfl, fun _ => ⟨rfl, fun _ => hhas'⟩⟩
  | none =>
      have hspec := searchChannel_spec w.client.channels
        ((channelNumberMax - channelNumberMin).toNat + 1) h.client.next
      simp only [allocateChannel]
      generalize searchChannel w.client.channels
        ((channelNumberMax - channelNumberMin).toNat + 1) w.client.nextChannel = search at hspec
      obtain ⟨next, found⟩ := search
      obtain ⟨hnext, hfound⟩ := hspec
      have hadvanced := h.nextChannel me hnext
      cases found with
      | none =>
          constructor
          · rintro ⟨hok, -⟩
            cases hok
          · rintro (hsome | ⟨channel, hchannel, -⟩)
            · cases hsome
            · cases hchannel
      | some channel =>
          obtain ⟨hfree, hrange⟩ := hfound channel rfl
          have hm := requestable_bind txid channel peer.2
          have hmethod := methods_bind txid channel peer.1
          have hop := ofMessage_bindMessage txid hrange peer.1
          have hiff : (∃ s' response, ask d (wire d me env now)
              { w.client with nextChannel := next } w.server
                (bindMessage txid channel peer.1) = (s', .ok response)) ↔
                (⟨{ w.client with nextChannel := next }, w.server⟩ : Link).Known d me env
                  (bindMessage txid channel peer.1) ∧ True := by
            refine hadvanced.ask_iff_known hm hmethod hrealm hnonce hlive ht fun s b hagrees hb => ?_
            obtain ⟨hc, hp⟩ := hagrees.not_conflicts me hb hfree hpeer
            have hconflict : b.conflicts channel peer.1 = false := by
              simp [ServerAllocation.conflicts, hc, hp]
            rw [hop]
            simp [TurnServer.grant, hb, hconflict]
          rw [and_true] at hiff
          have hknown : (∃ c, some channel = some c ∧
              w.Known d me env (bindMessage txid c peer.1)) ↔
                (⟨{ w.client with nextChannel := next }, w.server⟩ : Link).Known d me env
                  (bindMessage txid channel peer.1) := by
            constructor
            · rintro ⟨c, hc, hknown⟩
              cases hc
              exact hknown
            · exact fun hknown => ⟨channel, rfl, hknown⟩
          simp only [Option.isSome_none, Bool.false_eq_true, false_or]
          rw [hknown, ← hiff]
          generalize hask : ask d (wire d me env now)
            { w.client with nextChannel := next } w.server
            (bindMessage txid channel peer.1) = result
          obtain ⟨s', e | response⟩ := result
          · constructor
            · rintro ⟨hok, -⟩
              cases hok
            · rintro ⟨t, r, hr⟩
              cases hr
          · refine ⟨fun _ => ⟨s', response, rfl⟩, fun _ => ⟨rfl, fun _ => ⟨halloc, ?_⟩⟩⟩
            exact hadvanced.live_of_ask hm hmethod hrealm hnonce hlive ht hop (by rintro ⟨⟩)
              (by rintro secs (hs | hs) <;> cases hs) hask

end Calls

/-- In every run, with other parties doing what they may at any time: a call of a client with a
live allocation succeeds exactly if the server still knows the client's nonce when the request
arrives, and what the call asks for is there. -/
theorem succeeds_iff {w : Link} (hw : w.Start me) (as : List Act) {env : Surroundings} {now : ℕ}
    (ht : ∀ raw, ∀ e ∈ env.before raw, e.time ≤ now)
    (hhas : (as.foldl (Link.step d me) w).HasAllocation me now) (txid : TransactionId) (q : Call) :
    (as.foldl (Link.step d me) w).Succeeds d me env txid now q ↔
      (as.foldl (Link.step d me) w).Accepted d me env txid q := by
  have hagrees := hw.run d me as
  cases q with
  | refresh lifetime => exact hagrees.refresh_iff hhas ht txid lifetime
  | createPermission peer => exact hagrees.createPermission_iff hhas ht txid peer
  | channelBind peer => exact hagrees.channelBind_iff hhas ht txid peer

def homeActs : List Act :=
  [.allocate (alone 1) (TurnServer.txid 1) (TurnServer.txid 2) 3600 0]

theorem succeeds_home :
    (homeActs.foldl (Link.step .front homeAddr) home).Succeeds .front homeAddr (alone 2) (TurnServer.txid 3)
        1 (.refresh 600) ↔
      (homeActs.foldl (Link.step .front homeAddr) home).Accepted .front homeAddr (alone 2)
        (TurnServer.txid 3) (.refresh 600) :=
  succeeds_iff .front homeAddr start_home homeActs (by nofun)
    ⟨by decide +kernel, _, Option.eq_some_of_isSome (by decide +kernel), by decide +kernel⟩
    (TurnServer.txid 3) (.refresh 600)

def strangerAddr : SocketAddr := { ip := .v4 ⟨[192, 168, 1, 99], rfl⟩, port := 40001 }

/-- A stranger's request, for which a nonce is drawn. -/
def passing (now : ℕ) : Surroundings where
  draw _ := { TurnServer.draw 2 with clock := now }
  before _ := [.handle { TurnServer.draw 2 with clock := now }
    (allocateMessage (TurnServer.txid 4) 600).encode strangerAddr now]

/-- The allocation lasts for an hour. After 700 seconds a stranger asks for a nonce, the client's is
dropped, and the refresh that follows fails. -/
theorem challenged_refresh_fails :
    let t := homeActs.foldl (Link.step .front homeAddr) home
    t.HasAllocation homeAddr 700 ∧
      ¬ t.Succeeds .front homeAddr (passing 700) (TurnServer.txid 3) 700 (.refresh 600) := by
  intro t
  refine ⟨⟨by decide +kernel, _, Option.eq_some_of_isSome (by decide +kernel), by decide +kernel⟩, ?_⟩
  rintro ⟨hok, -⟩
  have herror : (t.call .front homeAddr (passing 700) (TurnServer.txid 3) 700 (.refresh 600)).2.toOption =
      none := by
    decide +kernel
  rw [hok] at herror
  cases herror

end Vantablack.Turn.Link
