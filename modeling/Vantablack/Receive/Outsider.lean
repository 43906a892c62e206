import Vantablack.Handshake.Tables
import Vantablack.Receive.Open

/-!
What a datagram can do to the sessions of a node when no session has a key for it. The session, the
epoch and the counter that the receive path plans with stand in the header, which no tag covers. A
counter that is too far ahead makes a session ask for a ratchet step out of turn, and a legacy offer
removes the session with the peer it names before its signature is verified.

`onDatagram` is `RxContext::ingest` with `handle_pkt` up to the plaintext of a frame; what
follows is not reached by a frame that does not open.
-/

namespace Vantablack.Receive

open Lib Layers Session Send Handshake List

variable {C : Crypto}

/-! ### A refused attempt -/

/-- What a session does when the keys it has do not open a frame: nothing, unless it has none and
the counter is too far ahead. -/
def refuse (now epoch ctr : ℕ) (s : Session C) (direction : NonceDirection) : Session C :=
  if (s.planOpen epoch direction ctr).key?.isNone && s.ratchet.gapExceedsMaxSkip epoch direction ctr
  then (s.triggerForcedRatchetStep now).2
  else s

/-- No step is in progress, and none was asked for in the last 15 seconds. -/
def mayStep (now : ℕ) (s : Session C) : Bool :=
  !s.ratchetInProgress && s.ratchetStepAt.all fun prev => 15 ≤ now - prev

/-- Whether the attempt makes the session ask for a step. -/
def provokes (now epoch ctr : ℕ) (s : Session C) (direction : NonceDirection) : Bool :=
  (s.planOpen epoch direction ctr).key?.isNone &&
    s.ratchet.gapExceedsMaxSkip epoch direction ctr && mayStep now s

/-- The two directions, the peer's first. -/
def refuseBoth (now epoch ctr : ℕ) (s : Session C) (ours : NonceDirection) : Session C :=
  refuse now epoch ctr (refuse now epoch ctr s ours.peerDirection) ours

theorem triggerForcedRatchetStep_snd (s : Session C) (now : ℕ) :
    (s.triggerForcedRatchetStep now).2 =
      if mayStep now s then { s with ratchetStepAt := some now, forcedRatchetDue := true }
      else s := by
  unfold Session.triggerForcedRatchetStep mayStep
  by_cases hprogress : s.ratchetInProgress = true
  · simp [hprogress]
  · cases hat : s.ratchetStepAt with
    | none => simp [hprogress]
    | some prev =>
        by_cases hearly : now - prev < 15
        · simp [hprogress, hearly, not_le.mpr hearly]
        · simp [hprogress, hearly, not_lt.mp hearly]

variable {s : Session C}

theorem ratchetStepAt_of_mayStep {now : ℕ} (h : mayStep now s = true) :
    s.ratchetStepAt ≠ some now := by
  intro hat
  rw [mayStep, hat] at h
  simp at h

theorem refuse_eq (now epoch ctr : ℕ) (s : Session C) (direction : NonceDirection) :
    refuse now epoch ctr s direction =
      if provokes now epoch ctr s direction then
        { s with ratchetStepAt := some now, forcedRatchetDue := true }
      else s := by
  unfold refuse provokes
  rw [triggerForcedRatchetStep_snd]
  by_cases hgap : ((s.planOpen epoch direction ctr).key?.isNone &&
      s.ratchet.gapExceedsMaxSkip epoch direction ctr) = true
  · rw [if_pos hgap, hgap, Bool.true_and]
  · rw [if_neg hgap, Bool.eq_false_iff.mpr hgap, Bool.false_and]
    rfl

variable {epoch ctr : ℕ} {direction : NonceDirection}

theorem ratchetStepAt_of_provokes {now : ℕ} (h : provokes now epoch ctr s direction = true) :
    s.ratchetStepAt ≠ some now :=
  ratchetStepAt_of_mayStep (Bool.and_eq_true_iff.mp h).2

theorem refuseBoth_eq_self_iff {now : ℕ} {ours : NonceDirection} :
    refuseBoth now epoch ctr s ours = s ↔
      provokes now epoch ctr s ours.peerDirection = false ∧
        provokes now epoch ctr s ours = false := by
  unfold refuseBoth
  constructor
  · intro h
    by_cases hpeer : provokes now epoch ctr s ours.peerDirection = true
    · -- the time of the request stays, whatever the second direction does
      rw [refuse_eq now epoch ctr s, if_pos hpeer, refuse_eq] at h
      refine absurd ?_ (ratchetStepAt_of_provokes hpeer)
      rw [← h]
      split <;> rfl
    · have hpeer := Bool.eq_false_iff.mpr hpeer
      rw [refuse_eq now epoch ctr s, hpeer] at h
      refine ⟨hpeer, ?_⟩
      by_contra hours
      have hours := (Bool.not_eq_false _).mp hours
      simp only [Bool.false_eq_true, if_false] at h
      rw [refuse_eq, if_pos hours] at h
      refine ratchetStepAt_of_provokes hours ?_
      rw [← h]
  · rintro ⟨hpeer, hours⟩
    rw [refuse_eq now epoch ctr s, hpeer]
    simp only [Bool.false_eq_true, if_false]
    rw [refuse_eq, hours]
    rfl

/-- In some direction, the attempt makes the session ask for a step. -/
def Provoked (now epoch ctr : ℕ) (s : Session C) : Prop :=
  ∃ direction, provokes now epoch ctr s direction = true

theorem refuseBoth_eq_self_iff_not_provoked {now : ℕ} {ours : NonceDirection} :
    refuseBoth now epoch ctr s ours = s ↔ ¬ Provoked now epoch ctr s := by
  rw [refuseBoth_eq_self_iff, Provoked, not_exists]
  constructor
  · rintro ⟨hpeer, hours⟩ direction hprovokes
    cases ours <;> cases direction <;> simp_all [NonceDirection.peerDirection]
  · intro h
    exact ⟨eq_false_of_ne_true (h _), eq_false_of_ne_true (h _)⟩

theorem peerFingerprint_refuseBoth (now epoch ctr : ℕ) (s : Session C) (ours : NonceDirection) :
    (refuseBoth now epoch ctr s ours).peerFingerprint = s.peerFingerprint := by
  unfold refuseBoth
  rw [refuse_eq, refuse_eq]
  split <;> split <;> rfl

variable {opens : NonceDirection → C.Key → Option Bytes}

theorem tryShard_of_none {now : ℕ}
    (h : ∀ key, (s.planOpen epoch direction ctr).key? = some key → opens direction key = none) :
    tryShard now epoch ctr opens s direction = (none, refuse now epoch ctr s direction) := by
  unfold tryShard refuse
  split
  · rename_i hkey
    rw [hkey]
    by_cases hgap : s.ratchet.gapExceedsMaxSkip epoch direction ctr = true <;> simp [hgap]
  · rename_i key hkey
    rw [hkey, h key hkey]
    simp

theorem tryFrame_refused {A : Aead C} {now : ℕ} {v2 : V2FrameMeta} {data : Bytes}
    (h : ∀ key, (s.planOpen v2.epoch direction ctr).key? = some key →
      opensFrame A v2 data direction key = none) :
    tryFrame A now ctr v2 data s direction = (none, refuse now v2.epoch ctr s direction) := by
  unfold tryFrame refuse
  simp only []
  split
  · rename_i hkey
    rw [hkey]
    by_cases hgap : s.ratchet.gapExceedsMaxSkip v2.epoch direction ctr = true <;> simp [hgap]
  · rename_i key hkey
    have hnone := h key hkey
    rw [opensFrame] at hnone
    rw [hkey]
    simp only [hnone]
    simp

/-- No key that the session has for the counter opens. -/
def OpensNone (epoch ctr : ℕ) (opens : NonceDirection → C.Key → Option Bytes) (s : Session C) :
    Prop :=
  ∀ direction key, (s.planOpen epoch direction ctr).key? = some key → opens direction key = none

theorem OpensNone.refuse (h : OpensNone epoch ctr opens s) (now : ℕ) (direction : NonceDirection) :
    OpensNone epoch ctr opens (refuse now epoch ctr s direction) := by
  rw [refuse_eq]
  split
  · exact h
  · exact h

theorem trySession_refused {now : ℕ} (h : OpensNone epoch ctr opens s) (ours : NonceDirection) :
    trySession now epoch ctr opens s ours = (none, refuseBoth now epoch ctr s ours) := by
  rw [trySession, tryShard_of_none (h ours.peerDirection)]
  exact tryShard_of_none (h.refuse now ours.peerDirection ours)

theorem openFrame_refused {A : Aead C} {now : ℕ} {v2 : V2FrameMeta} {data : Bytes}
    (h : OpensNone v2.epoch ctr (opensFrame A v2 data) s) (ours : NonceDirection) :
    openFrame A now ctr v2 data s ours = (none, refuseBoth now v2.epoch ctr s ours) := by
  rw [openFrame, tryFrame_refused (h ours.peerDirection)]
  exact tryFrame_refused (h.refuse now ours.peerDirection ours)

/-! ### The loop, when no session opens -/

section Loop

variable {select : Session C → Bool}
  {attempt : Session C → NonceDirection → Option Bytes × Session C}
  {after : Session C → NonceDirection → Session C}

variable (t : SessionTable C)

theorem lookup_update_self (s : Session C) : (t.update s).table.lookup s.peerFingerprint = some s :=
  AList.lookup_insert _

theorem lookup_update_ne {s : Session C} {fp : String} (h : fp ≠ s.peerFingerprint) :
    (t.update s).table.lookup fp = t.table.lookup fp :=
  AList.lookup_insert_ne h

theorem lookup_firstOpened {t : SessionTable C} {candidates : List (Session C)}
    (hheld : ∀ c ∈ candidates, t.table.lookup c.peerFingerprint = some c)
    (hnodup : (candidates.map Session.peerFingerprint).Nodup)
    (hattempt : ∀ c ∈ candidates, select c = true →
      attempt c c.role.sealDirection = (none, after c c.role.sealDirection))
    (hpeer : ∀ s ours, (after s ours).peerFingerprint = s.peerFingerprint) :
    (∀ c ∈ candidates, (firstOpened select attempt t candidates).2.table.lookup c.peerFingerprint =
      some (if select c then after c c.role.sealDirection else c)) ∧
    ∀ fp, fp ∉ candidates.map Session.peerFingerprint →
      (firstOpened select attempt t candidates).2.table.lookup fp = t.table.lookup fp := by
  induction candidates generalizing t with
  | nil => exact ⟨fun c hc => absurd hc not_mem_nil, fun _ _ => rfl⟩
  | cons candidate rest ih =>
      rw [map_cons, nodup_cons] at hnodup
      have hrest := fun c (hc : c ∈ rest) => hattempt c (mem_cons_of_mem _ hc)
      have hne : ∀ c ∈ rest, c.peerFingerprint ≠ candidate.peerFingerprint := fun c hc heq =>
        hnodup.1 (heq ▸ mem_map_of_mem hc)
      rw [firstOpened]
      by_cases hselect : select candidate = true
      · rw [if_pos hselect, hheld candidate mem_cons_self]
        simp only [hattempt candidate mem_cons_self hselect]
        set s := after candidate candidate.role.sealDirection
        have hs : s.peerFingerprint = candidate.peerFingerprint := hpeer candidate _
        have hheld' : ∀ c ∈ rest, (t.update s).table.lookup c.peerFingerprint = some c := by
          intro c hc
          rw [lookup_update_ne t (hs ▸ hne c hc)]
          exact hheld c (mem_cons_of_mem _ hc)
        obtain ⟨hin, hout⟩ := ih hheld' hnodup.2 hrest
        constructor
        · intro c hc
          rcases mem_cons.mp hc with rfl | hc
          · rw [if_pos hselect, hout _ hnodup.1, ← hs, lookup_update_self]
          · exact hin c hc
        · intro fp hfp
          rw [map_cons, mem_cons, not_or] at hfp
          rw [hout fp hfp.2, lookup_update_ne t (hs ▸ hfp.1)]
      · rw [if_neg hselect]
        have hheld' : ∀ c ∈ rest, t.table.lookup c.peerFingerprint = some c := fun c hc =>
          hheld c (mem_cons_of_mem _ hc)
        obtain ⟨hin, hout⟩ := ih hheld' hnodup.2 hrest
        constructor
        · intro c hc
          rcases mem_cons.mp hc with rfl | hc
          · rw [if_neg hselect, hout _ hnodup.1]
            exact hheld _ mem_cons_self
          · exact hin c hc
        · intro fp hfp
          rw [map_cons, mem_cons, not_or] at hfp
          exact hout fp hfp.2

theorem nodup_snapshot : (t.snapshot.map Session.peerFingerprint).Nodup := by
  have hkeys : t.snapshot.map Session.peerFingerprint = t.table.entries.keys := by
    rw [SessionTable.snapshot, map_map, keys]
    refine map_congr_left fun e he => ?_
    exact t.keyed e.1 e.2 (AList.mem_lookup_iff.mpr he)
  rw [hkeys]
  exact t.table.nodupKeys

theorem firstOpened_unchanged_iff {t : SessionTable C}
    (after : Session C → NonceDirection → Session C)
    (hattempt : ∀ c ∈ t.snapshot, select c = true → ∀ ours, attempt c ours = (none, after c ours))
    (hpeer : ∀ s ours, (after s ours).peerFingerprint = s.peerFingerprint) :
    (∀ fp, (firstOpened select attempt t t.snapshot).2.table.lookup fp = t.table.lookup fp) ↔
      ∀ c ∈ t.snapshot, select c = true → after c c.role.sealDirection = c := by
  have hheld : ∀ c ∈ t.snapshot, t.table.lookup c.peerFingerprint = some c := fun c hc =>
    SessionTable.lookup_of_mem_snapshot hc
  obtain ⟨hin, hout⟩ := lookup_firstOpened hheld (nodup_snapshot t)
    (fun c hc hselect => hattempt c hc hselect _) hpeer
  constructor
  · intro hsame c hc hselect
    have hlookup := hin c hc
    rw [hsame, hheld c hc, if_pos hselect] at hlookup
    exact (Option.some.inj hlookup).symm
  · intro hsame fp
    by_cases hfp : fp ∈ t.snapshot.map Session.peerFingerprint
    · obtain ⟨c, hc, rfl⟩ := mem_map.mp hfp
      rw [hin c hc, hheld c hc]
      split
      · rename_i hselect
        rw [hsame c hc hselect]
      · rfl
    · exact hout fp hfp

theorem firstOpened_refused_iff {t : SessionTable C} {now epoch ctr : ℕ}
    (hattempt : ∀ c ∈ t.snapshot, select c = true →
      ∀ ours, attempt c ours = (none, refuseBoth now epoch ctr c ours)) :
    (∀ fp, (firstOpened select attempt t t.snapshot).2.table.lookup fp = t.table.lookup fp) ↔
      ∀ c ∈ t.snapshot, select c = true → ¬ Provoked now epoch ctr c := by
  rw [firstOpened_unchanged_iff (refuseBoth now epoch ctr) hattempt
    (peerFingerprint_refuseBoth now epoch ctr)]
  simp only [refuseBoth_eq_self_iff_not_provoked]

end Loop

/-! ### Handshakes that are refused -/

section Handshakes

variable {P : Primitives C} {cfg : NodeConfig} {st : NodeState P} {d : Datagram C}

/-- A legacy offer in the name of a peer there is a session with, which the branch removes before it
looks at the signature. -/
def Evicts (cfg : NodeConfig) (st : NodeState P) : Message → Prop
  | .offer hs =>
      st.sessions.size < maxSessions ∧ fingerprint hs.identityPk ≠ cfg.fingerprint ∧
        fingerprint hs.identityPk ∈ st.sessions
  | _ => False

theorem sessions_takePending {src : SocketAddr}
    {finish : NodeState P → PendingHandshake P → Handled P}
    (hfinish : ∀ st pending, (finish st pending).registered = none →
      (finish st pending).state = st)
    (h : (takePending st src finish).registered = none) :
    (takePending st src finish).state.sessions = st.sessions := by
  unfold takePending at h ⊢
  split
  · rfl
  · rename_i pending hsome
    rw [hsome] at h
    rw [hfinish _ _ h]

theorem sessions_response {src : SocketAddr} {verified : Bool}
    {finish : NodeState P → PendingHandshake P → Handled P}
    (hfinish : ∀ st pending, (finish st pending).registered = none →
      (finish st pending).state = st)
    (h : (if !verified then reject st else takePending st src finish).registered = none) :
    (if !verified then reject st else takePending st src finish).state.sessions = st.sessions := by
  split
  · rfl
  · rename_i hgood
    rw [if_neg hgood] at h
    exact sessions_takePending hfinish h

theorem sessions_handleResponse {resp : ResponseBlob} {material : Bytes}
    (h : (handleResponse cfg st d.src d.fresh resp material).registered = none) :
    (handleResponse cfg st d.src d.fresh resp material).state.sessions = st.sessions := by
  unfold handleResponse at h ⊢
  split
  · rfl
  rename_i hgood
  dsimp only at h ⊢
  split
  · rfl
  rename_i hbyz
  split
  · rfl
  rename_i hrevoked
  rw [if_neg hgood, if_neg hbyz, if_neg hrevoked] at h
  exact sessions_takePending state_finishResponse h

theorem lookup_handleOffer_iff {hs : HandshakeBlob} {material : Bytes}
    (h : (handleOffer cfg st d.src d.fresh hs material).registered = none) :
    (∀ fp, (handleOffer cfg st d.src d.fresh hs material).state.sessions.lookup fp =
      st.sessions.lookup fp) ↔ ¬ Evicts cfg st (.offer hs) := by
  unfold handleOffer at h ⊢
  split
  · rename_i hfull
    exact iff_of_true (fun _ => rfl) fun he => absurd he.1 (not_lt.mpr hfull)
  rename_i hroom
  dsimp only at h ⊢
  split
  · rename_i hself
    exact iff_of_true (fun _ => rfl) fun he => he.2.1 hself
  rename_i hself
  rw [if_neg hroom, if_neg hself] at h
  rw [(sameTables_finishOffer h).1]
  constructor
  · intro hsame he
    have hlookup := hsame (fingerprint hs.identityPk)
    rw [AList.lookup_erase] at hlookup
    exact AList.lookup_eq_none.mp hlookup.symm he.2.2
  · intro hnot fp
    have hmem : fingerprint hs.identityPk ∉ st.sessions := fun hmem =>
      hnot ⟨not_le.mp hroom, hself, hmem⟩
    rw [Table.erase_of_notMem hmem]

theorem lookup_handleMessage_iff {material : Bytes} {m : Handshake.Message}
    (h : (handleMessage cfg st d material m).registered = none) :
    (∀ fp, (handleMessage cfg st d material m).state.sessions.lookup fp =
      st.sessions.lookup fp) ↔ ¬ Evicts cfg st m := by
  have hsame : (handleMessage cfg st d material m).state.sessions = st.sessions →
      ∀ fp, (handleMessage cfg st d material m).state.sessions.lookup fp =
        st.sessions.lookup fp := by
    intro heq fp
    rw [heq]
  cases m with
  | negotiatedOffer hs =>
      exact iff_of_true (hsame (congrArg NodeState.sessions (state_negotiatedOffer h))) id
  | suiteOffer hs => exact iff_of_true (hsame (congrArg NodeState.sessions (state_suiteOffer h))) id
  | uniformOffer hs => exact iff_of_true (hsame (congrArg NodeState.sessions (state_uniformOffer h))) id
  | offer hs => exact lookup_handleOffer_iff h
  | negotiatedResponse resp =>
      exact iff_of_true (hsame (sessions_response state_finishNegotiatedResponse h)) id
  | suiteResponse resp =>
      exact iff_of_true (hsame (sessions_response state_finishSuiteResponse h)) id
  | uniformResponse resp =>
      exact iff_of_true (hsame (sessions_response state_finishResponse h)) id
  | response resp => exact iff_of_true (hsame (sessions_handleResponse h)) id

end Handshakes

/-! ### The node -/

/-- The ciphers of the receive path, with that of the old wire. -/
structure Ciphers (C : Crypto) where
  frames : Aead C
  /-- The key, the counter, the session hash, the direction and the data. -/
  decryptInPlaceWithContext : C.Key → ℕ → Bytes → NonceDirection → Bytes → Option Bytes

structure MeshNode (P : Primitives C) where
  connected : Bool
  state : NodeState P
  keyed : ∀ fp s, state.sessions.lookup fp = some s → s.peerFingerprint = fp
  spool : SpoolPool

namespace MeshNode

variable {P : Primitives C}

def sessions (n : MeshNode P) : SessionTable C where
  table := n.state.sessions
  keyed := n.keyed

def rx (n : MeshNode P) : RxContext C :=
  { connected := n.connected, sessions := n.sessions, spool := n.spool }

/-- The node with the sessions and the spool that `ingest` leaves. -/
def withRx (n : MeshNode P) (rx : RxContext C) : MeshNode P where
  connected := n.connected
  state := { n.state with sessions := rx.sessions.table }
  keyed := rx.sessions.keyed
  spool := rx.spool

end MeshNode

/-- `open_received_frame` on a frame of version 1, whose counter has 32 bits. -/
def openV1 (X : Ciphers C) (ctr : ℕ) (data : Bytes) (s : Session C) : Option Bytes :=
  if ctr < 2 ^ 32 then
    (X.decryptInPlaceWithContext s.masterKey ctr s.sessionHash .initiatorToResponder data).or
      (X.decryptInPlaceWithContext s.masterKey ctr s.sessionHash .responderToInitiator data)
  else none

/-- The loop of `handle_pkt` over the sessions, for either wire. -/
def openData (X : Ciphers C) (t : SessionTable C) (now : ℕ) (d : Delivery) :
    Option Bytes × SessionTable C :=
  match d.v2 with
  | some v2 => openDelivery X.frames t now d v2
  | none => firstOpened (fun _ => true) (fun s _ => (openV1 X d.ctr d.payload s, s)) t t.snapshot

section Step

variable {P : Primitives C} (rs : ReedSolomon) (X : Ciphers C) (cfg : NodeConfig)

/-- `handle_pkt`. -/
def handleDelivery (n : MeshNode P) (d : Delivery) (r : Fresh C) (start : Octets 16) : Handled P :=
  if branchOf cfg.uniform d.ctr d.payload = .application then
    reject { n.state with sessions := (openData X n.sessions r.now d).2.table }
  else
    handlePkt cfg n.state
      { ctr := d.ctr, data := d.payload, src := d.src, fresh := r, start := start }

/-- A datagram, from `ingest` to the tables. -/
def onDatagram (n : MeshNode P) (datagram : Bytes) (src : SocketAddr) (r : Fresh C)
    (start : Octets 16) : Handled P :=
  match ingest rs X.frames.shardAead n.rx r.now datagram src with
  | (rx, none) => reject (n.withRx rx).state
  | (rx, some d) => handleDelivery X cfg (n.withRx rx) d r start

end Step

/-! ### What a datagram holds -/

def shardIn (connected : Bool) (datagram : Bytes) : Option (V2FrameMeta × SealedShard) :=
  if !connected || datagram.length < minFrameSize || parseFlags datagram &&& flagTunnel ≠ 0 ||
      2 < (datagram[8]?.getD 0).toNat then none
  else
    (unframe (extractPayload datagram)).bind fun sd =>
      ((V2FrameMeta.of datagram).filter V2FrameMeta.shardsec).bind fun v2 =>
        (sealedShardOf (datagram[8]?.getD 0) sd).map fun sealedShard => (v2, sealedShard)

/-- Where a datagram without such a shard goes. -/
def plainRoute (connected : Bool) (datagram : Bytes) : Routed :=
  if !connected || datagram.length < minFrameSize then .dropped
  else
    match unframe (extractPayload datagram) with
    | none => .dropped
    | some sd =>
        if parseFlags datagram &&& flagTunnel ≠ 0 then .whole sd
        else if 2 < (datagram[8]?.getD 0).toNat ||
            (V2FrameMeta.of datagram).any V2FrameMeta.shardsec then .dropped
        else .shard (datagram[8]?.getD 0).toNat sd

/-- The payload it comes to: its own if it is self-contained, else what the spool puts together
with it. -/
def completes (rs : ReedSolomon) (connected : Bool) (spool : SpoolPool) (datagram : Bytes)
    (src : SocketAddr) : Option Bytes :=
  match plainRoute connected datagram with
  | .dropped => none
  | .whole sd => some sd
  | .shard idx sd =>
      (assemble rs spool (SpoolKey.of src datagram (V2FrameMeta.of datagram)) idx sd).1

section Ingest

variable {rs : ReedSolomon} {A : ShardAead C} {ctx : RxContext C} {now : ℕ} {datagram : Bytes}
  {src : SocketAddr}

/-- What `openWith` tries the key of a session on. -/
def opensShard (A : ShardAead C) (v2 : V2FrameMeta) (sealedShard : SealedShard)
    (direction : NonceDirection) (key : C.Key) : Option Bytes :=
  openShard A key v2.epoch v2.nonce direction sealedShard

theorem ingest_of_shard {v2 : V2FrameMeta} {sealedShard : SealedShard}
    (hshard : shardIn ctx.connected datagram = some (v2, sealedShard))
    (hnone : ∀ s ∈ ctx.sessions.snapshot,
      OpensNone v2.epoch (parsePacketCounterU64 datagram) (opensShard A v2 sealedShard) s) :
    ingest rs A ctx now datagram src =
      ({ ctx with sessions := (openWith A ctx.sessions now datagram v2 sealedShard).2 }, none) := by
  have hopened : (openWith A ctx.sessions now datagram v2 sealedShard).1 = none := by
    refine Option.eq_none_iff_forall_ne_some.mpr fun plain hplain => ?_
    obtain ⟨fp, s, hs, -, direction, key, hkey, hopens⟩ := openWith_eq_some hplain
    have hopensNone := hnone s (SessionTable.mem_snapshot_of_lookup hs) direction key hkey
    rw [opensShard, hopens] at hopensNone
    cases hopensNone
  unfold shardIn at hshard
  split at hshard
  · cases hshard
  rename_i hguard
  obtain ⟨sd, hsd, hshard⟩ := Option.bind_eq_some_iff.mp hshard
  obtain ⟨v2', hv2, hshard⟩ := Option.bind_eq_some_iff.mp hshard
  obtain ⟨sealed', hsealed, heq⟩ := Option.map_eq_some_iff.mp hshard
  cases heq
  simp only [Bool.or_eq_true, decide_eq_true_eq, not_or, ne_eq] at hguard
  obtain ⟨⟨⟨hconnected, hlength⟩, htunnel⟩, hindex⟩ := hguard
  have hroute : route A ctx now datagram =
      (.dropped, (openWith A ctx.sessions now datagram v2 sealedShard).2) := by
    generalize hresult : openWith A ctx.sessions now datagram v2 sealedShard = result at hopened
    obtain ⟨opened, sessions⟩ := result
    cases hopened
    simp only [route, hconnected, hlength, hsd, htunnel, hindex, hv2, hsealed, hresult]
    simp
  rw [ingest, hroute]

/-- What is handed on comes with what the header says. -/
structure HandedOn (datagram : Bytes) (d : Delivery) : Prop where
  ctr : d.ctr = parsePacketCounterU64 datagram
  v2 : d.v2 = V2FrameMeta.of datagram
  wire : ∀ v2, d.v2 = some v2 → v2.shardsec = true → d.wireSessionHash = none

theorem route_of_no_shard (hshard : shardIn ctx.connected datagram = none) :
    route A ctx now datagram = (plainRoute ctx.connected datagram, ctx.sessions) := by
  unfold route plainRoute
  split
  · rfl
  rename_i hguard
  rcases hsd : unframe (extractPayload datagram) with _ | sd
  · rfl
  dsimp only
  split
  · rfl
  rename_i htunnel
  by_cases hindex : 2 < (datagram[8]?.getD 0).toNat
  · simp [hindex]
  rw [if_neg hindex]
  cases hv2 : (V2FrameMeta.of datagram).filter V2FrameMeta.shardsec with
  | none =>
      have hany : (V2FrameMeta.of datagram).any V2FrameMeta.shardsec = false := by
        cases hof : V2FrameMeta.of datagram with
        | none => rfl
        | some v2 =>
            rw [hof] at hv2
            simpa [Option.filter] using hv2
      simp [hindex, hany]
  | some v2 =>
      have hany : (V2FrameMeta.of datagram).any V2FrameMeta.shardsec = true := by
        obtain ⟨hof, hsec⟩ := Option.filter_eq_some_iff.mp hv2
        rw [hof]
        exact hsec
      cases hsealed : sealedShardOf (datagram[8]?.getD 0) sd with
      | none => simp [hany]
      | some sealedShard =>
          -- here the shard is there after all
          simp only [Bool.or_eq_true, decide_eq_true_eq, not_or] at hguard
          simp [shardIn, hguard, htunnel, hindex, hsd, hv2, hsealed] at hshard

theorem shardsec_of_plainRoute {connected : Bool} {idx : ℕ} {sd : Bytes} {v2 : V2FrameMeta}
    (h : plainRoute connected datagram = .shard idx sd) (hv2 : V2FrameMeta.of datagram = some v2) :
    v2.shardsec = false := by
  unfold plainRoute at h
  split at h
  · cases h
  split at h
  · cases h
  split at h
  · cases h
  split at h
  · cases h
  rename_i hsec
  rw [hv2, Option.any_some, Bool.or_eq_true, not_or] at hsec
  exact eq_false_of_ne_true hsec.2

theorem ingest_of_no_shard (hshard : shardIn ctx.connected datagram = none) :
    (ingest rs A ctx now datagram src).1.sessions = ctx.sessions ∧
      (ingest rs A ctx now datagram src).2.map Delivery.payload =
        completes rs ctx.connected ctx.spool datagram src ∧
      ∀ d ∈ (ingest rs A ctx now datagram src).2, HandedOn datagram d := by
  unfold ingest completes
  rw [route_of_no_shard hshard]
  cases hplain : plainRoute ctx.connected datagram with
  | dropped => exact ⟨rfl, rfl, fun d hd => by cases hd⟩
  | whole sd =>
      refine ⟨rfl, rfl, fun d hd => ?_⟩
      cases hd
      exact ⟨rfl, rfl, fun _ _ _ => rfl⟩
  | shard idx sd =>
      refine ⟨rfl, ?_, fun d hd => ?_⟩
      · simp only [Option.map_map, Function.comp_def, Option.map_id']
      · obtain ⟨payload, -, rfl⟩ := Option.map_eq_some_iff.mp hd
        refine ⟨rfl, rfl, fun v2 hv2 hsec => ?_⟩
        rw [shardsec_of_plainRoute hplain hv2] at hsec
        cases hsec

theorem completes_of_shard {connected : Bool} {spool : SpoolPool} {shard : V2FrameMeta × SealedShard}
    (hshard : shardIn connected datagram = some shard) :
    completes rs connected spool datagram src = none := by
  unfold shardIn at hshard
  split at hshard
  · cases hshard
  rename_i hguard
  obtain ⟨sd, hsd, hshard⟩ := Option.bind_eq_some_iff.mp hshard
  obtain ⟨v2, hv2, -⟩ := Option.bind_eq_some_iff.mp hshard
  obtain ⟨hof, hsec⟩ := Option.filter_eq_some_iff.mp hv2
  simp only [Bool.or_eq_true, decide_eq_true_eq, not_or, ne_eq, not_not] at hguard
  have hplain : plainRoute connected datagram = .dropped := by
    simp [plainRoute, hsd, hof, hsec, hguard]
  rw [completes, hplain]

end Ingest

/-! ### A datagram that opens under no key -/

section Outsider

variable {P : Primitives C}

/-- No session has a key that opens the datagram. -/
structure OpensUnderNoKey (rs : ReedSolomon) (X : Ciphers C) (n : MeshNode P) (datagram : Bytes)
    (src : SocketAddr) : Prop where
  shard : ∀ v2 sealedShard, shardIn n.connected datagram = some (v2, sealedShard) →
    ∀ s ∈ n.sessions.snapshot, OpensNone v2.epoch (parsePacketCounterU64 datagram)
      (opensShard X.frames.shardAead v2 sealedShard) s
  frame : ∀ payload v2, completes rs n.connected n.spool datagram src = some payload →
    V2FrameMeta.of datagram = some v2 → ∀ s ∈ n.sessions.snapshot,
      OpensNone v2.epoch (parsePacketCounterU64 datagram) (opensFrame X.frames v2 payload) s
  frameV1 : ∀ payload, completes rs n.connected n.spool datagram src = some payload →
    V2FrameMeta.of datagram = none → ∀ s ∈ n.sessions.snapshot,
      openV1 X (parsePacketCounterU64 datagram) payload s = none

/-- No session that is tried with the datagram is provoked, and it is no offer that evicts one. -/
structure Quiet (rs : ReedSolomon) (cfg : NodeConfig) (n : MeshNode P) (datagram : Bytes)
    (src : SocketAddr) (now : ℕ) : Prop where
  shard : ∀ v2 sealedShard, shardIn n.connected datagram = some (v2, sealedShard) →
    ∀ s ∈ n.sessions.snapshot, s.sessionHash = (parseSessionHash datagram).toList →
      ¬ Provoked now v2.epoch (parsePacketCounterU64 datagram) s
  frame : ∀ payload v2, completes rs n.connected n.spool datagram src = some payload →
    branchOf cfg.uniform (parsePacketCounterU64 datagram) payload = .application →
      V2FrameMeta.of datagram = some v2 → v2.shardsec = false → ∀ s ∈ n.sessions.snapshot,
        ¬ Provoked now v2.epoch (parsePacketCounterU64 datagram) s
  offer : ∀ payload m material, completes rs n.connected n.spool datagram src = some payload →
    Handshake.receive cfg.uniform (parsePacketCounterU64 datagram) payload = some (m, material) →
      ¬ Evicts cfg n.state m

variable {rs : ReedSolomon} {X : Ciphers C} {cfg : NodeConfig} {n : MeshNode P} {datagram : Bytes}
  {src : SocketAddr} {r : Fresh C} {start : Octets 16}

theorem lookup_shard_iff {v2 : V2FrameMeta} {sealedShard : SealedShard}
    (hshard : shardIn n.connected datagram = some (v2, sealedShard))
    (hkeys : OpensUnderNoKey rs X n datagram src) :
    (∀ fp, (onDatagram rs X cfg n datagram src r start).state.sessions.lookup fp =
      n.state.sessions.lookup fp) ↔ Quiet rs cfg n datagram src r.now := by
  have hnone := hkeys.shard v2 sealedShard hshard
  have hafter : (onDatagram rs X cfg n datagram src r start).state.sessions =
      (openWith X.frames.shardAead n.sessions r.now datagram v2 sealedShard).2.table := by
    have hingest : ingest rs X.frames.shardAead n.rx r.now datagram src =
        ({ n.rx with
           sessions := (openWith X.frames.shardAead n.sessions r.now datagram v2 sealedShard).2 },
         none) := ingest_of_shard hshard hnone
    rw [onDatagram, hingest]
    rfl
  rw [hafter, openWith, tryCandidates_eq_firstOpened]
  refine (firstOpened_refused_iff fun c hc _ => trySession_refused (hnone c hc)).trans ?_
  have hplain : completes rs n.connected n.spool datagram src = none := completes_of_shard hshard
  constructor
  · intro hquiet
    refine ⟨?_, ?_, ?_⟩
    · intro v2' sealed' hshard' s hs hhash
      rw [hshard] at hshard'
      cases hshard'
      exact hquiet s hs (decide_eq_true hhash)
    · intro payload _ hpayload
      rw [hplain] at hpayload
      cases hpayload
    · intro payload _ _ hpayload
      rw [hplain] at hpayload
      cases hpayload
  · intro hquiet s hs hhash
    exact hquiet.shard v2 sealedShard hshard s hs (of_decide_eq_true hhash)

theorem lookup_openData_iff {t : SessionTable C} {now : ℕ} {d : Delivery}
    (hon : HandedOn datagram d)
    (hframe : ∀ v2, V2FrameMeta.of datagram = some v2 → ∀ s ∈ t.snapshot,
      OpensNone v2.epoch (parsePacketCounterU64 datagram) (opensFrame X.frames v2 d.payload) s)
    (hframeV1 : V2FrameMeta.of datagram = none → ∀ s ∈ t.snapshot,
      openV1 X (parsePacketCounterU64 datagram) d.payload s = none) :
    (∀ fp, (openData X t now d).2.table.lookup fp = t.table.lookup fp) ↔
      ∀ v2, V2FrameMeta.of datagram = some v2 → v2.shardsec = false → ∀ s ∈ t.snapshot,
        ¬ Provoked now v2.epoch (parsePacketCounterU64 datagram) s := by
  unfold openData
  rw [← hon.v2, ← hon.ctr] at hframe hframeV1 ⊢
  cases hv2 : d.v2 with
  | none =>
      refine iff_of_true ?_ (fun v2 hv2 => by cases hv2)
      refine (firstOpened_unchanged_iff (fun s _ => s) ?_ fun _ _ => rfl).mpr fun _ _ _ => rfl
      intro s hs _ ours
      rw [hframeV1 hv2 s hs]
  | some v2 =>
      dsimp only
      unfold openDelivery
      by_cases hsec : v2.shardsec = true
      · -- a self-contained ShardSec frame names no session
        rw [if_pos hsec, hon.wire v2 hv2 hsec]
        refine iff_of_true ?_ ?_
        · refine (firstOpened_unchanged_iff (fun s _ => s) ?_ fun _ _ => rfl).mpr fun _ _ _ => rfl
          intro s _ hselect
          simp at hselect
        · intro v2' hv2' hplain
          cases hv2'
          rw [hsec] at hplain
          cases hplain
      · rw [if_neg hsec]
        refine (firstOpened_refused_iff fun c hc _ => openFrame_refused (hframe v2 hv2 c hc)).trans ?_
        constructor
        · intro hquiet v2' hv2' _ s hs
          cases hv2'
          exact hquiet s hs rfl
        · intro hquiet s hs _
          exact hquiet v2 rfl (eq_false_of_ne_true hsec) s hs

theorem lookup_handlePkt_iff {st : NodeState P} {d : Datagram C}
    (h : (handlePkt cfg st d).registered = none) :
    (∀ fp, (handlePkt cfg st d).state.sessions.lookup fp = st.sessions.lookup fp) ↔
      ∀ m material, Handshake.receive cfg.uniform d.ctr d.data = some (m, material) →
        ¬ Evicts cfg st m := by
  unfold handlePkt at h ⊢
  cases hm : Handshake.receive cfg.uniform d.ctr d.data with
  | none => exact iff_of_true (fun _ => rfl) fun m material hnone => by cases hnone
  | some x =>
      obtain ⟨m, material⟩ := x
      rw [hm] at h
      refine (lookup_handleMessage_iff h).trans ?_
      constructor
      · intro hkeep m' material' heq
        cases heq
        exact hkeep
      · intro hkeep
        exact hkeep m material rfl

theorem withRx_of_sessions {rx : RxContext C} (h : rx.sessions = n.sessions) :
    (n.withRx rx).state = n.state ∧ (n.withRx rx).sessions = n.sessions := by
  unfold MeshNode.withRx MeshNode.sessions
  simp only [h]
  exact ⟨rfl, rfl⟩

theorem lookup_plain_iff (hshard : shardIn n.connected datagram = none)
    (hkeys : OpensUnderNoKey rs X n datagram src)
    (hrefused : (onDatagram rs X cfg n datagram src r start).registered = none) :
    (∀ fp, (onDatagram rs X cfg n datagram src r start).state.sessions.lookup fp =
      n.state.sessions.lookup fp) ↔ Quiet rs cfg n datagram src r.now := by
  have hingest : (ingest rs X.frames.shardAead n.rx r.now datagram src).1.sessions = n.sessions ∧
      (ingest rs X.frames.shardAead n.rx r.now datagram src).2.map Delivery.payload =
        completes rs n.connected n.spool datagram src ∧
      ∀ d ∈ (ingest rs X.frames.shardAead n.rx r.now datagram src).2, HandedOn datagram d :=
    ingest_of_no_shard hshard
  unfold onDatagram at hrefused ⊢
  generalize ingest rs X.frames.shardAead n.rx r.now datagram src = result at hingest hrefused ⊢
  obtain ⟨rx, delivery⟩ := result
  obtain ⟨hsessions, hpayload, hon⟩ := hingest
  obtain ⟨hstate, htable⟩ := withRx_of_sessions hsessions
  have hshards : ∀ v2 sealedShard, shardIn n.connected datagram = some (v2, sealedShard) →
      ∀ s ∈ n.sessions.snapshot, s.sessionHash = (parseSessionHash datagram).toList →
        ¬ Provoked r.now v2.epoch (parsePacketCounterU64 datagram) s := by
    intro v2 sealedShard hsome
    rw [hshard] at hsome
    cases hsome
  cases delivery with
  | none =>
      have hnone : completes rs n.connected n.spool datagram src = none := hpayload.symm
      refine iff_of_true (fun fp => congrArg (AList.lookup fp) (congrArg NodeState.sessions hstate))
        ⟨hshards, ?_, ?_⟩
      · intro payload _ hsome
        rw [hnone] at hsome
        cases hsome
      · intro payload _ _ hsome
        rw [hnone] at hsome
        cases hsome
  | some d =>
      have hd := hon d rfl
      have hcompletes : completes rs n.connected n.spool datagram src = some d.payload :=
        hpayload.symm
      have honly : ∀ payload, completes rs n.connected n.spool datagram src = some payload →
          payload = d.payload := by
        intro payload hsome
        rw [hcompletes] at hsome
        exact (Option.some.inj hsome).symm
      dsimp only at hrefused ⊢
      unfold handleDelivery at hrefused ⊢
      by_cases hbranch : branchOf cfg.uniform d.ctr d.payload = .application
      · rw [if_pos hbranch, htable]
        refine (lookup_openData_iff hd (hkeys.frame d.payload · hcompletes)
          (hkeys.frameV1 d.payload hcompletes)).trans ?_
        constructor
        · intro hquiet
          refine ⟨hshards, fun payload v2 _ _ => hquiet v2, ?_⟩
          intro payload m material hsome hreceive
          rw [honly payload hsome, ← hd.ctr, Handshake.receive, hbranch] at hreceive
          cases hreceive
        · intro hquiet v2
          exact hquiet.frame d.payload v2 hcompletes (hd.ctr ▸ hbranch)
      · rw [if_neg hbranch, hstate] at hrefused ⊢
        refine (lookup_handlePkt_iff hrefused).trans ?_
        constructor
        · intro hkeep
          refine ⟨hshards, ?_, ?_⟩
          · intro payload v2 hsome happlication
            rw [honly payload hsome, ← hd.ctr] at happlication
            exact absurd happlication hbranch
          · intro payload m material hsome hreceive
            rw [honly payload hsome, ← hd.ctr] at hreceive
            exact hkeep m material hreceive
        · intro hquiet m material hreceive
          refine hquiet.offer d.payload m material hcompletes ?_
          rw [← hd.ctr]
          exact hreceive

/-- A datagram that opens under no key and is no handshake that is accepted leaves every session as
it is exactly if no session that is tried with it is provoked by the counter in the header, and it
is no legacy offer in the name of a peer there is a session with. -/
theorem outsider_harmless_iff (rs : ReedSolomon) (X : Ciphers C) (cfg : NodeConfig)
    (n : MeshNode P) (datagram : Bytes) (src : SocketAddr) (r : Fresh C) (start : Octets 16)
    (hkeys : OpensUnderNoKey rs X n datagram src)
    (hrefused : (onDatagram rs X cfg n datagram src r start).registered = none) :
    (∀ fp, (onDatagram rs X cfg n datagram src r start).state.sessions.lookup fp =
      n.state.sessions.lookup fp) ↔ Quiet rs cfg n datagram src r.now := by
  cases hshard : shardIn n.connected datagram with
  | none => exact lookup_plain_iff hshard hkeys hrefused
  | some shard => exact lookup_shard_iff hshard hkeys

end Outsider

section Stray

/-- A cipher whose tag is sixteen zeros. -/
def zeroTag (data : Bytes) : Option Bytes :=
  if data.drop (data.length - 16) = replicate 16 0 then some (data.take (data.length - 16))
  else none

def zeroTagCiphers : Ciphers .symbolicShares where
  frames := .tagging (fun _ _ _ _ _ => List.Vector.replicate 16 0) fun key _ _ _ => key
  decryptInPlaceWithContext _ _ _ _ data := zeroTag data

def strangerAddr : SocketAddr := { ip := .v4 (List.Vector.replicate 4 9), port := 4000 }

/-- A node that has just registered its first session. -/
def oneSessionNode : MeshNode .symbolic where
  connected := true
  state := registerPeerSession
    { sessions := ∅, peers := ∅, pendingHs := ∅, revocationList := none, reputation := none }
    "peer" strangerAddr (Session.newWithRole (.master 1) "peer" .responder 0)
  keyed := by
    intro fp s h
    rcases Table.lookup_insert_eq_some.mp h with ⟨rfl, rfl⟩ | ⟨_, h⟩
    · rfl
    · cases h
  spool := ∅

/-- A self-contained frame of epoch 0 with one byte, where no tag fits. -/
def strayFrame (ctr : ℕ) : Bytes :=
  [1, 0, 0, 0] ++ [0, 0, 0, 0] ++ [0, flagV2 ||| flagTunnel] ++ toBeBytes 8 ctr ++ toBeBytes 8 0 ++
    replicate 12 7 ++ [0, 1, 66]

def strayFresh : Fresh .symbolicShares :=
  { now := 0, unixNow := 0, xSecret := List.Vector.replicate 32 8, coins := [] }

theorem opensUnderNoKey_of_short {datagram : Bytes}
    (hshard : (shardIn true datagram).isNone = true)
    (hpayload : completes galois8 true ∅ datagram strangerAddr = some [66])
    (hv2 : (V2FrameMeta.of datagram).isSome = true) :
    OpensUnderNoKey galois8 zeroTagCiphers oneSessionNode datagram strangerAddr := by
  refine ⟨?_, ?_, ?_⟩
  · intro v2 sealedShard hsome
    rw [show shardIn oneSessionNode.connected datagram = none from Option.isNone_iff_eq_none.mp
      hshard] at hsome
    cases hsome
  · intro payload v2 hsome _ s _ direction key _
    have hsome := (show completes _ _ _ _ _ = some [66] from hpayload).symm.trans hsome
    cases hsome
    rfl
  · intro payload _ hnone
    rw [hnone] at hv2
    cases hv2

/-- The frame with the counter 3 is dropped. -/
theorem stray_frame_harmless :
    OpensUnderNoKey galois8 zeroTagCiphers oneSessionNode (strayFrame 3) strangerAddr ∧
    ∀ fp, (onDatagram galois8 zeroTagCiphers plainConfig oneSessionNode (strayFrame 3) strangerAddr
      strayFresh (List.Vector.replicate 16 0)).state.sessions.lookup fp =
        oneSessionNode.state.sessions.lookup fp := by
  have hkeys : OpensUnderNoKey galois8 zeroTagCiphers oneSessionNode (strayFrame 3) strangerAddr :=
    opensUnderNoKey_of_short (by decide +kernel) (by decide +kernel) (by decide +kernel)
  refine ⟨hkeys, (outsider_harmless_iff galois8 zeroTagCiphers plainConfig oneSessionNode
    (strayFrame 3) strangerAddr strayFresh (List.Vector.replicate 16 0) hkeys
    (Option.isNone_iff_eq_none.mp (by decide +kernel))).mpr ⟨?_, ?_, ?_⟩⟩
  · intro v2 sealedShard hsome
    rw [show shardIn oneSessionNode.connected (strayFrame 3) = none from
      Option.isNone_iff_eq_none.mp (by decide +kernel)] at hsome
    cases hsome
  · intro payload v2 _ _ hv2 _ s hs
    have hepoch : (V2FrameMeta.of (strayFrame 3)).map V2FrameMeta.epoch = some 0 := by
      decide +kernel
    rw [hv2] at hepoch
    rw [Option.some.inj hepoch]
    -- the chains stand at 0, so the key for the counter is there
    have hcalm : ∀ s ∈ oneSessionNode.sessions.snapshot,
        provokes strayFresh.now 0 (parsePacketCounterU64 (strayFrame 3)) s .initiatorToResponder =
          false ∧
        provokes strayFresh.now 0 (parsePacketCounterU64 (strayFrame 3)) s .responderToInitiator =
          false := by decide +kernel
    rintro ⟨direction, hprovokes⟩
    cases direction with
    | initiatorToResponder => simp [(hcalm s hs).1] at hprovokes
    | responderToInitiator => simp [(hcalm s hs).2] at hprovokes
  · intro payload m material hpayload hreceive
    have hone : completes galois8 true ∅ (strayFrame 3) strangerAddr = some [66] := by
      decide +kernel
    cases hone.symm.trans hpayload
    have hnone : Handshake.receive false (parsePacketCounterU64 (strayFrame 3)) [66] = none :=
      Option.isNone_iff_eq_none.mp (by decide +kernel)
    cases hnone.symm.trans hreceive

/-- The frame with the counter 5000 makes the session ask for a ratchet step. -/
theorem stray_frame_forces_step :
    OpensUnderNoKey galois8 zeroTagCiphers oneSessionNode (strayFrame 5000) strangerAddr ∧
    (onDatagram galois8 zeroTagCiphers plainConfig oneSessionNode (strayFrame 5000) strangerAddr
      strayFresh (List.Vector.replicate 16 0)).registered = none ∧
    ¬ ∀ fp, (onDatagram galois8 zeroTagCiphers plainConfig oneSessionNode (strayFrame 5000)
      strangerAddr strayFresh (List.Vector.replicate 16 0)).state.sessions.lookup fp =
        oneSessionNode.state.sessions.lookup fp := by
  refine ⟨opensUnderNoKey_of_short (by decide +kernel) (by decide +kernel) (by decide +kernel),
    Option.isNone_iff_eq_none.mp (by decide +kernel), fun hsame => ?_⟩
  have hflag := congrArg (Option.any Session.forcedRatchetDue) (hsame "peer")
  revert hflag
  decide +kernel

end Stray

end Vantablack.Receive
