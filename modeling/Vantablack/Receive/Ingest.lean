import Vantablack.Receive.Frame
import Vantablack.Session.Basic

/-!
`RxContext::ingest` of `main.rs`: what becomes of a received datagram before `handle_pkt`
sees it. A self-contained frame is handed on as it is. A shard goes to the spool, a ShardSec
one only after it was opened on its own; what the spool puts together is handed on with the
metadata of the frame that completed it.

A call is atomic. The statistics and the queues of the dispatcher are left out.
-/

namespace Vantablack.Receive

open Lib Layers Session

variable {C : Crypto}

/-! ### ShardSec

`ghost/net/shardsec.rs`, whose key derivation and cipher come from third-party crates. -/

structure ShardAead (C : Crypto) where
  shardKey : C.Key → ℕ → Octets 12 → UInt8 → C.Key
  xchachaOpen : C.Key → Octets 12 → ℕ → NonceDirection → Bytes → Option Bytes

structure SealedShard where
  index : UInt8
  ciphertext : Bytes
  tag : Octets 16
  isHoney : Bool

def shardNonce (base : Octets 12) (index : UInt8) : Octets 12 :=
  base.set 11 (base.get 11 ^^^ index)

def openShard (A : ShardAead C) (master : C.Key) (epoch : ℕ) (nonce : Octets 12)
    (direction : NonceDirection) (sealedShard : SealedShard) : Option Bytes :=
  if 3 ≤ sealedShard.index.toNat then none
  else
    A.xchachaOpen (A.shardKey master epoch nonce sealedShard.index)
      (shardNonce nonce sealedShard.index) epoch direction
      (sealedShard.ciphertext ++ sealedShard.tag.toList)

/-- The last sixteen bytes of a shard are its tag. -/
def sealedShardOf (index : UInt8) (sd : Bytes) : Option SealedShard :=
  if sd.length < 16 then none
  else
    some
      { index := index
        ciphertext := sd.take (sd.length - 16)
        tag := (Block.ofList? 16 (sd.drop (sd.length - 16))).getD (List.Vector.replicate 16 0)
        isHoney := false }

/-! ### The sessions a shard is tried with -/

/-- The session table. A session stands under the fingerprint of its own peer. -/
structure SessionTable (C : Crypto) where
  table : Table String (Session C)
  keyed : ∀ fp s, table.lookup fp = some s → s.peerFingerprint = fp

namespace SessionTable

/-- Write a session back. -/
def update (t : SessionTable C) (s : Session C) : SessionTable C where
  table := t.table.insert s.peerFingerprint s
  keyed := by
    intro fp s' h
    rcases Table.lookup_insert_eq_some.mp h with ⟨rfl, rfl⟩ | ⟨_, hold⟩
    · rfl
    · exact t.keyed fp s' hold

/-- `OpenCtx::snapshot_of`. -/
def snapshot (t : SessionTable C) : List (Session C) := t.table.entries.map Sigma.snd

theorem lookup_of_mem_snapshot {t : SessionTable C} {s : Session C} (h : s ∈ t.snapshot) :
    t.table.lookup s.peerFingerprint = some s := by
  obtain ⟨⟨fp, s'⟩, he, rfl⟩ := List.mem_map.mp h
  have hlookup : t.table.lookup fp = some s' := AList.mem_lookup_iff.mpr he
  rw [t.keyed fp s' hlookup]
  exact hlookup

theorem mem_snapshot_of_lookup {t : SessionTable C} {fp : String} {s : Session C}
    (h : t.table.lookup fp = some s) : s ∈ t.snapshot :=
  List.mem_map.mpr ⟨⟨fp, s⟩, AList.mem_lookup_iff.mp h, rfl⟩

end SessionTable

/-- One turn of the loop over the directions: plan and try the key, without a commit. -/
def tryShard (now epoch counter : ℕ) (opens : NonceDirection → C.Key → Option Bytes)
    (s : Session C) (direction : NonceDirection) : Option Bytes × Session C :=
  match (s.planOpen epoch direction counter).key? with
  | none =>
      if s.ratchet.gapExceedsMaxSkip epoch direction counter then
        (none, (s.triggerForcedRatchetStep now).2)
      else (none, s)
  | some key => (opens direction key, s)

/-- The peer's direction first, then `ours`. -/
def trySession (now epoch counter : ℕ) (opens : NonceDirection → C.Key → Option Bytes)
    (s : Session C) (ours : NonceDirection) : Option Bytes × Session C :=
  match tryShard now epoch counter opens s ours.peerDirection with
  | (some plain, s) => (some plain, s)
  | (none, s) => tryShard now epoch counter opens s ours

/-- The loop over the snapshot: the sessions with the hash on the wire, until one opens. -/
def tryCandidates (hash : Octets 4)
    (attempt : Session C → NonceDirection → Option Bytes × Session C) :
    SessionTable C → List (Session C) → Option Bytes × SessionTable C
  | t, [] => (none, t)
  | t, candidate :: rest =>
      if candidate.sessionHash ≠ hash.toList then tryCandidates hash attempt t rest
      else
        match t.table.lookup candidate.peerFingerprint with
        | none => tryCandidates hash attempt t rest
        | some s =>
            match attempt s candidate.role.sealDirection with
            | (some plain, s) => (some plain, t.update s)
            | (none, s) => tryCandidates hash attempt (t.update s) rest

/-! ### The datagram -/

structure RxContext (C : Crypto) where
  connected : Bool
  sessions : SessionTable C
  spool : SpoolPool

inductive Routed where
  | dropped
  | whole (payload : Bytes)
  | shard (idx : ℕ) (data : Bytes)
  deriving DecidableEq

/-- Open a ShardSec shard with the sessions of the node. -/
def openWith (A : ShardAead C) (sessions : SessionTable C) (now : ℕ) (datagram : Bytes)
    (v2 : V2FrameMeta) (sealedShard : SealedShard) : Option Bytes × SessionTable C :=
  tryCandidates (parseSessionHash datagram)
    (trySession now v2.epoch (parsePacketCounterU64 datagram) fun direction key =>
      openShard A key v2.epoch v2.nonce direction sealedShard)
    sessions sessions.snapshot

/-- The part of `ingest` before the spool. -/
def route (A : ShardAead C) (ctx : RxContext C) (now : ℕ) (datagram : Bytes) :
    Routed × SessionTable C :=
  if !ctx.connected || datagram.length < minFrameSize then (.dropped, ctx.sessions)
  else
    match unframe (extractPayload datagram) with
    | none => (.dropped, ctx.sessions)
    | some sd =>
      -- a self-contained frame bypasses the spool
      if parseFlags datagram &&& flagTunnel ≠ 0 then (.whole sd, ctx.sessions)
      else
        let index := datagram[8]?.getD 0
        if 2 < index.toNat then (.dropped, ctx.sessions)
        else
          match (V2FrameMeta.of datagram).filter V2FrameMeta.shardsec with
          | none => (.shard index.toNat sd, ctx.sessions)
          | some v2 =>
            match sealedShardOf index sd with
            | none => (.dropped, ctx.sessions)
            | some sealedShard =>
              match openWith A ctx.sessions now datagram v2 sealedShard with
              | (none, sessions) => (.dropped, sessions)
              | (some plain, sessions) => (.shard index.toNat plain, sessions)

/-- What is handed to `handle_pkt`. `shards` is what the payload was put together from; it
is kept for the statements only. -/
structure Delivery where
  ctr : ℕ
  v2 : Option V2FrameMeta
  payload : Bytes
  src : SocketAddr
  wireSessionHash : Option (Octets 4)
  shards : Bucket

def ingest (rs : ReedSolomon) (A : ShardAead C) (ctx : RxContext C) (now : ℕ) (datagram : Bytes)
    (src : SocketAddr) : RxContext C × Option Delivery :=
  let ctr := parsePacketCounterU64 datagram
  let v2 := V2FrameMeta.of datagram
  match route A ctx now datagram with
  | (.dropped, sessions) => ({ ctx with sessions := sessions }, none)
  | (.whole sd, sessions) =>
      ({ ctx with sessions := sessions },
       some { ctr := ctr, v2 := v2, payload := sd, src := src, wireSessionHash := none
              shards := [] })
  | (.shard idx data, sessions) =>
      let key := SpoolKey.of src datagram v2
      let (r, spool) := assemble rs ctx.spool key idx data
      ({ ctx with sessions := sessions, spool := spool },
       r.map fun payload =>
         { ctr := ctr, v2 := v2, payload := payload, src := src
           wireSessionHash := some (parseSessionHash datagram)
           shards := filled ctx.spool key idx data })

/-! ### What opening a shard shows -/

@[simp] theorem triggerForcedRatchetStep_ratchet (s : Session C) (now : ℕ) :
    (s.triggerForcedRatchetStep now).2.ratchet = s.ratchet := by
  unfold Session.triggerForcedRatchetStep
  split
  · rfl
  split
  · split <;> rfl
  · rfl

@[simp] theorem triggerForcedRatchetStep_peerFingerprint (s : Session C) (now : ℕ) :
    (s.triggerForcedRatchetStep now).2.peerFingerprint = s.peerFingerprint := by
  unfold Session.triggerForcedRatchetStep
  split
  · rfl
  split
  · split <;> rfl
  · rfl

section Attempts

variable {now epoch counter : ℕ} {opens : NonceDirection → C.Key → Option Bytes}

theorem tryShard_session (now epoch counter : ℕ) (opens : NonceDirection → C.Key → Option Bytes)
    (s : Session C) (direction : NonceDirection) :
    (tryShard now epoch counter opens s direction).2.ratchet = s.ratchet ∧
      (tryShard now epoch counter opens s direction).2.peerFingerprint = s.peerFingerprint := by
  unfold tryShard
  split
  · split
    · simp
    · exact ⟨rfl, rfl⟩
  · exact ⟨rfl, rfl⟩

theorem tryShard_eq_some {s : Session C} {direction : NonceDirection} {plain : Bytes}
    (h : (tryShard now epoch counter opens s direction).1 = some plain) :
    ∃ key, (s.planOpen epoch direction counter).key? = some key ∧
      opens direction key = some plain := by
  unfold tryShard at h
  split at h
  · split at h <;> cases h
  · rename_i key hkey
    exact ⟨key, hkey, h⟩

theorem trySession_session (now epoch counter : ℕ) (opens : NonceDirection → C.Key → Option Bytes)
    (s : Session C) (ours : NonceDirection) :
    (trySession now epoch counter opens s ours).2.ratchet = s.ratchet ∧
      (trySession now epoch counter opens s ours).2.peerFingerprint = s.peerFingerprint := by
  have hpeer := tryShard_session now epoch counter opens s ours.peerDirection
  unfold trySession
  split
  · rename_i s' heq
    rw [heq] at hpeer
    exact hpeer
  · rename_i s' heq
    rw [heq] at hpeer
    have hours := tryShard_session now epoch counter opens s' ours
    exact ⟨hours.1.trans hpeer.1, hours.2.trans hpeer.2⟩

theorem trySession_eq_some {s : Session C} {ours : NonceDirection} {plain : Bytes}
    (h : (trySession now epoch counter opens s ours).1 = some plain) :
    ∃ direction key, (s.planOpen epoch direction counter).key? = some key ∧
      opens direction key = some plain := by
  have hpeer := tryShard_session now epoch counter opens s ours.peerDirection
  unfold trySession at h
  split at h
  · rename_i s' heq
    cases h
    exact ⟨_, tryShard_eq_some (congrArg Prod.fst heq)⟩
  · rename_i s' heq
    rw [heq] at hpeer
    obtain ⟨key, hkey, hopens⟩ := tryShard_eq_some h
    refine ⟨ours, key, ?_, hopens⟩
    rw [Session.planOpen, ← hpeer.1]
    exact hkey

/-- The sessions of `t` have the chains of those of `t'`. -/
def SameChains (t t' : SessionTable C) : Prop :=
  ∀ fp s, t.table.lookup fp = some s → ∃ s', t'.table.lookup fp = some s' ∧ s.ratchet = s'.ratchet

theorem SameChains.update {t t' : SessionTable C} (h : SameChains t t') {fp : String}
    {s s' : Session C} (hs : t.table.lookup fp = some s) (hratchet : s'.ratchet = s.ratchet)
    (hpeer : s'.peerFingerprint = s.peerFingerprint) : SameChains (t.update s') t' := by
  intro fp' s'' hlookup
  rcases Table.lookup_insert_eq_some.mp hlookup with ⟨hfp, rfl⟩ | ⟨_, hold⟩
  · obtain ⟨s0, hs0, hsame⟩ := h fp s hs
    refine ⟨s0, ?_, hratchet.trans hsame⟩
    rw [hfp, hpeer, t.keyed fp s hs]
    exact hs0
  · exact h fp' s'' hold

theorem tryCandidates_eq_some {hash : Octets 4} {t0 t : SessionTable C}
    {candidates : List (Session C)} {plain : Bytes} (hsame : SameChains t t0)
    (hcandidates : ∀ s ∈ candidates, t0.table.lookup s.peerFingerprint = some s)
    (h : (tryCandidates hash (trySession now epoch counter opens) t candidates).1 = some plain) :
    ∃ s ∈ candidates, s.sessionHash = hash.toList ∧
      ∃ direction key, (s.planOpen epoch direction counter).key? = some key ∧
        opens direction key = some plain := by
  induction candidates generalizing t with
  | nil => cases h
  | cons candidate rest ih =>
      have hrest : ∀ s ∈ rest, t0.table.lookup s.peerFingerprint = some s :=
        fun s hs => hcandidates s (List.mem_cons_of_mem candidate hs)
      have lift : (∃ s ∈ rest, s.sessionHash = hash.toList ∧
          ∃ direction key, (s.planOpen epoch direction counter).key? = some key ∧
            opens direction key = some plain) →
          ∃ s ∈ candidate :: rest, s.sessionHash = hash.toList ∧
            ∃ direction key, (s.planOpen epoch direction counter).key? = some key ∧
              opens direction key = some plain := by
        rintro ⟨s, hs, hopened⟩
        exact ⟨s, List.mem_cons_of_mem candidate hs, hopened⟩
      rw [tryCandidates] at h
      split at h
      · exact lift (ih hsame hrest h)
      rename_i hhash
      split at h
      · exact lift (ih hsame hrest h)
      rename_i s hs
      have hsession := trySession_session now epoch counter opens s candidate.role.sealDirection
      split at h
      · rename_i s' heq
        cases h
        obtain ⟨direction, key, hkey, hopens⟩ := trySession_eq_some (congrArg Prod.fst heq)
        -- the session in the table is the candidate, up to its flags
        obtain ⟨s0, hs0, hratchet⟩ := hsame _ s hs
        have hcandidate := hcandidates candidate List.mem_cons_self
        rw [hs0] at hcandidate
        cases hcandidate
        refine ⟨candidate, List.mem_cons_self, not_not.mp hhash, direction, key, ?_, hopens⟩
        rw [Session.planOpen, ← hratchet]
        exact hkey
      · rename_i s' heq
        rw [heq] at hsession
        exact lift (ih (hsame.update hs hsession.1 hsession.2) hrest h)

end Attempts

theorem openWith_eq_some {A : ShardAead C} {sessions : SessionTable C} {now : ℕ}
    {datagram plain : Bytes} {v2 : V2FrameMeta} {sealedShard : SealedShard}
    (h : (openWith A sessions now datagram v2 sealedShard).1 = some plain) :
    ∃ fp s, sessions.table.lookup fp = some s ∧
      s.sessionHash = (parseSessionHash datagram).toList ∧
      ∃ direction key,
        (s.planOpen v2.epoch direction (parsePacketCounterU64 datagram)).key? = some key ∧
          openShard A key v2.epoch v2.nonce direction sealedShard = some plain := by
  have hsame : SameChains sessions sessions := fun fp s hs => ⟨s, hs, rfl⟩
  obtain ⟨s, hs, hopened⟩ := tryCandidates_eq_some hsame
    (fun s hs => SessionTable.lookup_of_mem_snapshot hs) h
  exact ⟨_, s, SessionTable.lookup_of_mem_snapshot hs, hopened⟩

end Vantablack.Receive
