import Vantablack.Send.ReadBack

/-!
From a datagram to the payload of a message: `open_received_frame`, the loop of `handle_pkt` over
the sessions, and `frame_payload`. A ShardSec message arrives here in the clear and only has its
chain moved on; any other is tried with the keys of every session. Frames of the v1 wire are left
out.
-/

namespace Vantablack.Receive

open Lib Layers Session Send

variable {C : Crypto}

/-! ### The loop over the sessions -/

/-- Try the sessions that `select` picks, until one opens. -/
def firstOpened (select : Session C → Bool)
    (attempt : Session C → NonceDirection → Option Bytes × Session C) :
    SessionTable C → List (Session C) → Option Bytes × SessionTable C
  | t, [] => (none, t)
  | t, candidate :: rest =>
      if select candidate then
        match t.table.lookup candidate.peerFingerprint with
        | none => firstOpened select attempt t rest
        | some s =>
            match attempt s candidate.role.sealDirection with
            | (some plain, s) => (some plain, t.update s)
            | (none, s) => firstOpened select attempt (t.update s) rest
      else firstOpened select attempt t rest

theorem tryCandidates_eq_firstOpened (hash : Octets 4)
    (attempt : Session C → NonceDirection → Option Bytes × Session C) (t : SessionTable C)
    (candidates : List (Session C)) :
    tryCandidates hash attempt t candidates =
      firstOpened (fun s => s.sessionHash = hash.toList) attempt t candidates := by
  induction candidates generalizing t with
  | nil => rfl
  | cons candidate rest ih =>
      rw [tryCandidates, firstOpened]
      by_cases hhash : candidate.sessionHash = hash.toList
      · rw [if_neg (not_not.mpr hhash), if_pos (decide_eq_true hhash)]
        cases t.table.lookup candidate.peerFingerprint with
        | none => exact ih t
        | some s =>
            dsimp only
            rcases attempt s candidate.role.sealDirection with ⟨_ | plain, s'⟩
            · exact ih (t.update s')
            · rfl
      · rw [if_pos hhash, if_neg (by simpa using hhash)]
        exact ih t

/-- Whether an attempt opens depends on the chains only, and one that does not leaves them and
the place of the session as they are. -/
structure ReadsChains (attempt : Session C → NonceDirection → Option Bytes × Session C) :
    Prop where
  congr : ∀ s s' ours, s.ratchet = s'.ratchet → (attempt s ours).1 = (attempt s' ours).1
  keeps : ∀ s ours, (attempt s ours).1 = none →
    (attempt s ours).2.ratchet = s.ratchet ∧
      (attempt s ours).2.peerFingerprint = s.peerFingerprint

/-- The table holds each of these sessions, up to what is not a chain. -/
def Holds (t : SessionTable C) (candidates : List (Session C)) : Prop :=
  ∀ c ∈ candidates, ∃ s, t.table.lookup c.peerFingerprint = some s ∧ s.ratchet = c.ratchet

theorem holds_snapshot (t : SessionTable C) : Holds t t.snapshot :=
  fun c hc => ⟨c, SessionTable.lookup_of_mem_snapshot hc, rfl⟩

variable {t : SessionTable C} {s s' : Session C}

theorem Holds.update {candidates : List (Session C)} (h : Holds t candidates) {fp : String}
    (hs : t.table.lookup fp = some s) (hratchet : s'.ratchet = s.ratchet)
    (hpeer : s'.peerFingerprint = s.peerFingerprint) : Holds (t.update s') candidates := by
  intro c hc
  obtain ⟨s0, hs0, hsame⟩ := h c hc
  have hfp : s'.peerFingerprint = fp := hpeer.trans (t.keyed fp s hs)
  by_cases hkey : c.peerFingerprint = fp
  · rw [hkey] at hs0 ⊢
    rw [hs] at hs0
    cases hs0
    exact ⟨s', Table.lookup_insert_eq_some.mpr (Or.inl ⟨hfp.symm, rfl⟩), hratchet.trans hsame⟩
  · refine ⟨s0, Table.lookup_insert_eq_some.mpr (Or.inr ⟨?_, hs0⟩), hsame⟩
    rwa [hfp]

variable {select : Session C → Bool}
  {attempt : Session C → NonceDirection → Option Bytes × Session C}

theorem firstOpened_fst (ha : ReadsChains attempt) {candidates : List (Session C)}
    (h : Holds t candidates) :
    (firstOpened select attempt t candidates).1 =
      candidates.findSome? fun s =>
        if select s then (attempt s s.role.sealDirection).1 else none := by
  induction candidates generalizing t with
  | nil => rfl
  | cons candidate rest ih =>
      have hrest : Holds t rest := fun c hc => h c (List.mem_cons_of_mem candidate hc)
      rw [firstOpened, List.findSome?_cons]
      split
      · obtain ⟨s, hs, hratchet⟩ := h candidate List.mem_cons_self
        have hsame := ha.congr s candidate candidate.role.sealDirection hratchet
        have hkeeps := ha.keeps s candidate.role.sealDirection
        rw [hs, ← hsame]
        dsimp only
        generalize attempt s candidate.role.sealDirection = result at hkeeps
        obtain ⟨opened, s'⟩ := result
        cases opened with
        | some plain => rfl
        | none =>
            obtain ⟨hr, hp⟩ := hkeeps rfl
            exact ih (hrest.update hs hr hp)
      · exact ih hrest

theorem firstOpened_eq_some (ha : ReadsChains attempt) {fp : String} {plain : Bytes}
    (hs : t.table.lookup fp = some s) (hselect : select s = true)
    (hopens : (attempt s s.role.sealDirection).1 = some plain)
    (honly : ∀ s ours other, (attempt s ours).1 = some other → other = plain) :
    (firstOpened select attempt t t.snapshot).1 = some plain := by
  rw [firstOpened_fst ha (holds_snapshot t)]
  have hmem : s ∈ t.snapshot := SessionTable.mem_snapshot_of_lookup hs
  cases hfound : t.snapshot.findSome? fun s =>
      if select s then (attempt s s.role.sealDirection).1 else none with
  | none =>
      have hnone := List.findSome?_eq_none_iff.mp hfound s hmem
      rw [if_pos hselect, hopens] at hnone
      cases hnone
  | some other =>
      obtain ⟨c, -, hc⟩ := List.exists_of_findSome?_eq_some hfound
      split at hc
      · rw [honly c _ other hc]
      · cases hc

theorem firstOpened_eq_none (ha : ReadsChains attempt)
    (hnone : ∀ s ours, (attempt s ours).1 = none) :
    (firstOpened select attempt t t.snapshot).1 = none := by
  rw [firstOpened_fst ha (holds_snapshot t), List.findSome?_eq_none_iff]
  intro s _
  rw [hnone]
  split <;> rfl

/-- The same session up to the flags of a forced step. -/
structure SamePeer (s s' : Session C) : Prop where
  ratchet : s'.ratchet = s.ratchet
  sessionHash : s'.sessionHash = s.sessionHash
  role : s'.role = s.role
  peerFingerprint : s'.peerFingerprint = s.peerFingerprint

theorem SamePeer.refl (s : Session C) : SamePeer s s := ⟨rfl, rfl, rfl, rfl⟩

theorem SamePeer.trans {s'' : Session C} (h : SamePeer s s') (h' : SamePeer s' s'') :
    SamePeer s s'' :=
  ⟨h'.ratchet.trans h.ratchet, h'.sessionHash.trans h.sessionHash, h'.role.trans h.role,
    h'.peerFingerprint.trans h.peerFingerprint⟩

theorem samePeer_triggerForcedRatchetStep (s : Session C) (now : ℕ) :
    SamePeer s (s.triggerForcedRatchetStep now).2 := by
  unfold Session.triggerForcedRatchetStep
  split
  · exact .refl s
  split
  · split <;> exact ⟨rfl, rfl, rfl, rfl⟩
  · exact ⟨rfl, rfl, rfl, rfl⟩

theorem samePeer_tryShard (now epoch ctr : ℕ) (opens : NonceDirection → C.Key → Option Bytes)
    (s : Session C) (direction : NonceDirection) :
    SamePeer s (tryShard now epoch ctr opens s direction).2 := by
  unfold tryShard
  split
  · split
    · exact samePeer_triggerForcedRatchetStep s now
    · exact .refl s
  · exact .refl s

theorem samePeer_trySession (now epoch ctr : ℕ) (opens : NonceDirection → C.Key → Option Bytes)
    (s : Session C) (ours : NonceDirection) :
    SamePeer s (trySession now epoch ctr opens s ours).2 := by
  have hpeer := samePeer_tryShard now epoch ctr opens s ours.peerDirection
  rw [trySession]
  generalize tryShard now epoch ctr opens s ours.peerDirection = result at hpeer
  obtain ⟨opened, s'⟩ := result
  cases opened with
  | some plain => exact hpeer
  | none => exact hpeer.trans (samePeer_tryShard now epoch ctr opens s' ours)

/-- Every session of the table is still there. -/
def KeepsPeers (t t' : SessionTable C) : Prop :=
  ∀ fp s, t.table.lookup fp = some s → ∃ s', t'.table.lookup fp = some s' ∧ SamePeer s s'

theorem KeepsPeers.refl (t : SessionTable C) : KeepsPeers t t := fun _ s hs => ⟨s, hs, .refl s⟩

theorem KeepsPeers.trans {t' t'' : SessionTable C} (h : KeepsPeers t t') (h' : KeepsPeers t' t'') :
    KeepsPeers t t'' := by
  intro fp s hs
  obtain ⟨s', hs', hsame⟩ := h fp s hs
  obtain ⟨s'', hs'', hsame'⟩ := h' fp s' hs'
  exact ⟨s'', hs'', hsame.trans hsame'⟩

theorem keepsPeers_update {fp : String} (hs : t.table.lookup fp = some s) (hsame : SamePeer s s') :
    KeepsPeers t (t.update s') := by
  intro fp' s0 hs0
  have hfp : s'.peerFingerprint = fp := hsame.peerFingerprint.trans (t.keyed fp s hs)
  by_cases hkey : fp' = fp
  · rw [hkey, hs] at hs0
    cases hs0
    exact ⟨s', Table.lookup_insert_eq_some.mpr (Or.inl ⟨hkey.trans hfp.symm, rfl⟩), hsame⟩
  · refine ⟨s0, Table.lookup_insert_eq_some.mpr (Or.inr ⟨?_, hs0⟩), .refl s0⟩
    rwa [hfp]

theorem keepsPeers_firstOpened (hkeeps : ∀ s ours, SamePeer s (attempt s ours).2)
    (t : SessionTable C) (candidates : List (Session C)) :
    KeepsPeers t (firstOpened select attempt t candidates).2 := by
  induction candidates generalizing t with
  | nil => exact .refl t
  | cons candidate rest ih =>
      rw [firstOpened]
      split
      · split
        · exact ih t
        · rename_i s hs
          have hsame := keepsPeers_update hs (hkeeps s candidate.role.sealDirection)
          split
          · rename_i s' heq
            rwa [heq] at hsame
          · rename_i s' heq
            rw [heq] at hsame
            exact hsame.trans (ih _)
      · exact ih t

/-- One turn of the loop of `open_received_frame`, with the plaintext. -/
def tryFrame (A : Aead C) (now ctr : ℕ) (v2 : V2FrameMeta) (data : Bytes) (s : Session C)
    (direction : NonceDirection) : Option Bytes × Session C :=
  let plan := s.planOpen v2.epoch direction ctr
  match plan.key? with
  | none =>
      if s.ratchet.gapExceedsMaxSkip v2.epoch direction ctr then
        (none, (s.triggerForcedRatchetStep now).2)
      else (none, s)
  | some key =>
      let aad := if v2.bulk then [] else v2.tail.toList
      match A.xchachaOpen key v2.nonce v2.epoch direction aad data with
      | some plain => (some plain, s.commitOpen v2.epoch direction plan)
      | none => (none, s)

/-- `open_received_frame` on a v2 frame. -/
def openFrame (A : Aead C) (now ctr : ℕ) (v2 : V2FrameMeta) (data : Bytes) (s : Session C)
    (ours : NonceDirection) : Option Bytes × Session C :=
  match tryFrame A now ctr v2 data s ours.peerDirection with
  | (some plain, s) => (some plain, s)
  | (none, s) => tryFrame A now ctr v2 data s ours

/-! ### What an attempt gives -/

/-- The keys the chains of a session have for a counter, tried on a message. -/
def attemptOpen (epoch ctr : ℕ) (opens : NonceDirection → C.Key → Option Bytes) (s : Session C)
    (ours : NonceDirection) : Option Bytes :=
  ((s.planOpen epoch ours.peerDirection ctr).key?.bind (opens ours.peerDirection)).or
    ((s.planOpen epoch ours ctr).key?.bind (opens ours))

theorem attemptOpen_of_peer {epoch ctr : ℕ} {opens : NonceDirection → C.Key → Option Bytes}
    {ours : NonceDirection} (key : C.Key) {plain : Bytes}
    (hkey : (s.planOpen epoch ours.peerDirection ctr).key? = some key)
    (hopens : opens ours.peerDirection key = some plain) :
    attemptOpen epoch ctr opens s ours = some plain := by
  rw [attemptOpen, hkey, Option.bind_some, hopens, Option.some_or]

theorem attemptOpen_eq_some {epoch ctr : ℕ} {opens : NonceDirection → C.Key → Option Bytes}
    {ours : NonceDirection} {plain : Bytes} (h : attemptOpen epoch ctr opens s ours = some plain) :
    ∃ direction key, opens direction key = some plain := by
  rcases Option.or_eq_some_iff.mp h with hpeer | ⟨-, hours⟩
  · obtain ⟨key, -, hopens⟩ := Option.bind_eq_some_iff.mp hpeer
    exact ⟨_, key, hopens⟩
  · obtain ⟨key, -, hopens⟩ := Option.bind_eq_some_iff.mp hours
    exact ⟨_, key, hopens⟩

theorem attemptOpen_congr (epoch ctr : ℕ) (opens : NonceDirection → C.Key → Option Bytes)
    (ours : NonceDirection) (h : s.ratchet = s'.ratchet) :
    attemptOpen epoch ctr opens s ours = attemptOpen epoch ctr opens s' ours := by
  simp only [attemptOpen, Session.planOpen, h]

section Shard

variable (now epoch ctr : ℕ) (opens : NonceDirection → C.Key → Option Bytes)

theorem tryShard_fst (s : Session C) (direction : NonceDirection) :
    (tryShard now epoch ctr opens s direction).1 =
      (s.planOpen epoch direction ctr).key?.bind (opens direction) := by
  unfold tryShard
  split
  · rename_i hnone
    rw [hnone]
    split <;> rfl
  · rename_i key hkey
    rw [hkey]
    rfl

theorem trySession_fst (s : Session C) (ours : NonceDirection) :
    (trySession now epoch ctr opens s ours).1 = attemptOpen epoch ctr opens s ours := by
  have hpeer := tryShard_fst now epoch ctr opens s ours.peerDirection
  have hratchet := (tryShard_session now epoch ctr opens s ours.peerDirection).1
  rw [trySession, attemptOpen, ← hpeer]
  generalize tryShard now epoch ctr opens s ours.peerDirection = result at hratchet
  obtain ⟨opened, s'⟩ := result
  cases opened with
  | some plain => rfl
  | none =>
      show (tryShard now epoch ctr opens s' ours).1 = _
      rw [tryShard_fst, Session.planOpen, show s'.ratchet = s.ratchet from hratchet]
      rfl

theorem readsChains_trySession : ReadsChains (trySession (C := C) now epoch ctr opens) where
  congr s s' ours h := by
    rw [trySession_fst, trySession_fst, attemptOpen_congr epoch ctr opens ours h]
  keeps s ours _ := trySession_session now epoch ctr opens s ours

end Shard

section Frame

variable (A : Aead C) (now ctr : ℕ) (v2 : V2FrameMeta) (data : Bytes)

def opensFrame (direction : NonceDirection) (key : C.Key) : Option Bytes :=
  A.xchachaOpen key v2.nonce v2.epoch direction (if v2.bulk then [] else v2.tail.toList) data

theorem tryFrame_fst (s : Session C) (direction : NonceDirection) :
    (tryFrame A now ctr v2 data s direction).1 =
      (s.planOpen v2.epoch direction ctr).key?.bind (opensFrame A v2 data direction) := by
  unfold tryFrame
  dsimp only
  split
  · rename_i hnone
    rw [hnone]
    split <;> rfl
  · rename_i key hkey
    rw [hkey, Option.bind_some, opensFrame]
    split <;> simp_all

theorem tryFrame_of_none (s : Session C) (direction : NonceDirection)
    (h : (tryFrame A now ctr v2 data s direction).1 = none) :
    (tryFrame A now ctr v2 data s direction).2.ratchet = s.ratchet ∧
      (tryFrame A now ctr v2 data s direction).2.peerFingerprint = s.peerFingerprint := by
  unfold tryFrame at h ⊢
  dsimp only at h ⊢
  split
  · split
    · exact ⟨triggerForcedRatchetStep_ratchet s now, triggerForcedRatchetStep_peerFingerprint s now⟩
    · exact ⟨rfl, rfl⟩
  · split
    · simp_all
    · exact ⟨rfl, rfl⟩

theorem openFrame_fst (s : Session C) (ours : NonceDirection) :
    (openFrame A now ctr v2 data s ours).1 =
      attemptOpen v2.epoch ctr (opensFrame A v2 data) s ours := by
  have hpeer := tryFrame_fst A now ctr v2 data s ours.peerDirection
  have hnone := tryFrame_of_none A now ctr v2 data s ours.peerDirection
  rw [openFrame, attemptOpen, ← hpeer]
  generalize tryFrame A now ctr v2 data s ours.peerDirection = result at hnone
  obtain ⟨opened, s'⟩ := result
  cases opened with
  | some plain => rfl
  | none =>
      show (tryFrame A now ctr v2 data s' ours).1 = _
      rw [tryFrame_fst, Session.planOpen, show s'.ratchet = s.ratchet from (hnone rfl).1]
      rfl

theorem readsChains_openFrame : ReadsChains (openFrame A now ctr v2 data) where
  congr s s' ours h := by
    rw [openFrame_fst, openFrame_fst, attemptOpen_congr v2.epoch ctr _ ours h]
  keeps s ours hnone := by
    have hpeer := tryFrame_of_none A now ctr v2 data s ours.peerDirection
    rw [openFrame] at hnone ⊢
    generalize tryFrame A now ctr v2 data s ours.peerDirection = result at hnone hpeer
    obtain ⟨opened, s'⟩ := result
    cases opened with
    | some plain => cases hnone
    | none =>
        obtain ⟨hr, hp⟩ := hpeer rfl
        obtain ⟨hr', hp'⟩ := tryFrame_of_none A now ctr v2 data s' ours hnone
        exact ⟨hr'.trans hr, hp'.trans hp⟩

end Frame

/-! ### The whole receive path -/

/-- Move the chain on past a ShardSec message: the peer's direction if it has a plan, else
ours if that has one. -/
def resyncOpen (epoch ctr : ℕ) (s : Session C) (ours : NonceDirection) : Session C :=
  if (s.planOpen epoch ours.peerDirection ctr).key?.isSome then
    s.commitOpen epoch ours.peerDirection (s.planOpen epoch ours.peerDirection ctr)
  else if (s.planOpen epoch ours ctr).key?.isSome then
    s.commitOpen epoch ours (s.planOpen epoch ours ctr)
  else s

/-- `handle_pkt` up to the plaintext of a message. -/
def openDelivery (A : Aead C) (t : SessionTable C) (now : ℕ) (d : Delivery) (v2 : V2FrameMeta) :
    Option Bytes × SessionTable C :=
  if v2.shardsec then
    firstOpened (fun s => d.wireSessionHash.map List.Vector.toList = some s.sessionHash)
      (fun s ours => (some d.payload, resyncOpen v2.epoch d.ctr s ours)) t t.snapshot
  else firstOpened (fun _ => true) (openFrame A now d.ctr v2 d.payload) t t.snapshot

/-- A datagram: the node after it, and the payload of the message it completes. -/
def receive (rs : ReedSolomon) (A : Aead C) (rx : RxContext C) (now : ℕ) (datagram : Bytes)
    (src : SocketAddr) : RxContext C × Option Bytes :=
  match ingest rs A.shardAead rx now datagram src with
  | (rx, none) => (rx, none)
  | (rx, some d) =>
      match d.v2 with
      | none => (rx, none)
      | some v2 =>
          ({ rx with sessions := (openDelivery A rx.sessions now d v2).2 },
           (openDelivery A rx.sessions now d v2).1.bind framePayload)

/-- Datagrams one after the other, and the payloads they complete. -/
def receiveAll (rs : ReedSolomon) (A : Aead C) (rx : RxContext C) :
    List (Bytes × SocketAddr × ℕ) → List Bytes
  | [] => []
  | (datagram, src, now) :: rest =>
      (receive rs A rx now datagram src).2.toList ++
        receiveAll rs A (receive rs A rx now datagram src).1 rest

end Vantablack.Receive
