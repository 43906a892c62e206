import Vantablack.Abos.Mesh
import Vantablack.Lib.Runs

/-!
The transmissions of `abos-protocol/src/mesh.rs` that wait for an acknowledgement: which bundles are
sent again, how often and when, and what the node says of them.
-/

namespace Vantablack.Abos

open Lib List

/-- `u64::saturating_add` and `u64::saturating_mul` stop there. -/
def saturating (n : ℕ) : ℕ := min n (2 ^ 64 - 1)

structure PendingTransmission where
  bundleId : BundleId
  submittedAt : ℕ
  nextAttemptAt : ℕ
  attempts : ℕ
  maxAttempts : ℕ
  backoffBaseSecs : ℕ

namespace PendingTransmission

def backoffSecs (p : PendingTransmission) : ℕ :=
  saturating (p.backoffBaseSecs * 2 ^ min p.attempts 16)

def isDue (p : PendingTransmission) (now : ℕ) : Bool :=
  p.nextAttemptAt ≤ now ∧ p.attempts < p.maxAttempts

/-- One more attempt, and a longer wait for the next one. -/
def attempt (p : PendingTransmission) (now : ℕ) : PendingTransmission :=
  let p := { p with attempts := p.attempts + 1 }
  { p with nextAttemptAt := saturating (now + p.backoffSecs) }

def isExhausted (p : PendingTransmission) : Bool := p.maxAttempts ≤ p.attempts

end PendingTransmission

/-- The node of the mesh, with what it keeps of the bundles that it sent. -/
structure SendingNode (ι : Type*) extends MeshNode ι where
  pending : Table BundleId PendingTransmission
  maxAttempts : ℕ
  backoffBaseSecs : ℕ
  acks : Table BundleId (List ι)

variable {ι : Type*} [DecidableEq ι]

namespace SendingNode

def withTimings (localId : ι) (peerExpirySecs beaconIntervalSecs backoffBaseSecs : ℕ) :
    SendingNode ι where
  localId := localId
  peers := ∅
  peerExpirySecs := peerExpirySecs
  beaconIntervalSecs := beaconIntervalSecs
  lastBeaconAt := 0
  originBundles := ∅
  forwarded := ∅
  pending := ∅
  maxAttempts := 8
  backoffBaseSecs := backoffBaseSecs
  acks := ∅

def trackBundleAt (m : SendingNode ι) (bundle : Bundle ι) (now : ℕ) : SendingNode ι :=
  let id := bundle.bundleId
  let entry : PendingTransmission :=
    { bundleId := id
      submittedAt := now
      nextAttemptAt := saturating (now + m.backoffBaseSecs)
      attempts := 0
      maxAttempts := m.maxAttempts
      backoffBaseSecs := m.backoffBaseSecs }
  { m with
    toMeshNode := m.toMeshNode.trackBundleAt bundle now
    pending := if id ∈ m.pending then m.pending else m.pending.insert id entry }

/-- The ids of the transmissions that meet `p`, in the order in which the table is walked. -/
def idsOf (m : SendingNode ι) (p : PendingTransmission → Bool) : List BundleId :=
  ((m.pending.entries.map (·.2)).filter p).map (·.bundleId)

def dueForRetransmitAt (m : SendingNode ι) (now : ℕ) : List BundleId × SendingNode ι :=
  let due := m.idsOf (·.isDue now)
  let m := { m with
    pending := m.pending.mapValues fun p => if p.isDue now then p.attempt now else p }
  let exhausted := m.idsOf (·.isExhausted)
  (due, { m with pending := exhausted.foldl (fun pending id => pending.erase id) m.pending })

def failedBundles (m : SendingNode ι) : List BundleId := m.idsOf (·.isExhausted)

def acksFor (m : SendingNode ι) (id : BundleId) : List ι := (m.acks.lookup id).getD []

def recordAck (m : SendingNode ι) (id : BundleId) (peer : ι) : Bool × SendingNode ι :=
  let list := m.acksFor id
  let first := !list.contains peer
  let list := if first then list ++ [peer] else list
  (first, { m with acks := m.acks.insert id list, pending := m.pending.erase id })

def isUnacked (m : SendingNode ι) (id : BundleId) : Bool := id ∈ m.pending

end SendingNode

/-! ### Runs -/

inductive MeshCall (ι : Type*) where
  | trackBundleAt (bundle : Bundle ι) (now : UInt64)
  | dueForRetransmitAt (now : UInt64)
  | recordAck (id : BundleId) (peer : ι)

inductive BundleEvent (ι : Type*) where
  | tracked (id : BundleId)
  | acked (id : BundleId) (peer : ι)
  | returned (id : BundleId) (now : ℕ)
  deriving DecidableEq

/-- A node and what happened so far. -/
structure MeshRun (ι : Type*) where
  node : SendingNode ι
  history : List (BundleEvent ι)

namespace MeshRun

def new (localId : ι) (peerExpirySecs beaconIntervalSecs backoffBaseSecs : ℕ) : MeshRun ι :=
  ⟨.withTimings localId peerExpirySecs beaconIntervalSecs backoffBaseSecs, []⟩

def step (r : MeshRun ι) : MeshCall ι → MeshRun ι
  | .trackBundleAt bundle now =>
      ⟨r.node.trackBundleAt bundle now.toNat, r.history ++ [.tracked bundle.bundleId]⟩
  | .dueForRetransmitAt now =>
      let (due, node) := r.node.dueForRetransmitAt now.toNat
      ⟨node, r.history ++ due.map (.returned · now.toNat)⟩
  | .recordAck id peer => ⟨(r.node.recordAck id peer).2, r.history ++ [.acked id peer]⟩

end MeshRun

def returnOf (id : BundleId) : BundleEvent ι → Option ℕ
  | .returned id' now => if id' = id then some now else none
  | _ => none

def returnsOf (history : List (BundleEvent ι)) (id : BundleId) : List ℕ :=
  history.filterMap (returnOf id)

def Tracked (history : List (BundleEvent ι)) (id : BundleId) : Prop := .tracked id ∈ history

def Acked (history : List (BundleEvent ι)) (id : BundleId) : Prop := ∃ peer, .acked id peer ∈ history

/-- Each time is at least the wait after the one before it. -/
def Spaced (base : ℕ) (times : List ℕ) : Prop :=
  ∀ i t t', times[i]? = some t → times[i + 1]? = some t' → t + base * 2 ^ (i + 1) ≤ t'

/-- What the node promises about its transmissions. -/
structure MeshRun.Sound (r : MeshRun ι) : Prop where
  atMost : ∀ id, (returnsOf r.history id).length ≤ r.node.maxAttempts
  spaced : ∀ id, Spaced r.node.backoffBaseSecs (returnsOf r.history id)
  quiet : r.history.Pairwise fun e e' => ∀ id peer now, e = .acked id peer → e' ≠ .returned id now
  unacked : ∀ id, r.node.isUnacked id = true ↔ Tracked r.history id ∧ ¬ Acked r.history id
  failed : ∀ id, Tracked r.history id → ¬ Acked r.history id → (returnsOf r.history id).length = r.node.maxAttempts →
    id ∈ r.node.failedBundles

/-- No bundle is tracked again once it is acknowledged, none is returned for the last time, and none
whose next time was cut off by the end of the clock. -/
def MeshRun.Careful (r : MeshRun ι) : MeshCall ι → Prop
  | .trackBundleAt bundle _ => r.node.acksFor bundle.bundleId = []
  | .dueForRetransmitAt now => ∀ id p, r.node.pending.lookup id = some p →
      p.nextAttemptAt ≤ now.toNat →
        p.attempts + 1 < p.maxAttempts ∧
          ∀ t ∈ (returnsOf r.history id).getLast?, t + p.backoffBaseSecs * 2 ^ p.attempts < 2 ^ 64
  | .recordAck _ _ => True

/-! ### The table of the transmissions -/

/-- Each transmission is under its own id and has attempts left. -/
def Keyed (m : SendingNode ι) : Prop :=
  ∀ id p, m.pending.lookup id = some p → p.bundleId = id ∧ p.attempts < p.maxAttempts

namespace SendingNode

variable {m : SendingNode ι}

omit [DecidableEq ι] in
theorem mem_idsOf (hid : ∀ id p, m.pending.lookup id = some p → p.bundleId = id)
    (p : PendingTransmission → Bool) (id : BundleId) :
    id ∈ m.idsOf p ↔ ∃ q, m.pending.lookup id = some q ∧ p q = true := by
  rw [idsOf, mem_map]
  constructor
  · rintro ⟨q, hq, rfl⟩
    obtain ⟨hmem, hp⟩ := mem_filter.mp hq
    obtain ⟨⟨k, q'⟩, hentry, rfl⟩ := mem_map.mp hmem
    have hlookup : m.pending.lookup k = some q' := AList.mem_lookup_iff.mpr hentry
    exact ⟨q', (hid k q' hlookup).symm ▸ hlookup, hp⟩
  · rintro ⟨q, hlookup, hp⟩
    refine ⟨q, mem_filter.mpr ⟨mem_map.mpr ⟨⟨id, q⟩, ?_, rfl⟩, hp⟩, hid id q hlookup⟩
    exact AList.mem_lookup_iff.mp hlookup

omit [DecidableEq ι] in
theorem nodup_idsOf (hid : ∀ id p, m.pending.lookup id = some p → p.bundleId = id)
    (p : PendingTransmission → Bool) : (m.idsOf p).Nodup := by
  have hkeys : (m.pending.entries.map (·.2)).map (·.bundleId) = m.pending.entries.keys := by
    rw [map_map, keys]
    refine map_congr_left fun entry hentry => ?_
    exact hid entry.1 entry.2 (AList.mem_lookup_iff.mpr hentry)
  have hsublist : (m.idsOf p).Sublist m.pending.entries.keys := by
    rw [← hkeys]
    exact filter_sublist.map _
  exact Nodup.sublist hsublist m.pending.nodupKeys

/-- The state of a transmission after a call. -/
def after (p : PendingTransmission) (now : ℕ) : PendingTransmission :=
  if p.isDue now then p.attempt now else p

theorem after_of_due {p : PendingTransmission} {now : ℕ} (hleft : p.attempts < p.maxAttempts)
    (h : p.nextAttemptAt ≤ now) : after p now = p.attempt now :=
  if_pos (decide_eq_true ⟨h, hleft⟩)

theorem after_of_not_due {p : PendingTransmission} {now : ℕ} (h : ¬ p.nextAttemptAt ≤ now) :
    after p now = p :=
  if_neg fun hdue => h (of_decide_eq_true hdue).1

theorem after_bundleId (p : PendingTransmission) (now : ℕ) : (after p now).bundleId = p.bundleId := by
  rw [after]
  split <;> rfl

omit [DecidableEq ι] in
theorem mem_due (hkeyed : Keyed m) (now : ℕ) (id : BundleId) :
    id ∈ (m.dueForRetransmitAt now).1 ↔
      ∃ p, m.pending.lookup id = some p ∧ p.nextAttemptAt ≤ now := by
  show id ∈ m.idsOf (·.isDue now) ↔ _
  rw [mem_idsOf fun id p h => (hkeyed id p h).1]
  refine exists_congr fun p => and_congr_right fun hlookup => ?_
  simp [PendingTransmission.isDue, (hkeyed id p hlookup).2]

omit [DecidableEq ι] in
theorem lookup_due (hkeyed : Keyed m) (now : ℕ) (id : BundleId) (q : PendingTransmission) :
    (m.dueForRetransmitAt now).2.pending.lookup id = some q ↔
      ∃ p, m.pending.lookup id = some p ∧ q = after p now ∧ q.attempts < q.maxAttempts := by
  have hmiddle : ∀ id q, (m.pending.mapValues (after · now)).lookup id = some q →
      q.bundleId = id := by
    intro id q hq
    rw [Table.lookup_mapValues] at hq
    obtain ⟨p, hp, rfl⟩ := Option.map_eq_some_iff.mp hq
    rw [after_bundleId, (hkeyed id p hp).1]
  let middle : SendingNode ι := { m with pending := m.pending.mapValues (after · now) }
  show ((middle.idsOf (·.isExhausted)).foldl (fun pending id => pending.erase id)
    middle.pending).lookup id = some q ↔ _
  have hexhausted := mem_idsOf (m := middle) hmiddle (·.isExhausted) id
  rw [Table.lookup_foldl_erase_eq_some, hexhausted]
  constructor
  · rintro ⟨hkeep, hq⟩
    have hlookup := hq
    rw [Table.lookup_mapValues] at hlookup
    obtain ⟨p, hp, rfl⟩ := Option.map_eq_some_iff.mp hlookup
    refine ⟨p, hp, rfl, ?_⟩
    by_contra hlast
    exact hkeep ⟨_, hq, decide_eq_true (Nat.le_of_not_lt hlast)⟩
  · rintro ⟨p, hp, rfl, hlt⟩
    have hq : middle.pending.lookup id = some (after p now) := by
      rw [Table.lookup_mapValues, hp]
      rfl
    refine ⟨?_, hq⟩
    rintro ⟨q, hq', hlast⟩
    rw [hq] at hq'
    cases hq'
    exact absurd (of_decide_eq_true hlast) (Nat.not_le_of_lt hlt)

omit [DecidableEq ι] in
theorem notMem_failedBundles_due (hkeyed : Keyed m) (now : ℕ) (id : BundleId) :
    id ∉ (m.dueForRetransmitAt now).2.failedBundles := by
  intro hfailed
  have hlookup := lookup_due hkeyed now
  have hid : ∀ id q, (m.dueForRetransmitAt now).2.pending.lookup id = some q → q.bundleId = id := by
    intro id q hq
    obtain ⟨p, hp, rfl, -⟩ := (hlookup id q).mp hq
    rw [after_bundleId, (hkeyed id p hp).1]
  obtain ⟨q, hq, hexhausted⟩ := (mem_idsOf hid _ id).mp hfailed
  obtain ⟨-, -, -, hleft⟩ := (hlookup id q).mp hq
  exact absurd (of_decide_eq_true hexhausted) (Nat.not_le_of_lt hleft)

theorem acksFor_recordAck_of_ne {id id' : BundleId} (h : id ≠ id') {peer : ι} :
    (m.recordAck id' peer).2.acksFor id = m.acksFor id := by
  show ((m.acks.insert id' _).lookup id).getD [] = (m.acks.lookup id).getD []
  rw [AList.lookup_insert_ne h]

theorem acksFor_recordAck_ne_nil (m : SendingNode ι) (id : BundleId) (peer : ι) :
    (m.recordAck id peer).2.acksFor id ≠ [] := by
  show ((m.acks.insert id (if _ then _ else _)).lookup id).getD [] ≠ []
  rw [AList.lookup_insert, Option.getD_some]
  split
  · exact append_ne_nil_of_right_ne_nil _ (cons_ne_nil _ _)
  · rename_i hknown
    intro hnil
    rw [hnil] at hknown
    exact hknown rfl

end SendingNode

/-! ### Histories -/

variable {history : List (BundleEvent ι)} {id id' : BundleId} {peer : ι}

omit [DecidableEq ι] in
@[simp] theorem returnsOf_concat_tracked :
    returnsOf (history ++ [.tracked id']) id = returnsOf history id := by
  simp [returnsOf, returnOf]

omit [DecidableEq ι] in
@[simp] theorem returnsOf_concat_acked :
    returnsOf (history ++ [.acked id' peer]) id = returnsOf history id := by
  simp [returnsOf, returnOf]

omit [DecidableEq ι] in
theorem returnsOf_append_returned {due : List BundleId} (hnodup : due.Nodup) (now : ℕ) :
    returnsOf (history ++ due.map (.returned · now)) id =
      returnsOf history id ++ if id ∈ due then [now] else [] := by
  rw [returnsOf, filterMap_append, returnsOf]
  congr 1
  induction due with
  | nil => rfl
  | cons first due ih =>
      obtain ⟨hfirst, hrest⟩ := nodup_cons.mp hnodup
      rw [map_cons]
      by_cases hid : first = id
      · subst hid
        have hreturn : returnOf first (.returned first now : BundleEvent ι) = some now := if_pos rfl
        rw [filterMap_cons_some hreturn, ih hrest, if_neg hfirst, if_pos mem_cons_self]
      · have hreturn : returnOf id (.returned first now : BundleEvent ι) = none := if_neg hid
        rw [filterMap_cons_none hreturn, ih hrest]
        have hmem : id ∈ first :: due ↔ id ∈ due := by
          rw [mem_cons, or_iff_right (Ne.symm hid)]
        simp only [hmem]

omit [DecidableEq ι] in
@[simp] theorem tracked_concat {event : BundleEvent ι} :
    Tracked (history ++ [event]) id ↔ Tracked history id ∨ event = .tracked id := by
  simp [Tracked, eq_comm]

omit [DecidableEq ι] in
@[simp] theorem tracked_append_returned (due : List BundleId) (now : ℕ) :
    Tracked (history ++ due.map (.returned · now)) id ↔ Tracked history id := by
  simp [Tracked]

omit [DecidableEq ι] in
@[simp] theorem acked_concat_tracked : Acked (history ++ [.tracked id']) id ↔ Acked history id := by
  simp [Acked]

omit [DecidableEq ι] in
@[simp] theorem acked_concat_acked :
    Acked (history ++ [.acked id' peer]) id ↔ Acked history id ∨ id' = id := by
  simp only [Acked, mem_append, mem_singleton, BundleEvent.acked.injEq]
  constructor
  · rintro ⟨other, hold | ⟨rfl, rfl⟩⟩
    · exact .inl ⟨other, hold⟩
    · exact .inr rfl
  · rintro (⟨other, hold⟩ | rfl)
    · exact ⟨other, .inl hold⟩
    · exact ⟨peer, .inr ⟨rfl, rfl⟩⟩

omit [DecidableEq ι] in
@[simp] theorem acked_append_returned (due : List BundleId) (now : ℕ) :
    Acked (history ++ due.map (.returned · now)) id ↔ Acked history id := by
  simp [Acked]

theorem spaced_concat_iff {base : ℕ} {times : List ℕ} {now : ℕ} :
    Spaced base (times ++ [now]) ↔
      Spaced base times ∧ ∀ t ∈ times.getLast?, t + base * 2 ^ times.length ≤ now := by
  have hlast : times[times.length - 1]? = times.getLast? := getLast?_eq_getElem?.symm
  have hnow : (times ++ [now])[times.length]? = some now := getElem?_concat_length
  have hold : ∀ (i t : ℕ), times[i]? = some t → (times ++ [now])[i]? = some t := by
    intro i t ht
    rw [getElem?_append_left (List.getElem?_eq_some_iff.mp ht).1, ht]
  constructor
  · intro h
    refine ⟨fun i t t' ht ht' => h i t t' (hold i t ht) (hold (i + 1) t' ht'), fun t ht => ?_⟩
    rw [Option.mem_def, ← hlast] at ht
    have hlt := (List.getElem?_eq_some_iff.mp ht).1
    have hlength : times.length - 1 + 1 = times.length := by omega
    have hstep := h (times.length - 1) t now (hold _ t ht) (by rw [hlength, hnow])
    rwa [hlength] at hstep
  · rintro ⟨hspaced, hgap⟩ i t t' ht ht'
    have hlt := (List.getElem?_eq_some_iff.mp ht').1
    rw [length_append, length_singleton] at hlt
    rw [getElem?_append_left (by omega)] at ht
    rcases Nat.lt_or_eq_of_le (Nat.le_of_lt_succ hlt) with hinside | heq
    · rw [getElem?_append_left hinside] at ht'
      exact hspaced i t t' ht ht'
    · rw [heq, hnow] at ht'
      cases ht'
      have hi : times.length - 1 = i := by omega
      rw [← heq] at hgap
      exact hgap t (by rw [Option.mem_def, ← hlast, hi, ht])

/-! ### The invariant -/

/-- What is known of a bundle that waits. -/
structure Waits (r : MeshRun ι) (id : BundleId) (p : PendingTransmission) : Prop where
  bundleId : p.bundleId = id
  maxAttempts : p.maxAttempts = r.node.maxAttempts
  base : p.backoffBaseSecs = r.node.backoffBaseSecs
  attempts : p.attempts = (returnsOf r.history id).length
  next : ∀ t ∈ (returnsOf r.history id).getLast?,
    p.nextAttemptAt = saturating (t + saturating (p.backoffBaseSecs * 2 ^ p.attempts))

structure Kept (r : MeshRun ι) : Prop where
  maxAttempts : r.node.maxAttempts = 8
  waits : ∀ id p, r.node.pending.lookup id = some p → Waits r id p
  live : ∀ id, id ∈ r.node.pending ↔ Tracked r.history id ∧ ¬ Acked r.history id
  acks : ∀ id, r.node.acksFor id = [] ↔ ¬ Acked r.history id
  known : ∀ id, returnsOf r.history id ≠ [] → Tracked r.history id
  fewer : ∀ id, (returnsOf r.history id).length < r.node.maxAttempts
  spaced : ∀ id, Spaced r.node.backoffBaseSecs (returnsOf r.history id)
  quiet : r.history.Pairwise fun e e' => ∀ id peer now, e = .acked id peer → e' ≠ .returned id now

namespace Kept

variable {r : MeshRun ι}

omit [DecidableEq ι] in
theorem sound (h : Kept r) : r.Sound where
  atMost id := Nat.le_of_lt (h.fewer id)
  spaced := h.spaced
  quiet := h.quiet
  unacked id := by
    rw [SendingNode.isUnacked, decide_eq_true_iff]
    exact h.live id
  failed id _ _ hlast := absurd hlast (Nat.ne_of_lt (h.fewer id))

omit [DecidableEq ι] in
theorem keyed (h : Kept r) : Keyed r.node := by
  intro id p hp
  have hwaits := h.waits id p hp
  refine ⟨hwaits.bundleId, ?_⟩
  rw [hwaits.attempts, hwaits.maxAttempts]
  exact h.fewer id

omit [DecidableEq ι] in
theorem quiet_concat (h : Kept r) {event : BundleEvent ι} (hevent : ∀ id now, event ≠ .returned id now) :
    (r.history ++ [event]).Pairwise fun e e' =>
      ∀ id peer now, e = .acked id peer → e' ≠ .returned id now := by
  refine pairwise_append.mpr ⟨h.quiet, pairwise_singleton _ _, ?_⟩
  intro e _ e' he' id peer now _
  rw [mem_singleton.mp he']
  exact hevent id now

omit [DecidableEq ι] in
theorem returnsOf_eq_nil (h : Kept r) {id : BundleId} (hpending : id ∉ r.node.pending)
    (hfresh : ¬ Acked r.history id) : returnsOf r.history id = [] := by
  by_contra hreturned
  exact hpending ((h.live id).mpr ⟨h.known id hreturned, hfresh⟩)

variable {now : UInt64}

theorem trackBundleAt (h : Kept r) {bundle : Bundle ι}
    (hcareful : r.Careful (.trackBundleAt bundle now)) :
    Kept (r.step (.trackBundleAt bundle now)) := by
  have hfresh : ¬ Acked r.history bundle.bundleId := (h.acks _).mp hcareful
  have hpending : ∀ id, id ∈ (r.node.trackBundleAt bundle now.toNat).pending ↔
      id ∈ r.node.pending ∨ bundle.bundleId = id := by
    intro id
    show id ∈ (if _ then _ else _) ↔ _
    split
    · rename_i hold
      refine ⟨.inl, ?_⟩
      rintro (hmem | rfl)
      · exact hmem
      · exact hold
    · rw [AList.mem_insert, or_comm, eq_comm]
  constructor
  · exact h.maxAttempts
  · intro id p hp
    have hold : r.node.pending.lookup id = some p → Waits (r.step (.trackBundleAt bundle now)) id p := by
      intro hlookup
      have hwaits := h.waits id p hlookup
      refine ⟨hwaits.bundleId, hwaits.maxAttempts, hwaits.base, ?_, ?_⟩
      · exact hwaits.attempts.trans (congrArg length returnsOf_concat_tracked.symm)
      · intro t ht
        exact hwaits.next t (by rwa [MeshRun.step, returnsOf_concat_tracked] at ht)
    change (if _ then _ else _ : Table BundleId PendingTransmission).lookup id = some p at hp
    split at hp
    · exact hold hp
    · rename_i hnew
      rcases Table.lookup_insert_eq_some.mp hp with ⟨rfl, rfl⟩ | ⟨-, hlookup⟩
      · have hnone := h.returnsOf_eq_nil hnew hfresh
        have hnone' : returnsOf (r.step (.trackBundleAt bundle now)).history bundle.bundleId = [] :=
          returnsOf_concat_tracked.trans hnone
        refine ⟨rfl, rfl, rfl, ?_, ?_⟩
        · rw [hnone']
          rfl
        · rw [hnone']
          nofun
      · exact hold hlookup
  · intro id
    show id ∈ (r.node.trackBundleAt bundle now.toNat).pending ↔
      Tracked (r.history ++ [_]) id ∧ ¬ Acked (r.history ++ [_]) id
    rw [hpending, h.live, tracked_concat, acked_concat_tracked, BundleEvent.tracked.injEq]
    constructor
    · rintro (⟨htracked, hunacked⟩ | rfl)
      · exact ⟨.inl htracked, hunacked⟩
      · exact ⟨.inr rfl, hfresh⟩
    · rintro ⟨htracked | heq, hunacked⟩
      · exact .inl ⟨htracked, hunacked⟩
      · exact .inr heq
  · intro id
    show r.node.acksFor id = [] ↔ ¬ Acked (r.history ++ [_]) id
    rw [acked_concat_tracked]
    exact h.acks id
  · intro id hid
    show Tracked (r.history ++ [_]) id
    rw [MeshRun.step, returnsOf_concat_tracked] at hid
    exact tracked_concat.mpr (.inl (h.known id hid))
  · intro id
    rw [MeshRun.step, returnsOf_concat_tracked]
    exact h.fewer id
  · intro id
    rw [MeshRun.step, returnsOf_concat_tracked]
    exact h.spaced id
  · exact h.quiet_concat nofun

theorem recordAck (h : Kept r) (id' : BundleId) (peer : ι) : Kept (r.step (.recordAck id' peer)) := by
  constructor
  · exact h.maxAttempts
  · intro id p hp
    obtain ⟨-, hlookup⟩ := Table.lookup_erase_eq_some.mp hp
    have hwaits := h.waits id p hlookup
    refine ⟨hwaits.bundleId, hwaits.maxAttempts, hwaits.base, ?_, ?_⟩
    · exact hwaits.attempts.trans (congrArg length returnsOf_concat_acked.symm)
    · intro t ht
      exact hwaits.next t (by rwa [MeshRun.step, returnsOf_concat_acked] at ht)
  · intro id
    show id ∈ r.node.pending.erase id' ↔ Tracked (r.history ++ [_]) id ∧ ¬ Acked (r.history ++ [_]) id
    rw [AList.mem_erase, h.live, tracked_concat, acked_concat_acked, or_iff_left nofun, not_or]
    constructor
    · rintro ⟨hne, htracked, hunacked⟩
      exact ⟨htracked, hunacked, Ne.symm hne⟩
    · rintro ⟨htracked, hunacked, hne⟩
      exact ⟨Ne.symm hne, htracked, hunacked⟩
  · intro id
    show (r.node.recordAck id' peer).2.acksFor id = [] ↔ ¬ Acked (r.history ++ [_]) id
    rw [acked_concat_acked, not_or, ← h.acks]
    by_cases hid : id' = id
    · subst hid
      exact iff_of_false (r.node.acksFor_recordAck_ne_nil id' peer) fun hnot => hnot.2 rfl
    · rw [SendingNode.acksFor_recordAck_of_ne (Ne.symm hid)]
      exact (and_iff_left hid).symm
  · intro id hid
    rw [MeshRun.step, returnsOf_concat_acked] at hid
    exact tracked_concat.mpr (.inl (h.known id hid))
  · intro id
    rw [MeshRun.step, returnsOf_concat_acked]
    exact h.fewer id
  · intro id
    rw [MeshRun.step, returnsOf_concat_acked]
    exact h.spaced id
  · exact h.quiet_concat nofun

theorem returnsOf_due (h : Kept r) (now : UInt64) (id : BundleId) :
    returnsOf (r.step (.dueForRetransmitAt now)).history id =
      returnsOf r.history id ++
        if id ∈ (r.node.dueForRetransmitAt now.toNat).1 then [now.toNat] else [] := by
  have hnodup : (r.node.dueForRetransmitAt now.toNat).1.Nodup :=
    SendingNode.nodup_idsOf (fun id p hp => (h.keyed id p hp).1) _
  exact returnsOf_append_returned hnodup now.toNat

variable {p : PendingTransmission}

omit [DecidableEq ι] in
theorem live_of_lookup (h : Kept r) {id : BundleId} (hp : r.node.pending.lookup id = some p) :
    Tracked r.history id ∧ ¬ Acked r.history id :=
  (h.live id).mp (AList.lookup_isSome.mp (Option.isSome_iff_exists.mpr ⟨p, hp⟩))

omit [DecidableEq ι] in
theorem lookup_due (h : Kept r) (hcareful : r.Careful (.dueForRetransmitAt now)) (id : BundleId)
    (q : PendingTransmission) :
    (r.node.dueForRetransmitAt now.toNat).2.pending.lookup id = some q ↔
      ∃ p, r.node.pending.lookup id = some p ∧ q = SendingNode.after p now.toNat := by
  rw [SendingNode.lookup_due h.keyed]
  refine exists_congr fun p => and_congr_right fun hp => and_iff_left_of_imp ?_
  rintro rfl
  have hleft := (h.keyed id p hp).2
  by_cases hnext : p.nextAttemptAt ≤ now.toNat
  · rw [SendingNode.after_of_due hleft hnext]
    exact (hcareful id p hp hnext).1
  · rw [SendingNode.after_of_not_due hnext]
    exact hleft

theorem waits_due (h : Kept r) (hcareful : r.Careful (.dueForRetransmitAt now)) {id : BundleId}
    (hp : r.node.pending.lookup id = some p) :
    Waits (r.step (.dueForRetransmitAt now)) id (SendingNode.after p now.toNat) := by
  have hwaits := h.waits id p hp
  have hdue := SendingNode.mem_due h.keyed now.toNat id
  have hreturns := h.returnsOf_due now id
  by_cases hnext : p.nextAttemptAt ≤ now.toNat
  · rw [if_pos (hdue.mpr ⟨p, hp, hnext⟩)] at hreturns
    rw [SendingNode.after_of_due (h.keyed id p hp).2 hnext]
    refine ⟨hwaits.bundleId, hwaits.maxAttempts, hwaits.base, ?_, ?_⟩
    · rw [hreturns, length_append, ← hwaits.attempts]
      rfl
    · intro t ht
      rw [hreturns, getLast?_concat] at ht
      cases ht
      have hfew : p.attempts + 1 ≤ 16 := by
        have hlast := (hcareful id p hp hnext).1
        rw [hwaits.maxAttempts, h.maxAttempts] at hlast
        omega
      show saturating (_ + saturating (_ * 2 ^ min (p.attempts + 1) 16)) = _
      rw [Nat.min_eq_left hfew]
      rfl
  · have hout : id ∉ (r.node.dueForRetransmitAt now.toNat).1 := by
      intro hin
      obtain ⟨p', hp', hnext'⟩ := hdue.mp hin
      rw [hp] at hp'
      cases hp'
      exact hnext hnext'
    rw [if_neg hout, append_nil] at hreturns
    rw [SendingNode.after_of_not_due hnext]
    refine ⟨hwaits.bundleId, hwaits.maxAttempts, hwaits.base, ?_, ?_⟩
    · rw [hreturns, hwaits.attempts]
    · rw [hreturns]
      exact hwaits.next

omit [DecidableEq ι] in
theorem spaced_due (h : Kept r) (hcareful : r.Careful (.dueForRetransmitAt now)) {id : BundleId}
    (hp : r.node.pending.lookup id = some p) (hnext : p.nextAttemptAt ≤ now.toNat) :
    Spaced r.node.backoffBaseSecs (returnsOf r.history id ++ [now.toNat]) := by
  have hwaits := h.waits id p hp
  refine spaced_concat_iff.mpr ⟨h.spaced id, fun t ht => ?_⟩
  have hwait := hwaits.next t ht
  have hfits := (hcareful id p hp hnext).2 t ht
  rw [saturating, saturating] at hwait
  rw [← hwaits.base, ← hwaits.attempts]
  omega

theorem dueForRetransmitAt (h : Kept r) (hcareful : r.Careful (.dueForRetransmitAt now)) :
    Kept (r.step (.dueForRetransmitAt now)) := by
  have hdue := SendingNode.mem_due h.keyed now.toNat
  have hlookup := h.lookup_due hcareful
  have hmem : ∀ id, id ∈ (r.node.dueForRetransmitAt now.toNat).2.pending ↔ id ∈ r.node.pending := by
    intro id
    rw [← AList.lookup_isSome, ← AList.lookup_isSome, Option.isSome_iff_exists,
      Option.isSome_iff_exists]
    constructor
    · rintro ⟨q, hq⟩
      obtain ⟨p, hp, -⟩ := (hlookup id q).mp hq
      exact ⟨p, hp⟩
    · rintro ⟨p, hp⟩
      exact ⟨_, (hlookup id _).mpr ⟨p, hp, rfl⟩⟩
  have hlive : ∀ id ∈ (r.node.dueForRetransmitAt now.toNat).1,
      Tracked r.history id ∧ ¬ Acked r.history id := by
    intro id hid
    obtain ⟨p, hp, -⟩ := (hdue id).mp hid
    exact h.live_of_lookup hp
  constructor
  · exact h.maxAttempts
  · intro id q hq
    obtain ⟨p, hp, rfl⟩ := (hlookup id q).mp hq
    exact h.waits_due hcareful hp
  · intro id
    exact (hmem id).trans ((h.live id).trans
      (and_congr (tracked_append_returned _ _).symm (not_congr (acked_append_returned _ _).symm)))
  · intro id
    exact (h.acks id).trans (not_congr (acked_append_returned _ _).symm)
  · intro id hid
    rw [h.returnsOf_due] at hid
    refine (tracked_append_returned _ _).mpr ?_
    by_cases hin : id ∈ (r.node.dueForRetransmitAt now.toNat).1
    · exact (hlive id hin).1
    · rw [if_neg hin, append_nil] at hid
      exact h.known id hid
  · intro id
    rw [h.returnsOf_due]
    by_cases hin : id ∈ (r.node.dueForRetransmitAt now.toNat).1
    · obtain ⟨p, hp, hnext⟩ := (hdue id).mp hin
      have hlast := (hcareful id p hp hnext).1
      rw [(h.waits id p hp).attempts, (h.waits id p hp).maxAttempts] at hlast
      rw [if_pos hin, length_append]
      exact hlast
    · rw [if_neg hin, append_nil]
      exact h.fewer id
  · intro id
    rw [h.returnsOf_due]
    by_cases hin : id ∈ (r.node.dueForRetransmitAt now.toNat).1
    · obtain ⟨p, hp, hnext⟩ := (hdue id).mp hin
      rw [if_pos hin]
      exact h.spaced_due hcareful hp hnext
    · rw [if_neg hin, append_nil]
      exact h.spaced id
  · refine pairwise_append.mpr ⟨h.quiet, ?_, ?_⟩
    · refine pairwise_of_forall_mem_list fun e he e' _ id peer now' hacked => ?_
      obtain ⟨id', -, rfl⟩ := mem_map.mp he
      cases hacked
    · rintro e he e' he' id peer now' rfl hreturned
      obtain ⟨id', hin, rfl⟩ := mem_map.mp he'
      cases hreturned
      exact (hlive id hin).2 ⟨peer, he⟩

theorem step (h : Kept r) {c : MeshCall ι} (hcareful : r.Careful c) : Kept (r.step c) := by
  cases c with
  | trackBundleAt bundle now => exact h.trackBundleAt hcareful
  | dueForRetransmitAt now => exact h.dueForRetransmitAt hcareful
  | recordAck id peer => exact h.recordAck id peer

theorem careful_of_sound (h : Kept r) {c : MeshCall ι} (hsound : (r.step c).Sound) : r.Careful c := by
  cases c with
  | recordAck id peer => trivial
  | trackBundleAt bundle now =>
      refine (h.acks _).mpr fun hacked => ?_
      have hwaits : (r.step (.trackBundleAt bundle now)).node.isUnacked bundle.bundleId = true := by
        refine decide_eq_true ?_
        show bundle.bundleId ∈ (if _ then _ else _)
        split
        · assumption
        · exact (AList.mem_insert _).mpr (.inl rfl)
      exact ((hsound.unacked _).mp hwaits).2 (acked_concat_tracked.mpr hacked)
  | dueForRetransmitAt now =>
      intro id p hp hnext
      have hkeyed := h.keyed
      have hwaits := h.waits id p hp
      have hleft := (hkeyed id p hp).2
      have hin := (SendingNode.mem_due hkeyed now.toNat id).mpr ⟨p, hp, hnext⟩
      have hreturns := h.returnsOf_due now id
      rw [if_pos hin] at hreturns
      constructor
      · by_contra hlast
        obtain ⟨htracked, hunacked⟩ := h.live_of_lookup hp
        have hfailed : id ∈ (r.step (.dueForRetransmitAt now)).node.failedBundles := by
          refine hsound.failed id ((tracked_append_returned _ _).mpr htracked)
            (fun hacked => hunacked ((acked_append_returned _ _).mp hacked)) ?_
          rw [hreturns, length_append, ← hwaits.attempts]
          show p.attempts + 1 = r.node.maxAttempts
          rw [hwaits.maxAttempts] at hleft hlast
          omega
        exact SendingNode.notMem_failedBundles_due hkeyed now.toNat id hfailed
      · intro t ht
        have hspaced := hsound.spaced id
        rw [hreturns, spaced_concat_iff] at hspaced
        have hgap : t + r.node.backoffBaseSecs * 2 ^ (returnsOf r.history id).length ≤ now.toNat :=
          hspaced.2 t ht
        rw [← hwaits.base, ← hwaits.attempts] at hgap
        exact Nat.lt_of_le_of_lt hgap now.toNat_lt

end Kept

omit [DecidableEq ι] in
theorem kept_new (localId : ι) (peerExpirySecs beaconIntervalSecs backoffBaseSecs : ℕ) :
    Kept (MeshRun.new localId peerExpirySecs beaconIntervalSecs backoffBaseSecs) where
  maxAttempts := rfl
  waits id p hp := by cases hp
  live id := iff_of_false (AList.notMem_empty id) fun h => not_mem_nil h.1
  acks id := iff_of_true rfl fun ⟨peer, h⟩ => not_mem_nil h
  known id h := absurd rfl h
  fewer id := Nat.succ_pos 7
  spaced id i t t' ht := by cases ht
  quiet := .nil

/-- The promises hold along a run exactly if every call is careful. -/
theorem mesh_sound_iff (localId : ι) (peerExpirySecs beaconIntervalSecs backoffBaseSecs : ℕ)
    (calls : List (MeshCall ι)) :
    (∀ before later, calls = before ++ later →
        (before.foldl MeshRun.step
          (.new localId peerExpirySecs beaconIntervalSecs backoffBaseSecs)).Sound) ↔
      Always MeshRun.step MeshRun.Careful
        (.new localId peerExpirySecs beaconIntervalSecs backoffBaseSecs) calls :=
  forall_before_iff_of_invariant Kept (fun _ h => h.sound) (fun _ _ h hcareful => h.step hcareful)
    (fun _ _ h hsound => h.careful_of_sound hsound)
    (kept_new localId peerExpirySecs beaconIntervalSecs backoffBaseSecs) calls

def ninth : BundleId := List.Vector.replicate 32 9

/-- A bundle that nobody acknowledges, and eight calls after its waits. -/
def unanswered : List (MeshCall ℕ) :=
  .trackBundleAt ⟨ninth, 0, 0, 3600, [1, 2, 3], 0, 10⟩ 0 ::
    (range 8).map fun n => .dueForRetransmitAt (UInt64.ofNat (1000000 * (n + 1)))

/-- After the eighth the node has forgotten it. -/
theorem mesh_not_sound_unanswered :
    ¬ ∀ before later, unanswered = before ++ later →
      (before.foldl MeshRun.step (.new 1 120 30 5)).Sound := by
  intro h
  have hsound := h unanswered [] (append_nil _).symm
  have hhistory : (unanswered.foldl MeshRun.step (.new 1 120 30 5)).history =
      .tracked ninth :: (range 8).map fun n => .returned ninth (1000000 * (n + 1)) := by
    decide +kernel
  have hforgotten : (unanswered.foldl MeshRun.step (.new 1 120 30 5)).node.isUnacked ninth = false := by
    decide +kernel
  have hunacked := (hsound.unacked ninth).mpr
  rw [hhistory, hforgotten] at hunacked
  exact absurd (hunacked ⟨mem_cons_self, fun ⟨peer, hacked⟩ => by simp at hacked⟩) (by decide)

end Vantablack.Abos
