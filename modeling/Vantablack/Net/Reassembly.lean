import Vantablack.Lib.Ring
import Vantablack.Net.Coalesce
import Mathlib.Data.Vector.Mem

/-!
The reassembly buffer of `net/reassembly.rs`: 64 slots, one for each remainder of a group id.
A slot puts out its group's payload when two of the three shards are in.
-/

namespace Vantablack.Net

open Lib Layers

def ringSlots : ℕ := 64

/-! ### Slots -/

/-- Bit `i` of the mask is for shard `i`. -/
def maskBits (b0 b1 b2 : Bool) : UInt8 :=
  b0.toUInt8 ||| b1.toUInt8 <<< 1 ||| b2.toUInt8 <<< 2

def maskOf (shards : Fin 3 → Option ShardData) : UInt8 :=
  maskBits (shards 0).isSome (shards 1).isSome (shards 2).isSome

structure ReassemblySlot where
  groupId : UInt64
  payloadLen : UInt16
  receivedMask : UInt8
  completed : Bool
  shards : Fin 3 → Option ShardData
  receivedMask_eq : receivedMask = maskOf shards

def countOnes (mask : UInt8) : ℕ :=
  ((List.range 8).filter fun i => mask.toNat.testBit i).length

theorem maskOf_update {shards : Fin 3 → Option ShardData} {i : Fin 3} (data : ShardData)
    (hi : shards i = none) :
    maskOf (Function.update shards i (some data)) = maskOf shards ||| 1 <<< UInt8.ofNat i := by
  have hbits : ∀ b c : Bool, maskBits true b c = maskBits false b c ||| 1 <<< UInt8.ofNat 0 ∧
      maskBits b true c = maskBits b false c ||| 1 <<< UInt8.ofNat 1 ∧
      maskBits b c true = maskBits b c false ||| 1 <<< UInt8.ofNat 2 := by
    decide
  match i, hi with
  | 0, hi => simpa [maskOf, hi] using (hbits (shards 1).isSome (shards 2).isSome).1
  | 1, hi => simpa [maskOf, hi] using (hbits (shards 0).isSome (shards 2).isSome).2.1
  | 2, hi => simpa [maskOf, hi] using (hbits (shards 0).isSome (shards 1).isSome).2.2

theorem countOnes_maskBits (b0 b1 b2 : Bool) :
    countOnes (maskBits b0 b1 b2) = b0.toNat + b1.toNat + b2.toNat := by
  revert b0 b1 b2
  decide

namespace ReassemblySlot

def reset (groupId : UInt64) (payloadLen : UInt16) : ReassemblySlot where
  groupId := groupId
  payloadLen := payloadLen
  receivedMask := 0
  completed := false
  shards := fun _ => none
  receivedMask_eq := rfl

def empty : ReassemblySlot :=
  reset 0 0

/-- A shard is kept if it is the first with its index. -/
def store (slot : ReassemblySlot) (idx : Fin 3) (data : ShardData) : ReassemblySlot :=
  if h : slot.shards idx = none then
    { slot with
      shards := Function.update slot.shards idx (some data)
      receivedMask := slot.receivedMask ||| 1 <<< UInt8.ofNat idx
      receivedMask_eq := by rw [slot.receivedMask_eq, maskOf_update data h] }
  else slot

/-- The first `totalLen` bytes of the two data shards. -/
def joined (totalLen : ℕ) (d0 d1 : Bytes) : Bytes :=
  d0.take (min totalLen shardPayloadBytes) ++
    if shardPayloadBytes < totalLen then
      d1.take (min (totalLen - shardPayloadBytes) shardPayloadBytes)
    else []

/-- The payload, once two shards are in: from the data shards if both are there, else through
the erasure code. -/
def output (rs : ReedSolomon) (slot : ReassemblySlot) : Option Bytes :=
  let totalLen := slot.payloadLen.toNat
  if countOnes slot.receivedMask < 2 then none
  else
    match slot.shards 0, slot.shards 1 with
    | some d0, some d1 => some (joined totalLen d0.toList d1.toList)
    | _, _ =>
        match reconstruct rs [(slot.shards 0).map List.Vector.toList,
          (slot.shards 1).map List.Vector.toList, (slot.shards 2).map List.Vector.toList] with
        | some (some d0 :: some d1 :: _) => some (joined totalLen d0 d1)
        | _ => none

/-- What a shard does in the slot of its own group. -/
def feed (rs : ReedSolomon) (slot : ReassemblySlot) (idx : Fin 3) (data : ShardData) :
    ReassemblySlot × Option Bytes :=
  match (slot.store idx data).output rs with
  | some out => ({ slot.store idx data with completed := true }, some out)
  | none => (slot.store idx data, none)

theorem countOnes_receivedMask (slot : ReassemblySlot) :
    countOnes slot.receivedMask = (slot.shards 0).isSome.toNat + (slot.shards 1).isSome.toNat +
      (slot.shards 2).isSome.toNat := by
  rw [slot.receivedMask_eq, maskOf, countOnes_maskBits]

theorem groupId_store (slot : ReassemblySlot) (idx : Fin 3) (data : ShardData) :
    (slot.store idx data).groupId = slot.groupId := by
  unfold store
  split <;> rfl

theorem groupId_feed (rs : ReedSolomon) (slot : ReassemblySlot) (idx : Fin 3) (data : ShardData) :
    (slot.feed rs idx data).1.groupId = slot.groupId := by
  unfold feed
  split
  · exact groupId_store slot idx data
  · exact groupId_store slot idx data

end ReassemblySlot

/-! ### The buffer -/

def slotIdx (groupId : UInt64) : Fin ringSlots :=
  ⟨groupId.toNat % ringSlots, Nat.mod_lt _ (by decide)⟩

/-- Every slot in use holds a group it is the slot of. -/
structure ReassemblyBuffer where
  slots : Fin ringSlots → ReassemblySlot
  highestSeenGroup : UInt64
  placed : ∀ i, (slots i).groupId ≠ 0 → slotIdx (slots i).groupId = i

theorem ringSlots_le_sub {a b : UInt64} (hlt : a < b) (h : slotIdx a = slotIdx b) :
    ringSlots ≤ b.toNat - a.toNat := by
  have hmod : a.toNat % 64 = b.toNat % 64 := congrArg Fin.val h
  have hlt := UInt64.lt_iff_toNat_lt.mp hlt
  show 64 ≤ b.toNat - a.toNat
  omega

namespace ReassemblyBuffer

def new : ReassemblyBuffer where
  slots := fun _ => .empty
  highestSeenGroup := 0
  placed := fun _ h => absurd rfl h

/-- The slot of a group, after a shard of the group took it over if it had to. -/
def occupied (rx : ReassemblyBuffer) (shard : CoalescedShard) : ReassemblySlot :=
  if (rx.slots (slotIdx shard.groupId)).groupId = shard.groupId then
    rx.slots (slotIdx shard.groupId)
  else ReassemblySlot.reset shard.groupId shard.payloadLen

theorem groupId_occupied (rx : ReassemblyBuffer) (shard : CoalescedShard) :
    (rx.occupied shard).groupId = shard.groupId := by
  unfold occupied
  split
  · assumption
  · rfl

theorem placed_update (rx : ReassemblyBuffer) {slot : ReassemblySlot} {groupId : UInt64}
    (h : slot.groupId = groupId) (i : Fin ringSlots)
    (hi : (Function.update rx.slots (slotIdx groupId) slot i).groupId ≠ 0) :
    slotIdx (Function.update rx.slots (slotIdx groupId) slot i).groupId = i := by
  by_cases heq : i = slotIdx groupId
  · rw [heq, Function.update_self, h]
  · rw [Function.update_of_ne heq] at hi ⊢
    exact rx.placed i hi

/-- The buffer after the call, and what it returns. -/
def ingestShard (rs : ReedSolomon) (rx : ReassemblyBuffer) (shard : CoalescedShard) :
    ReassemblyBuffer × Option Bytes :=
  if h : shard.shardIdx.toNat < 3 then
    let slot := rx.slots (slotIdx shard.groupId)
    if slot.groupId = shard.groupId ∧ slot.completed then (rx, none)
    else if slot.groupId ≠ shard.groupId ∧ slot.groupId ≠ 0 ∧ shard.groupId < slot.groupId ∧
        slot.groupId - shard.groupId < UInt64.ofNat ringSlots then (rx, none)
    else
      let r := (rx.occupied shard).feed rs ⟨shard.shardIdx.toNat, h⟩ shard.data
      ({ slots := Function.update rx.slots (slotIdx shard.groupId) r.1
         highestSeenGroup := max rx.highestSeenGroup shard.groupId
         placed := rx.placed_update (by
          rw [ReassemblySlot.groupId_feed, rx.groupId_occupied]) }, r.2)
  else (rx, none)

/-- The payloads that a run returns, each with its group id. -/
def outputs (rs : ReedSolomon) : ReassemblyBuffer → List CoalescedShard → List (UInt64 × Bytes)
  | _, [] => []
  | rx, shard :: shards =>
      let r := rx.ingestShard rs shard
      (r.2.map fun out => (shard.groupId, out)).toList ++ outputs rs r.1 shards

end ReassemblyBuffer

/-! ### The buffer as a ring

Two ids in one slot are at least 64 apart, so the test for an outdated shard never holds: every
shard takes its slot over from any other group. -/

def ring (rs : ReedSolomon) : Ring (Fin ringSlots) UInt64 CoalescedShard ReassemblySlot Bytes where
  place := slotIdx
  key := CoalescedShard.groupId
  keyOf := ReassemblySlot.groupId
  fresh shard := .reset shard.groupId shard.payloadLen
  feed slot shard :=
    if h : shard.shardIdx.toNat < 3 ∧ slot.completed = false then
      slot.feed rs ⟨shard.shardIdx.toNat, h.1⟩ shard.data
    else (slot, none)
  keyOf_fresh _ := rfl
  keyOf_feed slot shard := by
    split
    · exact slot.groupId_feed rs _ _
    · rfl

namespace ReassemblyBuffer

variable {rs : ReedSolomon} {rx : ReassemblyBuffer} {shard : CoalescedShard}
  {arrivals : List CoalescedShard}

theorem not_outdated (rx : ReassemblyBuffer) (shard : CoalescedShard) :
    ¬ ((rx.slots (slotIdx shard.groupId)).groupId ≠ shard.groupId ∧
      (rx.slots (slotIdx shard.groupId)).groupId ≠ 0 ∧
      shard.groupId < (rx.slots (slotIdx shard.groupId)).groupId ∧
      (rx.slots (slotIdx shard.groupId)).groupId - shard.groupId < UInt64.ofNat ringSlots) := by
  rintro ⟨-, hne, hlt, hdist⟩
  have hfar := ringSlots_le_sub hlt (rx.placed _ hne).symm
  have hnear := UInt64.lt_iff_toNat_lt.mp hdist
  rw [UInt64.toNat_sub_of_le _ _ (le_of_lt hlt)] at hnear
  exact absurd hfar (not_le.mpr hnear)

theorem completed_occupied
    (h : ¬ ((rx.slots (slotIdx shard.groupId)).groupId = shard.groupId ∧
      (rx.slots (slotIdx shard.groupId)).completed = true)) :
    (rx.occupied shard).completed = false := by
  unfold occupied
  split
  · rename_i hid
    exact Bool.eq_false_iff.mpr fun hdone => h ⟨hid, hdone⟩
  · rfl

theorem ingestShard_eq_ring (rs : ReedSolomon) (rx : ReassemblyBuffer)
    (hidx : shard.shardIdx.toNat < 3) :
    (rx.ingestShard rs shard).1.slots = ((ring rs).ingest rx.slots shard).1 ∧
      (rx.ingestShard rs shard).2 = ((ring rs).ingest rx.slots shard).2 := by
  rw [ingestShard, dif_pos hidx]
  by_cases hdone : (rx.slots (slotIdx shard.groupId)).groupId = shard.groupId ∧
      (rx.slots (slotIdx shard.groupId)).completed = true
  · have hfeed : (ring rs).feed (rx.occupied shard) shard =
        (rx.slots (slotIdx shard.groupId), none) := by
      have hslot : rx.occupied shard = rx.slots (slotIdx shard.groupId) := if_pos hdone.1
      rw [hslot]
      exact dif_neg fun h => absurd hdone.2 (Bool.eq_false_iff.mp h.2)
    rw [if_pos hdone, Ring.ingest]
    show rx.slots = Function.update rx.slots _ ((ring rs).feed (rx.occupied shard) shard).1 ∧
      none = ((ring rs).feed (rx.occupied shard) shard).2
    rw [hfeed]
    exact ⟨(Function.update_eq_self _ _).symm, rfl⟩
  · have hfeed : (ring rs).feed (rx.occupied shard) shard =
        (rx.occupied shard).feed rs ⟨shard.shardIdx.toNat, hidx⟩ shard.data :=
      dif_pos ⟨hidx, completed_occupied hdone⟩
    rw [if_neg hdone, if_neg (rx.not_outdated shard), Ring.ingest]
    show Function.update rx.slots _ _ = Function.update rx.slots _
        ((ring rs).feed (rx.occupied shard) shard).1 ∧
      _ = ((ring rs).feed (rx.occupied shard) shard).2
    rw [hfeed]
    exact ⟨rfl, rfl⟩

theorem outputs_eq_ring (rx : ReassemblyBuffer)
    (harr : ∀ shard ∈ arrivals, shard.shardIdx.toNat < 3) :
    rx.outputs rs arrivals = (ring rs).outputs rx.slots arrivals := by
  induction arrivals generalizing rx with
  | nil => rfl
  | cons shard arrivals ih =>
      obtain ⟨hidx, harr⟩ := List.forall_mem_cons.mp harr
      obtain ⟨hslots, hout⟩ := ingestShard_eq_ring rs rx hidx
      rw [outputs, Ring.outputs, ih _ harr, hslots, hout]
      rfl

end ReassemblyBuffer

/-! ### At most one payload for a group -/

section Serve

variable {rs : ReedSolomon}

variable {slot : ReassemblySlot}

theorem ring_feed_completed (h : slot.completed = true) (shard : CoalescedShard) :
    (ring rs).feed slot shard = (slot, none) := by
  apply dif_neg
  rintro ⟨-, hopen⟩
  rw [h] at hopen
  cases hopen

theorem completed_ring_feed {shard : CoalescedShard} {out : Bytes}
    (h : ((ring rs).feed slot shard).2 = some out) :
    ((ring rs).feed slot shard).1.completed = true := by
  by_cases hopen : shard.shardIdx.toNat < 3 ∧ slot.completed = false
  · have hfeed : (ring rs).feed slot shard =
        slot.feed rs ⟨shard.shardIdx.toNat, hopen.1⟩ shard.data := dif_pos hopen
    rw [hfeed, ReassemblySlot.feed] at h ⊢
    split at h
    · rfl
    · cases h
  · have hfeed : (ring rs).feed slot shard = (slot, none) := dif_neg hopen
    rw [hfeed] at h
    cases h

theorem serve_completed (h : slot.completed = true) (arrivals : List CoalescedShard) :
    (ring rs).serve (some slot) arrivals = [] := by
  induction arrivals with
  | nil => rfl
  | cons shard arrivals ih =>
      rw [Ring.serve, Option.getD_some, ring_feed_completed h]
      exact ih

theorem length_serve_le_one (rs : ReedSolomon) (slot : Option ReassemblySlot)
    (arrivals : List CoalescedShard) : ((ring rs).serve slot arrivals).length ≤ 1 := by
  induction arrivals generalizing slot with
  | nil => exact Nat.zero_le 1
  | cons shard arrivals ih =>
      rw [Ring.serve]
      cases hout : ((ring rs).feed (slot.getD ((ring rs).fresh shard)) shard).2 with
      | none => exact ih _
      | some out => rw [serve_completed (completed_ring_feed hout)]; rfl

end Serve

namespace ReassemblyBuffer

variable {rs : ReedSolomon} {rx : ReassemblyBuffer} {shard : CoalescedShard}
  {arrivals : List CoalescedShard}

/-- The shard leaves every slot that holds a newer group as it is. -/
def KeepsNewer (rs : ReedSolomon) (rx : ReassemblyBuffer) (shard : CoalescedShard) : Prop :=
  ∀ i, shard.groupId < (rx.slots i).groupId →
    (rx.ingestShard rs shard).1.slots i = rx.slots i

/-- No shard arrives after one of a later group with the same slot. -/
def InOrder (arrivals : List CoalescedShard) : Prop :=
  arrivals.Pairwise fun a b =>
    a.groupId.toNat % ringSlots = b.groupId.toNat % ringSlots → a.groupId ≤ b.groupId

theorem inOrder_iff_ring (rs : ReedSolomon) : InOrder arrivals ↔ (ring rs).InOrder arrivals := by
  apply List.Pairwise.iff
  intro a b
  apply imp_congr_left
  show (slotIdx a.groupId).val = (slotIdx b.groupId).val ↔ slotIdx a.groupId = slotIdx b.groupId
  exact Fin.ext_iff.symm

theorem keepsNewer_iff (rx : ReassemblyBuffer) (hidx : shard.shardIdx.toNat < 3) :
    rx.KeepsNewer rs shard ↔ (rx.slots (slotIdx shard.groupId)).groupId ≤ shard.groupId := by
  have hslots := (ingestShard_eq_ring rs rx hidx).1
  constructor
  · intro hkeeps
    by_contra hlt
    have hsame := hkeeps _ (not_le.mp hlt)
    have hid := (ring rs).keyOf_ingest_place rx.slots shard
    rw [← hslots] at hid
    have hid : ((rx.ingestShard rs shard).1.slots (slotIdx shard.groupId)).groupId =
      shard.groupId := hid
    rw [hsame] at hid
    exact hlt hid.le
  · intro hle i hlt
    have hne : i ≠ slotIdx shard.groupId := by
      rintro rfl
      exact absurd hle (not_le.mpr hlt)
    rw [hslots]
    exact (ring rs).ingest_of_ne hne

theorem always_keepsNewer_iff_ring (rx : ReassemblyBuffer)
    (harr : ∀ shard ∈ arrivals, shard.shardIdx.toNat < 3) :
    Always (fun rx shard => (rx.ingestShard rs shard).1) (KeepsNewer rs) rx arrivals ↔
      Always (fun slots shard => ((ring rs).ingest slots shard).1)
        (fun slots shard => (slots (slotIdx shard.groupId)).groupId ≤ shard.groupId)
        rx.slots arrivals := by
  induction arrivals generalizing rx with
  | nil => exact Iff.rfl
  | cons shard arrivals ih =>
      obtain ⟨hidx, harr⟩ := List.forall_mem_cons.mp harr
      rw [always_cons, always_cons, keepsNewer_iff rx hidx, ih _ harr,
        (ingestShard_eq_ring rs rx hidx).1]

theorem keyOf_new_le (rs : ReedSolomon) (arrivals : List CoalescedShard) :
    ∀ shard ∈ arrivals, (ring rs).keyOf (new.slots ((ring rs).place ((ring rs).key shard))) ≤
      (ring rs).key shard := by
  intro shard _
  exact UInt64.zero_le

theorem always_keepsNewer_iff (harr : ∀ shard ∈ arrivals, shard.shardIdx.toNat < 3) :
    Always (fun rx shard => (rx.ingestShard rs shard).1) (KeepsNewer rs) new arrivals ↔
      InOrder arrivals := by
  rw [always_keepsNewer_iff_ring new harr, inOrder_iff_ring rs]
  exact ((ring rs).always_le_iff _ arrivals).trans (and_iff_right (keyOf_new_le rs arrivals))

theorem nodup_outputs (rs : ReedSolomon)
    (harr : ∀ shard ∈ arrivals, shard.shardIdx.toNat < 3) (horder : InOrder arrivals) :
    ((new.outputs rs arrivals).map Prod.fst).Nodup := by
  rw [outputs_eq_ring new harr]
  apply (ring rs).nodup_outputs (keyOf_new_le rs arrivals) ((inOrder_iff_ring rs).mp horder)
  intro k
  exact length_serve_le_one rs _ _

/-- Whatever the order, loss and duplication of the shards of a queue's groups: every group is
put out at most once and no slot goes back to an older group exactly when no shard arrives after
one of a later group in the same slot. -/
theorem once_and_forward_iff_inOrder (rs : ReedSolomon) (maxBatchSize timeout now : ℕ)
    (ops : List QueueOp) (q : CoalescingQueue) (groups : List CodingGroup)
    (hrun : QueueOp.runAll rs (.new maxBatchSize timeout now) ops = some (q, groups))
    (arrivals : List CoalescedShard)
    (harr : ∀ shard ∈ arrivals, ∃ group ∈ groups, shard ∈ group.toList) :
    ((new.outputs rs arrivals).map Prod.fst).Nodup ∧
        Always (fun rx shard => (rx.ingestShard rs shard).1) (KeepsNewer rs) new arrivals ↔
      InOrder arrivals := by
  obtain ⟨-, sent, hemits, -⟩ := QueueOp.runAll_gathers hrun
  have hidx : ∀ shard ∈ arrivals, shard.shardIdx.toNat < 3 := by
    intro shard hshard
    exact hemits.shardIdx_lt (harr shard hshard)
  rw [always_keepsNewer_iff hidx]
  exact and_iff_right_of_imp (nodup_outputs rs hidx)

/-- The groups of 65 bytes pushed to a queue of batch size 1. -/
def singleByteGroups : List CodingGroup :=
  (List.range 65).map fun i => codingGroup galois8 (UInt64.ofNat (i + 1)) 0 [0]

/-- Shards of the groups 1 and 65, which share a slot. The last two are late ones of group 1. -/
def lateArrivals : List CoalescedShard :=
  let first := codingGroup galois8 1 0 [0]
  let last := codingGroup galois8 65 0 [0]
  [first.get 0, first.get 1, last.get 0, first.get 2, first.get 0]

theorem runAll_singleByteGroups :
    ∃ q, QueueOp.runAll galois8 (.new 1 0 0) [.push (List.replicate 65 0) false 0] =
      some (q, singleByteGroups) :=
  ⟨_, rfl⟩

theorem lateArrivals_emitted :
    ∀ shard ∈ lateArrivals, ∃ group ∈ singleByteGroups, shard ∈ group.toList := by
  have hfirst : codingGroup galois8 1 0 [0] ∈ singleByteGroups :=
    List.mem_map.mpr ⟨0, by decide, rfl⟩
  have hlast : codingGroup galois8 65 0 [0] ∈ singleByteGroups :=
    List.mem_map.mpr ⟨64, by decide, rfl⟩
  simp only [lateArrivals, List.forall_mem_cons, List.not_mem_nil, false_implies, implies_true,
    and_true]
  refine ⟨⟨_, hfirst, ?_⟩, ⟨_, hfirst, ?_⟩, ⟨_, hlast, ?_⟩, ⟨_, hfirst, ?_⟩, ⟨_, hfirst, ?_⟩⟩ <;>
    exact List.Vector.get_mem _ _

theorem once_and_forward_of_shared_slot :
    ∃ q, QueueOp.runAll galois8 (.new 1 0 0) [.push (List.replicate 65 0) false 0] =
        some (q, singleByteGroups) ∧
      (((new.outputs galois8 (lateArrivals.take 3)).map Prod.fst).Nodup ∧
          Always (fun rx shard => (rx.ingestShard galois8 shard).1) (KeepsNewer galois8) new
            (lateArrivals.take 3) ↔
        InOrder (lateArrivals.take 3)) := by
  obtain ⟨q, hrun⟩ := runAll_singleByteGroups
  refine ⟨q, hrun, once_and_forward_iff_inOrder galois8 1 0 0 _ q _ hrun _ ?_⟩
  intro shard hshard
  exact lateArrivals_emitted shard (List.mem_of_mem_take hshard)

theorem late_shards_repeat_group :
    (∃ q, QueueOp.runAll galois8 (.new 1 0 0) [.push (List.replicate 65 0) false 0] =
        some (q, singleByteGroups)) ∧
      (∀ shard ∈ lateArrivals, ∃ group ∈ singleByteGroups, shard ∈ group.toList) ∧
      (new.outputs galois8 lateArrivals).map Prod.fst = [1, 1] ∧
      ¬ Always (fun rx shard => (rx.ingestShard galois8 shard).1) (KeepsNewer galois8) new
        lateArrivals := by
  refine ⟨runAll_singleByteGroups, lateArrivals_emitted, by decide +kernel, ?_⟩
  have hidx : ∀ shard ∈ lateArrivals, shard.shardIdx.toNat < 3 := by decide +kernel
  rw [always_keepsNewer_iff hidx, InOrder]
  decide +kernel

end ReassemblyBuffer

end Vantablack.Net
