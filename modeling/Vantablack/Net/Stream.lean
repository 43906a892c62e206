import Vantablack.Net.Reassembly
import Mathlib.Data.List.Nodup
import Mathlib.Tactic.FinCases

/-!
From the coalescing queue to the reassembly buffer: when two shards of every group arrive, and
none of them arrives after a shard 64 or more ids later, the payloads in the order of their ids
are the pushed bytes.
-/

namespace Vantablack.Net

open Lib Layers List ReassemblyBuffer CoalescedShard

/-! ### The slot of one group -/

section Group

variable {rs : ReedSolomon} {batch : Bytes}

theorem toList_parityShard (hrs : rs.Lawful) (batch : Bytes) :
    (parityShard rs batch).toList =
      rs.parity (dataShard0 batch).toList (dataShard1 batch).toList := by
  apply Block.toList_zeroPadded_of_length
  rw [hrs.length_parity _ _ (by rw [List.Vector.toList_length, List.Vector.toList_length]),
    List.Vector.toList_length]

theorem joined_dataShards (hlen : batch.length ≤ coalesceTargetBytes) :
    ReassemblySlot.joined batch.length (dataShard0 batch).toList (dataShard1 batch).toList =
      batch := by
  have hlen : batch.length ≤ 984 := hlen
  have hlow : (dataShard0 batch).toList.take (min batch.length shardPayloadBytes) =
      batch.take shardPayloadBytes := by
    have hk : min batch.length shardPayloadBytes = (batch.take shardPayloadBytes).length := by
      rw [length_take, min_comm]
    rw [dataShard0, hk, Block.take_zeroPadded le_rfl (length_take_le _ _), take_length]
  rw [ReassemblySlot.joined, hlow]
  split
  · have hhigh : (batch.drop shardPayloadBytes).length = batch.length - shardPayloadBytes :=
      length_drop
    have hfit : batch.length - shardPayloadBytes ≤ shardPayloadBytes := by
      show batch.length - 492 ≤ 492
      omega
    rw [dataShard1, take_of_length_le (hhigh.le.trans hfit), min_eq_left hfit, ← hhigh,
      Block.take_zeroPadded le_rfl (hhigh.le.trans hfit), take_length, take_append_drop]
  · rename_i hshort
    rw [append_nil, take_of_length_le (not_lt.mp hshort)]

/-- How many shards are present. -/
def tally (present : Fin 3 → Bool) : ℕ :=
  (present 0).toNat + (present 1).toNat + (present 2).toNat

variable {present : Fin 3 → Bool}

theorem two_le_tally {i j : Fin 3} (hi : present i = true) (hj : present j = true) (hij : i ≠ j) :
    2 ≤ tally present := by
  unfold tally
  fin_cases i <;> fin_cases j <;> simp_all

theorem tally_mono {present' : Fin 3 → Bool} (h : ∀ i, present i = true → present' i = true) :
    tally present ≤ tally present' := by
  have hle (i : Fin 3) : (present i).toNat ≤ (present' i).toNat :=
    Bool.toNat_le_toNat (Bool.le_iff_imp.mpr (h i))
  exact Nat.add_le_add (Nat.add_le_add (hle 0) (hle 1)) (hle 2)

/-- The slot holds the shards of the batch that `present` names, and no others. -/
structure Holds (rs : ReedSolomon) (batch : Bytes) (present : Fin 3 → Bool)
    (slot : ReassemblySlot) : Prop where
  payloadLen : slot.payloadLen.toNat = batch.length
  shards : ∀ i, slot.shards i = if present i then some (groupData rs batch i) else none

theorem reconstruct_high (hrs : rs.Lawful) (batch : Bytes) :
    reconstruct rs [some (dataShard0 batch).toList, none, some (parityShard rs batch).toList] =
      some [some (dataShard0 batch).toList, some (dataShard1 batch).toList,
        some (parityShard rs batch).toList] := by
  have hne : (dataShard0 batch).toList.isEmpty = false := by
    rw [isEmpty_eq_false_iff, ← length_pos_iff, List.Vector.toList_length]
    decide
  have hlen : (dataShard0 batch).toList.length = (dataShard1 batch).toList.length := by
    rw [List.Vector.toList_length, List.Vector.toList_length]
  rw [reconstruct, hne, toList_parityShard hrs, hrs.recoverHigh_parity _ _ hlen]
  rfl

theorem reconstruct_low (hrs : rs.Lawful) (batch : Bytes) :
    reconstruct rs [none, some (dataShard1 batch).toList, some (parityShard rs batch).toList] =
      some [some (dataShard0 batch).toList, some (dataShard1 batch).toList,
        some (parityShard rs batch).toList] := by
  have hne : (dataShard1 batch).toList.isEmpty = false := by
    rw [isEmpty_eq_false_iff, ← length_pos_iff, List.Vector.toList_length]
    decide
  have hlen : (dataShard0 batch).toList.length = (dataShard1 batch).toList.length := by
    rw [List.Vector.toList_length, List.Vector.toList_length]
  rw [reconstruct, hne, toList_parityShard hrs, hrs.recoverLow_parity _ _ hlen]
  rfl

theorem Holds.output_eq (hrs : rs.Lawful) (hlen : batch.length ≤ coalesceTargetBytes)
    {slot : ReassemblySlot} (h : Holds rs batch present slot) :
    slot.output rs = if tally present < 2 then none else some batch := by
  have h0 := h.shards 0
  have h1 := h.shards 1
  have h2 := h.shards 2
  rw [ReassemblySlot.output, slot.countOnes_receivedMask, h0, h1, h2, h.payloadLen]
  have hjoined := joined_dataShards hlen
  unfold tally
  cases present 0 <;> cases present 1 <;> cases present 2
  case false.true.true => simp [groupData, reconstruct_low hrs, hjoined]
  case true.false.true => simp [groupData, reconstruct_high hrs, hjoined]
  case true.true.false => simp [groupData, hjoined]
  case true.true.true => simp [groupData, hjoined]
  all_goals rfl

structure IsShardOf (rs : ReedSolomon) (groupId : UInt64) (batch : Bytes)
    (shard : CoalescedShard) : Prop where
  groupId : shard.groupId = groupId
  payloadLen : shard.payloadLen = UInt16.ofNat batch.length
  data : ∃ hidx : shard.shardIdx.toNat < 3, shard.data = groupData rs batch ⟨_, hidx⟩

variable {groupId : UInt64} {shard : CoalescedShard} {slot : ReassemblySlot} {i : Fin 3}

theorem Holds.store (h : Holds rs batch present slot) (i : Fin 3) :
    Holds rs batch (Function.update present i true) (slot.store i (groupData rs batch i)) := by
  by_cases hi : slot.shards i = none
  · rw [ReassemblySlot.store, dif_pos hi]
    refine ⟨h.payloadLen, ?_⟩
    intro j
    by_cases hj : j = i
    · subst hj
      show Function.update slot.shards j _ j = _
      rw [Function.update_self, Function.update_self, if_pos rfl]
    · show Function.update slot.shards i _ j = _
      rw [Function.update_of_ne hj, Function.update_of_ne hj, h.shards j]
  · rw [ReassemblySlot.store, dif_neg hi]
    have hpresent : present i = true := by
      by_contra hfalse
      rw [h.shards i, if_neg hfalse] at hi
      exact hi rfl
    rwa [← hpresent, Function.update_eq_self]

theorem completed_store (slot : ReassemblySlot) (i : Fin 3) (data : ShardData) :
    (slot.store i data).completed = slot.completed := by
  unfold ReassemblySlot.store
  split <;> rfl

theorem Holds.ring_feed (hrs : rs.Lawful) (hlen : batch.length ≤ coalesceTargetBytes)
    (h : Holds rs batch present slot) (hopen : slot.completed = false)
    (hidx : shard.shardIdx.toNat < 3) (hdata : shard.data = groupData rs batch ⟨_, hidx⟩) :
    (ring rs).feed slot shard =
      if tally (Function.update present ⟨_, hidx⟩ true) < 2 then
        (slot.store ⟨_, hidx⟩ shard.data, none)
      else ({ slot.store ⟨_, hidx⟩ shard.data with completed := true }, some batch) := by
  have hstore := h.store ⟨_, hidx⟩
  rw [← hdata] at hstore
  have hout := hstore.output_eq hrs hlen
  have hfeed : (ring rs).feed slot shard = slot.feed rs ⟨_, hidx⟩ shard.data :=
    dif_pos ⟨hidx, hopen⟩
  rw [hfeed, ReassemblySlot.feed, hout]
  by_cases hwait : tally (Function.update present ⟨_, hidx⟩ true) < 2
  · rw [if_pos hwait, if_pos hwait]
  · rw [if_neg hwait, if_neg hwait]

/-- The shards that are present once the arrivals are in. -/
def presentAfter (present : Fin 3 → Bool) (arrivals : List CoalescedShard) (i : Fin 3) : Bool :=
  present i || arrivals.any fun shard => shard.shardIdx.toNat = i

theorem presentAfter_cons (present : Fin 3 → Bool) (hidx : shard.shardIdx.toNat < 3)
    (arrivals : List CoalescedShard) :
    presentAfter present (shard :: arrivals) =
      presentAfter (Function.update present ⟨_, hidx⟩ true) arrivals := by
  funext i
  rw [presentAfter, presentAfter, any_cons]
  by_cases hi : i = ⟨_, hidx⟩
  · simp [hi]
  · have hne : shard.shardIdx.toNat ≠ i := fun h => hi (Fin.ext h.symm)
    simp [Function.update_of_ne hi, hne]

theorem Holds.serve (hrs : rs.Lawful) (hlen : batch.length ≤ coalesceTargetBytes)
    (h : Holds rs batch present slot) (hopen : slot.completed = false) (hfew : tally present < 2)
    {arrivals : List CoalescedShard} (harr : ∀ shard ∈ arrivals, IsShardOf rs groupId batch shard) :
    (ring rs).serve (some slot) arrivals =
      if tally (presentAfter present arrivals) < 2 then [] else [batch] := by
  induction arrivals generalizing slot present with
  | nil =>
      have hsame : presentAfter present [] = present := by
        funext i
        simp [presentAfter]
      rw [hsame, if_pos hfew]
      rfl
  | cons shard arrivals ih =>
      obtain ⟨hshard, harr⟩ := forall_mem_cons.mp harr
      obtain ⟨hidx, hdata⟩ := hshard.data
      rw [Ring.serve, Option.getD_some, h.ring_feed hrs hlen hopen hidx hdata,
        presentAfter_cons present hidx]
      by_cases hwait : tally (Function.update present ⟨_, hidx⟩ true) < 2
      · rw [if_pos hwait]
        have hstore := h.store ⟨_, hidx⟩
        rw [← hdata] at hstore
        refine ih hstore ?_ hwait harr
        rw [completed_store, hopen]
      · rw [if_neg hwait]
        have hmany : tally (Function.update present ⟨_, hidx⟩ true) ≤
            tally (presentAfter (Function.update present ⟨_, hidx⟩ true) arrivals) := by
          apply tally_mono
          intro i hi
          rw [presentAfter, hi]
          rfl
        rw [if_neg (by omega), serve_completed rfl]
        rfl

theorem holds_reset (rs : ReedSolomon) (groupId : UInt64)
    (hlen : batch.length ≤ coalesceTargetBytes) :
    Holds rs batch (fun _ => false) (.reset groupId (UInt16.ofNat batch.length)) := by
  have hlen : batch.length ≤ 984 := hlen
  refine ⟨?_, fun _ => rfl⟩
  show (UInt16.ofNat batch.length).toNat = batch.length
  rw [UInt16.toNat_ofNat']
  omega

theorem serve_batch (hrs : rs.Lawful) (hlen : batch.length ≤ coalesceTargetBytes)
    {arrivals : List CoalescedShard} (harr : ∀ shard ∈ arrivals, IsShardOf rs groupId batch shard)
    {a b : CoalescedShard} (ha : a ∈ arrivals) (hb : b ∈ arrivals)
    (hab : a.shardIdx ≠ b.shardIdx) : (ring rs).serve none arrivals = [batch] := by
  have hfresh : (ring rs).serve none arrivals =
      (ring rs).serve (some (.reset groupId (UInt16.ofNat batch.length))) arrivals := by
    cases arrivals with
    | nil => rfl
    | cons shard arrivals =>
        obtain ⟨hid, hpayload, -⟩ := harr shard mem_cons_self
        rw [Ring.serve, Ring.serve, Option.getD_none, Option.getD_some, ← hid, ← hpayload]
        rfl
  rw [hfresh, (holds_reset rs groupId hlen).serve hrs hlen rfl (by decide) harr, if_neg]
  rw [not_lt]
  have hpresent {c : CoalescedShard} (hc : c ∈ arrivals) (hidx : c.shardIdx.toNat < 3) :
      presentAfter (fun _ => false) arrivals ⟨_, hidx⟩ = true := by
    rw [presentAfter, Bool.false_or, any_eq_true]
    exact ⟨c, hc, by simp⟩
  apply two_le_tally (hpresent ha (harr a ha).data.1) (hpresent hb (harr b hb).data.1)
  intro heq
  have hidx : a.shardIdx.toNat = b.shardIdx.toNat := Fin.mk.inj heq
  exact hab (UInt8.toNat_inj.mp hidx)

end Group

theorem toNat_succId {id : UInt64} (h : id.toNat + 1 < 2 ^ 64) :
    (CoalescingQueue.succId id).toNat = id.toNat + 1 := by
  have hnat : (id + 1).toNat = id.toNat + 1 := by
    rw [UInt64.toNat_add]
    exact Nat.mod_eq_of_lt h
  have hne : id + 1 ≠ 0 := by
    intro hzero
    rw [hzero] at hnat
    cases hnat
  rw [CoalescingQueue.succId, if_neg hne, hnat]

theorem Emits.ids_increasing {rs : ReedSolomon} {m : ℕ} {id id' : UInt64}
    {sent : List (UInt64 × Bytes)} {groups : List CodingGroup}
    (h : Emits rs m id sent groups id') (hlen : id.toNat + sent.length ≤ 2 ^ 64) :
    (∀ p ∈ sent, id ≤ p.1) ∧ sent.Pairwise fun p p' => p.1 < p'.1 := by
  induction h with
  | nil => exact ⟨by simp, .nil⟩
  | @cons id id' batch sent groups flags hbatch h ih =>
      rw [length_cons] at hlen
      cases sent with
      | nil => exact ⟨by simp, pairwise_singleton _ _⟩
      | cons p sent =>
          rw [length_cons] at hlen ih
          have hsucc : (CoalescingQueue.succId id).toNat = id.toNat + 1 :=
            toNat_succId (by omega)
          obtain ⟨hge, hpair⟩ := ih (by omega)
          have hlt : ∀ p' ∈ p :: sent, id < p'.1 := by
            intro p' hp'
            have hle := UInt64.le_iff_toNat_le.mp (hge p' hp')
            rw [UInt64.lt_iff_toNat_lt]
            omega
          refine ⟨?_, pairwise_cons.mpr ⟨hlt, hpair⟩⟩
          intro p' hp'
          rcases mem_cons.mp hp' with rfl | hp'
          · exact le_rfl
          · exact (hlt p' hp').le

/-! ### The stream -/

/-- A shard on its way: written to a buffer, and read from it. -/
def transfer (buf : Bytes) (shard : CoalescedShard) : Option CoalescedShard :=
  match shard.serializeInto buf with
  | .ok (out, _) => deserialize out
  | .error _ => none

theorem transfer_eq {buf : Bytes} (hbuf : totalLen ≤ buf.length)
    (shard : CoalescedShard) : transfer buf shard = some shard := by
  have hok : shard.serializeInto buf = .ok _ := if_neg (not_lt.mpr hbuf)
  rw [transfer, hok]
  exact deserialize_serializeInto hok

section Window

variable {rs : ReedSolomon} {m : ℕ} {id' : UInt64} {sent : List (UInt64 × Bytes)}
  {groups : List CodingGroup} {arrivals : List CoalescedShard}

/-- No shard arrives after one of a group 64 or more ids later. -/
def InWindow (arrivals : List CoalescedShard) : Prop :=
  arrivals.Pairwise fun a b => a.groupId.toNat < b.groupId.toNat + ringSlots

theorem InWindow.inOrder (h : InWindow arrivals) : InOrder arrivals := by
  refine h.imp ?_
  intro a b hlt hmod
  have hlt : a.groupId.toNat < b.groupId.toNat + 64 := hlt
  have hmod : a.groupId.toNat % 64 = b.groupId.toNat % 64 := hmod
  rw [UInt64.le_iff_toNat_le]
  omega

theorem isShardOf_codingGroup {groupId : UInt64} {flags : UInt8} {batch : Bytes}
    {shard : CoalescedShard} (h : shard ∈ (codingGroup rs groupId flags batch).toList) :
    IsShardOf rs groupId batch shard := by
  obtain ⟨hid, hpayload, hdata⟩ := mem_codingGroup h
  exact ⟨hid, hpayload, hdata⟩

theorem shardIdx_ne_of_ne {groupId : UInt64} {flags : UInt8} {batch : Bytes}
    {a b : CoalescedShard} (ha : a ∈ (codingGroup rs groupId flags batch).toList)
    (hb : b ∈ (codingGroup rs groupId flags batch).toList) (hab : a ≠ b) :
    a.shardIdx ≠ b.shardIdx := by
  simp only [codingGroup, List.Vector.toList_mk, mem_cons, not_mem_nil, or_false]
    at ha hb
  rcases ha with rfl | rfl | rfl <;> rcases hb with rfl | rfl | rfl
  all_goals first | exact absurd rfl hab | simp

theorem Emits.isShardOf (h : Emits rs m 1 sent groups id') (hids : (sent.map Prod.fst).Nodup)
    {shard : CoalescedShard} (hshard : ∃ group ∈ groups, shard ∈ group.toList)
    {p : UInt64 × Bytes} (hp : p ∈ sent) (hid : shard.groupId = p.1) :
    IsShardOf rs p.1 p.2 shard := by
  obtain ⟨group, hgroup, hmem⟩ := hshard
  obtain ⟨p', hp', flags, rfl⟩ := h.exists_batch hgroup
  have hof := isShardOf_codingGroup hmem
  have heq := inj_on_of_nodup_map hids hp' hp (hof.groupId.symm.trans hid)
  rwa [heq] at hof

theorem dedicated_new {k : UInt64} (hk : k ≠ 0) :
    (ring rs).dedicated ReassemblyBuffer.new.slots k = none :=
  if_neg (Ne.symm hk)

theorem outputs_perm (hrs : rs.Lawful) (h : Emits rs m 1 sent groups id')
    (hm : m ≤ coalesceTargetBytes) (hpos : ∀ p ∈ sent, p.1 ≠ 0)
    (hids : (sent.map Prod.fst).Nodup)
    (harr : ∀ shard ∈ arrivals, ∃ group ∈ groups, shard ∈ group.toList)
    (htwo : ∀ group ∈ groups, ∃ a ∈ arrivals, ∃ b ∈ arrivals,
      a ∈ group.toList ∧ b ∈ group.toList ∧ a ≠ b)
    (hwindow : InWindow arrivals) :
    (ReassemblyBuffer.new.outputs rs arrivals).Perm sent := by
  have hidx : ∀ shard ∈ arrivals, shard.shardIdx.toNat < 3 := by
    intro shard hshard
    exact h.shardIdx_lt (harr shard hshard)
  have hnodup := nodup_outputs rs hidx hwindow.inOrder
  have hfilter := (ring rs).outputs_filter (keyOf_new_le rs arrivals)
    ((inOrder_iff_ring rs).mp hwindow.inOrder)
  rw [← outputs_eq_ring ReassemblyBuffer.new hidx] at hfilter
  have hof : ∀ p ∈ sent, ∀ shard ∈ arrivals.filter (fun shard => shard.groupId = p.1),
      IsShardOf rs p.1 p.2 shard := by
    intro p hp shard hshard
    obtain ⟨hmem, hid⟩ := mem_filter.mp hshard
    exact h.isShardOf hids (harr shard hmem) hp (of_decide_eq_true hid)
  have hout : ∀ p ∈ sent, (ReassemblyBuffer.new.outputs rs arrivals).filter
      (fun o => o.1 = p.1) = [p] := by
    intro p hp
    obtain ⟨flags, hgroup⟩ := h.exists_group hp
    obtain ⟨a, ha, b, hb, hag, hbg, hab⟩ := htwo _ hgroup
    have hin {c : CoalescedShard} (hc : c ∈ arrivals)
        (hcg : c ∈ (codingGroup rs p.1 flags p.2).toList) :
        c ∈ arrivals.filter fun shard => shard.groupId = p.1 :=
      mem_filter.mpr ⟨hc, decide_eq_true (isShardOf_codingGroup hcg).groupId⟩
    have hserve := serve_batch hrs ((h.batch_length p hp).trans hm) (hof p hp) (hin ha hag)
      (hin hb hbg) (shardIdx_ne_of_ne hag hbg hab)
    rw [hfilter, dedicated_new (hpos p hp)]
    exact congrArg (map fun out => (p.1, out)) hserve
  apply (perm_ext_iff_of_nodup hnodup.of_map hids.of_map).mpr
  intro o
  constructor
  · intro ho
    have hmem : o ∈ (ReassemblyBuffer.new.outputs rs arrivals).filter fun o' => o'.1 = o.1 :=
      mem_filter.mpr ⟨ho, decide_eq_true rfl⟩
    have harrived : ∃ shard ∈ arrivals, shard.groupId = o.1 := by
      by_contra hnone
      have hempty : arrivals.filter (fun shard => (ring rs).key shard = o.1) = [] := by
        apply filter_eq_nil_iff.mpr
        intro shard hshard hid
        exact hnone ⟨shard, hshard, of_decide_eq_true hid⟩
      rw [hfilter, hempty] at hmem
      cases hmem
    obtain ⟨shard, hshard, hid⟩ := harrived
    obtain ⟨group, hgroup, hsg⟩ := harr shard hshard
    obtain ⟨p, hp, flags, rfl⟩ := h.exists_batch hgroup
    have hpid : p.1 = o.1 := (isShardOf_codingGroup hsg).groupId.symm.trans hid
    rw [← hpid, hout p hp, mem_singleton] at hmem
    rwa [hmem]
  · intro ho
    have hmem : o ∈ (ReassemblyBuffer.new.outputs rs arrivals).filter fun o' => o'.1 = o.1 := by
      rw [hout o ho]
      exact mem_singleton_self o
    exact (mem_filter.mp hmem).1

theorem pairwise_mergeSort_key {α κ : Type*} [LinearOrder κ] (f : α → κ) (l : List α) :
    (l.mergeSort fun a b => f a ≤ f b).Pairwise fun a b => f a ≤ f b := by
  refine (pairwise_mergeSort (fun a b c hab hbc => ?_) (fun a b => ?_) l).imp
    of_decide_eq_true
  · exact decide_eq_true ((of_decide_eq_true hab).trans (of_decide_eq_true hbc))
  · rcases le_total (f a) (f b) with hle | hle
    · simp [hle]
    · simp [hle]

theorem mergeSort_of_perm {outputs : List (UInt64 × Bytes)} (hperm : outputs.Perm sent)
    (hsorted : sent.Pairwise fun p p' => p.1 < p'.1) :
    outputs.mergeSort (fun p p' => p.1 ≤ p'.1) = sent := by
  have hids : (sent.map Prod.fst).Nodup :=
    pairwise_map.mpr (hsorted.imp fun hlt => hlt.ne)
  have hmerged := mergeSort_perm outputs fun p p' => decide (p.1 ≤ p'.1)
  refine Perm.eq_of_pairwise ?_ (pairwise_mergeSort_key Prod.fst outputs)
    (hsorted.imp fun hlt => hlt.le) (hmerged.trans hperm)
  intro p p' hp hp' hle hle'
  exact inj_on_of_nodup_map hids ((hmerged.trans hperm).subset hp) hp' (le_antisymm hle hle')

end Window

/-- Any calls on a queue with a batch size of at least 1, and a final flush. As long as the queue
has emitted fewer than 2^64 groups: in every arrival order in which two shards of each group come
in, none after a shard of a group 64 or more ids later, the payloads in the order of their ids are
the pushed bytes. -/
theorem reassembled_stream (rs : ReedSolomon) (hrs : rs.Lawful) (maxBatchSize timeout now : ℕ)
    (hmax : 1 ≤ maxBatchSize) (ops : List QueueOp) (flags : UInt8) (clock : ℕ) (buf : Bytes)
    (hbuf : totalLen ≤ buf.length) :
    ∃ q groups,
      QueueOp.runAll rs (.new maxBatchSize timeout now) (ops ++ [.flush flags clock]) =
        some (q, groups) ∧
      (groups.length < 2 ^ 64 → ∀ arrivals : List CoalescedShard,
        (∀ shard ∈ arrivals, ∃ group ∈ groups, shard ∈ group.toList) →
        (∀ group ∈ groups, ∃ a ∈ arrivals, ∃ b ∈ arrivals,
          a ∈ group.toList ∧ b ∈ group.toList ∧ a ≠ b) →
        InWindow arrivals →
        ((ReassemblyBuffer.new.outputs rs (arrivals.filterMap (transfer buf))).mergeSort
          fun p p' => p.1 ≤ p'.1).flatMap Prod.snd = ops.flatMap QueueOp.pushed) := by
  have hcap : 1 ≤ (CoalescingQueue.new maxBatchSize timeout now).maxBatchSize :=
    le_min hmax (by decide)
  obtain ⟨⟨q, groups⟩, hrun⟩ := Option.isSome_iff_exists.mp
    (QueueOp.runAll_isSome rs (ops ++ [.flush flags clock]) hcap)
  refine ⟨q, groups, hrun, ?_⟩
  intro hcount arrivals harr htwo hwindow
  obtain ⟨-, sent, hemits, hbytes⟩ := QueueOp.runAll_gathers hrun
  have hlength := hemits.length_eq
  have hid : (CoalescingQueue.new maxBatchSize timeout now).nextGroupId = 1 := rfl
  rw [hid] at hemits
  obtain ⟨hge, hsorted⟩ := hemits.ids_increasing (by
    show 1 + sent.length ≤ 2 ^ 64
    omega)
  have hpos : ∀ p ∈ sent, p.1 ≠ 0 := by
    intro p hp hzero
    have hle := UInt64.le_iff_toNat_le.mp (hge p hp)
    rw [hzero] at hle
    cases hle
  have hids : (sent.map Prod.fst).Nodup :=
    pairwise_map.mpr (hsorted.imp fun hlt => hlt.ne)
  have hwire : arrivals.filterMap (transfer buf) = arrivals := by
    rw [show transfer buf = some from funext (transfer_eq hbuf), filterMap_some]
  have hperm := outputs_perm hrs hemits (min_le_right _ _) hpos hids harr htwo hwindow
  rw [QueueOp.buffer_of_final_flush hrun, append_nil, flatMap_append] at hbytes
  rw [hwire, mergeSort_of_perm hperm hsorted, ← hbytes]
  exact append_nil _

theorem reassembled_stream_of_push :
    ((ReassemblyBuffer.new.outputs galois8
        ([(codingGroup galois8 1 3 [7, 8, 9]).get 2, (codingGroup galois8 1 3 [7, 8, 9]).get 1].filterMap
          (transfer (replicate totalLen 0)))).mergeSort
      fun p p' => p.1 ≤ p'.1).flatMap Prod.snd = [7, 8, 9] := by
  obtain ⟨q, groups, hrun, hstream⟩ := reassembled_stream galois8 galois8_lawful 984 200 0
    (by decide) [.push [7, 8, 9] true 0] 0 0 (replicate totalLen 0)
    (by rw [length_replicate])
  have hgroups : groups = [codingGroup galois8 1 3 [7, 8, 9]] := by
    have hfixed : ∃ q', QueueOp.runAll galois8 (.new 984 200 0)
        ([.push [7, 8, 9] true 0] ++ [.flush 0 0]) =
          some (q', [codingGroup galois8 1 3 [7, 8, 9]]) := ⟨_, rfl⟩
    obtain ⟨q', hfixed⟩ := hfixed
    rw [hfixed] at hrun
    exact (Prod.mk.inj (Option.some.inj hrun)).2.symm
  subst hgroups
  refine hstream (by decide) _ ?_ ?_ ?_
  · intro shard hshard
    refine ⟨_, mem_singleton_self _, ?_⟩
    rcases mem_pair.mp hshard with rfl | rfl
    · exact List.Vector.get_mem _ _
    · exact List.Vector.get_mem _ _
  · intro group hgroup
    rw [mem_singleton] at hgroup
    subst hgroup
    exact ⟨_, mem_cons_self, _, mem_cons_of_mem _ mem_cons_self,
      List.Vector.get_mem _ _, List.Vector.get_mem _ _,
      ne_of_apply_ne shardIdx (by decide)⟩
  · exact pairwise_pair.mpr (by decide)

/-! ### After 2^64 groups -/

section Wrapped

variable {rs : ReedSolomon} {m : ℕ} {id id' : UInt64} {sent : List (UInt64 × Bytes)}
  {groups : List CodingGroup} {arrivals : List CoalescedShard}

theorem length_output_le {slot : ReassemblySlot} {out : Bytes} (h : slot.output rs = some out) :
    out.length ≤ slot.payloadLen.toNat := by
  have hjoined (d0 d1 : Bytes) (n : ℕ) : (ReassemblySlot.joined n d0 d1).length ≤ n := by
    rw [ReassemblySlot.joined, length_append, length_take]
    split
    · rw [length_take]
      omega
    · rw [length_nil]
      omega
  rw [ReassemblySlot.output] at h
  split at h
  · cases h
  · split at h
    · obtain rfl := Option.some.inj h
      exact hjoined _ _ _
    · split at h
      · obtain rfl := Option.some.inj h
        exact hjoined _ _ _
      · cases h

theorem payloadLen_store (slot : ReassemblySlot) (i : Fin 3) (data : ShardData) :
    (slot.store i data).payloadLen = slot.payloadLen := by
  unfold ReassemblySlot.store
  split <;> rfl

theorem length_ring_feed_le (rs : ReedSolomon) (slot : ReassemblySlot) (shard : CoalescedShard) :
    ((ring rs).feed slot shard).1.payloadLen = slot.payloadLen ∧
      ∀ out, ((ring rs).feed slot shard).2 = some out → out.length ≤ slot.payloadLen.toNat := by
  by_cases hopen : shard.shardIdx.toNat < 3 ∧ slot.completed = false
  · have hfeed : (ring rs).feed slot shard =
        slot.feed rs ⟨shard.shardIdx.toNat, hopen.1⟩ shard.data := dif_pos hopen
    rw [hfeed, ReassemblySlot.feed]
    cases hout : (slot.store ⟨shard.shardIdx.toNat, hopen.1⟩ shard.data).output rs with
    | none => exact ⟨payloadLen_store _ _ _, fun _ h => by cases h⟩
    | some out =>
        refine ⟨payloadLen_store _ _ _, ?_⟩
        rintro _ ⟨⟩
        have hle := length_output_le hout
        rwa [payloadLen_store] at hle
  · have hfeed : (ring rs).feed slot shard = (slot, none) := dif_neg hopen
    rw [hfeed]
    exact ⟨rfl, fun _ h => by cases h⟩

theorem succId_ne_zero (id : UInt64) : CoalescingQueue.succId id ≠ 0 := by
  unfold CoalescingQueue.succId
  split
  · decide
  · assumption

theorem Emits.ids_ne_zero (h : Emits rs m id sent groups id') (hid : id ≠ 0) :
    ∀ p ∈ sent, p.1 ≠ 0 := by
  induction h with
  | nil => simp
  | cons flags hlen h ih => exact forall_mem_cons.mpr ⟨hid, ih (succId_ne_zero _)⟩

theorem length_lt_of_nodup {ids : List ℕ} {n : ℕ} (hnodup : ids.Nodup)
    (h : ∀ x ∈ ids, 0 < x ∧ x < n) (hn : 0 < n) : ids.length < n := by
  have hsub : ids ⊆ range' 1 (n - 1) := by
    intro x hx
    have hx := h x hx
    rw [mem_range'_1]
    omega
  have hle := (subperm_of_subset hnodup hsub).length_le
  rw [length_range'] at hle
  omega

theorem length_flatMap_le {sent : List (UInt64 × Bytes)} (h : ∀ p ∈ sent, p.2.length ≤ 1) :
    (sent.flatMap Prod.snd).length ≤ sent.length := by
  induction sent with
  | nil => exact le_rfl
  | cons p sent ih =>
      obtain ⟨hp, hsent⟩ := forall_mem_cons.mp h
      rw [flatMap_cons, length_append, length_cons]
      have hrest := ih hsent
      omega

theorem length_outputs_lt (h : Emits rs 1 1 sent groups id')
    (harr : ∀ shard ∈ arrivals, ∃ group ∈ groups, shard ∈ group.toList)
    (hsorted : arrivals.Pairwise fun a b => a.groupId ≤ b.groupId) :
    ((ReassemblyBuffer.new.outputs rs arrivals).flatMap Prod.snd).length < 2 ^ 64 := by
  have hidx : ∀ shard ∈ arrivals, shard.shardIdx.toNat < 3 := by
    intro shard hshard
    exact h.shardIdx_lt (harr shard hshard)
  have hsent : ∀ shard ∈ arrivals, shard.groupId ≠ 0 ∧ shard.payloadLen.toNat ≤ 1 := by
    intro shard hshard
    obtain ⟨group, hgroup, hmem⟩ := harr shard hshard
    obtain ⟨p, hp, flags, rfl⟩ := h.exists_batch hgroup
    have hof := isShardOf_codingGroup hmem
    have hlen := h.batch_length p hp
    rw [hof.groupId, hof.payloadLen, UInt16.toNat_ofNat']
    exact ⟨h.ids_ne_zero (by decide) p hp, (Nat.mod_le _ _).trans hlen⟩
  have horder : InOrder arrivals := by
    refine hsorted.imp ?_
    intro a b hle _
    exact hle
  have hnodup := nodup_outputs rs hidx horder
  have houts : ∀ o ∈ ReassemblyBuffer.new.outputs rs arrivals,
      (∃ shard ∈ arrivals, shard.groupId = o.1) ∧ o.2.length ≤ 1 := by
    rw [outputs_eq_ring ReassemblyBuffer.new hidx]
    refine (ring rs).outputs_of_invariant (fun slot => slot.payloadLen.toNat ≤ 1)
      (fun out => out.length ≤ 1) ?_ ?_ ?_
    · exact fun _ => Nat.zero_le 1
    · exact fun shard hshard => (hsent shard hshard).2
    · intro slot shard hslot
      obtain ⟨hsame, hout⟩ := length_ring_feed_le rs slot shard
      rw [hsame]
      exact ⟨hslot, fun out h => (hout out h).trans hslot⟩
  have hcount : (ReassemblyBuffer.new.outputs rs arrivals).length < 2 ^ 64 := by
    have hnat := hnodup.map (fun _ _ => UInt64.toNat_inj.mp)
    have hlt := length_lt_of_nodup hnat (by
      intro x hx
      obtain ⟨id, hid, rfl⟩ := mem_map.mp hx
      obtain ⟨o, ho, rfl⟩ := mem_map.mp hid
      obtain ⟨⟨shard, hshard, hkey⟩, -⟩ := houts o ho
      refine ⟨Nat.pos_of_ne_zero ?_, o.1.toNat_lt⟩
      intro hzero
      rw [← hkey] at hzero
      exact (hsent shard hshard).1 (UInt64.toNat_inj.mp hzero)) (Nat.two_pow_pos 64)
    rwa [length_map, length_map] at hlt
  exact lt_of_le_of_lt (length_flatMap_le fun o ho => (houts o ho).2) hcount

theorem wrapped_stream_differs {n : ℕ} (hn : 2 ^ 64 ≤ n) :
    ∃ q groups arrivals,
      QueueOp.runAll galois8 (.new 1 0 0)
          (replicate n (.push [0] false 0) ++ [.flush 0 0]) = some (q, groups) ∧
        (∀ shard ∈ arrivals, ∃ group ∈ groups, shard ∈ group.toList) ∧
        (∀ group ∈ groups, ∃ a ∈ arrivals, ∃ b ∈ arrivals,
          a ∈ group.toList ∧ b ∈ group.toList ∧ a ≠ b) ∧
        InWindow arrivals ∧
        ((ReassemblyBuffer.new.outputs galois8 (arrivals.filterMap
            (transfer (replicate totalLen 0)))).mergeSort
          fun p p' => p.1 ≤ p'.1).flatMap Prod.snd ≠
            (replicate n (.push [0] false 0)).flatMap QueueOp.pushed := by
  obtain ⟨⟨q, groups⟩, hrun⟩ := Option.isSome_iff_exists.mp
    (QueueOp.runAll_isSome galois8 (replicate n (.push [0] false 0) ++ [.flush 0 0])
      (show 1 ≤ (CoalescingQueue.new 1 0 0).maxBatchSize by decide))
  obtain ⟨-, sent, hemits, -⟩ := QueueOp.runAll_gathers hrun
  have hpushed : ((replicate n (QueueOp.push [0] false 0)).flatMap QueueOp.pushed).length =
      n := by
    simp [QueueOp.pushed]
  have hmerged := mergeSort_perm (groups.flatMap List.Vector.toList)
    fun a b => decide (a.groupId ≤ b.groupId)
  have hsorted := pairwise_mergeSort_key CoalescedShard.groupId
    (groups.flatMap List.Vector.toList)
  refine ⟨q, groups, (groups.flatMap List.Vector.toList).mergeSort
    fun a b => a.groupId ≤ b.groupId, hrun, ?_, ?_, ?_, ?_⟩
  · intro shard hshard
    exact mem_flatMap.mp (hmerged.subset hshard)
  · intro group hgroup
    have hin (i : Fin 3) := hmerged.symm.subset
      (mem_flatMap.mpr ⟨group, hgroup, List.Vector.get_mem i group⟩)
    obtain ⟨p, -, flags, rfl⟩ := hemits.exists_batch hgroup
    exact ⟨_, hin 0, _, hin 1, List.Vector.get_mem _ _, List.Vector.get_mem _ _,
      ne_of_apply_ne shardIdx (show (0 : UInt8) ≠ 1 by decide)⟩
  · refine hsorted.imp ?_
    intro a b hle
    have hle := UInt64.le_iff_toNat_le.mp hle
    have hslots : 0 < ringSlots := by decide
    omega
  · intro heq
    have hlen := congrArg length heq
    have hlt := length_outputs_lt hemits
      (fun shard hshard => mem_flatMap.mp (hmerged.subset hshard)) hsorted
    have hwire : transfer (replicate totalLen 0) = some :=
      funext (transfer_eq (by rw [length_replicate]))
    rw [hwire, filterMap_some, ((mergeSort_perm _ _).flatMap_right _).length_eq,
      hpushed] at hlen
    omega

end Wrapped

theorem wrapped_ids_lose_bytes :
    ∃ q groups arrivals,
      QueueOp.runAll galois8 (.new 1 0 0)
          (replicate (2 ^ 64) (.push [0] false 0) ++ [.flush 0 0]) = some (q, groups) ∧
        (∀ shard ∈ arrivals, ∃ group ∈ groups, shard ∈ group.toList) ∧
        (∀ group ∈ groups, ∃ a ∈ arrivals, ∃ b ∈ arrivals,
          a ∈ group.toList ∧ b ∈ group.toList ∧ a ≠ b) ∧
        InWindow arrivals ∧
        ((ReassemblyBuffer.new.outputs galois8 (arrivals.filterMap
            (transfer (replicate totalLen 0)))).mergeSort
          fun p p' => p.1 ≤ p'.1).flatMap Prod.snd ≠
            (replicate (2 ^ 64) (.push [0] false 0)).flatMap QueueOp.pushed :=
  wrapped_stream_differs le_rfl

end Vantablack.Net
