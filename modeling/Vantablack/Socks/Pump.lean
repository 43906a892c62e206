import Vantablack.Net.Reassembly
import Mathlib.Algebra.BigOperators.Fin
import Mathlib.Tactic.FinCases
import Mathlib.Algebra.BigOperators.Group.Finset.Basic

/-!
The way of a TCP chunk from the exit to the SOCKS client: `handle_exit_connect` puts the stream
id in front, `handle_pkt` takes it off, and the pump of `handle_socks5_connection` writes the
chunk to the client, unless it parses as a coalesced shard.
-/

namespace Vantablack.Socks

open Lib Layers Net CoalescedShard

def frameChunk (streamId : UInt32) (chunk : Bytes) : Bytes :=
  if 0 < streamId then toBeBytes 4 streamId.toNat ++ chunk else chunk

/-- What `handle_pkt` sends into the channel of a stream. -/
def channelChunk (payload : Bytes) : Bytes :=
  payload.drop 4

theorem channelChunk_frameChunk {streamId : UInt32} (h : 0 < streamId) (chunk : Bytes) :
    channelChunk (frameChunk streamId chunk) = chunk := by
  rw [channelChunk, frameChunk, if_pos h, List.drop_left' (length_toBeBytes 4 _)]

/-- One round of the pump: the reassembly buffer after it, and what the client gets. -/
def pumpChunk (rs : ReedSolomon) (rx : ReassemblyBuffer) (chunk : Bytes) :
    ReassemblyBuffer × Bytes :=
  match deserialize chunk with
  | some shard => ((rx.ingestShard rs shard).1, (rx.ingestShard rs shard).2.getD [])
  | none => (rx, chunk)

variable (rs : ReedSolomon) (rx : ReassemblyBuffer)

theorem pumpChunk_of_some {chunk : Bytes} {shard : CoalescedShard}
    (h : deserialize chunk = some shard) :
    pumpChunk rs rx chunk = ((rx.ingestShard rs shard).1, (rx.ingestShard rs shard).2.getD []) := by
  rw [pumpChunk, h]

theorem pumpChunk_of_short {chunk : Bytes} (h : chunk.length < totalLen) :
    pumpChunk rs rx chunk = (rx, chunk) := by
  rw [pumpChunk, deserialize_of_lt h]

/-- All that the client gets. -/
def pump (rs : ReedSolomon) : ReassemblyBuffer → List Bytes → Bytes
  | _, [] => []
  | rx, chunk :: chunks => (pumpChunk rs rx chunk).2 ++ pump rs (pumpChunk rs rx chunk).1 chunks

theorem pump_of_short {chunks : List Bytes}
    (h : ∀ chunk ∈ chunks, chunk.length < totalLen) :
    pump rs rx chunks = chunks.flatten := by
  induction chunks with
  | nil => rfl
  | cons chunk chunks ih =>
      obtain ⟨hchunk, hrest⟩ := List.forall_mem_cons.mp h
      rw [pump, pumpChunk_of_short rs rx hchunk, List.flatten_cons, ih hrest]

/-! ### Bytes kept back

A shard that waits in a slot stands for 492 bytes that the client may still get. No round of the
pump that parses a shard adds more than that. -/

/-- The bytes the shards of a slot may still give. -/
def kept (slot : ReassemblySlot) : ℕ :=
  if slot.completed then 0 else shardPayloadBytes * countOnes slot.receivedMask

def totalKept (rx : ReassemblyBuffer) : ℕ :=
  ∑ i, kept (rx.slots i)

theorem countOnes_store (slot : ReassemblySlot) (i : Fin 3) (data : ShardData) :
    countOnes (slot.store i data).receivedMask ≤ countOnes slot.receivedMask + 1 := by
  rw [ReassemblySlot.countOnes_receivedMask, ReassemblySlot.countOnes_receivedMask,
    ReassemblySlot.store]
  split
  · show (Function.update slot.shards i (some data) 0).isSome.toNat +
        (Function.update slot.shards i (some data) 1).isSome.toNat +
        (Function.update slot.shards i (some data) 2).isSome.toNat ≤ _
    fin_cases i <;> simp <;> omega
  · exact Nat.le_succ _

theorem length_joined_le (n : ℕ) (d0 d1 : Bytes) :
    (ReassemblySlot.joined n d0 d1).length ≤ 2 * shardPayloadBytes := by
  rw [ReassemblySlot.joined, List.length_append, List.length_take]
  split
  · rw [List.length_take]
    omega
  · rw [List.length_nil]
    omega

theorem output_bounds {rs : ReedSolomon} {slot : ReassemblySlot} {out : Bytes}
    (h : slot.output rs = some out) :
    2 ≤ countOnes slot.receivedMask ∧ out.length ≤ 2 * shardPayloadBytes := by
  rw [ReassemblySlot.output] at h
  split at h
  · cases h
  · rename_i hcount
    refine ⟨not_lt.mp hcount, ?_⟩
    split at h
    · obtain rfl := Option.some.inj h
      exact length_joined_le _ _ _
    · split at h
      · obtain rfl := Option.some.inj h
        exact length_joined_le _ _ _
      · cases h

theorem kept_feed_le {slot : ReassemblySlot} (hopen : slot.completed = false) (i : Fin 3)
    (data : ShardData) :
    ((slot.feed rs i data).2.getD []).length + kept (slot.feed rs i data).1 ≤
      kept slot + shardPayloadBytes := by
  have hstore := countOnes_store slot i data
  have hslot : kept slot = shardPayloadBytes * countOnes slot.receivedMask := by
    rw [kept, hopen]
    rfl
  rw [hslot, ReassemblySlot.feed]
  cases hout : (slot.store i data).output rs with
  | none =>
      have hkept : kept (slot.store i data) ≤
          shardPayloadBytes * countOnes (slot.store i data).receivedMask := by
        unfold kept
        split
        · exact Nat.zero_le _
        · exact le_rfl
      calc
        ([] : Bytes).length + kept (slot.store i data) = kept (slot.store i data) := Nat.zero_add _
        _ ≤ shardPayloadBytes * (countOnes slot.receivedMask + 1) :=
          hkept.trans (Nat.mul_le_mul_left _ hstore)
        _ = shardPayloadBytes * countOnes slot.receivedMask + shardPayloadBytes := Nat.mul_succ _ _
  | some out =>
      obtain ⟨hcount, hlen⟩ := output_bounds hout
      have hone : 1 ≤ countOnes slot.receivedMask := by omega
      calc
        out.length + 0 ≤ 2 * shardPayloadBytes := hlen
        _ = shardPayloadBytes * 1 + shardPayloadBytes := by omega
        _ ≤ shardPayloadBytes * countOnes slot.receivedMask + shardPayloadBytes :=
          Nat.add_le_add_right (Nat.mul_le_mul_left _ hone) _

theorem totalKept_update (i : Fin ringSlots) (slot : ReassemblySlot) :
    (∑ j, kept (Function.update rx.slots i slot j)) + kept (rx.slots i) =
      totalKept rx + kept slot := by
  have hupdate : (fun j => kept (Function.update rx.slots i slot j)) =
      Function.update (fun j => kept (rx.slots j)) i (kept slot) := by
    funext j
    by_cases hj : j = i
    · rw [hj, Function.update_self, Function.update_self]
    · rw [Function.update_of_ne hj, Function.update_of_ne hj]
  rw [hupdate, Finset.sum_update_of_mem (Finset.mem_univ i), totalKept,
    ← Finset.add_sum_erase Finset.univ (fun j => kept (rx.slots j)) (Finset.mem_univ i),
    Finset.sdiff_singleton_eq_erase]
  omega

theorem kept_reset (groupId : UInt64) (payloadLen : UInt16) :
    kept (.reset groupId payloadLen) = 0 := by
  rw [kept, ReassemblySlot.countOnes_receivedMask]
  rfl

theorem kept_occupied_le (shard : CoalescedShard) :
    kept (rx.occupied shard) ≤ kept (rx.slots (slotIdx shard.groupId)) := by
  unfold ReassemblyBuffer.occupied
  split
  · exact le_rfl
  · rw [kept_reset]
    exact Nat.zero_le _

theorem totalKept_ingestShard (shard : CoalescedShard) :
    ((rx.ingestShard rs shard).2.getD []).length + totalKept (rx.ingestShard rs shard).1 ≤
      totalKept rx + shardPayloadBytes := by
  have hsame : ([] : Bytes).length + totalKept rx ≤ totalKept rx + shardPayloadBytes := by
    rw [List.length_nil]
    omega
  by_cases hidx : shard.shardIdx.toNat < 3
  · rw [ReassemblyBuffer.ingestShard, dif_pos hidx]
    by_cases hdone : (rx.slots (slotIdx shard.groupId)).groupId = shard.groupId ∧
        (rx.slots (slotIdx shard.groupId)).completed = true
    · rw [if_pos hdone]
      exact hsame
    · rw [if_neg hdone, if_neg (rx.not_outdated shard)]
      have hfeed := kept_feed_le rs (ReassemblyBuffer.completed_occupied hdone)
        ⟨shard.shardIdx.toNat, hidx⟩ shard.data
      have hoccupied := kept_occupied_le rx shard
      have htotal := totalKept_update rx (slotIdx shard.groupId)
        ((rx.occupied shard).feed rs ⟨shard.shardIdx.toNat, hidx⟩ shard.data).1
      show (((rx.occupied shard).feed rs ⟨shard.shardIdx.toNat, hidx⟩ shard.data).2.getD []).length +
        (∑ j, kept (Function.update rx.slots _ _ j)) ≤ _
      omega
  · rw [ReassemblyBuffer.ingestShard, dif_neg hidx]
    exact hsame

theorem length_pump_le (chunks : List Bytes) :
    (pump rs rx chunks).length + headerLen *
        (chunks.countP fun chunk => totalLen ≤ chunk.length) ≤
      totalKept rx + chunks.flatten.length := by
  induction chunks generalizing rx with
  | nil => exact Nat.zero_le _
  | cons chunk chunks ih =>
      have hrest := ih (pumpChunk rs rx chunk).1
      rw [pump, List.flatten_cons, List.length_append, List.length_append]
      by_cases hlong : totalLen ≤ chunk.length
      · obtain ⟨shard, hshard⟩ := deserialize_of_le hlong
        have hstep := totalKept_ingestShard rs rx shard
        have hchunk : headerLen + shardPayloadBytes ≤ chunk.length := hlong
        rw [List.countP_cons_of_pos (by simpa using hlong), Nat.mul_succ]
        rw [pumpChunk_of_some rs rx hshard] at hrest ⊢
        dsimp only at hrest ⊢
        omega
      · rw [List.countP_cons_of_neg (by simpa using hlong)]
        rw [pumpChunk_of_short rs rx (not_le.mp hlong)] at hrest ⊢
        dsimp only at hrest ⊢
        omega

/-- The client gets the exit's chunks as they are exactly when none of them is long enough to
parse as a shard. -/
theorem client_receives_iff (rs : ReedSolomon) (streamId : UInt32) (hid : 0 < streamId)
    (chunks : List Bytes) :
    pump rs .new ((chunks.map (frameChunk streamId)).map channelChunk) = chunks.flatten ↔
      ∀ chunk ∈ chunks, chunk.length < totalLen := by
  have hchannel : (chunks.map (frameChunk streamId)).map channelChunk = chunks := by
    rw [List.map_map]
    exact List.map_id'' (channelChunk_frameChunk hid) chunks
  rw [hchannel]
  constructor
  · intro hpump chunk hchunk
    by_contra hlong
    have hle := length_pump_le rs .new chunks
    have hempty : totalKept .new = 0 := Finset.sum_eq_zero fun _ _ => kept_reset 0 0
    have hpos : 0 < chunks.countP fun chunk => totalLen ≤ chunk.length :=
      List.countP_pos_iff.mpr ⟨chunk, hchunk, by simpa using hlong⟩
    have hheader : headerLen = 12 := rfl
    rw [hpump, hempty, hheader] at hle
    omega
  · intro hshort
    exact pump_of_short rs .new hshort

theorem client_receives_greeting :
    pump galois8 .new ((([[72, 105], [33]] : List Bytes).map (frameChunk 7)).map channelChunk) =
      [72, 105, 33] :=
  (client_receives_iff galois8 7 (by decide) [[72, 105], [33]]).mpr (by decide)

theorem long_chunk_swallowed :
    (List.replicate 504 (0 : UInt8)).length ≤ 900 ∧
      pump galois8 .new ((([List.replicate 504 0] : List Bytes).map (frameChunk 7)).map
        channelChunk) = [] ∧
      ([List.replicate 504 0] : List Bytes).flatten ≠ [] := by
  decide +kernel

end Vantablack.Socks
