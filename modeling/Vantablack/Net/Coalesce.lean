import Vantablack.Layers.Rs
import Vantablack.Lib.Bytes

/-!
The coalescing queue of `net/coalesce.rs`. It gathers pushed bytes into batches of at most 984
bytes, and a flush turns a batch into one coding group: two data shards of 492 bytes and their
parity. Instants and durations are natural numbers, and what `Instant::now()` returns is an
argument of the call.
-/

namespace Vantablack.Net

open Lib Layers List

def coalesceTargetBytes : ℕ := 984

def shardPayloadBytes : ℕ := 492

def flagImmediate : UInt8 := 0x01

def flagPadded : UInt8 := 0x02

abbrev ShardData := Block UInt8 shardPayloadBytes

structure CoalescedShard where
  groupId : UInt64
  shardIdx : UInt8
  flags : UInt8
  payloadLen : UInt16
  data : ShardData
  deriving DecidableEq

namespace CoalescedShard

def headerLen : ℕ := 12

def totalLen : ℕ := headerLen + shardPayloadBytes

/-- The buffer after the call, and the number of bytes written to its front. -/
def serializeInto (shard : CoalescedShard) (buf : Bytes) : Except String (Bytes × ℕ) :=
  if buf.length < totalLen then .error "buffer too short for coalesced shard"
  else
    .ok (toBeBytes 8 shard.groupId.toNat ++ (shard.shardIdx :: shard.flags ::
      (toBeBytes 2 shard.payloadLen.toNat ++ (shard.data.toList ++ buf.drop totalLen))), totalLen)

def deserialize (buf : Bytes) : Option CoalescedShard :=
  if buf.length < totalLen then none
  else do
    let groupId ← sliceAt buf 0 8
    let shardIdx ← buf[8]?
    let flags ← buf[9]?
    let payloadLen ← sliceAt buf 10 2
    let data ← blockAt buf 12 shardPayloadBytes
    some { groupId := UInt64.ofNat (fromBeBytes groupId)
           shardIdx := shardIdx
           flags := flags
           payloadLen := UInt16.ofNat (fromBeBytes payloadLen)
           data := data }

theorem deserialize_serializeInto {shard : CoalescedShard} {buf out : Bytes} {n : ℕ}
    (h : shard.serializeInto buf = .ok (out, n)) : deserialize out = some shard := by
  unfold serializeInto at h
  split at h
  · cases h
  · rename_i hlen
    obtain ⟨rfl, rfl⟩ := Prod.mk.inj (Except.ok.inj h)
    have hid := RestAt.start (toBeBytes 8 shard.groupId.toNat ++ (shard.shardIdx :: shard.flags ::
      (toBeBytes 2 shard.payloadLen.toNat ++ (shard.data.toList ++ buf.drop totalLen))))
    have hidx := hid.skip (length_toBeBytes 8 _)
    have hflags := hidx.next
    have hpayload := hflags.next
    have hdata := hpayload.skip (length_toBeBytes 2 _)
    have htotal : ¬ (toBeBytes 8 shard.groupId.toNat ++ (shard.shardIdx :: shard.flags ::
        (toBeBytes 2 shard.payloadLen.toNat ++
          (shard.data.toList ++ buf.drop totalLen)))).length < totalLen := by
      have hbound := hdata.block.1
      exact not_lt.mpr hbound
    have hgid : fromBeBytes (toBeBytes 8 shard.groupId.toNat) = shard.groupId.toNat :=
      fromBeBytes_toBeBytes shard.groupId.toNat_lt
    have hplen : fromBeBytes (toBeBytes 2 shard.payloadLen.toNat) = shard.payloadLen.toNat :=
      fromBeBytes_toBeBytes shard.payloadLen.toNat_lt
    rw [deserialize, if_neg htotal, hid.sliceAt (length_toBeBytes 8 _), hidx.getElem?,
      hflags.getElem?, hpayload.sliceAt (length_toBeBytes 2 _), hdata.blockAt]
    simp only [Option.bind_eq_bind, Option.bind_some, hgid, hplen, UInt64.ofNat_toNat,
      UInt16.ofNat_toNat]

theorem deserialize_of_le {buf : Bytes} (h : totalLen ≤ buf.length) :
    ∃ shard, deserialize buf = some shard := by
  have hlen : 504 ≤ buf.length := h
  have hbound : 12 + shardPayloadBytes ≤ buf.length := h
  obtain ⟨data, hdata⟩ := blockAt_of_le hbound
  have hidx : 8 < buf.length := by omega
  have hflags : 9 < buf.length := by omega
  have hid : sliceAt buf 0 8 = some ((buf.drop 0).take 8) := if_pos (by omega)
  have hpayload : sliceAt buf 10 2 = some ((buf.drop 10).take 2) := if_pos (by omega)
  rw [deserialize, if_neg (not_lt.mpr h), hid, getElem?_eq_getElem hidx,
    getElem?_eq_getElem hflags, hpayload, hdata]
  exact ⟨_, rfl⟩

theorem deserialize_of_lt {buf : Bytes} (h : buf.length < totalLen) : deserialize buf = none :=
  if_pos h

end CoalescedShard

/-! ### Coding groups -/

/-- The three shards of a flush: D0, D1 and P0. -/
abbrev CodingGroup := Block CoalescedShard 3

/-- The two data shards of a batch, each padded with zeros to its full size. -/
def dataShard0 (batch : Bytes) : ShardData :=
  Block.zeroPadded shardPayloadBytes (batch.take shardPayloadBytes)

def dataShard1 (batch : Bytes) : ShardData :=
  Block.zeroPadded shardPayloadBytes ((batch.drop shardPayloadBytes).take shardPayloadBytes)

/-- `encode_parity_slice` into a zeroed array. -/
def parityShard (rs : ReedSolomon) (batch : Bytes) : ShardData :=
  Block.zeroPadded shardPayloadBytes
    (rs.parity (dataShard0 batch).toList (dataShard1 batch).toList)

def codingGroup (rs : ReedSolomon) (groupId : UInt64) (flags : UInt8) (batch : Bytes) :
    CodingGroup :=
  let shard (idx : UInt8) (data : ShardData) : CoalescedShard :=
    { groupId := groupId
      shardIdx := idx
      flags := flags
      payloadLen := UInt16.ofNat batch.length
      data := data }
  ⟨[shard 0 (dataShard0 batch), shard 1 (dataShard1 batch), shard 2 (parityShard rs batch)], rfl⟩

def groupData (rs : ReedSolomon) (batch : Bytes) : Fin 3 → ShardData
  | 0 => dataShard0 batch
  | 1 => dataShard1 batch
  | 2 => parityShard rs batch

theorem mem_codingGroup {rs : ReedSolomon} {groupId : UInt64} {flags : UInt8} {batch : Bytes}
    {shard : CoalescedShard} (h : shard ∈ (codingGroup rs groupId flags batch).toList) :
    shard.groupId = groupId ∧ shard.payloadLen = UInt16.ofNat batch.length ∧
      ∃ hidx : shard.shardIdx.toNat < 3, shard.data = groupData rs batch ⟨_, hidx⟩ := by
  simp only [codingGroup, List.Vector.toList_mk, mem_cons, not_mem_nil, or_false] at h
  obtain rfl | rfl | rfl := h
  · exact ⟨rfl, rfl, show 0 < 3 by decide, rfl⟩
  · exact ⟨rfl, rfl, show 1 < 3 by decide, rfl⟩
  · exact ⟨rfl, rfl, show 2 < 3 by decide, rfl⟩

/-! ### The queue -/

structure CoalescingQueue where
  buffer : Bytes
  maxBatchSize : ℕ
  timeout : ℕ
  lastFlush : ℕ
  nextGroupId : UInt64
  maxBatchSize_le : maxBatchSize ≤ coalesceTargetBytes
  length_buffer : buffer.length ≤ maxBatchSize

namespace CoalescingQueue

def new (maxBatchSize timeout now : ℕ) : CoalescingQueue where
  buffer := []
  maxBatchSize := min maxBatchSize coalesceTargetBytes
  timeout := timeout
  lastFlush := now
  nextGroupId := 1
  maxBatchSize_le := min_le_right _ _
  length_buffer := Nat.zero_le _

/-- The id after `id`: `wrapping_add`, with 0 left out. -/
def succId (id : UInt64) : UInt64 :=
  if id + 1 = 0 then 1 else id + 1

def flushInternal (rs : ReedSolomon) (q : CoalescingQueue) (flags : UInt8) (clock : ℕ) :
    CoalescingQueue × CodingGroup :=
  let flags := if q.buffer.length < q.maxBatchSize then flags ||| flagPadded else flags
  ({ q with
      buffer := []
      nextGroupId := succId q.nextGroupId
      lastFlush := clock
      length_buffer := Nat.zero_le _ },
    codingGroup rs q.nextGroupId flags q.buffer)

/-- `buffer.extend_from_slice`, up to the room there is. -/
def extend (q : CoalescingQueue) (data : Bytes) : CoalescingQueue :=
  { q with
    buffer := q.buffer ++ data.take (q.maxBatchSize - q.buffer.length)
    length_buffer := by
      have h := q.length_buffer
      rw [length_append, length_take]
      omega }

/-- The loop of `push` over what is left of the data. With a batch size of 0 it makes no
progress, and no fuel is enough. -/
def pushLoop (rs : ReedSolomon) (forceImmediate : Bool) (clock : ℕ) :
    ℕ → CoalescingQueue → Bytes → Option (CoalescingQueue × List CodingGroup)
  | _, q, [] => some (q, [])
  | 0, _, _ :: _ => none
  | fuel + 1, q, b :: data =>
      let q' := q.extend (b :: data)
      let rest := (b :: data).drop (q.maxBatchSize - q.buffer.length)
      if q'.maxBatchSize ≤ q'.buffer.length then
        let full := q'.flushInternal rs (if forceImmediate then flagImmediate else 0) clock
        (pushLoop rs forceImmediate clock fuel full.1 rest).map fun r => (r.1, full.2 :: r.2)
      else pushLoop rs forceImmediate clock fuel q' rest

def flush (rs : ReedSolomon) (q : CoalescingQueue) (flags : UInt8) (clock : ℕ) :
    CoalescingQueue × Option CodingGroup :=
  if q.buffer.isEmpty then (q, none)
  else
    let last := q.flushInternal rs flags clock
    (last.1, some last.2)

def push (rs : ReedSolomon) (q : CoalescingQueue) (data : Bytes) (forceImmediate : Bool)
    (clock : ℕ) : Option (CoalescingQueue × List CodingGroup) :=
  (pushLoop rs forceImmediate clock (data.length + 1) q data).map fun r =>
    if forceImmediate && !r.1.buffer.isEmpty then
      let last := r.1.flushInternal rs flagImmediate clock
      (last.1, r.2 ++ [last.2])
    else r

def tick (rs : ReedSolomon) (q : CoalescingQueue) (now clock : ℕ) :
    CoalescingQueue × Option CodingGroup :=
  if q.buffer.isEmpty then ({ q with lastFlush := now }, none)
  else if q.timeout ≤ now - q.lastFlush then
    let last := q.flushInternal rs 0 clock
    (last.1, some last.2)
  else (q, none)

end CoalescingQueue

/-- A call on the queue, with what the clock reads during it. -/
inductive QueueOp where
  | push (data : Bytes) (forceImmediate : Bool) (clock : ℕ)
  | tick (now clock : ℕ)
  | flush (flags : UInt8) (clock : ℕ)

namespace QueueOp

def pushed : QueueOp → Bytes
  | .push data _ _ => data
  | .tick _ _ => []
  | .flush _ _ => []

def run (rs : ReedSolomon) (q : CoalescingQueue) :
    QueueOp → Option (CoalescingQueue × List CodingGroup)
  | .push data forceImmediate clock => q.push rs data forceImmediate clock
  | .tick now clock => let r := q.tick rs now clock; some (r.1, r.2.toList)
  | .flush flags clock => let r := q.flush rs flags clock; some (r.1, r.2.toList)

/-- A sequence of calls, and all the groups they return. -/
def runAll (rs : ReedSolomon) :
    CoalescingQueue → List QueueOp → Option (CoalescingQueue × List CodingGroup)
  | q, [] => some (q, [])
  | q, op :: ops =>
      (op.run rs q).bind fun r =>
        (runAll rs r.1 ops).map fun later => (later.1, r.2 ++ later.2)

end QueueOp

/-! ### What a queue emits -/

/-- The groups emitted from the id `id` on for the batches `sent`, each listed with its id, and
the id the queue goes on with. -/
inductive Emits (rs : ReedSolomon) (maxBatchSize : ℕ) :
    UInt64 → List (UInt64 × Bytes) → List CodingGroup → UInt64 → Prop
  | nil (id : UInt64) : Emits rs maxBatchSize id [] [] id
  | cons {id id' : UInt64} {batch : Bytes} {sent : List (UInt64 × Bytes)}
      {groups : List CodingGroup} (flags : UInt8) (hlen : batch.length ≤ maxBatchSize)
      (h : Emits rs maxBatchSize (CoalescingQueue.succId id) sent groups id') :
      Emits rs maxBatchSize id ((id, batch) :: sent)
        (codingGroup rs id flags batch :: groups) id'

namespace Emits

variable {rs : ReedSolomon} {m : ℕ} {id id' id'' : UInt64} {sent sent' : List (UInt64 × Bytes)}
  {groups groups' : List CodingGroup}

theorem append (h : Emits rs m id sent groups id') (h' : Emits rs m id' sent' groups' id'') :
    Emits rs m id (sent ++ sent') (groups ++ groups') id'' := by
  induction h with
  | nil => exact h'
  | cons flags hlen _ ih => exact .cons flags hlen (ih h')

theorem length_eq (h : Emits rs m id sent groups id') : groups.length = sent.length := by
  induction h with
  | nil => rfl
  | cons _ _ _ ih => rw [length_cons, length_cons, ih]

theorem batch_length (h : Emits rs m id sent groups id') : ∀ p ∈ sent, p.2.length ≤ m := by
  induction h with
  | nil => simp
  | cons _ hlen _ ih => exact forall_mem_cons.mpr ⟨hlen, ih⟩

theorem exists_batch (h : Emits rs m id sent groups id') {group : CodingGroup}
    (hg : group ∈ groups) :
    ∃ p ∈ sent, ∃ flags, group = codingGroup rs p.1 flags p.2 := by
  induction h with
  | nil => cases hg
  | cons flags _ _ ih =>
      rcases mem_cons.mp hg with rfl | hg
      · exact ⟨_, mem_cons_self, flags, rfl⟩
      · obtain ⟨p, hp, hgroup⟩ := ih hg
        exact ⟨p, mem_cons_of_mem _ hp, hgroup⟩

theorem shardIdx_lt (h : Emits rs m id sent groups id') {shard : CoalescedShard}
    (hshard : ∃ group ∈ groups, shard ∈ group.toList) : shard.shardIdx.toNat < 3 := by
  obtain ⟨group, hgroup, hmem⟩ := hshard
  obtain ⟨p, -, flags, rfl⟩ := h.exists_batch hgroup
  exact (mem_codingGroup hmem).2.2.1

theorem exists_group (h : Emits rs m id sent groups id') {p : UInt64 × Bytes} (hp : p ∈ sent) :
    ∃ flags, codingGroup rs p.1 flags p.2 ∈ groups := by
  induction h with
  | nil => cases hp
  | cons flags _ _ ih =>
      rcases mem_cons.mp hp with rfl | hp
      · exact ⟨flags, mem_cons_self⟩
      · obtain ⟨flags, hmem⟩ := ih hp
        exact ⟨flags, mem_cons_of_mem _ hmem⟩

end Emits

/-- `q'` is `q` after `data` came in and `groups` went out: the batches of the groups and the
new buffer are the old buffer and the data, in order. -/
def Gathers (rs : ReedSolomon) (q : CoalescingQueue) (data : Bytes) (q' : CoalescingQueue)
    (groups : List CodingGroup) : Prop :=
  q'.maxBatchSize = q.maxBatchSize ∧
    ∃ sent, Emits rs q.maxBatchSize q.nextGroupId sent groups q'.nextGroupId ∧
      q.buffer ++ data = sent.flatMap Prod.snd ++ q'.buffer

namespace Gathers

variable {rs : ReedSolomon} {q q' q'' : CoalescingQueue} {data data' : Bytes}
  {groups groups' : List CodingGroup}

theorem refl (q : CoalescingQueue) : Gathers rs q [] q [] :=
  ⟨rfl, [], .nil _, append_nil _⟩

theorem trans (h : Gathers rs q data q' groups) (h' : Gathers rs q' data' q'' groups') :
    Gathers rs q (data ++ data') q'' (groups ++ groups') := by
  obtain ⟨hmax, sent, hemits, hdata⟩ := h
  obtain ⟨hmax', sent', hemits', hdata'⟩ := h'
  rw [hmax] at hemits'
  refine ⟨hmax'.trans hmax, sent ++ sent', hemits.append hemits', ?_⟩
  rw [← append_assoc, hdata, append_assoc, hdata', flatMap_append,
    append_assoc]

theorem flushInternal (rs : ReedSolomon) (q : CoalescingQueue) (flags : UInt8) (clock : ℕ) :
    Gathers rs q [] (q.flushInternal rs flags clock).1 [(q.flushInternal rs flags clock).2] := by
  refine ⟨rfl, [(q.nextGroupId, q.buffer)], .cons _ q.length_buffer (.nil _), ?_⟩
  rw [flatMap_singleton]
  rfl

theorem extend (rs : ReedSolomon) (q : CoalescingQueue) (data : Bytes) :
    Gathers rs q (data.take (q.maxBatchSize - q.buffer.length)) (q.extend data) [] :=
  ⟨rfl, [], .nil _, rfl⟩

end Gathers

namespace CoalescingQueue

variable {rs : ReedSolomon} {q q' : CoalescingQueue} {groups : List CodingGroup}

variable {forceImmediate : Bool} {clock : ℕ}

theorem pushLoop_gathers {fuel : ℕ} {data : Bytes}
    (h : pushLoop rs forceImmediate clock fuel q data = some (q', groups)) :
    Gathers rs q data q' groups := by
  induction fuel generalizing q data q' groups with
  | zero =>
      cases data with
      | nil =>
          cases h
          exact .refl q
      | cons => cases h
  | succ fuel ih =>
      cases data with
      | nil =>
          cases h
          exact .refl q
      | cons b data =>
          have hext := Gathers.extend rs q (b :: data)
          have hsplit := take_append_drop (q.maxBatchSize - q.buffer.length) (b :: data)
          rw [pushLoop] at h
          split at h
          · obtain ⟨⟨q₁, groups₁⟩, hloop, heq⟩ := Option.map_eq_some_iff.mp h
            obtain ⟨rfl, rfl⟩ := Prod.mk.inj heq
            have hflush := Gathers.flushInternal rs (q.extend (b :: data))
              (if forceImmediate then flagImmediate else 0) clock
            have hall := hext.trans (hflush.trans (ih hloop))
            rwa [nil_append, hsplit] at hall
          · have hall := hext.trans (ih h)
            rwa [hsplit] at hall

theorem pushLoop_isSome {fuel : ℕ} {data : Bytes} (hmax : 1 ≤ q.maxBatchSize)
    (hfuel : data.length + (if q.buffer.length < q.maxBatchSize then 0 else 1) ≤ fuel) :
    (pushLoop rs forceImmediate clock fuel q data).isSome := by
  induction fuel generalizing q data with
  | zero =>
      cases data with
      | nil => rfl
      | cons =>
          rw [length_cons] at hfuel
          omega
  | succ fuel ih =>
      cases data with
      | nil => rfl
      | cons b data =>
          have hlen : ((b :: data).drop (q.maxBatchSize - q.buffer.length)).length =
              (b :: data).length - (q.maxBatchSize - q.buffer.length) := length_drop
          have hpos : 0 < (b :: data).length := Nat.succ_pos _
          have hbuf := q.length_buffer
          have hroom : ((b :: data).drop (q.maxBatchSize - q.buffer.length)).length ≤ fuel := by
            rw [hlen]
            split at hfuel <;> omega
          rw [pushLoop]
          split
          · have hflushed : (0 : ℕ) < q.maxBatchSize := hmax
            rw [Option.isSome_map]
            refine ih (q := (flushInternal rs (q.extend (b :: data)) _ clock).1) hmax ?_
            exact (Nat.add_le_add_left (if_pos hflushed).le _).trans hroom
          · rename_i hspace
            refine ih (q := q.extend (b :: data)) hmax ?_
            rw [if_pos (not_le.mp hspace)]
            exact hroom

theorem push_gathers {data : Bytes} (h : q.push rs data forceImmediate clock = some (q', groups)) :
    Gathers rs q data q' groups := by
  obtain ⟨⟨q₁, groups₁⟩, hloop, hrest⟩ := Option.map_eq_some_iff.mp h
  have hgathers := pushLoop_gathers hloop
  split at hrest
  · obtain ⟨rfl, rfl⟩ := Prod.mk.inj hrest
    have hall := hgathers.trans (Gathers.flushInternal rs q₁ flagImmediate clock)
    rwa [append_nil] at hall
  · obtain ⟨rfl, rfl⟩ := Prod.mk.inj hrest
    exact hgathers

theorem push_isSome {data : Bytes} (hmax : 1 ≤ q.maxBatchSize) :
    (q.push rs data forceImmediate clock).isSome := by
  have hloop : (pushLoop rs forceImmediate clock (data.length + 1) q data).isSome := by
    apply pushLoop_isSome hmax
    split <;> omega
  rw [push, Option.isSome_map]
  exact hloop

theorem tick_gathers (q : CoalescingQueue) (now clock : ℕ) :
    Gathers rs q [] (q.tick rs now clock).1 (q.tick rs now clock).2.toList := by
  unfold tick
  split
  · exact ⟨rfl, [], .nil _, append_nil _⟩
  · split
    · exact .flushInternal rs q 0 clock
    · exact .refl q

theorem flush_gathers (q : CoalescingQueue) (flags : UInt8) (clock : ℕ) :
    Gathers rs q [] (q.flush rs flags clock).1 (q.flush rs flags clock).2.toList := by
  unfold flush
  split
  · exact .refl q
  · exact .flushInternal rs q flags clock

theorem buffer_flush (q : CoalescingQueue) (flags : UInt8) (clock : ℕ) :
    (q.flush rs flags clock).1.buffer = [] := by
  unfold flush
  split
  · rename_i hempty
    exact List.isEmpty_iff.mp hempty
  · rfl

end CoalescingQueue

namespace QueueOp

variable {rs : ReedSolomon} {q q' : CoalescingQueue} {groups : List CodingGroup}

theorem run_gathers {op : QueueOp} (h : op.run rs q = some (q', groups)) :
    Gathers rs q op.pushed q' groups := by
  cases op with
  | push => exact CoalescingQueue.push_gathers h
  | tick now clock =>
      cases h
      exact q.tick_gathers now clock
  | flush flags clock =>
      cases h
      exact q.flush_gathers flags clock

theorem runAll_gathers {ops : List QueueOp} (h : runAll rs q ops = some (q', groups)) :
    Gathers rs q (ops.flatMap pushed) q' groups := by
  induction ops generalizing q groups with
  | nil =>
      cases h
      exact .refl _
  | cons op ops ih =>
      obtain ⟨⟨q₁, groups₁⟩, hop, hrest⟩ := Option.bind_eq_some_iff.mp h
      obtain ⟨⟨q₂, groups₂⟩, hops, heq⟩ := Option.map_eq_some_iff.mp hrest
      obtain ⟨rfl, rfl⟩ := Prod.mk.inj heq
      rw [flatMap_cons]
      exact (run_gathers hop).trans (ih hops)

theorem buffer_of_final_flush {ops : List QueueOp} {flags : UInt8} {clock : ℕ}
    (h : runAll rs q (ops ++ [.flush flags clock]) = some (q', groups)) : q'.buffer = [] := by
  induction ops generalizing q groups with
  | nil =>
      cases h
      exact q.buffer_flush flags clock
  | cons op ops ih =>
      obtain ⟨r, -, hrest⟩ := Option.bind_eq_some_iff.mp h
      obtain ⟨later, hlater, heq⟩ := Option.map_eq_some_iff.mp hrest
      obtain ⟨rfl, rfl⟩ := Prod.mk.inj heq
      exact ih hlater

theorem run_isSome (rs : ReedSolomon) (op : QueueOp) (hmax : 1 ≤ q.maxBatchSize) :
    (op.run rs q).isSome := by
  cases op with
  | push => exact CoalescingQueue.push_isSome hmax
  | tick => rfl
  | flush => rfl

theorem runAll_isSome (rs : ReedSolomon) (ops : List QueueOp) (hmax : 1 ≤ q.maxBatchSize) :
    (runAll rs q ops).isSome := by
  induction ops generalizing q with
  | nil => rfl
  | cons op ops ih =>
      obtain ⟨⟨q₁, groups₁⟩, hop⟩ := Option.isSome_iff_exists.mp (run_isSome rs op hmax)
      have hmax₁ : 1 ≤ q₁.maxBatchSize := by
        rw [(run_gathers hop).1]
        exact hmax
      rw [runAll, hop, Option.bind_some, Option.isSome_map]
      exact ih hmax₁

end QueueOp

end Vantablack.Net
