import Mathlib.Data.Rat.Floor
import Vantablack.Layers.Kem

/-!
The shards of a file, `abos-protocol/src/shard.rs`: how a file is split, and how it is put together
again.
-/

namespace Vantablack.Abos

open Lib Layers

/-- How a function stops short: with a panic, or with an `Error::ProtocolError`. -/
inductive Stop where
  | panicked (message : String)
  | protocolError (message : String)
  deriving DecidableEq

structure Shard where
  fileId : Octets 32
  shardIndex : ℕ
  totalShards : ℕ
  data : Bytes
  checksum : UInt32
  deriving DecidableEq

def crc32Poly : UInt32 := 0xEDB88320

/-- An entry of the table. -/
def crc32Table (i : UInt32) : UInt32 :=
  Nat.iterate (fun crc => if crc &&& 1 = 1 then (crc >>> 1) ^^^ crc32Poly else crc >>> 1) 8 i

/-- `crc32fast::hash`. -/
def crc32 (data : Bytes) : UInt32 :=
  let crc := data.foldl
    (fun (crc : UInt32) byte => (crc >>> 8) ^^^ crc32Table ((crc ^^^ byte.toUInt32) &&& 0xFF))
    0xFFFFFFFF
  crc ^^^ 0xFFFFFFFF

def ceilU32 (x : ℚ) : ℕ := min ⌈x⌉₊ (2 ^ 32 - 1)

/-- The data of a shard: its part of the file, filled up with zeros. -/
def shardData (data : Bytes) (shardSize start : ℕ) : Bytes :=
  let part :=
    if start < data.length then
      let stop := min (start + shardSize) data.length
      (data.drop start).take (stop - start)
    else []
  if part.length < shardSize then part ++ List.replicate (shardSize - part.length) 0 else part

/-- The counts are those of exact arithmetic; the code rounds the quotient and the product in `f64`. -/
def splitFile (hmacSha256 : Bytes → Bytes → Octets 32) (data : Bytes) (shardSize : ℕ)
    (redundancy : ℚ) : List Shard :=
  let fileId := hmacSha256 (utf8 "file_id") data
  let totalShards := ceilU32 ((data.length : ℚ) / shardSize)
  let targetShards := ceilU32 (totalShards * redundancy)
  (List.range targetShards).map fun i =>
    let start := i % totalShards * shardSize
    let shardData := shardData data shardSize start
    { fileId := fileId
      shardIndex := i
      totalShards := totalShards
      data := shardData
      checksum := crc32 shardData }

/-! ### Putting together -/

/-- `collected[idx]`, which takes the shard if it is free. -/
def placeAt (collected : List (Option Shard)) (idx : ℕ) (shard : Shard) :
    Except Stop (List (Option Shard)) :=
  match collected[idx]? with
  | some none => .ok (collected.set idx (some shard))
  | some (some _) => .ok collected
  | none =>
      .error (.panicked ("index out of bounds: the len is " ++ toString collected.length ++
        " but the index is " ++ toString idx))

/-- The first pass: each original shard in its own slot, the first one that comes. -/
def placeOriginals (fileId : Octets 32) (total : ℕ) (shards : List Shard)
    (collected : List (Option Shard)) : Except Stop (List (Option Shard)) :=
  shards.foldlM
    (fun collected shard =>
      if shard.fileId ≠ fileId then .error (.protocolError "Shard file_id mismatch")
      else if shard.shardIndex < total then placeAt collected shard.shardIndex shard
      else .ok collected)
    collected

/-- The second pass: copies in the slots that are left. -/
def fillGaps (total : ℕ) (shards : List Shard) (collected : List (Option Shard)) :
    Except Stop (List (Option Shard)) :=
  shards.foldlM
    (fun collected shard =>
      if total ≤ shard.shardIndex then
        if total = 0 then
          .error (.panicked "attempt to calculate the remainder with a divisor of zero")
        else placeAt collected (shard.shardIndex % total) shard
      else .ok collected)
    collected

/-- The data of a slot goes behind what there is, or zeros if it is empty. -/
def appendSlot (shardSize : ℕ) (fileData : Bytes) : Option Shard → Except Stop Bytes
  | some shard =>
      if crc32 shard.data ≠ shard.checksum then
        .error (.protocolError "Shard checksum mismatch")
      else .ok (fileData ++ shard.data)
  | none => .ok (fileData ++ List.replicate shardSize 0)

def assemble (shardSize : ℕ) (collected : List (Option Shard)) : Except Stop Bytes :=
  collected.foldlM (appendSlot shardSize) []

def trimZeros (fileData : Bytes) : Bytes := (fileData.reverse.dropWhile (· = 0)).reverse

def reconstructFile (hmacSha256 : Bytes → Bytes → Octets 32) (shards : List Shard) :
    Except Stop Bytes :=
  match shards with
  | [] => .error (.protocolError "No shards provided")
  | first :: _ => do
      let total := first.totalShards
      let collected ← placeOriginals first.fileId total shards (List.replicate total none)
      let collected ← fillGaps total shards collected
      let available := (collected.filter Option.isSome).length
      if available < max (total * 3 / 4) 1 then
        .error (.protocolError
          ("Insufficient shards: " ++ toString available ++ "/" ++ toString total))
      else
        let fileData ← assemble first.data.length collected
        let fileData := trimZeros fileData
        if hmacSha256 (utf8 "file_id") fileData ≠ first.fileId then
          .error (.protocolError "File hash mismatch - data corruption")
        else .ok fileData

/-! ### What a file is split into -/

theorem length_shardData (data : Bytes) (shardSize start : ℕ) :
    (shardData data shardSize start).length = shardSize := by
  have hfill : ∀ part : Bytes, part.length ≤ shardSize →
      (if part.length < shardSize then part ++ List.replicate (shardSize - part.length) 0
        else part).length = shardSize := by
    intro part hle
    split
    · rw [List.length_append, List.length_replicate]
      omega
    · omega
  unfold shardData
  refine hfill _ ?_
  split
  · rw [List.length_take]
    omega
  · exact Nat.zero_le _

theorem one_le_ceilU32 {x : ℚ} (hx : 0 < x) : 1 ≤ ceilU32 x :=
  le_min (Nat.one_le_ceil_iff.mpr hx) (by norm_num)

theorem splitFile_ne_nil {hmacSha256 : Bytes → Bytes → Octets 32} {data : Bytes} (hdata : data ≠ [])
    {shardSize : ℕ} (hsize : 0 < shardSize) {redundancy : ℚ} (hredundancy : 0 < redundancy) :
    splitFile hmacSha256 data shardSize redundancy ≠ [] := by
  have hlength : (0 : ℚ) < data.length := by
    exact_mod_cast List.length_pos_of_ne_nil hdata
  have htotal := one_le_ceilU32 (div_pos hlength (Nat.cast_pos.mpr hsize))
  have htarget := one_le_ceilU32 (mul_pos (Nat.cast_pos.mpr htotal) hredundancy)
  intro hnil
  have hzero := congrArg List.length hnil
  unfold splitFile at hzero
  rw [List.length_map, List.length_range] at hzero
  exact absurd htarget (by rw [hzero]; decide)

theorem length_of_mem_splitFile {hmacSha256 : Bytes → Bytes → Octets 32} {data : Bytes}
    {shardSize : ℕ} {redundancy : ℚ} {shard : Shard}
    (h : shard ∈ splitFile hmacSha256 data shardSize redundancy) : shard.data.length = shardSize := by
  obtain ⟨i, -, rfl⟩ := List.mem_map.mp h
  exact length_shardData data shardSize _

end Vantablack.Abos
