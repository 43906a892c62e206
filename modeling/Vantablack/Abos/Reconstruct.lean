import Mathlib.Data.List.DropRight
import Vantablack.Abos.Shard

/-!
When the shards of a file make the file again, and what putting shards together does with a list
that comes from anyone.
-/

namespace Vantablack.Abos

open Lib Layers List

theorem shardData_eq (data : Bytes) (shardSize start : ℕ) :
    shardData data shardSize start = (data.drop start).take shardSize ++
      replicate (shardSize - (data.length - start)) 0 := by
  have hfill : ∀ part : Bytes, (if part.length < shardSize then
      part ++ replicate (shardSize - part.length) 0 else part) =
        part ++ replicate (shardSize - part.length) 0 := by
    intro part
    split
    · rfl
    · rename_i hlong
      rw [Nat.sub_eq_zero_of_le (Nat.le_of_not_lt hlong), replicate_zero, append_nil]
  have hpart : (if start < data.length then
      (data.drop start).take (min (start + shardSize) data.length - start) else []) =
        (data.drop start).take shardSize := by
    split
    · rcases Nat.le_total (start + shardSize) data.length with hinside | houtside
      · rw [Nat.min_eq_left hinside, Nat.add_sub_cancel_left]
      · rw [Nat.min_eq_right houtside, take_of_length_le (by rw [length_drop]),
          take_of_length_le (by rw [length_drop]; omega)]
    · rename_i hafter
      rw [drop_of_length_le (Nat.le_of_not_lt hafter), take_nil]
  unfold shardData
  dsimp only
  rw [hpart, hfill, length_take, length_drop]
  congr 2
  omega

theorem flatMap_shardData (data : Bytes) (shardSize n : ℕ) :
    (range n).flatMap (fun i => shardData data shardSize (i * shardSize)) =
      data.take (n * shardSize) ++ replicate (n * shardSize - data.length) 0 := by
  induction n with
  | zero => simp
  | succ n ih =>
      rw [range_succ, flatMap_append, ih, flatMap_singleton, shardData_eq,
        Nat.succ_mul, take_add]
      rcases Nat.le_total (n * shardSize) data.length with hinside | hafter
      · rw [Nat.sub_eq_zero_of_le hinside, replicate_zero, append_nil,
          append_assoc]
        congr 3
        omega
      · rw [drop_of_length_le hafter, take_nil, append_nil, nil_append,
          append_assoc, replicate_append_replicate]
        congr 2
        omega

variable {data : Bytes}

theorem trimZeros_eq_iff (hdata : data ≠ []) (n : ℕ) :
    trimZeros (data.take n ++ replicate (n - data.length) 0) = data ↔
      data.getLast? ≠ some 0 ∧ data.length ≤ n := by
  have htrim : ∀ bytes : Bytes, trimZeros bytes = bytes.rdropWhile (· = 0) := fun _ => rfl
  rw [htrim]
  rcases Nat.lt_or_ge n data.length with hshort | hlong
  · refine iff_of_false (fun heq => ?_) (fun h => absurd h.2 (Nat.not_le.mpr hshort))
    have hlength := (List.rdropWhile_prefix (fun b : UInt8 => decide (b = 0))
      (l := data.take n ++ replicate (n - data.length) 0)).length_le
    rw [heq, length_append, length_take, length_replicate] at hlength
    omega
  · rw [take_of_length_le hlong, and_iff_left hlong]
    have hzeros : ∀ k, rdropWhile (fun b : UInt8 => decide (b = 0))
        (data ++ replicate k 0) = data.rdropWhile fun b => decide (b = 0) := by
      intro k
      induction k with
      | zero => rw [replicate_zero, append_nil]
      | succ k ih =>
          rw [replicate_succ', ← append_assoc,
            rdropWhile_concat_pos _ _ _ (by simp), ih]
    rw [hzeros, rdropWhile_eq_self_iff, getLast?_eq_some_getLast hdata]
    simp [hdata]

/-! ### The slots -/

/-- A slot for each part, with shards of the list that are copies of the slot's part. -/
structure Slots (total : ℕ) (shards : List Shard) (collected : List (Option Shard)) : Prop where
  length : collected.length = total
  copy : ∀ i shard, collected[i]? = some (some shard) → shard ∈ shards ∧ shard.shardIndex % total = i

def Filled (collected : List (Option Shard)) (i : ℕ) : Prop :=
  ∃ shard, collected[i]? = some (some shard)

/-- What a step over the shards does: slots stay filled, and a shard that it is for finds its slot
filled afterwards. -/
def Places (total : ℕ) (shards : List Shard) (collected collected' : List (Option Shard))
    (shard : Shard) (meant : Prop) : Prop :=
  Slots total shards collected' ∧ (∀ i, Filled collected i → Filled collected' i) ∧
    (meant → Filled collected' (shard.shardIndex % total))

variable {total : ℕ} {shards : List Shard} {collected : List (Option Shard)}

theorem slots_empty (total : ℕ) (shards : List Shard) :
    Slots total shards (replicate total none) where
  length := length_replicate
  copy i shard h := by
    rw [getElem?_replicate] at h
    split at h
    · cases h
    · cases h

theorem Slots.placeAt (h : Slots total shards collected) {shard : Shard} (hmem : shard ∈ shards)
    (htotal : 0 < total) (meant : Prop) :
    ∃ collected', placeAt collected (shard.shardIndex % total) shard = .ok collected' ∧
      Places total shards collected collected' shard meant := by
  have hslot : shard.shardIndex % total < collected.length := by
    rw [h.length]
    exact Nat.mod_lt _ htotal
  rw [Abos.placeAt]
  rw [getElem?_eq_getElem hslot]
  cases hfree : collected[shard.shardIndex % total] with
  | some other =>
      refine ⟨collected, rfl, h, fun i hi => hi, fun _ => ⟨other, ?_⟩⟩
      rw [getElem?_eq_getElem hslot, hfree]
  | none =>
      refine ⟨_, rfl, ⟨length_set.trans h.length, ?_⟩, ?_, ?_⟩
      · intro i other hother
        by_cases hi : shard.shardIndex % total = i
        · subst hi
          rw [getElem?_set_self hslot] at hother
          cases hother
          exact ⟨hmem, rfl⟩
        · rw [getElem?_set_ne hi] at hother
          exact h.copy i other hother
      · rintro i ⟨other, hother⟩
        by_cases hi : shard.shardIndex % total = i
        · subst hi
          exact ⟨shard, getElem?_set_self hslot⟩
        · exact ⟨other, by rw [getElem?_set_ne hi, hother]⟩
      · exact fun _ => ⟨shard, getElem?_set_self hslot⟩

theorem Slots.pass {f : List (Option Shard) → Shard → Except Stop (List (Option Shard))}
    {P : Shard → Prop} {part : List Shard} (hpart : part ⊆ shards)
    (hstep : ∀ collected, Slots total shards collected → ∀ shard ∈ part,
      ∃ collected', f collected shard = .ok collected' ∧
        Places total shards collected collected' shard (P shard))
    (h : Slots total shards collected) :
    ∃ collected', part.foldlM f collected = .ok collected' ∧ Slots total shards collected' ∧
      (∀ i, Filled collected i → Filled collected' i) ∧
      ∀ shard ∈ part, P shard → Filled collected' (shard.shardIndex % total) := by
  induction part generalizing collected with
  | nil => exact ⟨collected, rfl, h, fun i hi => hi, nofun⟩
  | cons shard part ih =>
      obtain ⟨next, hnext, hslots, hkept, hfilled⟩ := hstep collected h shard mem_cons_self
      obtain ⟨last, hlast, hslots', hkept', hfilled'⟩ := ih
        (fun s hs => hpart (mem_cons_of_mem _ hs))
        (fun c hc s hs => hstep c hc s (mem_cons_of_mem _ hs)) hslots
      refine ⟨last, ?_, hslots', fun i hi => hkept' i (hkept i hi), ?_⟩
      · rw [foldlM_cons, hnext]
        exact hlast
      · intro s hs hP
        rcases mem_cons.mp hs with rfl | hs
        · exact hkept' _ (hfilled hP)
        · exact hfilled' s hs hP

theorem Slots.placeOriginal (h : Slots total shards collected) {shard : Shard}
    (hmem : shard ∈ shards) :
    ∃ collected', (if shard.shardIndex < total then Abos.placeAt collected shard.shardIndex shard
        else .ok collected) = .ok collected' ∧
      Places total shards collected collected' shard (shard.shardIndex < total) := by
  split
  · rename_i horiginal
    have hplaced := h.placeAt hmem (by omega) (shard.shardIndex < total)
    rw [Nat.mod_eq_of_lt horiginal] at hplaced
    exact hplaced
  · rename_i hcopy
    exact ⟨collected, rfl, h, fun i hi => hi, fun hmeant => absurd hmeant hcopy⟩

theorem Slots.placeOriginals (h : Slots total shards collected) {fileId : Octets 32}
    (hid : ∀ shard ∈ shards, shard.fileId = fileId) :
    ∃ collected', placeOriginals fileId total shards collected = .ok collected' ∧
      Slots total shards collected' ∧
      ∀ shard ∈ shards, shard.shardIndex < total →
        Filled collected' (shard.shardIndex % total) := by
  obtain ⟨last, hlast, hslots, -, hfilled⟩ := h.pass (Subset.refl shards)
    (P := fun shard => shard.shardIndex < total)
    (f := fun collected shard =>
      if shard.fileId ≠ fileId then .error (.protocolError "Shard file_id mismatch")
      else if shard.shardIndex < total then Abos.placeAt collected shard.shardIndex shard
      else .ok collected)
    (fun c hc shard hmem => by
      rw [if_neg (not_not_intro (hid shard hmem))]
      exact hc.placeOriginal hmem)
  exact ⟨last, hlast, hslots, hfilled⟩

theorem Slots.placeOriginals_mismatch {fileId : Octets 32} {part : List Shard}
    (hpart : part ⊆ shards) (hother : ∃ shard ∈ part, shard.fileId ≠ fileId)
    (h : Slots total shards collected) :
    Abos.placeOriginals fileId total part collected =
      .error (.protocolError "Shard file_id mismatch") := by
  induction part generalizing collected with
  | nil =>
      obtain ⟨shard, hshard, -⟩ := hother
      cases hshard
  | cons shard part ih =>
      rw [Abos.placeOriginals, foldlM_cons]
      by_cases hid : shard.fileId = fileId
      · obtain ⟨next, hnext, hslots, -⟩ := h.placeOriginal (hpart mem_cons_self)
        rw [if_neg (not_not_intro hid), hnext]
        refine ih (fun s hs => hpart (mem_cons_of_mem _ hs)) ?_ hslots
        obtain ⟨other, hmem, hne⟩ := hother
        rcases mem_cons.mp hmem with rfl | hmem
        · exact absurd hid hne
        · exact ⟨other, hmem, hne⟩
      · rw [if_pos hid]
        rfl

theorem Slots.fillGaps (h : Slots total shards collected) (htotal : 0 < total) :
    ∃ collected', fillGaps total shards collected = .ok collected' ∧
      Slots total shards collected' ∧ (∀ i, Filled collected i → Filled collected' i) ∧
      ∀ shard ∈ shards, total ≤ shard.shardIndex →
        Filled collected' (shard.shardIndex % total) := by
  refine h.pass (Subset.refl shards) (P := fun shard => total ≤ shard.shardIndex) ?_
  intro c hc shard hmem
  split
  · rename_i hcopy
    rw [if_neg (Nat.ne_of_gt htotal)]
    exact hc.placeAt hmem htotal _
  · rename_i horiginal
    exact ⟨c, rfl, hc, fun i hi => hi, fun hmeant => absurd hmeant horiginal⟩

/-! ### The end of the reconstruction -/

/-- What is left to do when the shards are in their slots. -/
def finish (hmacSha256 : Bytes → Bytes → Octets 32) (first : Shard)
    (collected : List (Option Shard)) : Except Stop Bytes :=
  let total := first.totalShards
  let available := (collected.filter Option.isSome).length
  if available < max (total * 3 / 4) 1 then
    .error (.protocolError
      ("Insufficient shards: " ++ toString available ++ "/" ++ toString total))
  else do
    let fileData ← assemble first.data.length collected
    let fileData := trimZeros fileData
    if hmacSha256 (utf8 "file_id") fileData ≠ first.fileId then
      .error (.protocolError "File hash mismatch - data corruption")
    else .ok fileData

variable {hmacSha256 : Bytes → Bytes → Octets 32} {first : Shard}

theorem reconstructFile_cons (hmacSha256 : Bytes → Bytes → Octets 32) (first : Shard)
    (rest : List Shard) :
    reconstructFile hmacSha256 (first :: rest) =
      (placeOriginals first.fileId first.totalShards (first :: rest)
        (replicate first.totalShards none)).bind fun collected =>
          (fillGaps first.totalShards (first :: rest) collected).bind (finish hmacSha256 first) :=
  rfl

def slotData (shardSize : ℕ) : Option Shard → Bytes
  | some shard => shard.data
  | none => replicate shardSize 0

def Intact (slot : Option Shard) : Prop := ∀ shard ∈ slot, crc32 shard.data = shard.checksum

theorem assemble_cases (shardSize : ℕ) (collected : List (Option Shard)) :
    (assemble shardSize collected = .ok (collected.flatMap (slotData shardSize))) ∨
      ((∃ slot ∈ collected, ¬ Intact slot) ∧
        assemble shardSize collected = .error (.protocolError "Shard checksum mismatch")) := by
  have hfold : ∀ before : Bytes,
      collected.foldlM (appendSlot shardSize) before =
          .ok (before ++ collected.flatMap (slotData shardSize)) ∨
        ((∃ slot ∈ collected, ¬ Intact slot) ∧
          collected.foldlM (appendSlot shardSize) before =
            .error (.protocolError "Shard checksum mismatch")) := by
    induction collected with
    | nil => exact fun before => .inl (congrArg Except.ok (append_nil before).symm)
    | cons slot collected ih =>
        intro before
        rw [foldlM_cons, flatMap_cons]
        by_cases hintact : Intact slot
        · have hstep : appendSlot shardSize before slot = .ok (before ++ slotData shardSize slot) := by
            cases slot with
            | none => rfl
            | some shard => exact if_neg (not_not_intro (hintact shard rfl))
          rw [hstep, ← append_assoc]
          rcases ih (before ++ slotData shardSize slot) with hok | ⟨⟨other, hmem, hbroken⟩, herror⟩
          · exact .inl hok
          · exact .inr ⟨⟨other, mem_cons_of_mem _ hmem, hbroken⟩, herror⟩
        · refine .inr ⟨⟨slot, mem_cons_self, hintact⟩, ?_⟩
          cases slot with
          | none => exact absurd (fun shard hshard => by cases hshard) hintact
          | some shard =>
              have hbroken : crc32 shard.data ≠ shard.checksum := by
                intro heq
                refine hintact fun other hother => ?_
                cases hother
                exact heq
              rw [appendSlot, if_pos hbroken]
              rfl
  exact hfold []

theorem finish_ne_panicked (hmacSha256 : Bytes → Bytes → Octets 32) (first : Shard)
    (collected : List (Option Shard)) (message : String) :
    finish hmacSha256 first collected ≠ .error (.panicked message) := by
  rw [finish]
  dsimp only
  split
  · nofun
  · rcases assemble_cases first.data.length collected with hok | ⟨-, herror⟩
    · rw [hok]
      show (if _ then _ else _) ≠ _
      split
      · nofun
      · nofun
    · rw [herror]
      nofun

theorem fileId_of_finish {file : Bytes} (h : finish hmacSha256 first collected = .ok file) :
    hmacSha256 (utf8 "file_id") file = first.fileId := by
  rw [finish] at h
  dsimp only at h
  split at h
  · cases h
  · rcases assemble_cases first.data.length collected with hok | ⟨-, herror⟩
    · rw [hok] at h
      change (if _ then _ else _) = _ at h
      split at h
      · cases h
      · rename_i hid
        cases h
        exact not_not.mp hid
    · rw [herror] at h
      cases h

/-! ### Any list of shards -/

theorem reconstructFile_cases (hmacSha256 : Bytes → Bytes → Octets 32) (first : Shard)
    (rest : List Shard) :
    ((∃ shard ∈ first :: rest, shard.fileId ≠ first.fileId) ∧
        reconstructFile hmacSha256 (first :: rest) =
          .error (.protocolError "Shard file_id mismatch")) ∨
      ((∀ shard ∈ first :: rest, shard.fileId = first.fileId) ∧ first.totalShards = 0 ∧
        reconstructFile hmacSha256 (first :: rest) =
          .error (.panicked "attempt to calculate the remainder with a divisor of zero")) ∨
      ((∀ shard ∈ first :: rest, shard.fileId = first.fileId) ∧ 0 < first.totalShards ∧
        ∃ collected, Slots first.totalShards (first :: rest) collected ∧
          (∀ shard ∈ first :: rest, Filled collected (shard.shardIndex % first.totalShards)) ∧
          reconstructFile hmacSha256 (first :: rest) = finish hmacSha256 first collected) := by
  have hempty := slots_empty first.totalShards (first :: rest)
  rw [reconstructFile_cons]
  by_cases hid : ∀ shard ∈ first :: rest, shard.fileId = first.fileId
  · obtain ⟨placed, hplaced, hslots, hfilled⟩ := hempty.placeOriginals hid
    rw [hplaced]
    rcases Nat.eq_zero_or_pos first.totalShards with hzero | hpos
    · refine .inr (.inl ⟨hid, hzero, ?_⟩)
      show (fillGaps first.totalShards (first :: rest) placed).bind _ = _
      rw [fillGaps, foldlM_cons, if_pos (by omega), if_pos hzero]
      rfl
    · obtain ⟨collected, hcollected, hslots', hkept, hfilled'⟩ := hslots.fillGaps hpos
      refine .inr (.inr ⟨hid, hpos, collected, hslots', fun shard hshard => ?_, ?_⟩)
      · rcases Nat.lt_or_ge shard.shardIndex first.totalShards with horiginal | hcopy
        · exact hkept _ (hfilled shard hshard horiginal)
        · exact hfilled' shard hshard hcopy
      · show (fillGaps first.totalShards (first :: rest) placed).bind _ = _
        rw [hcollected]
        rfl
  · have hother : ∃ shard ∈ first :: rest, shard.fileId ≠ first.fileId := by
      by_contra hnone
      exact hid fun shard hmem => by_contra fun hne => hnone ⟨shard, hmem, hne⟩
    refine .inl ⟨hother, ?_⟩
    rw [hempty.placeOriginals_mismatch (Subset.refl _) hother]
    rfl

/-- Nothing that comes from the network makes the reconstruction panic, and a file that it returns
has the id of every shard. -/
structure Safe (hmacSha256 : Bytes → Bytes → Octets 32) (shards : List Shard) : Prop where
  noPanic : ∀ message, reconstructFile hmacSha256 shards ≠ .error (.panicked message)
  fileId : ∀ file, reconstructFile hmacSha256 shards = .ok file →
    ∀ shard ∈ shards, hmacSha256 (utf8 "file_id") file = shard.fileId

/-- The first shard says that the file has parts, or a shard is of another file. -/
def HasParts (shards : List Shard) : Prop :=
  ∀ first ∈ shards.head?, first.totalShards ≠ 0 ∨ ∃ shard ∈ shards, shard.fileId ≠ first.fileId
  deriving Decidable

theorem safe_iff (hmacSha256 : Bytes → Bytes → Octets 32) (shards : List Shard) :
    Safe hmacSha256 shards ↔ HasParts shards := by
  cases shards with
  | nil => exact iff_of_true ⟨nofun, nofun⟩ nofun
  | cons first rest =>
      have hparts : HasParts (first :: rest) ↔
          first.totalShards ≠ 0 ∨ ∃ shard ∈ first :: rest, shard.fileId ≠ first.fileId := by
        simp [HasParts]
      rw [hparts]
      rcases reconstructFile_cases hmacSha256 first rest with
        ⟨hother, herror⟩ | ⟨hid, hzero, hpanic⟩ | ⟨hid, hpos, collected, -, -, hfinish⟩
      · refine iff_of_true ⟨fun message => ?_, fun file hfile => ?_⟩ (.inr hother)
        · rw [herror]
          nofun
        · rw [herror] at hfile
          cases hfile
      · refine iff_of_false (fun hsafe => hsafe.noPanic _ hpanic) ?_
        rintro (htotal | ⟨shard, hmem, hne⟩)
        · exact htotal hzero
        · exact hne (hid shard hmem)
      · refine iff_of_true ⟨fun message => ?_, fun file hfile shard hmem => ?_⟩
          (.inl (Nat.ne_of_gt hpos))
        · rw [hfinish]
          exact finish_ne_panicked hmacSha256 first collected message
        · rw [hfinish] at hfile
          rw [fileId_of_finish hfile, hid shard hmem]

/-! ### The shards of a file -/

/-- How many parts a file has. -/
def partCount (data : Bytes) (shardSize : ℕ) : ℕ := ceilU32 ((data.length : ℚ) / shardSize)

/-- Shards of the file in any order, some lost and some doubled, with a copy of each part. -/
structure Received (hmacSha256 : Bytes → Bytes → Octets 32) (data : Bytes) (shardSize : ℕ)
    (redundancy : ℚ) (shards : List Shard) : Prop where
  ofSplit : ∀ shard ∈ shards, shard ∈ splitFile hmacSha256 data shardSize redundancy
  sources : ∀ i < partCount data shardSize,
    ∃ shard ∈ shards, shard.shardIndex % partCount data shardSize = i

variable {shardSize : ℕ}

theorem mem_splitFile {redundancy : ℚ} {shard : Shard}
    (h : shard ∈ splitFile hmacSha256 data shardSize redundancy) :
    shard.fileId = hmacSha256 (utf8 "file_id") data ∧
      shard.totalShards = partCount data shardSize ∧
      shard.data = shardData data shardSize
        (shard.shardIndex % partCount data shardSize * shardSize) ∧
      crc32 shard.data = shard.checksum := by
  obtain ⟨i, -, rfl⟩ := mem_map.mp h
  exact ⟨rfl, rfl, rfl, rfl⟩

theorem length_le_parts_iff (data : Bytes) (hsize : 0 < shardSize) :
    data.length ≤ partCount data shardSize * shardSize ↔
      data.length ≤ (2 ^ 32 - 1) * shardSize := by
  constructor
  · intro h
    exact h.trans (Nat.mul_le_mul_right _ (Nat.min_le_right _ _))
  · intro h
    rcases Nat.le_total ⌈(data.length : ℚ) / shardSize⌉₊ (2 ^ 32 - 1) with hfits | hmany
    · rw [partCount, ceilU32, Nat.min_eq_left hfits]
      have hceil := Nat.le_ceil ((data.length : ℚ) / shardSize)
      rw [div_le_iff₀ (Nat.cast_pos.mpr hsize)] at hceil
      exact_mod_cast hceil
    · rw [partCount, ceilU32, Nat.min_eq_right hmany]
      exact h

theorem Slots.flatMap_slotData {redundancy : ℚ}
    (h : Slots (partCount data shardSize) shards collected)
    (hofSplit : ∀ shard ∈ shards, shard ∈ splitFile hmacSha256 data shardSize redundancy)
    (hfilled : ∀ i < partCount data shardSize, Filled collected i) (n : ℕ) :
    collected.flatMap (slotData n) =
      (range (partCount data shardSize)).flatMap
        (fun i => shardData data shardSize (i * shardSize)) := by
  have hmap : collected.map (slotData n) =
      (range (partCount data shardSize)).map
        (fun i => shardData data shardSize (i * shardSize)) := by
    apply ext_getElem
    · rw [length_map, length_map, length_range, h.length]
    · intro i hi hi'
      rw [length_map, length_range] at hi'
      obtain ⟨shard, hshard⟩ := hfilled i hi'
      obtain ⟨hmem, hslot⟩ := h.copy i shard hshard
      obtain ⟨-, -, hdata, -⟩ := mem_splitFile (hofSplit shard hmem)
      obtain ⟨_, hget⟩ := List.getElem?_eq_some_iff.mp hshard
      rw [getElem_map, getElem_map, getElem_range, hget, slotData, hdata, hslot]
  rw [flatMap_def, flatMap_def, hmap]

theorem Received.reconstructFile_eq_iff (hdata : data ≠ []) (hsize : 0 < shardSize) {redundancy : ℚ}
    (h : Received hmacSha256 data shardSize redundancy shards) :
    reconstructFile hmacSha256 shards = .ok data ↔
      data.getLast? ≠ some 0 ∧ data.length ≤ (2 ^ 32 - 1) * shardSize := by
  have hparts : 0 < partCount data shardSize := by
    have hlength : (0 : ℚ) < data.length := by exact_mod_cast length_pos_of_ne_nil hdata
    exact one_le_ceilU32 (div_pos hlength (Nat.cast_pos.mpr hsize))
  cases shards with
  | nil =>
      obtain ⟨shard, hshard, -⟩ := h.sources 0 hparts
      cases hshard
  | cons first rest =>
      obtain ⟨hid, htotal, -, -⟩ := mem_splitFile (h.ofSplit first mem_cons_self)
      rcases reconstructFile_cases hmacSha256 first rest with
        ⟨⟨shard, hmem, hne⟩, -⟩ | ⟨-, hzero, -⟩ | ⟨-, -, collected, hslots, hfilled, hfinish⟩
      · exact absurd ((mem_splitFile (h.ofSplit shard hmem)).1.trans hid.symm) hne
      · omega
      rw [htotal] at hslots hfilled
      have hall : ∀ i < partCount data shardSize, Filled collected i := by
        intro i hi
        obtain ⟨shard, hmem, hslot⟩ := h.sources i hi
        exact hslot ▸ hfilled shard hmem
      have hsome : ∀ slot ∈ collected, slot.isSome = true ∧ Intact slot := by
        intro slot hslot
        obtain ⟨i, hi, rfl⟩ := mem_iff_getElem.mp hslot
        obtain ⟨shard, hshard⟩ := hall i (hslots.length ▸ hi)
        obtain ⟨hmem, -⟩ := hslots.copy i shard hshard
        obtain ⟨_, hget⟩ := List.getElem?_eq_some_iff.mp hshard
        rw [hget]
        refine ⟨rfl, fun other hother => ?_⟩
        cases hother
        exact (mem_splitFile (h.ofSplit shard hmem)).2.2.2
      have hcount : (collected.filter Option.isSome).length = partCount data shardSize := by
        rw [filter_eq_self.mpr fun slot hslot => (hsome slot hslot).1, hslots.length]
      have hassemble : assemble first.data.length collected =
          .ok (data.take (partCount data shardSize * shardSize) ++
            replicate (partCount data shardSize * shardSize - data.length) 0) := by
        rw [← flatMap_shardData, ← hslots.flatMap_slotData h.ofSplit hall first.data.length]
        rcases assemble_cases first.data.length collected with hok | ⟨⟨slot, hslot, hbroken⟩, -⟩
        · exact hok
        · exact absurd (hsome slot hslot).2 hbroken
      rw [hfinish, finish, htotal, hcount]
      dsimp only
      rw [if_neg (by omega), hassemble, ← length_le_parts_iff data hsize,
        ← trimZeros_eq_iff hdata]
      show (if _ then _ else _) = _ ↔ _
      constructor
      · intro hfile
        split at hfile
        · cases hfile
        · exact Except.ok.inj hfile
      · intro htrim
        rw [htrim, if_neg (not_not_intro hid.symm)]

/-- A file is put together from its shards exactly if it does not end in a zero and has not more
parts than a `u32` counts; and a list of shards from anyone is safe exactly if it has parts. -/
theorem reconstruct_iff (hmacSha256 : Bytes → Bytes → Octets 32) (shards : List Shard) :
    (∀ (data : Bytes) (shardSize : ℕ) (redundancy : ℚ), data ≠ [] → 1 ≤ shardSize →
        1 ≤ redundancy → Received hmacSha256 data shardSize redundancy shards →
        (reconstructFile hmacSha256 shards = .ok data ↔
          data.getLast? ≠ some 0 ∧ data.length ≤ (2 ^ 32 - 1) * shardSize)) ∧
      (Safe hmacSha256 shards ↔ HasParts shards) :=
  ⟨fun _ _ _ hdata hsize _ h => h.reconstructFile_eq_iff hdata hsize, safe_iff hmacSha256 shards⟩

/-- The digests of three files under the key `file_id`. -/
def fileIdOf (_key data : Bytes) : Octets 32 :=
  if data = [7, 8, 9] then
    ⟨[241, 144, 42, 84, 187, 73, 38, 5, 184, 36, 139, 27, 243, 57, 227, 226, 189, 239, 161, 185,
      164, 47, 245, 44, 85, 91, 135, 34, 191, 23, 119, 36], rfl⟩
  else if data = [7, 0] then
    ⟨[118, 18, 118, 7, 102, 118, 66, 98, 126, 145, 196, 128, 88, 227, 203, 180, 135, 69, 208, 50,
      229, 111, 68, 232, 110, 22, 218, 179, 226, 22, 131, 255], rfl⟩
  else
    ⟨[159, 140, 147, 150, 86, 236, 65, 99, 98, 205, 62, 113, 108, 162, 116, 125, 116, 4, 106, 52,
      46, 242, 169, 169, 117, 229, 79, 92, 6, 2, 217, 155], rfl⟩

/-- The copy of the first part stands in for it. -/
theorem reconstruct_three_bytes :
    let shards := ((splitFile fileIdOf [7, 8, 9] 2 (3 / 2)).drop 1).reverse
    reconstructFile fileIdOf shards = .ok [7, 8, 9] ∧ Safe fileIdOf shards := by
  intro shards
  have hboth := reconstruct_iff fileIdOf shards
  refine ⟨(hboth.1 [7, 8, 9] 2 (3 / 2) (by decide) (by decide) (by norm_num) ⟨?_, ?_⟩).mpr
    (by decide), hboth.2.mpr ?_⟩
  · intro shard hshard
    exact mem_of_mem_drop (mem_reverse.mp hshard)
  · decide +kernel
  · decide +kernel

/-- A file that ends in a zero is refused, and a shard of a file without parts panics. -/
theorem reconstruct_not_exact :
    let shards := splitFile fileIdOf [7, 0] 2 1
    let noParts : Shard := ⟨fileIdOf [] [], 0, 0, [], 0⟩
    Received fileIdOf [7, 0] 2 1 shards ∧ reconstructFile fileIdOf shards ≠ .ok [7, 0] ∧
      ¬ Safe fileIdOf [noParts] := by
  intro shards noParts
  refine ⟨⟨fun _ h => h, by decide +kernel⟩, by decide +kernel, fun hsafe => ?_⟩
  exact hsafe.noPanic "attempt to calculate the remainder with a divisor of zero" (by decide +kernel)

end Vantablack.Abos
