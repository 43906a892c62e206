import Mathlib.Tactic.FinCases
import Vantablack.Layers.Kem
import Vantablack.Layers.Rs
import Vantablack.Lib.Table

/-!
The reassembly spool of `main.rs`. The shards of one message meet in a bucket; with two of
them the message is put together again and its bucket removed.

A bucket is written, claimed and removed in one step here, so the claim marker that keeps
two concurrent tasks from assembling the same bucket has no counterpart.
-/

namespace Vantablack.Receive

open Lib Layers List

/-- An IP address, `std::net::IpAddr`. -/
inductive IpAddr where
  | v4 (octets : Octets 4)
  | v6 (octets : Octets 16)
  deriving DecidableEq

structure SocketAddr where
  ip : IpAddr
  port : ℕ
  deriving DecidableEq

/-- Which bucket a datagram belongs to. The sender is part of it only before a session. -/
structure SpoolKey where
  sessionHash : Octets 4
  epoch : ℕ
  counter : ℕ
  preSessionSrc : Option SocketAddr
  deriving DecidableEq

abbrev Bucket := List (Option Bytes)

abbrev SpoolPool := Table SpoolKey Bucket

def maxSpoolEntries : ℕ := 8192

def present (b : Bucket) : ℕ := b.countP Option.isSome

/-- Put a full bucket together: pad the shards to one length, fill in the missing one and
join the halves. -/
def rejoin (rs : ReedSolomon) (s : Bucket) : Option Bytes := do
  let m := ((s.filterMap fun x => x.map length).max?).getD 0
  let w := s.map fun x => x.map fun v => v ++ replicate (m - v.length) 0
  match reconstruct rs w with
  | some [some a, some b, _] => some (a ++ b)
  | _ => none

/-- The pruning of an overfull spool: buckets with fewer than two shards go. -/
def prune (pool : SpoolPool) : SpoolPool :=
  if maxSpoolEntries < pool.size then pool.retain fun _ v => 2 ≤ present v else pool

/-- The bucket under a key once a shard is entered. -/
def filled (pool : SpoolPool) (key : SpoolKey) (idx : ℕ) (data : Bytes) : Bucket :=
  (((prune pool).lookup key).getD [none, none, none]).set idx (some data)

/-- Enter a shard: the message it completes, if it does, and the spool after. -/
def assemble (rs : ReedSolomon) (pool : SpoolPool) (key : SpoolKey) (idx : ℕ) (data : Bytes) :
    Option Bytes × SpoolPool :=
  let e := filled pool key idx data
  if 2 ≤ present e then (rejoin rs e, (prune pool).erase key)
  else (none, (prune pool).insert key e)

variable {pool : SpoolPool} {key : SpoolKey}

theorem lookup_prune {b : Bucket} (h : (prune pool).lookup key = some b) :
    pool.lookup key = some b := by
  unfold prune at h
  split at h
  · exact (Table.lookup_retain.mp h).1
  · exact h

variable {rs : ReedSolomon} {data : Bytes}

theorem lookup_assemble {key' : SpoolKey} {idx : ℕ} {b : Bucket}
    (h : (assemble rs pool key idx data).2.lookup key' = some b) :
    (key' ≠ key ∧ pool.lookup key' = some b) ∨ (key' = key ∧ b = filled pool key idx data) := by
  simp only [assemble] at h
  split at h
  · rw [Table.lookup_erase_eq_some] at h
    exact Or.inl ⟨h.1, lookup_prune h.2⟩
  · rw [Table.lookup_insert_eq_some] at h
    rcases h with ⟨hkey, hb⟩ | ⟨hne, hold⟩
    · exact Or.inr ⟨hkey, hb.symm⟩
    · exact Or.inl ⟨hne, lookup_prune hold⟩

theorem getElem?_filled {idx j : ℕ} {v : Bytes}
    (h : (filled pool key idx data)[j]? = some (some v)) :
    (j = idx ∧ v = data) ∨
      (j ≠ idx ∧ ∃ b, (prune pool).lookup key = some b ∧ b[j]? = some (some v)) := by
  unfold filled at h
  by_cases hj : j = idx
  · subst hj
    rw [getElem?_set_self'] at h
    obtain ⟨_, _, hx⟩ := Option.map_eq_some_iff.mp h
    cases hx
    exact Or.inl ⟨rfl, rfl⟩
  · rw [getElem?_set_ne (Ne.symm hj)] at h
    cases hb : (prune pool).lookup key with
    | none =>
        rw [hb, Option.getD_none] at h
        have hmem := mem_of_getElem? h
        simp at hmem
    | some b =>
        rw [hb, Option.getD_some] at h
        exact Or.inr ⟨hj, b, rfl, h⟩

theorem rejoin_isSome (rs : ReedSolomon) {s : Bucket} (hlen : s.length = 3) (h2 : 2 ≤ present s)
    {v : Bytes} (hv : some v ∈ s) (hne : v ≠ []) : ∃ r, rejoin rs s = some r := by
  have hm : 0 < ((s.filterMap fun x => x.map length).max?).getD 0 := by
    have hmem : v.length ∈ s.filterMap (fun x => x.map length) :=
      mem_filterMap.mpr ⟨some v, hv, rfl⟩
    cases hmax : (s.filterMap fun x => x.map length).max? with
    | none =>
        rw [max?_eq_none_iff.mp hmax] at hmem
        cases hmem
    | some m =>
        have hle := (max?_eq_some_iff.mp hmax).2 _ hmem
        exact lt_of_lt_of_le (length_pos_iff.mpr hne) hle
  unfold rejoin
  generalize ((s.filterMap fun x => x.map length).max?).getD 0 = m at hm
  have hpad : ∀ u : Bytes, (u ++ replicate (m - u.length) 0).isEmpty = false := by
    intro u
    rw [isEmpty_eq_false_iff, ← length_pos_iff, length_append,
      length_replicate]
    omega
  obtain ⟨x, y, z, rfl⟩ := length_eq_three.mp hlen
  cases x <;> cases y <;> cases z <;> simp [present] at h2 <;>
    simp only [map_cons, map_nil, Option.map_some, Option.map_none, reconstruct, hpad,
      Bool.false_eq_true, if_false] <;>
    exact ⟨_, rfl⟩

/-! ### A payload sent through the spool -/

/-- What the spool makes of the shards `i` and `j` of a payload, in that order and with
nothing else in it. -/
def sendThrough (rs : ReedSolomon) (key : SpoolKey) (data : Bytes) (i j : Fin 3) :
    Option Bytes := do
  let first ← (encode rs data)[i.1]?
  let second ← (encode rs data)[j.1]?
  (assemble rs (assemble rs ∅ key i first).2 key j second).1

theorem rejoin_of_length {s : Bucket} {n : ℕ} (hlen : ∀ v, some v ∈ s → v.length = n)
    (hne : ∃ v, some v ∈ s) :
    rejoin rs s = match reconstruct rs s with
      | some [some a, some b, _] => some (a ++ b)
      | _ => none := by
  have hall : ∀ k ∈ s.filterMap (fun x => x.map length), k = n := by
    intro k hk
    obtain ⟨x, hx, hxk⟩ := mem_filterMap.mp hk
    obtain ⟨v, rfl, rfl⟩ := Option.map_eq_some_iff.mp hxk
    exact hlen v hx
  have hmax : ((s.filterMap fun x => x.map length).max?).getD 0 = n := by
    cases hm : (s.filterMap fun x => x.map length).max? with
    | none =>
        obtain ⟨v, hv⟩ := hne
        have hmem : v.length ∈ s.filterMap (fun x => x.map length) :=
          mem_filterMap.mpr ⟨some v, hv, rfl⟩
        rw [max?_eq_none_iff.mp hm] at hmem
        cases hmem
    | some k => exact hall k (max?_mem hm)
  have hpad : (s.map fun x => x.map fun v => v ++ replicate (n - v.length) 0) = s := by
    conv_rhs => rw [← map_id s]
    refine map_congr_left fun x hx => ?_
    cases x with
    | none => rfl
    | some v => simp [hlen v hx]
  rw [rejoin, hmax, hpad]

/-- The bucket that holds the shards `a` and `b`. -/
def bucketOf (i j : Fin 3) (a b : Bytes) : Bucket :=
  (([none, none, none] : Bucket).set i (some a)).set j (some b)

theorem prune_of_room (h : pool.size ≤ maxSpoolEntries) : prune pool = pool :=
  if_neg (not_lt.mpr h)

theorem assemble_first (rs : ReedSolomon) (hroom : pool.size ≤ maxSpoolEntries)
    (hfresh : pool.lookup key = none) (i : ℕ) (a : Bytes) :
    assemble rs pool key i a =
      (none, pool.insert key (([none, none, none] : Bucket).set i (some a))) := by
  have hone : ¬ 2 ≤ present (([none, none, none] : Bucket).set i (some a)) := by
    match i with
    | 0 | 1 | 2 | _ + 3 => simp [present]
  simp only [assemble, filled, prune_of_room hroom, hfresh, Option.getD_none]
  rw [if_neg hone]

theorem assemble_second (rs : ReedSolomon) {i j : Fin 3} (hij : i ≠ j) {a : Bytes}
    (hroom : pool.size ≤ maxSpoolEntries)
    (hwaits : pool.lookup key = some (([none, none, none] : Bucket).set i (some a))) (b : Bytes) :
    assemble rs pool key j b = (rejoin rs (bucketOf i j a b), pool.erase key) := by
  have htwo : 2 ≤ present (bucketOf i j a b) := by
    fin_cases i <;> fin_cases j <;> simp [present, bucketOf] at hij ⊢
  simp only [assemble, filled, prune_of_room hroom, hwaits, Option.getD_some]
  exact if_pos htwo

theorem rejoin_bucketOf (rs : ReedSolomon) {i j : Fin 3} (hij : i ≠ j) {a b : Bytes}
    (hlen : a.length = b.length) :
    rejoin rs (bucketOf i j a b) = match reconstruct rs (bucketOf i j a b) with
      | some [some x, some y, _] => some (x ++ y)
      | _ => none := by
  have hmem : ∀ v, some v ∈ bucketOf i j a b ↔ v = a ∨ v = b := by
    intro v
    fin_cases i <;> fin_cases j <;> simp [bucketOf] at hij ⊢ <;> tauto
  refine rejoin_of_length (n := a.length) ?_ ⟨a, (hmem a).mpr (Or.inl rfl)⟩
  intro v hv
  rcases (hmem v).mp hv with rfl | rfl
  · rfl
  · exact hlen.symm

theorem rejoin_shards (hrs : rs.Lawful) {a b : Bytes} (hne : data ≠ []) {i j : Fin 3} (hij : i ≠ j)
    (ha : (encode rs data)[i.1]? = some a) (hb : (encode rs data)[j.1]? = some b) :
    rejoin rs (bucketOf i j a b) = some (padded data) := by
  obtain ⟨low, high, hencode, hjoin, hlen, hlow, hhigh⟩ := encode_eq rs hne
  have hparity := hrs.length_parity low high hlen
  have hrecover := hrs.recoverLow_parity low high hlen
  have hrecover' := hrs.recoverHigh_parity low high hlen
  rw [hencode] at ha hb
  have hsame : a.length = b.length := by
    fin_cases i <;> fin_cases j <;> simp at ha hb <;> simp [← ha, ← hb, hlen, hparity]
  rw [rejoin_bucketOf rs hij hsame]
  fin_cases i <;> fin_cases j <;>
    first
      | exact absurd rfl hij
      | (simp at ha hb
         simp [← ha, ← hb, bucketOf, reconstruct, hlow, hhigh, hjoin, hrecover, hrecover'])

theorem sendThrough_eq (hrs : rs.Lawful) (key : SpoolKey) (hne : data ≠ []) {i j : Fin 3}
    (hij : i ≠ j) : sendThrough rs key data i j = some (padded data) := by
  obtain ⟨low, high, hencode, -⟩ := encode_eq rs hne
  have hshard : ∀ k : Fin 3, ∃ shard, (encode rs data)[k.1]? = some shard := by
    intro k
    rw [hencode]
    fin_cases k <;> exact ⟨_, rfl⟩
  obtain ⟨a, ha⟩ := hshard i
  obtain ⟨b, hb⟩ := hshard j
  have hroom : ∀ e : Bucket, Table.size ((∅ : SpoolPool).insert key e) ≤ maxSpoolEntries := by
    intro e
    rw [Table.size_insert_of_notMem (AList.notMem_empty key)]
    decide
  simp only [sendThrough, ha, hb, Option.bind_eq_bind, Option.bind_some]
  rw [assemble_first rs (Nat.zero_le _) (AList.lookup_empty key),
    assemble_second rs hij (hroom _) (AList.lookup_insert _), rejoin_shards hrs hne hij ha hb]

end Vantablack.Receive
