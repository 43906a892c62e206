import Mathlib.Data.Finmap

/-!
Finite tables with a value type that does not depend on the key, as association lists:
the model of a concurrent hash map whose operations are atomic. Removing a key that is
not there leaves the table as it is.
-/

namespace Vantablack.Lib

open List

variable {κ ν : Type*} [DecidableEq κ]

abbrev Table (κ ν : Type*) := AList fun _ : κ => ν

namespace Table

def size (t : Table κ ν) : ℕ := t.entries.length

/-- Keep the entries that satisfy `p`. -/
def retain (p : κ → ν → Bool) (t : Table κ ν) : Table κ ν :=
  ⟨t.entries.filter fun e => p e.1 e.2, t.nodupKeys.sublist filter_sublist⟩

variable {t : Table κ ν} {k : κ} {v : ν}

theorem lookup_retain {p : κ → ν → Bool} :
    (retain p t).lookup k = some v ↔ t.lookup k = some v ∧ p k v = true := by
  rw [← Option.mem_def, ← Option.mem_def, AList.mem_lookup_iff, AList.mem_lookup_iff]
  exact mem_filter

/-- Change every value. -/
def mapValues (f : ν → ν) (t : Table κ ν) : Table κ ν :=
  ⟨t.entries.map fun e => ⟨e.1, f e.2⟩, by
    have hkeys : (t.entries.map fun e => (⟨e.1, f e.2⟩ : Sigma fun _ : κ => ν)).keys =
        t.entries.keys := by
      unfold keys
      rw [map_map]
      rfl
    rw [NodupKeys, hkeys]
    exact t.nodupKeys⟩

theorem lookup_mapValues {f : ν → ν} : (mapValues f t).lookup k = (t.lookup k).map f := by
  have hmem : ∀ v, (mapValues f t).lookup k = some v ↔ (t.lookup k).map f = some v := by
    intro v
    rw [← Option.mem_def, AList.mem_lookup_iff, Option.map_eq_some_iff]
    constructor
    · intro h
      obtain ⟨e, he, heq⟩ := mem_map.mp h
      cases heq
      exact ⟨e.2, AList.mem_lookup_iff.mpr he, rfl⟩
    · rintro ⟨u, hu, rfl⟩
      exact mem_map.mpr ⟨⟨k, u⟩, AList.mem_lookup_iff.mp hu, rfl⟩
  exact Option.ext hmem

theorem lookup_erase_eq_some {k' : κ} :
    (t.erase k').lookup k = some v ↔ k ≠ k' ∧ t.lookup k = some v := by
  by_cases h : k = k'
  · subst h
    simp
  · rw [AList.lookup_erase_ne h]
    simp [h]

theorem lookup_insert_eq_some {k' : κ} {v' : ν} :
    (t.insert k' v').lookup k = some v ↔ (k = k' ∧ v' = v) ∨ (k ≠ k' ∧ t.lookup k = some v) := by
  by_cases h : k = k'
  · subst h
    simp
  · rw [AList.lookup_insert_ne h]
    simp [h]

theorem lookup_foldl_erase_eq_some {ks : List κ} :
    (ks.foldl (fun t k => t.erase k) t).lookup k = some v ↔ k ∉ ks ∧ t.lookup k = some v := by
  induction ks generalizing t with
  | nil => simp
  | cons k' ks ih => rw [foldl_cons, ih, lookup_erase_eq_some, mem_cons, not_or]; tauto

theorem erase_of_notMem (h : k ∉ t) : t.erase k = t :=
  AList.ext (kerase_of_notMem_keys h)

theorem erase_insert_empty (k : κ) (v : ν) : ((∅ : Table κ ν).insert k v).erase k = ∅ :=
  AList.ext (kerase_cons_eq rfl)

theorem entries_insert (t : Table κ ν) (k : κ) (v : ν) :
    (t.insert k v).entries = ⟨k, v⟩ :: (t.erase k).entries := rfl

theorem entries_perm (h : t.lookup k = some v) :
    t.entries.Perm (⟨k, v⟩ :: (t.erase k).entries) := by
  have hnodup := (t.insert k v).nodupKeys.nodup
  rw [entries_insert] at hnodup
  rw [perm_ext_iff_of_nodup t.nodupKeys.nodup hnodup]
  rintro ⟨k', v'⟩
  rw [mem_cons, ← AList.mem_lookup_iff, ← AList.mem_lookup_iff, Option.mem_def, Option.mem_def,
    lookup_erase_eq_some]
  constructor
  · intro h'
    by_cases hk : k' = k
    · subst hk
      rw [h] at h'
      cases h'
      exact Or.inl rfl
    · exact Or.inr ⟨hk, h'⟩
  · rintro (heq | ⟨-, h'⟩)
    · cases heq
      exact h
    · exact h'

theorem size_erase_le (t : Table κ ν) (k : κ) : size (t.erase k) ≤ size t :=
  (kerase_sublist k t.entries).length_le

theorem size_erase_of_mem (h : k ∈ t) : size (t.erase k) + 1 = size t := by
  have hkeys : ∀ l : List (Sigma fun _ : κ => ν), l.length = l.keys.length := by
    intro l
    rw [keys, length_map]
  have hmem : k ∈ t.entries.keys := h
  have hpos := length_pos_of_mem hmem
  rw [size, size, hkeys, hkeys t.entries, AList.erase, keys_kerase,
    length_erase_of_mem hmem]
  omega

theorem size_insert_of_notMem (h : k ∉ t) : size (t.insert k v) = size t + 1 := by
  rw [size, AList.entries_insert_of_notMem h, length_cons, size]

theorem size_insert_le (t : Table κ ν) (k : κ) (v : ν) : size (t.insert k v) ≤ size t + 1 := by
  rw [size, entries_insert, length_cons]
  exact Nat.succ_le_succ (size_erase_le t k)

omit [DecidableEq κ] in
theorem size_congr {ν' : Type*} {t' : Table κ ν'} (h : ∀ k, k ∈ t ↔ k ∈ t') : size t = size t' := by
  have hperm : t.entries.keys.Perm t'.entries.keys :=
    (perm_ext_iff_of_nodup t.nodupKeys t'.nodupKeys).mpr h
  have hlen := hperm.length_eq
  rwa [keys, keys, length_map, length_map] at hlen

omit [DecidableEq κ] in
theorem head?_keys_eq_some_iff (h : size t = 1) : t.keys.head? = some k ↔ k ∈ t := by
  obtain ⟨e, he⟩ := length_eq_one_iff.mp h
  have hkeys : t.keys = [e.1] := by
    rw [AList.keys, he]
    rfl
  rw [AList.mem_keys, hkeys, head?_cons, mem_singleton, Option.some.injEq]
  exact eq_comm

end Table

end Vantablack.Lib
