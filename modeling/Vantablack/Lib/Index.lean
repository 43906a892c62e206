import Vantablack.Lib.Table

/-!
A table with a second table beside it, the index of its entries by a value that no two of them
share. The rules say which change of the index goes with a change of the table.

Numbers that are given out in order stand for one thing each, for good.
-/

namespace Vantablack.Lib

variable {κ ν ι : Type*} [DecidableEq κ] [DecidableEq ι]

/-- `index` finds the key of the entry whose value under `f` is asked for. -/
def IsIndex (t : Table κ ν) (f : ν → ι) (index : Table ι κ) : Prop :=
  ∀ i k, index.lookup i = some k ↔ ∃ v, t.lookup k = some v ∧ f v = i

namespace IsIndex

variable {t : Table κ ν} {f : ν → ι} {index : Table ι κ} {k k' : κ} {v v' : ν}

theorem empty (f : ν → ι) : IsIndex (∅ : Table κ ν) f ∅ := by
  intro i k
  rw [AList.lookup_empty, AList.lookup_empty]
  simp

theorem lookup_index (h : IsIndex t f index) (hk : t.lookup k = some v) :
    index.lookup (f v) = some k :=
  (h (f v) k).mpr ⟨v, hk, rfl⟩

theorem unique (h : IsIndex t f index) (hk : t.lookup k = some v) (hk' : t.lookup k' = some v')
    (hf : f v = f v') : k = k' := by
  have hindex := h.lookup_index hk
  rw [hf, h.lookup_index hk'] at hindex
  exact (Option.some.inj hindex).symm

theorem lookup_eq_none_iff (h : IsIndex t f index) {i : ι} :
    index.lookup i = none ↔ ∀ k v, t.lookup k = some v → f v ≠ i := by
  constructor
  · rintro hnone k v hk rfl
    rw [h.lookup_index hk] at hnone
    cases hnone
  · intro hfree
    cases hi : index.lookup i with
    | none => rfl
    | some k =>
        obtain ⟨v, hk, hf⟩ := (h i k).mp hi
        exact absurd hf (hfree k v hk)

theorem insert_same (h : IsIndex t f index) (hk : t.lookup k = some v) (hf : f v' = f v) :
    IsIndex (t.insert k v') f index := by
  intro i k₀
  rw [h i k₀]
  by_cases hk₀ : k₀ = k
  · subst hk₀
    rw [AList.lookup_insert, hk]
    simp [hf]
  · rw [AList.lookup_insert_ne hk₀]

theorem insert_new (h : IsIndex t f index) (hk : t.lookup k = none)
    (hfree : index.lookup (f v) = none) : IsIndex (t.insert k v) f (index.insert (f v) k) := by
  intro i k₀
  rw [Table.lookup_insert_eq_some, h i k₀]
  constructor
  · rintro (⟨rfl, rfl⟩ | ⟨-, v₀, hk₀, hf⟩)
    · exact ⟨v, AList.lookup_insert _, rfl⟩
    · have hne : k₀ ≠ k := by
        rintro rfl
        rw [hk] at hk₀
        cases hk₀
      exact ⟨v₀, by rw [AList.lookup_insert_ne hne, hk₀], hf⟩
  · rintro ⟨v₀, hk₀, rfl⟩
    rcases Table.lookup_insert_eq_some.mp hk₀ with ⟨rfl, rfl⟩ | ⟨-, hk₀⟩
    · exact Or.inl ⟨rfl, rfl⟩
    · exact Or.inr ⟨h.lookup_eq_none_iff.mp hfree k₀ v₀ hk₀, v₀, hk₀, rfl⟩

theorem erase (h : IsIndex t f index) (hk : t.lookup k = some v) :
    IsIndex (t.erase k) f (index.erase (f v)) := by
  intro i k₀
  rw [Table.lookup_erase_eq_some, h i k₀]
  constructor
  · rintro ⟨hne, v₀, hk₀, rfl⟩
    refine ⟨v₀, Table.lookup_erase_eq_some.mpr ⟨?_, hk₀⟩, rfl⟩
    rintro rfl
    rw [hk] at hk₀
    cases hk₀
    exact hne rfl
  · rintro ⟨v₀, hk₀, rfl⟩
    obtain ⟨hne, hk₀⟩ := Table.lookup_erase_eq_some.mp hk₀
    exact ⟨fun hf => hne (h.unique hk₀ hk hf), v₀, hk₀, rfl⟩

theorem move (h : IsIndex t f index) (hk : t.lookup k = some v)
    (hfree : index.lookup (f v') = none) :
    IsIndex (t.insert k v') f ((index.erase (f v)).insert (f v') k) := by
  have herased := h.erase hk
  have hnone : (index.erase (f v)).lookup (f v') = none := by
    cases hfound : (index.erase (f v)).lookup (f v') with
    | none => rfl
    | some k' =>
        obtain ⟨-, hfound⟩ := Table.lookup_erase_eq_some.mp hfound
        rw [hfree] at hfound
        cases hfound
  have hinserted := herased.insert_new (AList.lookup_erase k t) hnone
  intro i k₀
  rw [hinserted i k₀]
  by_cases hk₀ : k₀ = k
  · subst hk₀
    rw [AList.lookup_insert, AList.lookup_insert]
  · rw [AList.lookup_insert_ne hk₀, AList.lookup_insert_ne hk₀, AList.lookup_erase_ne hk₀]

omit [DecidableEq κ] in
theorem lookup_foldl_erase {α : Type*} {l : List α} {g : α → ι} {i : ι} :
    (l.foldl (fun index a => index.erase (g a)) index).lookup i = some k ↔
      index.lookup i = some k ∧ ∀ a ∈ l, g a ≠ i := by
  induction l generalizing index with
  | nil => simp
  | cons a l ih =>
      rw [List.foldl_cons, ih, Table.lookup_erase_eq_some, List.forall_mem_cons]
      constructor
      · rintro ⟨⟨hne, hi⟩, hl⟩
        exact ⟨hi, hne.symm, hl⟩
      · rintro ⟨hi, hne, hl⟩
        exact ⟨⟨hne.symm, hi⟩, hl⟩

theorem retain (h : IsIndex t f index) (p : κ → ν → Bool) :
    IsIndex (Table.retain p t) f ((t.entries.filter fun e => !p e.1 e.2).foldl
      (fun index e => index.erase (f e.2)) index) := by
  intro i k
  rw [lookup_foldl_erase, h i k]
  constructor
  · rintro ⟨⟨v, hk, hf⟩, hkept⟩
    refine ⟨v, Table.lookup_retain.mpr ⟨hk, ?_⟩, hf⟩
    by_contra hgone
    refine hkept ⟨k, v⟩ (List.mem_filter.mpr ⟨AList.mem_lookup_iff.mp hk, ?_⟩) hf
    simpa using hgone
  · rintro ⟨v, hkv, hf⟩
    obtain ⟨hk, hp⟩ := Table.lookup_retain.mp hkv
    refine ⟨⟨v, hk, hf⟩, fun e he hfe => ?_⟩
    obtain ⟨hmem, hgone⟩ := List.mem_filter.mp he
    have hlookup : t.lookup e.1 = some e.2 := AList.mem_lookup_iff.mpr hmem
    obtain rfl := h.unique hk hlookup (hf.trans hfe.symm)
    rw [hk] at hlookup
    cases hlookup
    simp [hp] at hgone

end IsIndex

/-! ### Numbers given out in order -/

/-- The number `n`, of those below `next`, was given to `x`. -/
def Given {α : Type*} (given : ℕ → α) (next n : ℕ) (x : α) : Prop :=
  n < next ∧ given n = x

namespace Given

variable {α : Type*} {given : ℕ → α} {next n : ℕ} {x y : α}

theorem unique (hx : Given given next n x) (hy : Given given next n y) : x = y :=
  hx.2.symm.trans hy.2

theorem later (h : Given given next n x) (y : α) :
    Given (Function.update given next y) (next + 1) n x := by
  refine ⟨Nat.lt_succ_of_lt h.1, ?_⟩
  rw [Function.update_of_ne (Nat.ne_of_lt h.1)]
  exact h.2

theorem new (given : ℕ → α) (n : ℕ) (y : α) :
    Given (Function.update given n y) (n + 1) n y :=
  ⟨Nat.lt_succ_self n, Function.update_self _ _ _⟩

end Given

end Vantablack.Lib
