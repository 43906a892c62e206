import Mathlib.Data.List.Perm.Subperm
import Mathlib.Data.List.Nodup
import Mathlib.Data.Nat.ModEq

/-!
A counter modulo `n` that at each step advances by one or stays. Over `n` values in a row it takes
each value once exactly if it never stays.
-/

namespace Vantablack.Lib

variable {n : ℕ} {l : List ℕ}

theorem getElem_of_advancing (h : l.IsChain fun a b => b = (a + 1) % n) (hlt : ∀ a ∈ l, a < n)
    {i : ℕ} (hi : i < l.length) : l[i] = (l[0] + i) % n := by
  induction i with
  | zero => exact (Nat.mod_eq_of_lt (hlt _ (List.getElem_mem _))).symm
  | succ i ih =>
      have hstep := List.isChain_iff_getElem.mp h i hi
      rw [hstep, ih (by omega), Nat.mod_add_mod, Nat.add_assoc]

theorem nodup_of_advancing (h : l.IsChain fun a b => b = (a + 1) % n) (hlt : ∀ a ∈ l, a < n)
    (hlength : l.length = n) : l.Nodup := by
  rw [List.nodup_iff_injective_getElem]
  rintro ⟨i, hi⟩ ⟨j, hj⟩ heq
  dsimp only at heq
  rw [getElem_of_advancing h hlt hi, getElem_of_advancing h hlt hj] at heq
  have hmod : i ≡ j [MOD n] := Nat.ModEq.add_left_cancel' _ heq
  exact Fin.ext (hmod.eq_of_lt_of_lt (hlength ▸ hi) (hlength ▸ hj))

theorem perm_range_of_nodup (h : l.Nodup) (hlt : ∀ a ∈ l, a < n) (hlength : l.length = n) :
    l.Perm (List.range n) := by
  have hsub : l.Subperm (List.range n) := h.subperm fun a ha => List.mem_range.mpr (hlt a ha)
  exact hsub.perm_of_length_le (by rw [List.length_range, hlength])

theorem perm_range_iff_advancing (hlength : l.length = n) (hlt : ∀ a ∈ l, a < n)
    (hstep : l.IsChain fun a b => b = a ∨ b = (a + 1) % n) :
    l.Perm (List.range n) ↔ l.IsChain fun a b => b = (a + 1) % n := by
  constructor
  · intro hperm
    have hnodup : l.Nodup := hperm.nodup_iff.mpr List.nodup_range
    rw [List.isChain_iff_getElem] at hstep ⊢
    intro i hi
    refine (hstep i hi).resolve_left fun hsame => ?_
    have hij : i + 1 = i := hnodup.getElem_inj_iff.mp hsame
    omega
  · intro hadvances
    exact perm_range_of_nodup (nodup_of_advancing hadvances hlt hlength) hlt hlength

end Vantablack.Lib
