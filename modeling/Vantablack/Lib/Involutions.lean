import Mathlib.Algebra.Group.Commute.Basic
import Mathlib.Algebra.Group.Subgroup.Lattice
import Mathlib.Algebra.Group.Subgroup.Finite
import Mathlib.Data.List.FinRange

/-!
Commuting involutions of a group. What they generate are the products of some of them, each taken at
most once, and two such products multiply to the product of those that only one of them has.
-/

namespace Vantablack.Lib

variable {n : ℕ} {G : Type*} [Group G]

/-- The product of the chosen members of a family. -/
def pick (s : Fin n → G) (c : Fin n → Bool) : G := (((List.finRange n).filter c).map s).prod

theorem pick_none (s : Fin n → G) : pick s (fun _ => false) = 1 := by
  simp [pick]

theorem pick_mem_closure (s : Fin n → G) (c : Fin n → Bool) :
    pick s c ∈ Subgroup.closure (Set.range s) := by
  refine Subgroup.list_prod_mem _ fun g hg => ?_
  obtain ⟨j, _, rfl⟩ := List.mem_map.mp hg
  exact Subgroup.subset_closure (Set.mem_range_self j)

section Commuting

variable {s : Fin n → G} (hcomm : ∀ i j, Commute (s i) (s j)) (hinv : ∀ j, s j * s j = 1)

include hcomm

theorem commute_prod (j : Fin n) (l : List (Fin n)) : Commute (s j) (l.map s).prod := by
  refine Commute.list_prod_right _ _ fun g hg => ?_
  obtain ⟨i, _, rfl⟩ := List.mem_map.mp hg
  exact hcomm j i

include hinv

theorem prod_filter_xor (c d : Fin n → Bool) (l : List (Fin n)) :
    ((l.filter fun j => c j ^^ d j).map s).prod =
      ((l.filter c).map s).prod * ((l.filter d).map s).prod := by
  induction l with
  | nil => exact (one_mul 1).symm
  | cons j l ih =>
    have hjc := commute_prod hcomm j (l.filter c)
    cases hc : c j with
    | false =>
      cases hd : d j with
      | false => simp [hc, hd, ih]
      | true =>
        simp only [List.filter_cons, hc, hd, Bool.false_xor, if_true, List.map_cons, List.prod_cons,
          ih, Bool.false_eq_true, if_false]
        rw [← mul_assoc, hjc.eq, mul_assoc]
    | true =>
      cases hd : d j with
      | false => simp [hc, hd, ih, mul_assoc]
      | true =>
        simp only [List.filter_cons, hc, hd, Bool.xor_self, if_true, List.map_cons, List.prod_cons,
          ih, Bool.false_eq_true, if_false]
        rw [hjc.eq, mul_assoc, ← mul_assoc (s j), hinv, one_mul]

theorem pick_xor (c d : Fin n → Bool) : pick s (fun j => c j ^^ d j) = pick s c * pick s d :=
  prod_filter_xor hcomm hinv c d _

theorem pick_mul_self (c : Fin n → Bool) : pick s c * pick s c = 1 := by
  rw [← pick_xor hcomm hinv]
  simp [pick]

omit hcomm hinv in
theorem pick_single (j : Fin n) : pick s (fun i => decide (i = j)) = s j := by
  have hfilter : (List.finRange n).filter (fun i => decide (i = j)) = [j] := by
    rw [List.filter_eq, List.count_eq_one_of_mem (List.nodup_finRange n) (List.mem_finRange j)]
    rfl
  simp [pick, hfilter]

theorem mem_closure_iff {g : G} : g ∈ Subgroup.closure (Set.range s) ↔ ∃ c, g = pick s c := by
  constructor
  · intro hg
    induction hg using Subgroup.closure_induction with
    | mem g hg =>
      obtain ⟨j, rfl⟩ := hg
      exact ⟨_, (pick_single j).symm⟩
    | one => exact ⟨_, (pick_none s).symm⟩
    | mul g g' _ _ hg hg' =>
      obtain ⟨c, rfl⟩ := hg
      obtain ⟨d, rfl⟩ := hg'
      exact ⟨_, (pick_xor hcomm hinv c d).symm⟩
    | inv g _ hg =>
      obtain ⟨c, rfl⟩ := hg
      exact ⟨c, inv_eq_of_mul_eq_one_left (pick_mul_self hcomm hinv c)⟩
  · rintro ⟨c, rfl⟩
    exact pick_mem_closure s c

end Commuting

end Vantablack.Lib
