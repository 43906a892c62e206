import Mathlib.Algebra.BigOperators.Group.List.Basic
import Mathlib.Algebra.Order.Field.Rat
import Mathlib.Data.List.GetD
import Mathlib.Tactic.Linarith
import Mathlib.Tactic.Ring

/-!
The fidelity of a chain of entangled links and the order in which they are fused, of
`topology/routing.py`. Fidelities are exact rationals. The indices of an order refer to the list of
segments at that step, which is one shorter after every fusion.
-/

namespace Vantablack.Quantum

open List

def swappedFidelity (f₁ f₂ : ℚ) : ℚ := (4 * f₁ * f₂ - f₁ - f₂ + 1) / 3

/-- The exceptions of `e2e_fidelity`. -/
inductive SwapError where
  | indexError (message : String)
  | valueError (message : String)
  deriving DecidableEq

/-- A turn of the loop of `e2e_fidelity`. -/
def fuse (segments : List ℚ) (pair : ℤ × ℤ) : Except SwapError (List ℚ) :=
  let lo := min pair.1 pair.2
  let hi := max pair.1 pair.2
  if lo < 0 ∨ (segments.length : ℤ) ≤ hi then
    .error (.indexError "swap order references a non-existent segment")
  else
    let merged := swappedFidelity (segments.getD lo.toNat 0) (segments.getD hi.toNat 0)
    .ok ((segments.set lo.toNat merged).eraseIdx hi.toNat)

def e2eFidelity (fidelities : List ℚ) (order : Option (List (ℤ × ℤ))) : Except SwapError ℚ :=
  match fidelities, order with
  | [], _ => .ok 1
  | f :: fs, none => .ok (fs.foldl swappedFidelity f)
  | f :: fs, some order => do
      match ← order.foldlM fuse (f :: fs) with
      | [segment] => .ok segment
      | _ => .error (.valueError "swap order must fuse all segments into one")

/-- The inner function of `_fusion_orders`. -/
def fusionOrdersDfs (current : List ℕ) : List (List (ℤ × ℤ)) :=
  if current.length = 1 then [[]]
  else
    (finRange (current.length - 1)).flatMap fun k : Fin (current.length - 1) =>
      let rest := current.take k ++ current.get ⟨k, by omega⟩ :: current.drop (k + 2)
      (fusionOrdersDfs rest).map fun tail => ((k : ℤ), (k : ℤ) + 1) :: tail
termination_by current.length
decreasing_by
  have hk := k.isLt
  simp only [length_append, length_take, length_cons, length_drop]
  omega

def fusionOrders (n : ℕ) : List (List (ℤ × ℤ)) := fusionOrdersDfs (range n)

/-- The default of `brute_force_limit`. -/
def bruteForceLimit : ℤ := 8

def optimalSwapOrder (fidelities : List ℚ) (bruteForceLimit : ℤ) :
    Except SwapError (List (ℤ × ℤ) × ℚ) :=
  let n := fidelities.length
  if n ≤ 1 then .ok ([], fidelities.headD 1)
  else if n ≤ bruteForceLimit then
    match fusionOrders n with
    | perm :: _ => do .ok (perm, ← e2eFidelity fidelities (some perm))
    | [] => do .ok ([], ← e2eFidelity fidelities none)
  else
    let order := (range (n - 1)).map fun k : ℕ => ((k : ℤ), (k : ℤ) + 1)
    do .ok (order, ← e2eFidelity fidelities (some order))

/-! ### Werner parameters -/

/-- The parameter of a Werner state, which a swap multiplies. -/
def wernerParameter (f : ℚ) : ℚ := (4 * f - 1) / 3

/-- The fidelity of a chain of links, whatever the order of its swaps. -/
def chainFidelity (fidelities : List ℚ) : ℚ :=
  1 / 4 + 3 / 4 * (fidelities.map wernerParameter).prod

theorem wernerParameter_swapped (f₁ f₂ : ℚ) :
    wernerParameter (swappedFidelity f₁ f₂) = wernerParameter f₁ * wernerParameter f₂ := by
  rw [wernerParameter, wernerParameter, wernerParameter, swappedFidelity]
  ring

variable (f : ℚ)

theorem chainFidelity_singleton : chainFidelity [f] = f := by
  rw [chainFidelity, map_singleton, prod_singleton, wernerParameter]
  ring

variable {fidelities : List ℚ}

theorem chainFidelity_bounds (h : ∀ f ∈ fidelities, 1 / 4 ≤ f ∧ f ≤ 1) :
    1 / 4 ≤ chainFidelity fidelities ∧ chainFidelity fidelities ≤ 1 := by
  have hprod : 0 ≤ (fidelities.map wernerParameter).prod ∧
      (fidelities.map wernerParameter).prod ≤ 1 := by
    induction fidelities with
    | nil => exact ⟨zero_le_one, le_rfl⟩
    | cons f fs ih =>
        obtain ⟨hzero, hone⟩ := ih fun g hg => h g (mem_cons_of_mem _ hg)
        obtain ⟨hlow, hhigh⟩ := h f mem_cons_self
        have hp : 0 ≤ wernerParameter f ∧ wernerParameter f ≤ 1 := by
          rw [wernerParameter]
          constructor <;> linarith
        rw [map_cons, prod_cons]
        exact ⟨mul_nonneg hp.1 hzero, mul_le_one₀ hp.2 hzero hone⟩
  rw [chainFidelity]
  constructor <;> linarith

/-! ### One fusion -/

theorem exists_split_two {α : Type*} {l : List α} {i j : ℕ} (hij : i < j) (hj : j < l.length) :
    ∃ a f b g c, l = a ++ f :: (b ++ g :: c) ∧ a.length = i ∧ a.length + 1 + b.length = j := by
  have hi : i < l.length := hij.trans hj
  have hj' : j - i - 1 < (l.drop (i + 1)).length := by
    rw [length_drop]
    omega
  refine ⟨l.take i, l[i], (l.drop (i + 1)).take (j - i - 1), (l.drop (i + 1))[j - i - 1],
    (l.drop (i + 1)).drop (j - i - 1 + 1), ?_, ?_, ?_⟩
  · rw [← drop_eq_getElem_cons hj', take_append_drop, ← drop_eq_getElem_cons hi,
      take_append_drop]
  · rw [length_take]
    omega
  · rw [length_take, length_take, length_drop]
    omega

variable {segments : List ℚ}

theorem fuse_eq_ok {fused : List ℚ} {pair : ℤ × ℤ} (hne : pair.1 ≠ pair.2)
    (h : fuse segments pair = .ok fused) :
    ∃ a f b g c, segments = a ++ f :: (b ++ g :: c) ∧
      fused = a ++ swappedFidelity f g :: (b ++ c) := by
  obtain ⟨i, j⟩ := pair
  rw [fuse] at h
  dsimp only at h hne
  split at h
  · cases h
  · rename_i hrange
    cases h
    have hlo : (min i j).toNat < (max i j).toNat := by omega
    have hhi : (max i j).toNat < segments.length := by omega
    obtain ⟨a, f, b, g, c, rfl, ha, hb⟩ := exists_split_two hlo hhi
    refine ⟨a, f, b, g, c, rfl, ?_⟩
    have hb' : (a ++ swappedFidelity f g :: b).length = (max i j).toNat := by
      rw [length_append, length_cons]
      omega
    have hf : (a ++ f :: (b ++ g :: c)).getD (min i j).toNat 0 = f := by
      rw [← ha, getD_append_right _ _ _ _ le_rfl, Nat.sub_self]
      rfl
    have hg : (a ++ f :: (b ++ g :: c)).getD (max i j).toNat 0 = g := by
      rw [← hb, getD_append_right _ _ _ _ (by omega), show a.length + 1 + b.length - a.length =
        b.length + 1 by omega, getD_cons_succ, getD_append_right _ _ _ _ le_rfl,
        Nat.sub_self]
      rfl
    rw [hf, hg, ← ha, set_append_right _ _ le_rfl, Nat.sub_self, set_cons_zero, ← hb',
      ← cons_append, ← append_assoc, eraseIdx_append_of_length_le le_rfl,
      Nat.sub_self, eraseIdx_cons_zero, append_assoc, cons_append]

theorem chainFidelity_of_fuse {fused : List ℚ} {pair : ℤ × ℤ} (hne : pair.1 ≠ pair.2)
    (h : fuse segments pair = .ok fused) : chainFidelity fused = chainFidelity segments := by
  obtain ⟨a, f, b, g, c, rfl, rfl⟩ := fuse_eq_ok hne h
  rw [chainFidelity, chainFidelity]
  congr 2
  simp only [map_append, map_cons, prod_append, prod_cons,
    wernerParameter_swapped]
  ring

theorem fuse_first (g : ℚ) (fs : List ℚ) :
    fuse (f :: g :: fs) (0, 1) = .ok (swappedFidelity f g :: fs) := by
  have hrange : ¬ (min (0 : ℤ) 1 < 0 ∨ ((f :: g :: fs).length : ℤ) ≤ max (0 : ℤ) 1) := by
    rw [length_cons, length_cons]
    omega
  rw [fuse]
  dsimp only
  rw [if_neg hrange]
  rfl

/-! ### Whole orders -/

theorem chainFidelity_of_foldlM {order : List (ℤ × ℤ)} (hne : ∀ pair ∈ order, pair.1 ≠ pair.2)
    {fused : List ℚ} (h : order.foldlM fuse segments = .ok fused) :
    chainFidelity fused = chainFidelity segments := by
  induction order generalizing segments with
  | nil =>
      cases h
      rfl
  | cons pair order ih =>
      rw [foldlM_cons] at h
      cases hfuse : fuse segments pair with
      | error e =>
          rw [hfuse] at h
          cases h
      | ok next =>
          rw [hfuse] at h
          rw [ih (fun p hp => hne p (mem_cons_of_mem _ hp)) h,
            chainFidelity_of_fuse (hne pair mem_cons_self) hfuse]

theorem e2eFidelity_eq_chainFidelity {order : List (ℤ × ℤ)} {f : ℚ}
    (hne : ∀ pair ∈ order, pair.1 ≠ pair.2) (h : e2eFidelity fidelities (some order) = .ok f) :
    f = chainFidelity fidelities := by
  cases fidelities with
  | nil =>
      cases h
      rw [chainFidelity, map_nil, prod_nil]
      norm_num
  | cons first rest =>
      rw [e2eFidelity] at h
      cases hfold : order.foldlM fuse (first :: rest) with
      | error e =>
          rw [hfold] at h
          cases h
      | ok segments =>
          rw [hfold] at h
          match segments with
          | [] => cases h
          | [segment] =>
              cases h
              rw [← chainFidelity_of_foldlM hne hfold, chainFidelity_singleton]
          | _ :: _ :: _ => cases h

theorem chainFidelity_foldl (fs : List ℚ) :
    fs.foldl swappedFidelity f = chainFidelity (f :: fs) := by
  induction fs generalizing f with
  | nil => rw [foldl_nil, chainFidelity_singleton]
  | cons g fs ih =>
      rw [foldl_cons, ih, chainFidelity_of_fuse (by decide) (fuse_first f g fs)]

theorem e2eFidelity_none (fidelities : List ℚ) :
    e2eFidelity fidelities none = .ok (chainFidelity fidelities) := by
  cases fidelities with
  | nil =>
      rw [e2eFidelity, chainFidelity, map_nil, prod_nil]
      norm_num
  | cons f fs => rw [e2eFidelity, chainFidelity_foldl]

theorem head?_fusionOrdersDfs (m : ℕ) (current : List ℕ) (h : current.length = m + 1) :
    (fusionOrdersDfs current).head? = some (replicate m (0, 1)) := by
  induction m generalizing current with
  | zero =>
      rw [fusionOrdersDfs, if_pos h]
      rfl
  | succ m ih =>
      match current with
      | [] => cases h
      | [_] => cases h
      | a :: b :: rest =>
          have hrest : (a :: rest).length = m + 1 := Nat.succ.inj h
          obtain ⟨orders, horders⟩ := head?_eq_some_iff.mp (ih (a :: rest) hrest)
          have hfin : finRange ((a :: b :: rest).length - 1) = (0 : Fin (rest.length + 1)) ::
              (finRange rest.length).map Fin.succ := finRange_succ
          rw [fusionOrdersDfs, if_neg (by rw [h]; omega), hfin, flatMap_cons]
          show (((fusionOrdersDfs (a :: rest)).map fun tail => ((0 : ℤ), (0 : ℤ) + 1) :: tail) ++
            _).head? = _
          rw [horders]
          rfl

theorem e2eFidelity_replicate (fs : List ℚ) :
    e2eFidelity (f :: fs) (some (replicate fs.length (0, 1))) =
      .ok (chainFidelity (f :: fs)) := by
  have hfold : (replicate fs.length ((0 : ℤ), (1 : ℤ))).foldlM fuse (f :: fs) =
      .ok [fs.foldl swappedFidelity f] := by
    induction fs generalizing f with
    | nil => rfl
    | cons g fs ih =>
        rw [length_cons, replicate_succ, foldlM_cons, fuse_first]
        exact ih _
  rw [e2eFidelity, hfold, ← chainFidelity_foldl]
  rfl

theorem foldlM_range_isError {k m : ℕ} (hm : segments.length = m + 2) (hlong : 1 ≤ k + m) :
    ∃ e, ((range' k (m + 1)).map fun i : ℕ => ((i : ℤ), (i : ℤ) + 1)).foldlM fuse segments =
      .error e := by
  induction m generalizing k segments with
  | zero =>
      have hrange : min (k : ℤ) (k + 1) < 0 ∨ (segments.length : ℤ) ≤ max (k : ℤ) (k + 1) := by
        omega
      refine ⟨.indexError "swap order references a non-existent segment", ?_⟩
      rw [range'_succ, map_cons, foldlM_cons, fuse]
      dsimp only
      rw [if_pos hrange]
      rfl
  | succ m ih =>
      rw [range'_succ, map_cons, foldlM_cons]
      cases hfuse : fuse segments ((k : ℤ), (k : ℤ) + 1) with
      | error e => exact ⟨e, rfl⟩
      | ok fused =>
          obtain ⟨a, f, b, g, c, rfl, rfl⟩ := fuse_eq_ok (by dsimp only; omega) hfuse
          apply ih
          · simp only [length_append, length_cons] at hm ⊢
            omega
          · omega

/-! ### Swap orders -/

/-- `optimal_swap_order` returns an order that fuses all links to the fidelity of the chain. -/
def SwapsOptimally (fidelities : List ℚ) (limit : ℤ) : Prop :=
  ∃ order, optimalSwapOrder fidelities limit = .ok (order, chainFidelity fidelities) ∧
    e2eFidelity fidelities (some order) = .ok (chainFidelity fidelities)

theorem chainFidelity_nil : chainFidelity [] = 1 := by
  rw [chainFidelity, map_nil, prod_nil]
  norm_num

theorem swapsOptimally_of_length_le_one (h : fidelities.length ≤ 1) (limit : ℤ) :
    SwapsOptimally fidelities limit := by
  refine ⟨[], ?_, ?_⟩
  · rw [optimalSwapOrder, if_pos h]
    match fidelities with
    | [] => rw [chainFidelity_nil, headD_nil]
    | [f] => rw [chainFidelity_singleton, headD_cons]
  · match fidelities with
    | [] => rw [chainFidelity_nil, e2eFidelity]
    | [f] =>
        rw [chainFidelity_singleton]
        rfl

theorem swapsOptimally_of_le {f : ℚ} {fs : List ℚ} {limit : ℤ}
    (h : ((f :: fs).length : ℤ) ≤ limit) (hlong : 1 < (f :: fs).length) :
    SwapsOptimally (f :: fs) limit := by
  have hlen : (range (f :: fs).length).length = fs.length + 1 := length_range
  obtain ⟨orders, horders⟩ := head?_eq_some_iff.mp (head?_fusionOrdersDfs fs.length _ hlen)
  refine ⟨replicate fs.length (0, 1), ?_, e2eFidelity_replicate f fs⟩
  rw [optimalSwapOrder, if_neg (not_le.mpr hlong), if_pos h, fusionOrders, horders]
  dsimp only
  rw [e2eFidelity_replicate]
  rfl

theorem swapsOptimally_of_length_le {limit : ℤ} (h : (fidelities.length : ℤ) ≤ limit) :
    SwapsOptimally fidelities limit := by
  by_cases hshort : fidelities.length ≤ 1
  · exact swapsOptimally_of_length_le_one hshort limit
  · match fidelities with
    | [] => exact absurd (Nat.zero_le 1) hshort
    | f :: fs => exact swapsOptimally_of_le h (not_le.mp hshort)

theorem swapsOptimally_pair (g : ℚ) (limit : ℤ) : SwapsOptimally [f, g] limit := by
  by_cases h : (([f, g] : List ℚ).length : ℤ) ≤ limit
  · exact swapsOptimally_of_le h (Nat.lt_succ_self 1)
  · refine ⟨[(0, 1)], ?_, e2eFidelity_replicate f [g]⟩
    have horder : ((range ([f, g].length - 1)).map fun k : ℕ => ((k : ℤ), (k : ℤ) + 1)) =
        replicate [g].length (0, 1) := rfl
    have htwo : ¬ [f, g].length ≤ 1 := Nat.not_succ_le_self 1
    rw [optimalSwapOrder, if_neg htwo, if_neg h, horder]
    dsimp only
    rw [e2eFidelity_replicate]
    rfl

theorem not_swapsOptimally {limit : ℤ} (hlimit : limit < fidelities.length)
    (hlong : 2 < fidelities.length) : ¬ SwapsOptimally fidelities limit := by
  rintro ⟨order, horder, -⟩
  obtain ⟨m, hm⟩ : ∃ m, fidelities.length = m + 2 := ⟨fidelities.length - 2, by omega⟩
  obtain ⟨e, he⟩ := foldlM_range_isError (k := 0) hm (by omega)
  have hrange : range (fidelities.length - 1) = range' 0 (m + 1) := by
    rw [hm, range_eq_range']
    rfl
  rw [optimalSwapOrder, if_neg (by omega), if_neg (by omega), hrange] at horder
  match fidelities with
  | [] => cases hm
  | f :: fs =>
      dsimp only at horder
      rw [e2eFidelity, he] at horder
      cases horder

/-- An order for two links, or for as many as are enumerated, fuses them all; the order of a longer
chain is refused. Every order of pairs of different segments that is accepted, and no order, give
the fidelity of the chain, which lies between those of the worst and the best link there can be. -/
theorem swap_orders_iff (fidelities : List ℚ) (limit : ℤ) :
    (SwapsOptimally fidelities limit ↔ (fidelities.length : ℤ) ≤ limit ∨ fidelities.length ≤ 2) ∧
      e2eFidelity fidelities none = .ok (chainFidelity fidelities) ∧
      (∀ (order : List (ℤ × ℤ)) (f : ℚ), (∀ pair ∈ order, pair.1 ≠ pair.2) →
        e2eFidelity fidelities (some order) = .ok f → f = chainFidelity fidelities) ∧
      ((∀ f ∈ fidelities, 1 / 4 ≤ f ∧ f ≤ 1) →
        1 / 4 ≤ chainFidelity fidelities ∧ chainFidelity fidelities ≤ 1) := by
  refine ⟨⟨fun h => ?_, fun h => ?_⟩, e2eFidelity_none fidelities,
    fun order f hne hf => e2eFidelity_eq_chainFidelity hne hf, chainFidelity_bounds⟩
  · by_contra hlong
    rw [not_or, not_le, not_le] at hlong
    exact not_swapsOptimally hlong.1 hlong.2 h
  · rcases h with hlimit | hshort
    · exact swapsOptimally_of_length_le hlimit
    · match fidelities with
      | [] => exact swapsOptimally_of_length_le_one (Nat.zero_le _) limit
      | [f] => exact swapsOptimally_of_length_le_one le_rfl limit
      | [f, g] => exact swapsOptimally_pair f g limit
      | f :: g :: k :: fs =>
          rw [length_cons, length_cons, length_cons] at hshort
          omega

theorem swap_orders_three :
    SwapsOptimally [9 / 10, 4 / 5, 7 / 10] bruteForceLimit ∧
      (67 / 125 : ℚ) = chainFidelity [9 / 10, 4 / 5, 7 / 10] ∧
      chainFidelity [9 / 10, 4 / 5, 7 / 10] ≤ 1 := by
  have h := swap_orders_iff [9 / 10, 4 / 5, 7 / 10] bruteForceLimit
  have hlinks : ∀ f ∈ ([9 / 10, 4 / 5, 7 / 10] : List ℚ), 1 / 4 ≤ f ∧ f ≤ 1 := by
    decide +kernel
  -- the last link is fused with the first, and the result with the one between
  refine ⟨h.1.mpr (by decide), ?_, (h.2.2.2 hlinks).2⟩
  exact h.2.2.1 [(2, 0), (1, 0)] _ (by decide) (by decide +kernel)

/-- Nine links are one more than are enumerated. -/
theorem not_swapsOptimally_nineLinks :
    ¬ SwapsOptimally (replicate 9 (9 / 10)) bruteForceLimit ∧
      optimalSwapOrder (replicate 9 (9 / 10)) bruteForceLimit =
        .error (.indexError "swap order references a non-existent segment") := by
  have herror : optimalSwapOrder (replicate 9 (9 / 10)) bruteForceLimit =
      .error (.indexError "swap order references a non-existent segment") := by
    decide +kernel
  refine ⟨?_, herror⟩
  rintro ⟨order, horder, -⟩
  rw [herror] at horder
  cases horder

end Vantablack.Quantum
