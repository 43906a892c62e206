import Mathlib.Algebra.BigOperators.Fin
import Mathlib.Algebra.BigOperators.Option
import Mathlib.Tactic.LinearCombination
import Vantablack.Lib.Bits

/-!
Gauss–Jordan elimination over the field of two elements. The right hand side is the column `none`.
The row operations keep the kernel. When the columns are independent each of them gets a pivot, and
the right hand side ends as the solution.
-/

namespace Vantablack.Lib

open List

variable {m k : ℕ}

/-- A system of equations, a row each. -/
abbrev Augmented (m k : ℕ) := Fin m → Option (Fin k) → Bool

/-- How far the elimination has got. -/
structure Elimination (m k : ℕ) where
  aug : Augmented m k
  row : ℕ
  pivots : List (Fin k × Fin m)

/-- The first row from the current one on that has the column. -/
def findPivot (aug : Augmented m k) (row : ℕ) (col : Fin k) : Option (Fin m) :=
  (finRange m).find? fun r => decide (row ≤ r) && aug r (some col)

variable {aug : Augmented m k} {col : Fin k}

theorem findPivot_some {row : ℕ} {pivot : Fin m} (h : findPivot aug row col = some pivot) :
    row ≤ pivot ∧ aug pivot (some col) = true := by
  have hfound := find?_some h
  simpa using hfound

theorem findPivot_none {row : ℕ} (h : findPivot aug row col = none) {r : Fin m} (hr : row ≤ r) :
    aug r (some col) = false := by
  have hnone := find?_eq_none.mp h r (mem_finRange r)
  simpa [hr] using hnone

def swapRows (aug : Augmented m k) (i j : Fin m) : Augmented m k := aug ∘ Equiv.swap i j

/-- The row is added to every other row that has the column. -/
def clearColumn (aug : Augmented m k) (row : Fin m) (col : Fin k) : Augmented m k := fun r =>
  if r ≠ row ∧ aug r (some col) = true then fun c => aug r c ^^ aug row c else aug r

theorem clearColumn_of_false {row : Fin m} {c : Option (Fin k)} (h : aug row c = false)
    (r : Fin m) : clearColumn aug row col r c = aug r c := by
  unfold clearColumn
  split
  · show (aug r c ^^ aug row c) = aug r c
    rw [h, Bool.xor_false]
  · rfl

theorem clearColumn_self {row : Fin m} (h : aug row (some col) = true) (r : Fin m) :
    clearColumn aug row col r (some col) = decide (r = row) := by
  unfold clearColumn
  by_cases hr : r = row
  · rw [if_neg fun h => h.1 hr, hr, h, decide_eq_true rfl]
  · rw [decide_eq_false hr]
    split
    next hset =>
      show (aug r (some col) ^^ aug row (some col)) = false
      rw [hset.2, h, Bool.xor_self]
    next hunset => exact Bool.eq_false_iff.mpr fun htrue => hunset ⟨hr, htrue⟩

def Elimination.step (s : Elimination m k) (col : Fin k) : Elimination m k :=
  match h : findPivot s.aug s.row col with
  | none => s
  | some pivot =>
    let row : Fin m := ⟨s.row, (findPivot_some h).1.trans_lt pivot.isLt⟩
    ⟨clearColumn (swapRows s.aug row pivot) row col, s.row + 1, s.pivots ++ [(col, row)]⟩

def eliminate (aug : Augmented m k) (cols : List (Fin k)) : Elimination m k :=
  cols.foldl Elimination.step ⟨aug, 0, []⟩

/-- The right hand side at the pivots. -/
def solve (aug : Augmented m k) : Fin k → Bool :=
  let s := eliminate aug (finRange k)
  s.pivots.foldl (fun c p => Function.update c p.1 (s.aug p.2 none)) fun _ => false

/-! ### The kernel -/

/-- The entry of a row against a combination of the columns. -/
def against (aug : Augmented m k) (d : Option (Fin k) → ZMod 2) (r : Fin m) : ZMod 2 :=
  ∑ c, d c * bit (aug r c)

/-- The combinations of the columns that vanish. -/
def Vanishes (aug : Augmented m k) (d : Option (Fin k) → ZMod 2) : Prop := ∀ r, against aug d r = 0

variable {d : Option (Fin k) → ZMod 2}

theorem vanishes_swapRows {i j : Fin m} : Vanishes (swapRows aug i j) d ↔ Vanishes aug d :=
  Equiv.forall_congr_left (Equiv.swap i j) |>.trans (by
    simp [Vanishes, against, swapRows])

theorem vanishes_clearColumn {row : Fin m} :
    Vanishes (clearColumn aug row col) d ↔ Vanishes aug d := by
  have hrow : against (clearColumn aug row col) d row = against aug d row := by
    simp [against, clearColumn]
  have hother (r : Fin m) (hzero : against aug d row = 0) :
      against (clearColumn aug row col) d r = against aug d r := by
    by_cases hr : r ≠ row ∧ aug r (some col) = true
    · have hsum : against (clearColumn aug row col) d r = against aug d r + against aug d row := by
        simp only [against, clearColumn, if_pos hr, bit_xor, mul_add, Finset.sum_add_distrib]
      rw [hsum, hzero, add_zero]
    · simp only [against, clearColumn, if_neg hr]
  constructor
  · intro h r
    rw [← hother r (hrow ▸ h row)]
    exact h r
  · intro h r
    rw [hother r (h row)]
    exact h r

variable {s : Elimination m k}

theorem vanishes_step : Vanishes (s.step col).aug d ↔ Vanishes s.aug d := by
  unfold Elimination.step
  split
  · exact Iff.rfl
  · exact vanishes_clearColumn.trans vanishes_swapRows

theorem vanishes_foldl {cols : List (Fin k)} :
    Vanishes (cols.foldl Elimination.step s).aug d ↔ Vanishes s.aug d := by
  induction cols generalizing s with
  | nil => exact Iff.rfl
  | cons col cols ih => exact ih.trans vanishes_step

/-! ### Independent columns -/

/-- No combination of the columns vanishes but the empty one. -/
def Independent (aug : Augmented m k) : Prop :=
  ∀ d : Option (Fin k) → ZMod 2, d none = 0 → Vanishes aug d → d = 0

/-- The first `t` columns are done: each has its pivot in the row of its own number. -/
structure Reduced (t : ℕ) (s : Elimination m k) : Prop where
  row : s.row = t
  unit : ∀ c : Fin k, c.val < t → ∀ r : Fin m, s.aug r (some c) = decide (r.val = c.val)
  onDiagonal : ∀ p ∈ s.pivots, p.2.val = p.1.val
  pivoted : ∀ c : Fin k, c.val < t → ∃ p ∈ s.pivots, p.1 = c

theorem findPivot_ne_none (hkm : k ≤ m) (hs : Reduced col.val s) (hind : Independent s.aug) :
    findPivot s.aug s.row col ≠ none := by
  intro hnone
  let d : Option (Fin k) → ZMod 2
    | none => 0
    | some c =>
      if c < col then bit (s.aug (Fin.castLE hkm c) (some col)) else if c = col then 1 else 0
  have hdcol : d (some col) = 1 := by simp [d]
  have hvanish : Vanishes s.aug d := by
    intro r
    rw [against, Fintype.sum_option, show d none = 0 from rfl, zero_mul, zero_add]
    by_cases hr : r.val < col.val
    · have hne : (⟨r.val, hr.trans col.isLt⟩ : Fin k) ≠ col := fun h => hr.ne (congrArg Fin.val h)
      rw [Finset.sum_eq_add ⟨r.val, hr.trans col.isLt⟩ col hne]
      · have hd : d (some ⟨r.val, hr.trans col.isLt⟩) = bit (s.aug r (some col)) :=
          if_pos (Fin.mk_lt_of_lt_val hr)
        rw [hdcol, one_mul, hs.unit _ hr, decide_eq_true rfl, hd]
        exact (congrArg (· + _) (mul_one _)).trans (bit_add_self _)
      · intro c _ hc
        by_cases hlt : c < col
        · have hrc : r.val ≠ c.val := fun h => hc.1 (Fin.ext h.symm)
          rw [hs.unit c hlt, decide_eq_false hrc]
          exact mul_zero _
        · have hzero : d (some c) = 0 := by simp [d, hlt, hc.2]
          rw [hzero, zero_mul]
      · exact fun h => absurd (Finset.mem_univ _) h
      · exact fun h => absurd (Finset.mem_univ _) h
    · have hle : col.val ≤ r.val := not_lt.mp hr
      refine Finset.sum_eq_zero fun c _ => ?_
      obtain hlt | rfl | hgt := lt_trichotomy c col
      · have hrc : r.val ≠ c.val := (lt_of_lt_of_le (Fin.lt_def.mp hlt) hle).ne'
        rw [hs.unit c hlt, decide_eq_false hrc]
        exact mul_zero _
      · rw [findPivot_none hnone (hs.row.trans_le hle)]
        exact mul_zero _
      · have hzero : d (some c) = 0 := by simp [d, hgt.not_gt, hgt.ne']
        rw [hzero, zero_mul]
  have hzero := congrFun (hind d rfl hvanish) (some col)
  rw [hdcol] at hzero
  exact one_ne_zero hzero

theorem Reduced.step (hkm : k ≤ m) (hs : Reduced col.val s) (hind : Independent s.aug) :
    Reduced (col.val + 1) (s.step col) := by
  unfold Elimination.step
  split
  next hnone => exact absurd hnone (findPivot_ne_none hkm hs hind)
  next pivot hsome =>
  obtain ⟨hle, hset⟩ := findPivot_some hsome
  have hrow : s.row < m := hle.trans_lt pivot.isLt
  set row : Fin m := ⟨s.row, hrow⟩ with hrowdef
  have hrowval : row.val = col.val := hs.row
  -- the rows exchanged are zero in the columns before
  have hbefore : ∀ c : Fin k, c.val < col.val → ∀ r : Fin m,
      swapRows s.aug row pivot r (some c) = decide (r.val = c.val) := by
    intro c hc r
    show s.aug (Equiv.swap row pivot r) (some c) = decide (r.val = c.val)
    rw [hs.unit c hc]
    have hrowc : row.val ≠ c.val := by omega
    have hpivotc : pivot.val ≠ c.val := by
      have := hs.row
      omega
    obtain rfl | hr := eq_or_ne r row
    · rw [Equiv.swap_apply_left, decide_eq_false hrowc, decide_eq_false hpivotc]
    · obtain rfl | hr' := eq_or_ne r pivot
      · rw [Equiv.swap_apply_right, decide_eq_false hrowc, decide_eq_false hpivotc]
      · rw [Equiv.swap_apply_of_ne_of_ne hr hr']
  have hcol : swapRows s.aug row pivot row (some col) = true := by
    show s.aug (Equiv.swap row pivot row) (some col) = true
    rw [Equiv.swap_apply_left, hset]
  refine ⟨congrArg (· + 1) hs.row, ?_, ?_, ?_⟩
  · intro c hc r
    obtain hlt | heq := Nat.lt_succ_iff_lt_or_eq.mp hc
    · have hfalse : swapRows s.aug row pivot row (some c) = false := by
        rw [hbefore c hlt, decide_eq_false (by omega)]
      exact (clearColumn_of_false hfalse r).trans (hbefore c hlt r)
    · obtain rfl := Fin.ext heq
      refine (clearColumn_self hcol r).trans (decide_eq_decide.mpr ?_)
      rw [Fin.ext_iff, hrowval]
  · intro p hp
    obtain hp | hp := mem_append.mp hp
    · exact hs.onDiagonal p hp
    · rw [mem_singleton.mp hp]
      exact hrowval
  · intro c hc
    obtain hlt | heq := Nat.lt_succ_iff_lt_or_eq.mp hc
    · obtain ⟨p, hp, hpc⟩ := hs.pivoted c hlt
      exact ⟨p, mem_append_left _ hp, hpc⟩
    · exact ⟨(col, row), mem_append_right _ (mem_singleton.mpr rfl), Fin.ext heq.symm⟩

theorem reduced_eliminate (hkm : k ≤ m) (hind : Independent aug) :
    Reduced k (eliminate aug (finRange k)) := by
  have hprefix : ∀ t, t ≤ k → Reduced t (eliminate aug ((finRange k).take t)) := by
    intro t
    induction t with
    | zero =>
      intro _
      exact ⟨rfl, fun c hc => absurd hc (Nat.not_lt_zero _),
        fun p hp => absurd hp not_mem_nil, fun c hc => absurd hc (Nat.not_lt_zero _)⟩
    | succ t ih =>
      intro ht
      have hlen : t < (finRange k).length := by rwa [length_finRange]
      rw [take_succ_eq_append_getElem hlen, eliminate, foldl_append]
      have hget : (finRange k)[t] = ⟨t, ht⟩ := by simp
      rw [hget]
      refine @Reduced.step m k ⟨t, ht⟩ (eliminate aug ((finRange k).take t)) hkm
        (ih (Nat.le_of_succ_le ht)) ?_
      intro d hd hvanish
      exact hind d hd (vanishes_foldl.mp hvanish)
  have hall := hprefix k le_rfl
  rwa [take_of_length_le (length_finRange.le)] at hall

theorem foldl_update_pivots (value : Fin k → Bool) (rhs : Fin m → Bool) :
    ∀ (pivots : List (Fin k × Fin m)) (c₀ : Fin k → Bool),
      (∀ p ∈ pivots, rhs p.2 = value p.1) → ∀ c, (∃ p ∈ pivots, p.1 = c) ∨ c₀ c = value c →
        pivots.foldl (fun c p => Function.update c p.1 (rhs p.2)) c₀ c = value c := by
  intro pivots
  induction pivots with
  | nil =>
    intro c₀ _ c hc
    obtain ⟨p, hp, _⟩ | hc := hc
    · exact absurd hp not_mem_nil
    · exact hc
  | cons p pivots ih =>
    intro c₀ hvalue c hc
    refine ih _ (fun p' hp' => hvalue p' (mem_cons_of_mem p hp')) c ?_
    by_cases hpc : c = p.1
    · right
      show Function.update c₀ p.1 (rhs p.2) c = value c
      rw [hpc, Function.update_self, hvalue p mem_cons_self]
    · obtain ⟨p', hp', hp'c⟩ | hc := hc
      · obtain rfl | hp' := mem_cons.mp hp'
        · exact absurd hp'c.symm hpc
        · exact .inl ⟨p', hp', hp'c⟩
      · right
        exact (Function.update_of_ne hpc _ _).trans hc

theorem solve_eq (hkm : k ≤ m) (hind : Independent aug) {x : Fin k → ZMod 2}
    (hx : ∀ r, ∑ c, x c * bit (aug r (some c)) = bit (aug r none)) (c : Fin k) :
    bit (solve aug c) = x c := by
  have hred := reduced_eliminate hkm hind
  set s := eliminate aug (finRange k) with hs
  let d : Option (Fin k) → ZMod 2
    | none => 1
    | some c => x c
  have hvanish : Vanishes aug d := by
    intro r
    rw [against, Fintype.sum_option, show d none = 1 from rfl, one_mul, show
      ∑ c, d (some c) * bit (aug r (some c)) = bit (aug r none) from hx r, bit_add_self]
  have hfinal : Vanishes s.aug d := vanishes_foldl.mpr hvanish
  have hdiag : ∀ (c : Fin k) (r : Fin m), r.val = c.val → bit (s.aug r none) = x c := by
    intro c r hrc
    have hrow := hfinal r
    rw [against, Fintype.sum_option, Finset.sum_eq_single c] at hrow
    · rw [hred.unit c c.isLt, decide_eq_true hrc] at hrow
      have hsum : bit (s.aug r none) + x c = 0 := by
        rw [← hrow]
        exact congrArg₂ (· + ·) (one_mul _).symm (mul_one _).symm
      have hself := bit_add_self (x c)
      linear_combination hsum - hself
    · intro c' _ hc'
      have hne : r.val ≠ c'.val := fun h => hc' (Fin.ext (h.symm.trans hrc))
      rw [hred.unit c' c'.isLt, decide_eq_false hne]
      exact mul_zero _
    · exact fun h => absurd (Finset.mem_univ c) h
  have hinj : ∀ a b : Bool, bit a = bit b → a = b := by decide
  have hread : solve aug c = s.aug (Fin.castLE hkm c) none := by
    refine foldl_update_pivots (fun c => s.aug (Fin.castLE hkm c) none) (fun r => s.aug r none)
      s.pivots _ ?_ c (.inl (hred.pivoted c c.isLt))
    intro p hp
    exact congrArg (s.aug · none) (Fin.ext (hred.onDiagonal p hp))
  rw [hread]
  exact hdiag c _ rfl

end Vantablack.Lib
