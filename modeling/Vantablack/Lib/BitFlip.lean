import Mathlib.Data.List.Perm.Basic
import Mathlib.Data.List.Nodup
import Mathlib.Data.List.Dedup
import Mathlib.Data.List.Count
import Mathlib.Data.Nat.PSub
import Mathlib.Tactic.Ring

/-!
Bit-flipping decoding over a graph of variables and parity checks. In a round the variables with
the most failing checks are flipped, all at once, until no check fails. The rounds commute with
the addition of a codeword, so what they do to a word depends on its errors only; a short list of
errors is followed without looking at the rest of the word.
-/

namespace Vantablack.Lib

open List

/-- A graph of `checks` parity checks over variables. A variable is at most once in a check, and
`incident` lists its checks, of which there are fewer than `base`. -/
structure CheckGraph where
  checks : ℕ
  base : ℕ
  vars : ℕ → List ℕ
  incident : ℕ → List ℕ
  vars_nodup : ∀ j < checks, (vars j).Nodup
  incident_nodup : ∀ v, (incident v).Nodup
  mem_incident : ∀ v j, j ∈ incident v ↔ j < checks ∧ v ∈ vars j
  length_incident : ∀ v, (incident v).length < base

/-- The sum of a word over some variables. -/
def paritySum (word : ℕ → Bool) : List ℕ → Bool
  | [] => false
  | v :: vars => word v ^^ paritySum word vars

/-- The sum of two words. -/
def addWords (word error : ℕ → Bool) (v : ℕ) : Bool := word v ^^ error v

/-- The word with ones at the listed places. -/
def onesAt (places : List ℕ) (v : ℕ) : Bool := decide (v ∈ places)

theorem paritySum_perm {word : ℕ → Bool} {vars vars' : List ℕ} (h : vars.Perm vars') :
    paritySum word vars = paritySum word vars' := by
  induction h with
  | nil => rfl
  | cons v _ ih => rw [paritySum, paritySum, ih]
  | swap v v' vars =>
      rw [paritySum, paritySum, paritySum, paritySum, Bool.xor_left_comm]
  | trans _ _ ih ih' => exact ih.trans ih'

theorem paritySum_addWords (word error : ℕ → Bool) (vars : List ℕ) :
    paritySum (addWords word error) vars = (paritySum word vars ^^ paritySum error vars) := by
  induction vars with
  | nil => rfl
  | cons v vars ih =>
      rw [paritySum, paritySum, paritySum, ih, addWords, Bool.xor_assoc, Bool.xor_assoc,
        Bool.xor_left_comm (error v)]

theorem paritySum_zero (vars : List ℕ) : paritySum (onesAt []) vars = false := by
  induction vars with
  | nil => rfl
  | cons v vars ih => rw [paritySum, ih]; rfl

/-- A check without repetitions sees a single one exactly if the one is among its variables. -/
theorem paritySum_single {v : ℕ} {vars : List ℕ} (h : vars.Nodup) :
    paritySum (onesAt [v]) vars = decide (v ∈ vars) := by
  induction vars with
  | nil => rfl
  | cons u vars ih =>
      obtain ⟨hnot, hvars⟩ := nodup_cons.mp h
      rw [paritySum, ih hvars]
      by_cases huv : u = v
      · subst huv
        simp [onesAt, hnot]
      · have hvu : ¬ v = u := fun h => huv h.symm
        simp [onesAt, huv, hvu]

/-! ### Sets of places as lists -/

/-- Put a place in, or take it out if it is there. -/
def toggle (place : ℕ) (places : List ℕ) : List ℕ :=
  if place ∈ places then places.erase place else place :: places

/-- Toggle several places. -/
def toggleAll (more places : List ℕ) : List ℕ := more.foldr toggle places

variable {places : List ℕ}

theorem nodup_toggle {place : ℕ} (h : places.Nodup) : (toggle place places).Nodup := by
  unfold toggle
  split
  · exact h.erase place
  · next hnot => exact nodup_cons.mpr ⟨hnot, h⟩

theorem onesAt_toggle {place : ℕ} (h : places.Nodup) :
    onesAt (toggle place places) = addWords (onesAt [place]) (onesAt places) := by
  funext v
  unfold toggle onesAt addWords
  split
  · next hin =>
      by_cases hv : v = place
      · subst hv
        simp [h.mem_erase_iff, hin]
      · simp [h.mem_erase_iff, hv]
  · next hnot =>
      by_cases hv : v = place
      · subst hv
        simp [hnot]
      · simp [hv]

theorem nodup_toggleAll {more : List ℕ} (h : places.Nodup) : (toggleAll more places).Nodup := by
  induction more with
  | nil => exact h
  | cons place more ih => exact nodup_toggle ih

theorem onesAt_toggleAll {more : List ℕ} (hmore : more.Nodup) (h : places.Nodup) :
    onesAt (toggleAll more places) = addWords (onesAt more) (onesAt places) := by
  induction more with
  | nil =>
      funext v
      exact (Bool.false_xor _).symm
  | cons place more ih =>
      obtain ⟨hnot, hmore⟩ := nodup_cons.mp hmore
      have hstep : toggleAll (place :: more) places = toggle place (toggleAll more places) := rfl
      rw [hstep, onesAt_toggle (nodup_toggleAll h), ih hmore]
      funext v
      by_cases hv : v = place
      · subst hv
        simp [addWords, onesAt, hnot]
      · simp [addWords, onesAt, hv]

theorem mem_iff_onesAt {v : ℕ} : v ∈ places ↔ onesAt places v = true := by
  simp [onesAt]

/-! ### Counting many places at once

The counts of all places are the digits of one number, as long as they stay below the base. -/

/-- The number whose digits count the places. -/
def tally (base : ℕ) (places : List ℕ) : ℕ := places.foldr (fun v total => base ^ v + total) 0

/-- A digit of a number. -/
def digitAt (base total v : ℕ) : ℕ := total / base ^ v % base

theorem tally_eq (base : ℕ) (places : List ℕ) :
    tally base places = places.count 0 + base * tally base (places.filterMap Nat.ppred) := by
  induction places with
  | nil => simp [tally]
  | cons v places ih =>
      have hstep : tally base (v :: places) = base ^ v + tally base places := rfl
      cases v with
      | zero =>
          rw [hstep, ih, count_cons_self, filterMap_cons_none rfl, pow_zero]
          omega
      | succ v =>
          have hfilter : ((v + 1) :: places).filterMap Nat.ppred =
              v :: places.filterMap Nat.ppred := filterMap_cons_some rfl
          rw [hstep, ih, hfilter, count_cons_of_ne (Nat.succ_ne_zero v)]
          have hstep' : tally base (v :: places.filterMap Nat.ppred) =
              base ^ v + tally base (places.filterMap Nat.ppred) := rfl
          rw [hstep']
          ring

theorem count_filterMap_ppred (places : List ℕ) (v : ℕ) :
    (places.filterMap Nat.ppred).count v = places.count (v + 1) := by
  induction places with
  | nil => rfl
  | cons u places ih =>
      cases u with
      | zero =>
          rw [filterMap_cons_none rfl, ih, count_cons_of_ne (Nat.succ_ne_zero v).symm]
      | succ u =>
          have hfilter : ((u + 1) :: places).filterMap Nat.ppred =
              u :: places.filterMap Nat.ppred := filterMap_cons_some rfl
          rw [hfilter, count_cons, count_cons, ih]
          simp

theorem digitAt_tally {base : ℕ} (h : ∀ v, places.count v < base) (v : ℕ) :
    digitAt base (tally base places) v = places.count v := by
  have hpos : 0 < base := Nat.lt_of_le_of_lt (Nat.zero_le _) (h 0)
  induction v generalizing places with
  | zero =>
      rw [digitAt, tally_eq, pow_zero, Nat.div_one, Nat.add_mul_mod_self_left,
        Nat.mod_eq_of_lt (h 0)]
  | succ v ih =>
      have hrest : ∀ u, (places.filterMap Nat.ppred).count u < base := by
        intro u
        rw [count_filterMap_ppred]
        exact h (u + 1)
      have hdiv : tally base places / base = tally base (places.filterMap Nat.ppred) := by
        rw [tally_eq base places, Nat.add_mul_div_left _ _ hpos, Nat.div_eq_of_lt (h 0),
          Nat.zero_add]
      rw [← count_filterMap_ppred, ← ih hrest, digitAt, digitAt, pow_succ', ← Nat.div_div_eq_div_mul,
        hdiv]

namespace CheckGraph

variable (g : CheckGraph)

/-! ### Rounds on words -/

/-- The checks that fail on a word. -/
def failing (word : ℕ → Bool) : List ℕ :=
  (range g.checks).filter fun j => paritySum word (g.vars j)

/-- How many of the checks a variable is in. -/
def failedCount (failed : List ℕ) (v : ℕ) : ℕ := (failed.flatMap g.vars).count v

/-- The largest count of a variable. -/
def mostFailed (failed : List ℕ) : ℕ :=
  (failed.flatMap g.vars).foldr (fun v most => max (g.failedCount failed v) most) 0

/-- The variables that a round flips. -/
def flipped (failed : List ℕ) (v : ℕ) : Bool :=
  decide (v ∈ failed.flatMap g.vars) && decide (g.failedCount failed v = g.mostFailed failed)

/-- Several rounds, up to the first word on which no check fails. -/
def rounds : ℕ → (ℕ → Bool) → (ℕ → Bool)
  | 0, word => word
  | k + 1, word =>
      if g.failing word = [] then word
      else rounds k (addWords word (g.flipped (g.failing word)))

/-- The word meets all checks. -/
def Codeword (word : ℕ → Bool) : Prop := ∀ j < g.checks, paritySum word (g.vars j) = false

variable {g}

theorem failing_addWords {word error : ℕ → Bool} (h : g.Codeword word) :
    g.failing (addWords word error) = g.failing error := by
  refine filter_congr fun j hj => ?_
  rw [paritySum_addWords, h j (mem_range.mp hj), Bool.false_xor]

theorem rounds_addWords {word : ℕ → Bool} (h : g.Codeword word) (k : ℕ) (error : ℕ → Bool) :
    g.rounds k (addWords word error) = addWords word (g.rounds k error) := by
  induction k generalizing error with
  | zero => rfl
  | succ k ih =>
      rw [rounds, rounds, failing_addWords h]
      split
      · rfl
      · rw [← ih]
        congr 1
        funext v
        exact Bool.xor_assoc ..

variable {failed : List ℕ}

theorem failedCount_le_mostFailed {v : ℕ} (hv : v ∈ failed.flatMap g.vars) :
    g.failedCount failed v ≤ g.mostFailed failed := by
  have hge : ∀ touched : List ℕ, v ∈ touched → g.failedCount failed v ≤
      touched.foldr (fun v most => max (g.failedCount failed v) most) 0 := by
    intro touched
    induction touched with
    | nil => exact fun hv => absurd hv not_mem_nil
    | cons u touched ih =>
        intro hv
        rcases mem_cons.mp hv with rfl | hv
        · exact le_max_left _ _
        · exact (ih hv).trans (le_max_right _ _)
  exact hge _ hv

theorem mostFailed_eq {most : ℕ} (hbound : ∀ v, g.failedCount failed v ≤ most)
    (hmost : most = 0 ∨ ∃ v ∈ failed.flatMap g.vars, g.failedCount failed v = most) :
    g.mostFailed failed = most := by
  have hle : ∀ touched : List ℕ,
      touched.foldr (fun v most => max (g.failedCount failed v) most) 0 ≤ most := by
    intro touched
    induction touched with
    | nil => exact Nat.zero_le _
    | cons v touched ih => exact max_le (hbound v) ih
  refine Nat.le_antisymm (hle _) ?_
  rcases hmost with rfl | ⟨v, hv, rfl⟩
  · exact Nat.zero_le _
  · exact failedCount_le_mostFailed hv

/-! ### Rounds on lists of errors -/

variable (g)

/-- The checks that fail when the listed places are wrong. -/
def failingAt (errors : List ℕ) : List ℕ :=
  errors.foldr (fun v failed => toggleAll (g.incident v) failed) []

/-- The places with the largest digit. -/
def leaders (total : ℕ) (places : List ℕ) : List ℕ :=
  let most := places.foldr (fun v most => max (digitAt g.base total v) most) 0
  (places.filter fun v => digitAt g.base total v = most).dedup

/-- The variables that a round flips, as a list. -/
def flippedAt (failed : List ℕ) : List ℕ :=
  g.leaders (tally g.base (failed.flatMap g.vars)) (failed.flatMap g.vars)

/-- Several rounds on a list of errors. -/
def roundsAt : ℕ → List ℕ → List ℕ
  | 0, errors => errors
  | k + 1, errors =>
      match g.failingAt errors with
      | [] => errors
      | failed => roundsAt k (toggleAll (g.flippedAt failed) errors)

variable {g}

theorem nodup_failingAt (errors : List ℕ) : (g.failingAt errors).Nodup := by
  induction errors with
  | nil => exact nodup_nil
  | cons v errors ih => exact nodup_toggleAll ih

variable {errors : List ℕ}

theorem mem_failingAt (h : errors.Nodup) {j : ℕ} :
    j ∈ g.failingAt errors ↔ j < g.checks ∧ paritySum (onesAt errors) (g.vars j) = true := by
  induction errors with
  | nil => simp [failingAt, paritySum_zero]
  | cons v errors ih =>
      obtain ⟨hnot, herrors⟩ := nodup_cons.mp h
      have hstep : g.failingAt (v :: errors) =
          toggleAll (g.incident v) (g.failingAt errors) := rfl
      have hcons : onesAt (v :: errors) = addWords (onesAt [v]) (onesAt errors) := by
        rw [← onesAt_toggle herrors, toggle, if_neg hnot]
      rw [hstep, mem_iff_onesAt, onesAt_toggleAll (g.incident_nodup v) (nodup_failingAt errors),
        hcons, paritySum_addWords]
      have hold := ih herrors
      rw [mem_iff_onesAt] at hold
      have hnew : onesAt (g.incident v) j = true ↔ j < g.checks ∧ v ∈ g.vars j := by
        rw [← mem_iff_onesAt, g.mem_incident]
      by_cases hj : j < g.checks
      · simp only [hj, true_and] at hold hnew ⊢
        rw [addWords, paritySum_single (g.vars_nodup j hj), ← Bool.eq_iff_iff.mpr hold]
        rw [Bool.eq_iff_iff.mpr (hnew.trans decide_eq_true_iff.symm)]
      · simp only [hj, false_and, iff_false, Bool.not_eq_true] at hold hnew ⊢
        rw [addWords, hold, hnew]
        rfl

theorem failingAt_perm (h : errors.Nodup) :
    (g.failingAt errors).Perm (g.failing (onesAt errors)) := by
  refine (perm_ext_iff_of_nodup (nodup_failingAt errors)
    (nodup_range.filter _)).mpr fun j => ?_
  rw [mem_failingAt h, mem_filter, mem_range]

variable {failed' : List ℕ}

theorem failedCount_perm (h : failed.Perm failed') (v : ℕ) :
    g.failedCount failed v = g.failedCount failed' v :=
  (h.flatMap_right g.vars).count_eq v

theorem mostFailed_perm (h : failed.Perm failed') : g.mostFailed failed = g.mostFailed failed' := by
  have hcount : g.failedCount failed = g.failedCount failed' := funext (failedCount_perm h)
  rw [mostFailed, mostFailed, hcount]
  refine (h.flatMap_right g.vars).foldr_eq' ?_ 0
  intro v _ u _ most
  exact Nat.max_left_comm _ _ _

theorem failedCount_lt (hnodup : failed.Nodup) (h : ∀ j ∈ failed, j < g.checks) (v : ℕ) :
    g.failedCount failed v < g.base := by
  have hcount : g.failedCount failed v = (failed.filter fun j => v ∈ g.vars j).length := by
    clear hnodup
    induction failed with
    | nil => rfl
    | cons j failed ih =>
        obtain ⟨hj, hfailed⟩ := forall_mem_cons.mp h
        have hstep : g.failedCount (j :: failed) v = (g.vars j).count v + g.failedCount failed v := by
          rw [failedCount, flatMap_cons, count_append]
          rfl
        rw [hstep, ih hfailed, filter_cons, (g.vars_nodup j hj).count]
        by_cases hv : v ∈ g.vars j
        · simp only [hv, if_true, decide_true, length_cons]
          omega
        · simp only [hv, if_false, decide_false, Bool.false_eq_true]
          omega
  rw [hcount]
  refine Nat.lt_of_le_of_lt ?_ (g.length_incident v)
  refine (subperm_of_subset (hnodup.filter _) ?_).length_le
  intro j hj
  obtain ⟨hj, hv⟩ := mem_filter.mp hj
  exact (g.mem_incident v j).mpr ⟨h j hj, of_decide_eq_true hv⟩

theorem mem_flippedAt (hnodup : failed.Nodup) (h : ∀ j ∈ failed, j < g.checks) {v : ℕ} :
    v ∈ g.flippedAt failed ↔
      v ∈ failed.flatMap g.vars ∧ g.failedCount failed v = g.mostFailed failed := by
  have hdigit : ∀ u, digitAt g.base (tally g.base (failed.flatMap g.vars)) u =
      g.failedCount failed u := digitAt_tally (failedCount_lt hnodup h)
  rw [flippedAt, leaders, mem_dedup, mem_filter, decide_eq_true_iff]
  simp only [hdigit]
  rfl

theorem onesAt_flippedAt (hnodup : failed.Nodup) (hchecks : ∀ j ∈ failed, j < g.checks)
    (h : failed.Perm failed') : onesAt (g.flippedAt failed) = g.flipped failed' := by
  funext v
  rw [onesAt, flipped, Bool.eq_iff_iff, decide_eq_true_iff, mem_flippedAt hnodup hchecks,
    Bool.and_eq_true, decide_eq_true_iff, decide_eq_true_iff, failedCount_perm h,
    mostFailed_perm h, (h.flatMap_right g.vars).mem_iff]

theorem rounds_onesAt (k : ℕ) (h : errors.Nodup) :
    g.rounds k (onesAt errors) = onesAt (g.roundsAt k errors) := by
  induction k generalizing errors with
  | zero => rfl
  | succ k ih =>
      have hperm := failingAt_perm (g := g) h
      rw [rounds, roundsAt]
      split
      · next hnone =>
          rw [hnone, perm_nil] at hperm
          split
          · rfl
          · next failed hfailed =>
              exact absurd hperm hfailed
      · next hsome =>
          split
          · next hnone =>
              rw [hnone, nil_perm] at hperm
              exact absurd hperm hsome
          · rw [← ih (nodup_toggleAll h)]
            congr 1
            have hflipped : (g.flippedAt (g.failingAt errors)).Nodup := nodup_dedup _
            have hchecks : ∀ j ∈ g.failingAt errors, j < g.checks :=
              fun j hj => ((mem_failingAt h).mp hj).1
            rw [onesAt_toggleAll hflipped h,
              onesAt_flippedAt (nodup_failingAt errors) hchecks hperm]
            funext v
            exact Bool.xor_comm ..

end CheckGraph

end Vantablack.Lib
