import Mathlib.Data.List.Forall2
import Mathlib.Data.Rat.Floor
import Mathlib.Tactic.Linarith
import Vantablack.Routing.ContactPlan

/-!
The contacts that `project_orbital_pass` of `net/routing.rs` adds. Where a satellite is after it has
been propagated to some instants, whether it sees the ground then and with what delay, is a
parameter.
-/

namespace Vantablack.Routing

open List

/-- The states of an orbit, and what they say of one ground position. -/
structure Orbit (S : Type*) where
  propagate : S → Timestamp → S
  canSee : S → Bool
  signalDelay : S → ℚ

namespace ContactPlan

/-- The contact of `push_ground_contact`. -/
def groundContact (sat groundNode : NodeId) (start lastSeen : Timestamp) (delaySecs rateBps : ℚ) :
    Contact :=
  let tEnd := max (lastSeen + max (lastSeen - start) 0) lastSeen
  ((Contact.new sat groundNode start tEnd (max rateBps 1 * (tEnd - start))).withRateBps
    rateBps).withMeasuredOwlt delaySecs

def pushGroundContact (plan : ContactPlan) (sat groundNode : NodeId) (start lastSeen : Timestamp)
    (delaySecs rateBps : ℚ) : ContactPlan :=
  plan.addContact (groundContact sat groundNode start lastSeen delaySecs rateBps)

end ContactPlan

/-- The variables of the sampling loop. -/
structure Pass (S : Type*) where
  plan : ContactPlan
  added : ℕ
  window : Option (Timestamp × Timestamp × ℚ)
  orbit : S

variable {S : Type*} (o : Orbit S) (sat groundNode : NodeId) (rateBps : ℚ)

namespace Pass

/-- The open window, if there is one, becomes a contact. -/
def close (p : Pass S) : Pass S :=
  match p.window with
  | some (start, lastSeen, delay) =>
      { p with
        plan := p.plan.pushGroundContact sat groundNode start lastSeen delay rateBps
        added := p.added + 1
        window := none }
  | none => p

/-- The body of the loop. -/
def sample (p : Pass S) (t : Timestamp) : Pass S :=
  let p := { p with orbit := o.propagate p.orbit t }
  if o.canSee p.orbit then
    let delay := o.signalDelay p.orbit
    match p.window with
    | some (start, _, _) => { p with window := some (start, t, delay) }
    | none => { p with window := some (t, t, delay) }
  else p.close sat groundNode rateBps

/-- The loop, in `fuel` turns. -/
def loop (tEnd : Timestamp) (stepSecs : ℚ) : ℕ → Timestamp → Pass S → Pass S
  | 0, _, p => p
  | fuel + 1, t, p =>
      if t ≤ tEnd then loop tEnd stepSecs fuel (t + stepSecs) (p.sample o sat groundNode rateBps t)
      else p

end Pass

namespace ContactPlan

/-- How many contacts were added, and the plan with them; there is a turn of the loop for each step
of the horizon, one for its start and one that ends it. -/
def projectOrbitalPass (plan : ContactPlan) (orbit : S) (tStart : Timestamp)
    (horizonSecs stepSecs : ℚ) : ℕ × ContactPlan :=
  if stepSecs ≤ 0 ∨ horizonSecs ≤ 0 then (0, plan)
  else
    let p : Pass S := { plan := plan, added := 0, window := none, orbit := orbit }
    let p := p.loop o sat groundNode rateBps (tStart + horizonSecs) stepSecs
      (⌊horizonSecs / stepSecs⌋₊ + 2) tStart
    let p := p.close sat groundNode rateBps
    (p.added, p.plan)

end ContactPlan

/-! ### The samples -/

def sampleTime (tStart : Timestamp) (stepSecs : ℚ) (k : ℕ) : Timestamp := tStart + k * stepSecs

/-- The orbit after `k` samples. -/
def orbitAfter (orbit : S) (tStart : Timestamp) (stepSecs : ℚ) : ℕ → S
  | 0 => orbit
  | k + 1 => o.propagate (orbitAfter orbit tStart stepSecs k) (sampleTime tStart stepSecs k)

def sampleCount (horizonSecs stepSecs : ℚ) : ℕ :=
  if horizonSecs ≤ 0 then 0 else ⌊horizonSecs / stepSecs⌋₊ + 1

theorem loop_eq_foldl {tStart horizonSecs stepSecs : ℚ} (hstep : 0 < stepSecs)
    (hhorizon : 0 < horizonSecs) (p : Pass S) :
    p.loop o sat groundNode rateBps (tStart + horizonSecs) stepSecs
        (⌊horizonSecs / stepSecs⌋₊ + 2) tStart =
      (range (sampleCount horizonSecs stepSecs)).foldl
        (fun p k => p.sample o sat groundNode rateBps (sampleTime tStart stepSecs k)) p := by
  have hwithin : ∀ k, sampleTime tStart stepSecs k ≤ tStart + horizonSecs ↔
      k < sampleCount horizonSecs stepSecs := by
    intro k
    rw [sampleCount, if_neg (not_le.mpr hhorizon), Nat.lt_succ_iff,
      Nat.le_floor_iff (div_pos hhorizon hstep).le, le_div_iff₀ hstep, sampleTime]
    exact add_le_add_iff_left tStart
  have hloop : ∀ m k p, k + m = sampleCount horizonSecs stepSecs →
      Pass.loop o sat groundNode rateBps (tStart + horizonSecs) stepSecs (m + 1)
        (sampleTime tStart stepSecs k) p =
      (range' k m).foldl
        (fun p k => p.sample o sat groundNode rateBps (sampleTime tStart stepSecs k)) p := by
    intro m
    induction m with
    | zero =>
        intro k p hk
        rw [Pass.loop, if_neg (by rw [hwithin]; omega)]
        rfl
    | succ m ih =>
        intro k p hk
        have hnext : sampleTime tStart stepSecs k + stepSecs = sampleTime tStart stepSecs (k + 1) := by
          simp only [sampleTime, Nat.cast_add, Nat.cast_one]
          ring
        rw [Pass.loop, if_pos ((hwithin k).mpr (by omega)), hnext, range'_succ,
          foldl_cons]
        exact ih (k + 1) _ (by omega)
  have hcount : sampleCount horizonSecs stepSecs = ⌊horizonSecs / stepSecs⌋₊ + 1 :=
    if_neg (not_le.mpr hhorizon)
  have hstart : sampleTime tStart stepSecs 0 = tStart := by simp [sampleTime]
  rw [range_eq_range', ← hloop (sampleCount horizonSecs stepSecs) 0 p (Nat.zero_add _), hstart,
    hcount]

/-! ### Runs of visible samples -/

/-- The samples from `i` to `j`, of `n`, are visible, and the ones beside them are not. -/
structure IsRun (visible : ℕ → Bool) (n i j : ℕ) : Prop where
  le : i ≤ j
  lt : j < n
  all : ∀ k, i ≤ k → k ≤ j → visible k = true
  first : ∀ k, k + 1 = i → visible k = false
  last : j + 1 < n → visible (j + 1) = false

/-- The samples from `i` on are visible, up to the last one before `m`. -/
structure OpenRun (visible : ℕ → Bool) (m i : ℕ) : Prop where
  lt : i < m
  all : ∀ k, i ≤ k → k < m → visible k = true
  first : ∀ k, k + 1 = i → visible k = false

section

variable {visible : ℕ → Bool} {n m i j : ℕ}

theorem OpenRun.start (hsees : visible m = true) (hbefore : ∀ k, k + 1 = m → visible k = false) :
    OpenRun visible (m + 1) m where
  lt := Nat.lt_succ_self m
  all := by
    intro k hk hkm
    obtain rfl : k = m := by omega
    exact hsees
  first := hbefore

theorem OpenRun.extend (h : OpenRun visible m i) (hsees : visible m = true) :
    OpenRun visible (m + 1) i where
  lt := Nat.lt_succ_of_lt h.lt
  all := by
    intro k hk hkm
    rcases Nat.lt_succ_iff_lt_or_eq.mp hkm with hlt | rfl
    · exact h.all k hk hlt
    · exact hsees
  first := h.first

theorem OpenRun.isRun_iff (h : OpenRun visible (m + 1) i) (hmn : m < n)
    (hlast : m + 1 < n → visible (m + 1) = false) (i' : ℕ) : IsRun visible n i' m ↔ i' = i := by
  constructor
  · intro hrun
    by_contra hne
    rcases Nat.lt_or_gt_of_ne hne with hlt | hlt
    · obtain ⟨k, rfl⟩ := Nat.exists_eq_add_one_of_ne_zero (Nat.ne_zero_of_lt hlt)
      have hvisible := hrun.all k (by omega) (by have := h.lt; omega)
      rw [h.first k rfl] at hvisible
      cases hvisible
    · obtain ⟨k, rfl⟩ := Nat.exists_eq_add_one_of_ne_zero (Nat.ne_zero_of_lt hlt)
      have hvisible := h.all k (by omega) (by have := hrun.le; omega)
      rw [hrun.first k rfl] at hvisible
      cases hvisible
  · rintro rfl
    exact ⟨Nat.le_of_lt_succ h.lt, hmn, fun k hk hkm => h.all k hk (Nat.lt_succ_of_le hkm), h.first,
      hlast⟩

theorem IsRun.separated {i' j' : ℕ} (h : IsRun visible n i j) (h' : IsRun visible n i' j')
    (hlt : j < j') : j + 2 ≤ i' := by
  by_contra hge
  have hlast := h.last (by have := h'.lt; omega)
  have hvisible := h'.all (j + 1) (by omega) (by omega)
  rw [hlast] at hvisible
  cases hvisible

/-- What the loop has closed after `m` samples are the runs that ended before the last of them. -/
structure ClosedRuns (visible : ℕ → Bool) (n m : ℕ) (closed : List (ℕ × ℕ)) : Prop where
  complete : ∀ i j, (i, j) ∈ closed ↔ IsRun visible n i j ∧ j + 1 < m
  pairwise : closed.Pairwise fun r r' => r.2 < r'.2

theorem closedRuns_nil (visible : ℕ → Bool) (n : ℕ) : ClosedRuns visible n 0 [] where
  complete := by simp
  pairwise := .nil

theorem ClosedRuns.skip {closed : List (ℕ × ℕ)} (h : ClosedRuns visible n m closed)
    (hnone : ∀ i j, j + 1 = m → ¬ IsRun visible n i j) : ClosedRuns visible n (m + 1) closed where
  complete := by
    intro i j
    rw [h.complete i j]
    refine and_congr_right fun hrun => ⟨Nat.lt_succ_of_lt, fun hlt => ?_⟩
    rcases Nat.lt_succ_iff_lt_or_eq.mp hlt with hlt | heq
    · exact hlt
    · exact absurd hrun (hnone i j heq)
  pairwise := h.pairwise

theorem ClosedRuns.append {closed : List (ℕ × ℕ)} (h : ClosedRuns visible n (m + 1) closed) {i : ℕ}
    (hopen : OpenRun visible (m + 1) i) (hmn : m < n)
    (hlast : m + 1 < n → visible (m + 1) = false) :
    ClosedRuns visible n (m + 2) (closed ++ [(i, m)]) where
  complete := by
    intro i' j'
    rw [mem_append, mem_singleton, h.complete i' j', Prod.mk.injEq]
    constructor
    · rintro (⟨hrun, hlt⟩ | ⟨rfl, rfl⟩)
      · exact ⟨hrun, Nat.lt_succ_of_lt hlt⟩
      · exact ⟨(hopen.isRun_iff hmn hlast i').mpr rfl, by omega⟩
    · rintro ⟨hrun, hlt⟩
      rcases Nat.lt_succ_iff_lt_or_eq.mp hlt with hlt | heq
      · exact Or.inl ⟨hrun, hlt⟩
      · obtain rfl : j' = m := by omega
        exact Or.inr ⟨(hopen.isRun_iff hmn hlast i').mp hrun, rfl⟩
  pairwise := by
    refine pairwise_append.mpr ⟨h.pairwise, pairwise_singleton _ _, ?_⟩
    intro r hr r' hr'
    obtain rfl := mem_singleton.mp hr'
    have hlt := ((h.complete r.1 r.2).mp hr).2
    dsimp only
    omega

end

/-! ### The loop -/

section

variable (orbit : S) (tStart : Timestamp) (stepSecs : ℚ)

/-- Whether the ground is visible at the sample with the number `k`. -/
def visibleAt (k : ℕ) : Bool := o.canSee (orbitAfter o orbit tStart stepSecs (k + 1))

def delayAt (k : ℕ) : ℚ := o.signalDelay (orbitAfter o orbit tStart stepSecs (k + 1))

/-- The contact that is made of a run of samples. -/
def runContact (r : ℕ × ℕ) : Contact :=
  ContactPlan.groundContact sat groundNode (sampleTime tStart stepSecs r.1)
    (sampleTime tStart stepSecs r.2) (delayAt o orbit tStart stepSecs r.2) rateBps

/-- The window that is open after `m` samples. -/
def WindowAt (m : ℕ) : Option (Timestamp × Timestamp × ℚ) → Prop
  | none => ∀ k, k + 1 = m → visibleAt o orbit tStart stepSecs k = false
  | some w => ∃ i k, k + 1 = m ∧ OpenRun (visibleAt o orbit tStart stepSecs) m i ∧
      w = (sampleTime tStart stepSecs i, sampleTime tStart stepSecs k,
        delayAt o orbit tStart stepSecs k)

/-- What the loop has made of the first `m` samples, of `n`. -/
structure Scanned (base : List Contact) (n m : ℕ) (p : Pass S) (closed : List (ℕ × ℕ)) : Prop where
  runs : ClosedRuns (visibleAt o orbit tStart stepSecs) n m closed
  contacts : p.plan.contacts =
    base ++ closed.map (runContact o sat groundNode rateBps orbit tStart stepSecs)
  added : p.added = closed.length
  window : WindowAt o orbit tStart stepSecs m p.window

variable {o sat groundNode rateBps orbit tStart stepSecs}
variable {base : List Contact} {n m : ℕ} {p : Pass S} {closed : List (ℕ × ℕ)}

theorem Scanned.close (h : Scanned o sat groundNode rateBps orbit tStart stepSecs base n m p closed)
    (hmn : m ≤ n) (hlast : m < n → visibleAt o orbit tStart stepSecs m = false) :
    ∃ closed', ClosedRuns (visibleAt o orbit tStart stepSecs) n (m + 1) closed' ∧
      (p.close sat groundNode rateBps).plan.contacts =
        base ++ closed'.map (runContact o sat groundNode rateBps orbit tStart stepSecs) ∧
      (p.close sat groundNode rateBps).added = closed'.length ∧
      (p.close sat groundNode rateBps).orbit = p.orbit ∧
      (p.close sat groundNode rateBps).window = none := by
  have hwindow := h.window
  unfold Pass.close
  cases hw : p.window with
  | none =>
      rw [hw] at hwindow
      refine ⟨closed, h.runs.skip ?_, h.contacts, h.added, rfl, hw⟩
      intro i j hj hrun
      have hvisible := hrun.all j hrun.le (Nat.le_refl j)
      rw [hwindow j hj] at hvisible
      cases hvisible
  | some w =>
      rw [hw] at hwindow
      obtain ⟨i, k, rfl, hopen, rfl⟩ := hwindow
      refine ⟨closed ++ [(i, k)], h.runs.append hopen (Nat.lt_of_succ_le hmn) hlast, ?_, ?_, rfl, rfl⟩
      · show p.plan.contacts ++ [_] = _
        rw [h.contacts, map_append, append_assoc]
        rfl
      · rw [length_append, h.added]
        rfl

theorem Scanned.sample (h : Scanned o sat groundNode rateBps orbit tStart stepSecs base n m p closed)
    (hmn : m < n) (horbit : p.orbit = orbitAfter o orbit tStart stepSecs m) :
    (p.sample o sat groundNode rateBps (sampleTime tStart stepSecs m)).orbit =
        orbitAfter o orbit tStart stepSecs (m + 1) ∧
      ∃ closed', Scanned o sat groundNode rateBps orbit tStart stepSecs base n (m + 1)
        (p.sample o sat groundNode rateBps (sampleTime tStart stepSecs m)) closed' := by
  have hnext : o.propagate p.orbit (sampleTime tStart stepSecs m) =
      orbitAfter o orbit tStart stepSecs (m + 1) := by
    rw [horbit]
    rfl
  have hwindow := h.window
  unfold Pass.sample
  dsimp only
  rw [hnext]
  cases hsees : o.canSee (orbitAfter o orbit tStart stepSecs (m + 1)) with
  | true =>
      -- no run ends with the sample before
      have hruns : ClosedRuns (visibleAt o orbit tStart stepSecs) n (m + 1) closed := by
        refine h.runs.skip ?_
        rintro i j rfl hrun
        have hhidden := hrun.last hmn
        rw [visibleAt, hsees] at hhidden
        cases hhidden
      cases hw : p.window with
      | none =>
          rw [hw] at hwindow
          exact ⟨rfl, closed, hruns, h.contacts, h.added, m, m, rfl, .start hsees hwindow, rfl⟩
      | some w =>
          rw [hw] at hwindow
          obtain ⟨i, k, -, hopen, rfl⟩ := hwindow
          exact ⟨rfl, closed, hruns, h.contacts, h.added, i, m, rfl, hopen.extend hsees, rfl⟩
  | false =>
      have hmoved : Scanned o sat groundNode rateBps orbit tStart stepSecs base n m
          { p with orbit := orbitAfter o orbit tStart stepSecs (m + 1) } closed :=
        ⟨h.runs, h.contacts, h.added, h.window⟩
      obtain ⟨closed', hruns, hcontacts, hadded, horbit', hnone⟩ :=
        hmoved.close (Nat.le_of_lt hmn) fun _ => hsees
      refine ⟨horbit', closed', hruns, hcontacts, hadded, ?_⟩
      rw [if_neg Bool.false_ne_true, hnone]
      intro k hk
      obtain rfl := Nat.succ.inj hk
      exact hsees

theorem scanned_range (plan : ContactPlan) {n : ℕ} : ∀ m ≤ n,
    let p := (range m).foldl
      (fun p k => p.sample o sat groundNode rateBps (sampleTime tStart stepSecs k))
      { plan := plan, added := 0, window := none, orbit := orbit }
    p.orbit = orbitAfter o orbit tStart stepSecs m ∧
      ∃ closed, Scanned o sat groundNode rateBps orbit tStart stepSecs plan.contacts n m p
        closed := by
  intro m
  induction m with
  | zero =>
      intro _
      exact ⟨rfl, [], closedRuns_nil _ _, (append_nil _).symm, rfl,
        fun k hk => absurd hk (Nat.succ_ne_zero k)⟩
  | succ m ih =>
      intro hmn
      obtain ⟨horbit, closed, hscanned⟩ := ih (Nat.le_of_succ_le hmn)
      rw [range_succ, foldl_append]
      exact hscanned.sample (Nat.lt_of_succ_le hmn) horbit

variable (o sat groundNode rateBps orbit tStart)

theorem projectOrbitalPass_runs (plan : ContactPlan) (hstep : 0 < stepSecs) (horizonSecs : ℚ) :
    ∃ runs : List (ℕ × ℕ),
      (∀ i j, (i, j) ∈ runs ↔ IsRun (visibleAt o orbit tStart stepSecs)
        (sampleCount horizonSecs stepSecs) i j) ∧
      runs.Pairwise (fun r r' => r.2 < r'.2) ∧
      (plan.projectOrbitalPass o sat groundNode rateBps orbit tStart horizonSecs stepSecs).1 =
        runs.length ∧
      (plan.projectOrbitalPass o sat groundNode rateBps orbit tStart horizonSecs
          stepSecs).2.contacts =
        plan.contacts ++ runs.map (runContact o sat groundNode rateBps orbit tStart stepSecs) := by
  unfold ContactPlan.projectOrbitalPass
  by_cases hhorizon : horizonSecs ≤ 0
  · rw [if_pos (Or.inr hhorizon), sampleCount, if_pos hhorizon]
    refine ⟨[], ?_, .nil, rfl, (append_nil _).symm⟩
    intro i j
    constructor
    · intro h
      cases h
    · intro h
      exact absurd h.lt (Nat.not_lt_zero j)
  · have hhorizon := not_le.mp hhorizon
    rw [if_neg (by simpa using ⟨hstep, hhorizon⟩)]
    dsimp only
    rw [loop_eq_foldl o sat groundNode rateBps hstep hhorizon]
    generalize hn : sampleCount horizonSecs stepSecs = n
    obtain ⟨-, closed, hscanned⟩ := scanned_range plan n (Nat.le_refl n)
    obtain ⟨runs, hruns, hcontacts, hadded, -, -⟩ :=
      hscanned.close (Nat.le_refl n) fun hlt => absurd hlt (Nat.lt_irrefl n)
    refine ⟨runs, ?_, hruns.pairwise, hadded, hcontacts⟩
    intro i j
    rw [hruns.complete i j]
    exact ⟨fun h => h.1, fun h => ⟨h, Nat.succ_lt_succ h.lt⟩⟩

variable {o sat groundNode rateBps orbit tStart}

/-! ### Where the windows end -/

theorem sampleTime_lt (hstep : 0 < stepSecs) {i j : ℕ} (h : i < j) :
    sampleTime tStart stepSecs i < sampleTime tStart stepSecs j :=
  add_lt_add_right (mul_lt_mul_of_pos_right (Nat.cast_lt.mpr h) hstep) tStart

theorem tEnd_runContact (hstep : 0 < stepSecs) {i j : ℕ} (h : i ≤ j) :
    (runContact o sat groundNode rateBps orbit tStart stepSecs (i, j)).tEnd =
      sampleTime tStart stepSecs (j + (j - i)) := by
  have hij : sampleTime tStart stepSecs j - sampleTime tStart stepSecs i = (j - i : ℕ) * stepSecs := by
    rw [sampleTime, sampleTime, Nat.cast_sub h]
    ring
  have hnonneg : (0 : ℚ) ≤ (j - i : ℕ) * stepSecs := mul_nonneg (Nat.cast_nonneg _) hstep.le
  show max (sampleTime tStart stepSecs j +
    max (sampleTime tStart stepSecs j - sampleTime tStart stepSecs i) 0)
      (sampleTime tStart stepSecs j) = _
  rw [hij, max_eq_left hnonneg, max_eq_left (le_add_of_nonneg_right hnonneg), sampleTime, sampleTime,
    Nat.cast_add]
  ring

/-- The contacts that are added are one for each run of visible samples; each begins with the first
sample of its run and ends at most one step after the last one, and before the next one begins. -/
def OneWindowPerRun (o : Orbit S) (sat groundNode : NodeId) (orbit : S) (tStart : Timestamp)
    (stepSecs : ℚ) (n : ℕ) (added : List Contact) : Prop :=
  ∃ runs : List (ℕ × ℕ),
    (∀ i j, (i, j) ∈ runs ↔ IsRun (visibleAt o orbit tStart stepSecs) n i j) ∧ runs.Nodup ∧
      Forall₂ (fun c r => c.source = sat ∧ c.destination = groundNode ∧
        c.tStart = sampleTime tStart stepSecs r.1 ∧
        c.tEnd ≤ sampleTime tStart stepSecs r.2 + stepSecs) added runs ∧
      added.Pairwise fun c c' => c.tEnd < c'.tStart

theorem IsRun.end_unique {visible : ℕ → Bool} {n i j j' : ℕ} (h : IsRun visible n i j)
    (h' : IsRun visible n i j') : j = j' := by
  by_contra hne
  rcases Nat.lt_or_gt_of_ne hne with hlt | hlt
  · have := h.separated h' hlt
    have := h.le
    omega
  · have := h'.separated h hlt
    have := h'.le
    omega

theorem exists_of_forall₂_right {α β : Type*} {R : α → β → Prop} {l : List α} {l' : List β}
    (h : Forall₂ R l l') {b : β} (hb : b ∈ l') : ∃ a ∈ l, R a b := by
  induction h with
  | nil => cases hb
  | cons hab _ ih =>
      rcases mem_cons.mp hb with rfl | hb
      · exact ⟨_, mem_cons_self, hab⟩
      · obtain ⟨a, ha, hab'⟩ := ih hb
        exact ⟨a, mem_cons_of_mem _ ha, hab'⟩

theorem sampleTime_succ (k : ℕ) :
    sampleTime tStart stepSecs (k + 1) = sampleTime tStart stepSecs k + stepSecs := by
  simp only [sampleTime, Nat.cast_add, Nat.cast_one]
  ring

theorem OneWindowPerRun.length_le (hstep : 0 < stepSecs) {plan : ContactPlan} {horizonSecs : ℚ}
    (h : OneWindowPerRun o sat groundNode orbit tStart stepSecs (sampleCount horizonSecs stepSecs)
      ((plan.projectOrbitalPass o sat groundNode rateBps orbit tStart horizonSecs
        stepSecs).2.contacts.drop plan.contacts.length)) {i j : ℕ}
    (hrun : IsRun (visibleAt o orbit tStart stepSecs) (sampleCount horizonSecs stepSecs) i j) :
    j ≤ i + 1 := by
  obtain ⟨added, hadded, -, -, hcontacts⟩ :=
    projectOrbitalPass_runs o sat groundNode rateBps orbit tStart plan hstep horizonSecs
  obtain ⟨runs, hruns, -, hwindows, -⟩ := h
  rw [hcontacts, drop_left] at hwindows
  obtain ⟨c, hc, -, -, hstart, hend⟩ := exists_of_forall₂_right hwindows ((hruns i j).mpr hrun)
  obtain ⟨⟨i', j'⟩, hmem, rfl⟩ := mem_map.mp hc
  have hrun' := (hadded i' j').mp hmem
  -- the windows of different runs start at different samples
  have hi : i' = i := by
    by_contra hne
    rcases Nat.lt_or_gt_of_ne hne with hlt | hlt
    · exact absurd hstart (ne_of_lt (sampleTime_lt hstep hlt))
    · exact absurd hstart (ne_of_gt (sampleTime_lt hstep hlt))
  subst hi
  obtain rfl := hrun.end_unique hrun'
  rw [tEnd_runContact hstep hrun.le, ← sampleTime_succ] at hend
  by_contra hlong
  have hlt : sampleTime tStart stepSecs (j + 1) < sampleTime tStart stepSecs (j + (j - i')) :=
    sampleTime_lt hstep (by omega)
  exact absurd hend (not_le.mpr hlt)

/-- The windows are as long as their runs, with one step after them, exactly if no run has more than
two samples. -/
theorem oneWindowPerRun_iff (o : Orbit S) (sat groundNode : NodeId) (rateBps : ℚ) (orbit : S)
    (tStart : Timestamp) (plan : ContactPlan) (hstep : 0 < stepSecs) (horizonSecs : ℚ) :
    OneWindowPerRun o sat groundNode orbit tStart stepSecs (sampleCount horizonSecs stepSecs)
        ((plan.projectOrbitalPass o sat groundNode rateBps orbit tStart horizonSecs
          stepSecs).2.contacts.drop plan.contacts.length) ↔
      ∀ i j, IsRun (visibleAt o orbit tStart stepSecs) (sampleCount horizonSecs stepSecs) i j →
        j ≤ i + 1 := by
  constructor
  · intro h i j hrun
    exact h.length_le hstep hrun
  · intro hshort
    obtain ⟨runs, hruns, hpairwise, -, hcontacts⟩ :=
      projectOrbitalPass_runs o sat groundNode rateBps orbit tStart plan hstep horizonSecs
    have hend : ∀ r ∈ runs, (runContact o sat groundNode rateBps orbit tStart stepSecs r).tEnd ≤
        sampleTime tStart stepSecs (r.2 + 1) := by
      rintro ⟨i, j⟩ hr
      have hrun := (hruns i j).mp hr
      rw [tEnd_runContact hstep hrun.le]
      rcases Nat.lt_or_eq_of_le (show j + (j - i) ≤ j + 1 by have := hshort i j hrun; omega)
        with hlt | heq
      · exact (sampleTime_lt hstep hlt).le
      · rw [heq]
    rw [hcontacts, drop_left]
    refine ⟨runs, hruns, hpairwise.imp ?_, ?_, ?_⟩
    · rintro r r' hlt rfl
      exact Nat.lt_irrefl _ hlt
    · rw [forall₂_map_left_iff, forall₂_same]
      intro r hr
      refine ⟨rfl, rfl, rfl, ?_⟩
      rw [← sampleTime_succ]
      exact hend r hr
    · rw [pairwise_map]
      refine hpairwise.imp_of_mem ?_
      intro r r' hr hr' hlt
      have hgap := ((hruns r.1 r.2).mp hr).separated ((hruns r'.1 r'.2).mp hr') hlt
      exact (hend r hr).trans_lt (sampleTime_lt hstep (by omega))

/-- A satellite that is out of sight at the instant 4 only. -/
def eclipsedAtFour : Orbit ℚ where
  propagate _ t := t
  canSee t := t ≠ 4
  signalDelay _ := 0

/-- The window of the samples from 0 to 3 ends at 6, after the next one has begun. -/
theorem eclipsedAtFour_overlaps :
    ¬ OneWindowPerRun eclipsedAtFour "sat" "ground" 0 0 1 (sampleCount 5 1)
      ((ContactPlan.empty.projectOrbitalPass eclipsedAtFour "sat" "ground" 0 0 0 5 1).2.contacts.drop
        ContactPlan.empty.contacts.length) := by
  intro h
  have hcount : sampleCount 5 1 = 6 := by decide +kernel
  have hrun : IsRun (visibleAt eclipsedAtFour 0 0 1) (sampleCount 5 1) 0 3 := by
    rw [hcount]
    refine ⟨by decide, by decide, ?_, ?_, ?_⟩
    · have hvisible : ∀ k < 4, visibleAt eclipsedAtFour 0 0 1 k = true := by decide +kernel
      intro k _ hk
      exact hvisible k (Nat.lt_succ_of_le hk)
    · intro k hk
      cases hk
    · intro _
      decide +kernel
  exact absurd (h.length_le one_pos hrun) (by decide)

/-- The same satellite sampled from the instant 3 on: every run is one sample long. -/
theorem eclipsedAtFour_after_three :
    OneWindowPerRun eclipsedAtFour "sat" "ground" 0 3 1 (sampleCount 2 1)
      ((ContactPlan.empty.projectOrbitalPass eclipsedAtFour "sat" "ground" 0 0 3 2 1).2.contacts.drop
        ContactPlan.empty.contacts.length) := by
  refine (oneWindowPerRun_iff eclipsedAtFour "sat" "ground" 0 0 3 ContactPlan.empty one_pos 2).mpr ?_
  have hcount : sampleCount 2 1 = 3 := by decide +kernel
  rw [hcount]
  intro i j hrun
  by_contra hlong
  -- a longer run has the sample at the instant 4
  have hlt := hrun.lt
  have hvisible := hrun.all 1 (by omega) (by omega)
  exact absurd hvisible (by decide +kernel)

end

end Vantablack.Routing
