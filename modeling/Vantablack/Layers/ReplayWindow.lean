import Mathlib.Data.Finset.Max
import Vantablack.Layers.SessionGuard
import Vantablack.Lib.Runs

/-!
What the replay window decides over a whole run. The mask and the highest counter of
`SessionGuardU64` stand for the set of the counters that were accepted since the guard was made or
reset: `GuardRun` keeps that set beside the guard. `SessionGuard`, whose counters are a `u32`, goes
along step by step.
-/

namespace Vantablack.Layers

open Lib

/-! ### The guard with 32-bit counters -/

structure SessionGuard where
  startTime : ℕ
  lastActivity : ℕ
  vMax : UInt32
  bitmask : BitVec 128
  deriving DecidableEq

namespace SessionGuard

def new (now : ℕ) : SessionGuard :=
  { startTime := now, lastActivity := now, vMax := 0, bitmask := 0 }

def isValid (g : SessionGuard) (now : ℕ) : Bool :=
  now - g.startTime < sessionHardTimeout && now - g.lastActivity < sessionIdleTimeout

def saturatingSub (a b : UInt32) : UInt32 :=
  if a < b then 0 else a - b

def checkAndUpdate (g : SessionGuard) (now : ℕ) (counter : UInt32) : Bool × SessionGuard :=
  if !g.isValid now then (false, g)
  else if counter < saturatingSub g.vMax 128 then (false, g)
  else if counter > g.vMax then
    let shift := counter - g.vMax
    let bitmask := if shift ≥ 128 then 1 else (g.bitmask <<< shift.toNat) ||| 1
    (true, { g with bitmask := bitmask, vMax := counter, lastActivity := now })
  else
    let offset := saturatingSub g.vMax counter
    if offset ≥ 128 then (false, g)
    else if g.bitmask &&& (1#128 <<< offset.toNat) ≠ 0 then (false, g)
    else
      (true, { g with bitmask := g.bitmask ||| (1#128 <<< offset.toNat), lastActivity := now })

/-- A counter of 64 bits is cut to 32 after the test. -/
def checkAndUpdateU64 (g : SessionGuard) (now counter : ℕ) : Bool × SessionGuard :=
  if counter > 2 ^ 32 - 1 then (false, g) else g.checkAndUpdate now (UInt32.ofNat counter)

def reset (_ : SessionGuard) (now : ℕ) : SessionGuard :=
  { startTime := now, lastActivity := now, vMax := 0, bitmask := 0 }

/-- The 64-bit guard in the same state. -/
def widen (g : SessionGuard) : SessionGuardU64 :=
  { startTime := g.startTime, lastActivity := g.lastActivity, vMax := g.vMax.toNat
    bitmask := g.bitmask }

@[simp] theorem isValid_widen (g : SessionGuard) (now : ℕ) :
    g.widen.isValid now = g.isValid now := rfl

theorem toNat_saturatingSub (a b : UInt32) : (saturatingSub a b).toNat = a.toNat - b.toNat := by
  unfold saturatingSub
  split
  · rename_i hlt
    rw [UInt32.lt_iff_toNat_lt] at hlt
    show 0 = _
    omega
  · rename_i hle
    rw [UInt32.not_lt, UInt32.le_iff_toNat_le] at hle
    exact UInt32.toNat_sub_of_le a b (UInt32.le_iff_toNat_le.mpr hle)

theorem checkAndUpdate_widen (g : SessionGuard) (now : ℕ) (counter : UInt32) :
    g.widen.checkAndUpdate now counter.toNat =
      ((g.checkAndUpdate now counter).1, (g.checkAndUpdate now counter).2.widen) := by
  have hold : counter < saturatingSub g.vMax 128 ↔ counter.toNat < g.widen.vMax - 128 := by
    rw [UInt32.lt_iff_toNat_lt, toNat_saturatingSub]
    rfl
  have hnew : counter > g.vMax ↔ counter.toNat > g.widen.vMax := UInt32.lt_iff_toNat_lt
  have hfar (x : UInt32) : x ≥ 128 ↔ x.toNat ≥ 128 := UInt32.le_iff_toNat_le
  unfold checkAndUpdate SessionGuardU64.checkAndUpdate
  rw [isValid_widen]
  by_cases hvalid : g.isValid now = true
  · rw [hvalid, Bool.not_true, if_neg Bool.false_ne_true, if_neg Bool.false_ne_true]
    by_cases hlow : counter < saturatingSub g.vMax 128
    · rw [if_pos hlow, if_pos (hold.mp hlow)]
    rw [if_neg hlow, if_neg (mt hold.mpr hlow)]
    by_cases hhigh : counter > g.vMax
    · have hshift : (counter - g.vMax).toNat = counter.toNat - g.widen.vMax :=
        UInt32.toNat_sub_of_le _ _ (UInt32.le_of_lt hhigh)
      rw [if_pos hhigh, if_pos (hnew.mp hhigh)]
      by_cases hskip : counter - g.vMax ≥ 128
      · have hskip' : counter.toNat - g.widen.vMax ≥ 128 := hshift ▸ (hfar _).mp hskip
        simp only [if_pos hskip, if_pos hskip']
        rfl
      · have hskip' : ¬ counter.toNat - g.widen.vMax ≥ 128 := hshift ▸ mt (hfar _).mpr hskip
        simp only [if_neg hskip, if_neg hskip', hshift]
        rfl
    · have hoffset : (saturatingSub g.vMax counter).toNat = g.widen.vMax - counter.toNat :=
        toNat_saturatingSub g.vMax counter
      rw [if_neg hhigh, if_neg (mt hnew.mpr hhigh)]
      by_cases hout : saturatingSub g.vMax counter ≥ 128
      · have hout' : g.widen.vMax - counter.toNat ≥ 128 := hoffset ▸ (hfar _).mp hout
        simp only [if_pos hout, if_pos hout']
      · have hout' : ¬ g.widen.vMax - counter.toNat ≥ 128 := hoffset ▸ mt (hfar _).mpr hout
        simp only [if_neg hout, if_neg hout', hoffset]
        by_cases hset : g.bitmask &&& (1#128 <<< (g.widen.vMax - counter.toNat)) ≠ 0
        · exact (if_pos hset).trans (by rw [if_pos hset])
        · exact (if_neg hset).trans (by rw [if_neg hset]; rfl)
  · rw [Bool.not_eq_true] at hvalid
    rw [hvalid]
    rfl

end SessionGuard

/-! ### Runs -/

/-- A call on a guard whose counters are of type `κ`. -/
inductive GuardCall (κ : Type) where
  | check (now : ℕ) (counter : κ)
  | reset (now : ℕ)

def GuardCall.map {κ κ' : Type} (f : κ → κ') : GuardCall κ → GuardCall κ'
  | .check now counter => .check now (f counter)
  | .reset now => .reset now

/-- The verdicts of a run, a reset has none, and the guard after it. -/
def SessionGuardU64.answers : SessionGuardU64 → List (GuardCall ℕ) → List Bool × SessionGuardU64
  | g, [] => ([], g)
  | g, .check now counter :: calls =>
      let (ok, g) := g.checkAndUpdate now counter
      let (oks, g) := g.answers calls
      (ok :: oks, g)
  | g, .reset now :: calls => (g.reset now).answers calls

def SessionGuard.answers : SessionGuard → List (GuardCall UInt32) → List Bool × SessionGuard
  | g, [] => ([], g)
  | g, .check now counter :: calls =>
      let (ok, g) := g.checkAndUpdate now counter
      let (oks, g) := g.answers calls
      (ok :: oks, g)
  | g, .reset now :: calls => (g.reset now).answers calls

theorem SessionGuard.answers_widen (g : SessionGuard) (calls : List (GuardCall UInt32)) :
    g.widen.answers (calls.map (.map UInt32.toNat)) =
      ((g.answers calls).1, (g.answers calls).2.widen) := by
  induction calls generalizing g with
  | nil => rfl
  | cons call calls ih =>
      cases call with
      | check now counter =>
          show SessionGuardU64.answers _ (.check now counter.toNat :: _) = _
          simp only [SessionGuardU64.answers, SessionGuard.answers, checkAndUpdate_widen, ih]
      | reset now => exact ih (g.reset now)

/-- A guard and the counters it accepted since it was made or reset. -/
structure GuardRun where
  guard : SessionGuardU64
  accepted : Finset ℕ

namespace GuardRun

def start (now : ℕ) : GuardRun :=
  { guard := .new now, accepted := ∅ }

def step (r : GuardRun) : GuardCall ℕ → GuardRun
  | .check now counter =>
      let (ok, guard) := r.guard.checkAndUpdate now counter
      { guard := guard, accepted := if ok then insert counter r.accepted else r.accepted }
  | .reset now => { guard := r.guard.reset now, accepted := ∅ }

/-- The call does not meet an expired guard. -/
def InTime (r : GuardRun) : GuardCall ℕ → Prop
  | .check now _ => r.guard.isValid now = true
  | .reset _ => True

instance (r : GuardRun) : ∀ call, Decidable (r.InTime call)
  | .check _ _ => inferInstanceAs (Decidable (_ = _))
  | .reset _ => inferInstanceAs (Decidable True)

/-- What a window over the accepted counters is to let in: a counter that was not accepted yet and
that is above the highest one, and so above each, less 128. -/
def Fresh (r : GuardRun) (counter : ℕ) : Prop :=
  counter ∉ r.accepted ∧ ∀ a ∈ r.accepted, a < counter + 128

/-- The mask shows the accepted counters among the last 128. -/
def Shows (r : GuardRun) : Prop :=
  ∀ i < 128, r.guard.bitmask.getLsbD i = true ↔ i ≤ r.guard.vMax ∧ r.guard.vMax - i ∈ r.accepted

/-- The guard lets a counter in exactly if it is fresh. -/
def Decides (r : GuardRun) : GuardCall ℕ → Prop
  | .check now counter => (r.guard.checkAndUpdate now counter).1 = true ↔ r.Fresh counter
  | .reset _ => True

/-! ### The invariant -/

/-- The highest counter is the highest accepted one, or 0. -/
structure Inv (r : GuardRun) : Prop where
  le : ∀ a ∈ r.accepted, a ≤ r.guard.vMax
  top : r.guard.vMax ∈ r.accepted ∨ r.accepted = ∅ ∧ r.guard.vMax = 0
  shows : r.Shows

theorem inv_start (now : ℕ) : Inv (start now) where
  le a ha := absurd ha (Finset.notMem_empty a)
  top := .inr ⟨rfl, rfl⟩
  shows i _ := by simp [start, SessionGuardU64.new]

variable {r : GuardRun}

theorem Inv.spent_iff (h : Inv r) (counter : ℕ) : r.guard.Spent counter ↔ ¬ r.Fresh counter := by
  constructor
  · rintro ⟨hle, hbit⟩ ⟨hnew, hroom⟩
    by_cases hin : r.guard.vMax - counter < 128
    · have hmem := ((h.shows _ hin).mp (hbit hin)).2
      rw [Nat.sub_sub_self hle] at hmem
      exact hnew hmem
    · -- the window has left it behind, so that something was accepted
      rcases h.top with htop | ⟨-, hzero⟩
      · have := hroom _ htop
        omega
      · omega
  · intro hold
    by_cases hmem : counter ∈ r.accepted
    · have hle := h.le counter hmem
      refine ⟨hle, fun hin => (h.shows _ hin).mpr ⟨Nat.sub_le _ _, ?_⟩⟩
      rwa [Nat.sub_sub_self hle]
    · obtain ⟨a, ha, hfar⟩ : ∃ a ∈ r.accepted, counter + 128 ≤ a := by
        by_contra hnone
        push Not at hnone
        exact hold ⟨hmem, hnone⟩
      have hle := h.le a ha
      exact ⟨by omega, fun hin => by omega⟩

theorem Inv.decides (h : Inv r) {call : GuardCall ℕ} (htime : r.InTime call) : r.Decides call := by
  cases call with
  | check now counter =>
      have hvalid : ¬ r.guard.isValid now = false := by
        rw [Bool.not_eq_false]
        exact htime
      show _ = true ↔ _
      rw [← not_iff_not, Bool.not_eq_true, SessionGuardU64.checkAndUpdate_eq_false_iff,
        or_iff_right hvalid]
      exact h.spent_iff counter
  | reset now => trivial

theorem Inv.mark (h : Inv r) (now : ℕ) {counter : ℕ} (hle : counter ≤ r.guard.vMax)
    (hin : r.guard.vMax - counter < 128) :
    Inv { guard := { r.guard with
            bitmask := r.guard.bitmask ||| (1#128 <<< (r.guard.vMax - counter))
            lastActivity := now }
          accepted := insert counter r.accepted } where
  le a ha := by
    rcases Finset.mem_insert.mp ha with rfl | ha
    · exact hle
    · exact h.le a ha
  top := by
    left
    rcases h.top with htop | ⟨-, hzero⟩
    · exact Finset.mem_insert_of_mem htop
    · apply Finset.mem_insert.mpr
      left
      show r.guard.vMax = counter
      omega
  shows i hi := by
    show (r.guard.bitmask ||| _).getLsbD i = true ↔
      i ≤ r.guard.vMax ∧ r.guard.vMax - i ∈ insert counter r.accepted
    have hshift : (1#128 <<< (r.guard.vMax - counter)).getLsbD i = true ↔
        i = r.guard.vMax - counter := by
      simp [BitVec.getLsbD_shiftLeft, BitVec.getLsbD_one]
      omega
    rw [BitVec.getLsbD_or, Bool.or_eq_true, hshift, h.shows i hi, Finset.mem_insert]
    constructor
    · rintro (⟨hi, hmem⟩ | rfl)
      · exact ⟨hi, .inr hmem⟩
      · exact ⟨Nat.sub_le _ _, .inl (Nat.sub_sub_self hle)⟩
    · rintro ⟨hi, heq | hmem⟩
      · right
        omega
      · exact .inl ⟨hi, hmem⟩

theorem getLsbD_slide (mask : BitVec 128) {jump i : ℕ} (hi : i < 128) :
    (if jump ≥ 128 then 1 else (mask <<< jump) ||| 1 : BitVec 128).getLsbD i = true ↔
      i = 0 ∨ jump ≤ i ∧ mask.getLsbD (i - jump) = true := by
  have hone : (1 : BitVec 128).getLsbD i = true ↔ i = 0 := by
    show (1#128).getLsbD i = true ↔ i = 0
    rw [BitVec.getLsbD_one]
    simp
  split
  · rename_i hfar
    rw [hone]
    refine (or_iff_left ?_).symm
    rintro ⟨hle, -⟩
    omega
  · have hmoved : (mask <<< jump).getLsbD i = true ↔
        jump ≤ i ∧ mask.getLsbD (i - jump) = true := by
      rw [BitVec.getLsbD_shiftLeft]
      simp [hi]
    rw [BitVec.getLsbD_or, Bool.or_eq_true, hone, hmoved]
    exact or_comm

theorem Inv.slide (h : Inv r) (now : ℕ) {counter : ℕ} (hlt : r.guard.vMax < counter) :
    Inv { guard := { r.guard with
            bitmask := if counter - r.guard.vMax ≥ 128 then 1
              else (r.guard.bitmask <<< (counter - r.guard.vMax)) ||| 1
            vMax := counter, lastActivity := now }
          accepted := insert counter r.accepted } where
  le a ha := by
    rcases Finset.mem_insert.mp ha with rfl | ha
    · exact le_rfl
    · exact (h.le a ha).trans hlt.le
  top := .inl (Finset.mem_insert_self _ _)
  shows i hi := by
    show (ite _ _ _ : BitVec 128).getLsbD i = true ↔ i ≤ counter ∧ counter - i ∈ insert counter _
    rw [getLsbD_slide r.guard.bitmask hi, Finset.mem_insert]
    constructor
    · rintro (rfl | ⟨hle, hbit⟩)
      · exact ⟨Nat.zero_le _, .inl rfl⟩
      · have hback : r.guard.vMax - (i - (counter - r.guard.vMax)) = counter - i := by omega
        have hmem := (h.shows _ (by omega)).mp hbit
        rw [hback] at hmem
        exact ⟨by omega, .inr hmem.2⟩
    · rintro ⟨hle, heq | hmem⟩
      · left
        omega
      · -- an accepted counter was not above the old highest one
        have hold := h.le _ hmem
        have hback : r.guard.vMax - (i - (counter - r.guard.vMax)) = counter - i := by omega
        refine .inr ⟨by omega, (h.shows _ (by omega)).mpr ⟨by omega, ?_⟩⟩
        rwa [hback]

theorem Inv.step (h : Inv r) (call : GuardCall ℕ) : Inv (r.step call) := by
  cases call with
  | check now counter =>
      simp only [GuardRun.step]
      rcases r.guard.checkAndUpdate_cases now counter with heq | ⟨hlt, heq⟩ | ⟨hle, hin, -, heq⟩
      · rw [heq]
        exact h
      · rw [heq]
        exact h.slide now hlt
      · rw [heq]
        exact h.mark now hle hin
  | reset now => exact inv_start now

/-- While it has not timed out, a guard accepts exactly the counters it has not accepted and that
are above the highest accepted one less 128; its mask shows which of the last 128 were accepted; and
the guard with 32-bit counters decides in the same way. -/
theorem window_exact (now : ℕ) (calls : List (GuardCall ℕ))
    (htime : Always GuardRun.step InTime (start now) calls) :
    Always GuardRun.step Decides (start now) calls ∧
      (calls.foldl GuardRun.step (start now)).Shows ∧
      ∀ calls32 : List (GuardCall UInt32),
        ((SessionGuard.new now).answers calls32).1 =
          ((SessionGuardU64.new now).answers (calls32.map (.map UInt32.toNat))).1 := by
  refine ⟨?_, ?_, fun calls32 => ?_⟩
  · exact htime.of_invariant Inv (fun _ call h _ => h.step call)
      (fun _ _ h htime => h.decides htime) (inv_start now)
  · exact (foldl_invariant Inv (fun _ call h => Inv.step h call) (inv_start now) calls).shows
  · have hsame := SessionGuard.answers_widen (SessionGuard.new now) calls32
    exact (congrArg Prod.fst hsame).symm

/-- 72 is 128 below the highest counter, 73 is not. -/
theorem window_exact_of_few :
    let calls : List (GuardCall ℕ) :=
      [.check 1 5, .check 2 5, .check 3 200, .check 4 72, .check 5 73, .reset 6, .check 7 0]
    Always GuardRun.step InTime (start 0) calls ∧ Always GuardRun.step Decides (start 0) calls := by
  intro calls
  have htime : Always GuardRun.step InTime (start 0) calls := by decide
  exact ⟨htime, (window_exact 0 calls htime).1⟩

end GuardRun

end Vantablack.Layers
