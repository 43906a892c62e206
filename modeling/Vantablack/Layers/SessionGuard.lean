import Mathlib.Order.Basic

/-!
The replay guard of `layers/l6_session.rs`: a window of the 128 most recent counters
and the hard and idle timeouts. Instants are natural numbers of seconds.
-/

namespace Vantablack.Layers

/-- `SESSION_HARD_TIMEOUT`, 24 hours. -/
def sessionHardTimeout : ℕ := 86400

/-- `SESSION_IDLE_TIMEOUT`, 2 minutes. -/
def sessionIdleTimeout : ℕ := 120

/-- `SessionGuardU64`. Bit `i` of the mask stands for the counter `vMax - i`. -/
structure SessionGuardU64 where
  startTime : ℕ
  lastActivity : ℕ
  vMax : ℕ
  bitmask : BitVec 128
  deriving DecidableEq

namespace SessionGuardU64

def new (now : ℕ) : SessionGuardU64 :=
  { startTime := now, lastActivity := now, vMax := 0, bitmask := 0 }

def isValid (g : SessionGuardU64) (now : ℕ) : Bool :=
  now - g.startTime < sessionHardTimeout && now - g.lastActivity < sessionIdleTimeout

/-- Check a counter against the window and enter it: the verdict and the guard after. -/
def checkAndUpdate (g : SessionGuardU64) (now counter : ℕ) : Bool × SessionGuardU64 :=
  if !g.isValid now then (false, g)
  else if counter < g.vMax - 128 then (false, g)
  else if counter > g.vMax then
    let shift := counter - g.vMax
    let bitmask := if shift ≥ 128 then 1 else (g.bitmask <<< shift) ||| 1
    (true, { g with bitmask := bitmask, vMax := counter, lastActivity := now })
  else
    let offset := g.vMax - counter
    if offset ≥ 128 then (false, g)
    else if g.bitmask &&& (1#128 <<< offset) ≠ 0 then (false, g)
    else (true, { g with bitmask := g.bitmask ||| (1#128 <<< offset), lastActivity := now })

def reset (_ : SessionGuardU64) (now : ℕ) : SessionGuardU64 :=
  { startTime := now, lastActivity := now, vMax := 0, bitmask := 0 }

/-- The window has no room for `counter` any more: it is in the mask or below it. -/
def Spent (g : SessionGuardU64) (counter : ℕ) : Prop :=
  counter ≤ g.vMax ∧ (g.vMax - counter < 128 → g.bitmask.getLsbD (g.vMax - counter) = true)
  deriving Decidable

theorem and_one_shiftLeft_eq_zero {w : BitVec 128} {i : ℕ} (hi : i < 128) :
    w &&& (1#128 <<< i) = 0 ↔ w.getLsbD i = false := by
  constructor
  · intro h
    have hbit : (w &&& (1#128 <<< i)).getLsbD i = false := by
      rw [h]
      simp
    simpa [hi] using hbit
  · intro h
    apply BitVec.eq_of_getLsbD_eq
    intro j hj
    by_cases hij : j = i
    · subst hij
      simp [h]
    · have hshift : (1#128 <<< i).getLsbD j = false := by
        rw [BitVec.getLsbD_shiftLeft, BitVec.getLsbD_one]
        simp only [Bool.and_eq_false_iff, Bool.not_eq_false', decide_eq_false_iff_not,
          decide_eq_true_eq]
        omega
      rw [BitVec.getLsbD_and, hshift, Bool.and_false]
      exact BitVec.getLsbD_zero.symm

theorem checkAndUpdate_cases (g : SessionGuardU64) (now counter : ℕ) :
    g.checkAndUpdate now counter = (false, g) ∨
    (g.vMax < counter ∧ g.checkAndUpdate now counter = (true,
      { g with
        bitmask := if counter - g.vMax ≥ 128 then 1 else (g.bitmask <<< (counter - g.vMax)) ||| 1
        vMax := counter, lastActivity := now })) ∨
    (counter ≤ g.vMax ∧ g.vMax - counter < 128 ∧ g.bitmask.getLsbD (g.vMax - counter) = false ∧
      g.checkAndUpdate now counter = (true,
        { g with bitmask := g.bitmask ||| (1#128 <<< (g.vMax - counter)), lastActivity := now })) := by
  simp only [checkAndUpdate]
  split
  · exact .inl rfl
  split
  · exact .inl rfl
  split
  · rename_i hnew
    exact .inr (.inl ⟨hnew, rfl⟩)
  rename_i hnew
  split
  · exact .inl rfl
  rename_i hoff
  split
  · exact .inl rfl
  · rename_i hset
    rw [ne_eq, not_not, and_one_shiftLeft_eq_zero (by omega)] at hset
    exact .inr (.inr ⟨by omega, by omega, hset, rfl⟩)

variable {g : SessionGuardU64} {now counter : ℕ}

theorem checkAndUpdate_spent (h : g.Spent counter) : (g.checkAndUpdate now counter).1 = false := by
  obtain ⟨hle, hbit⟩ := h
  rcases g.checkAndUpdate_cases now counter with heq | ⟨hnew, _⟩ | ⟨_, hlt, hclear, _⟩
  · rw [heq]
  · omega
  · rw [hbit hlt] at hclear
    cases hclear

theorem checkAndUpdate_of_lt (hvalid : g.isValid now = true) (hlt : g.vMax < counter) :
    (g.checkAndUpdate now counter).1 = true ∧ (g.checkAndUpdate now counter).2.vMax = counter ∧
      (g.checkAndUpdate now counter).2.startTime = g.startTime ∧
      (g.checkAndUpdate now counter).2.lastActivity = now := by
  have hold : ¬ counter < g.vMax - 128 := by omega
  rw [checkAndUpdate, hvalid, Bool.not_true, if_neg Bool.false_ne_true, if_neg hold, if_pos hlt]
  exact ⟨rfl, rfl, rfl, rfl⟩

theorem checkAndUpdate_eq_false_iff :
    (g.checkAndUpdate now counter).1 = false ↔ g.isValid now = false ∨ g.Spent counter := by
  constructor
  · intro h
    by_contra hnot
    rw [not_or, Bool.not_eq_false] at hnot
    obtain ⟨hvalid, hroom⟩ := hnot
    unfold checkAndUpdate at h
    rw [hvalid, Bool.not_true, if_neg Bool.false_ne_true] at h
    split at h
    · exact hroom ⟨by omega, fun hlt => by omega⟩
    split at h
    · cases h
    dsimp only at h
    split at h
    · exact hroom ⟨by omega, fun hlt => by omega⟩
    split at h
    · rename_i hold hin hset
      refine hroom ⟨by omega, fun hlt => ?_⟩
      rw [ne_eq, and_one_shiftLeft_eq_zero hlt, Bool.not_eq_false] at hset
      exact hset
    · cases h
  · rintro (hvalid | hspent)
    · rw [checkAndUpdate, hvalid]
      rfl
    · exact checkAndUpdate_spent hspent

theorem spent_checkAndUpdate (h : (g.checkAndUpdate now counter).1 = true) :
    (g.checkAndUpdate now counter).2.Spent counter := by
  rcases g.checkAndUpdate_cases now counter with heq | ⟨_, heq⟩ | ⟨hle, hlt, _, heq⟩
  · rw [heq] at h
    cases h
  · rw [heq]
    refine ⟨Nat.le_refl _, fun _ => ?_⟩
    simp only [Nat.sub_self]
    split <;> simp
  · rw [heq]
    refine ⟨hle, fun _ => ?_⟩
    simp [hlt]

theorem Spent.checkAndUpdate {c : ℕ} (h : g.Spent c) :
    (g.checkAndUpdate now counter).2.Spent c := by
  obtain ⟨hle, hbit⟩ := h
  rcases g.checkAndUpdate_cases now counter with heq | ⟨hnew, heq⟩ | ⟨_, _, _, heq⟩
  · rw [heq]
    exact ⟨hle, hbit⟩
  · rw [heq]
    refine ⟨Nat.le_trans hle (Nat.le_of_lt hnew), fun hlt => ?_⟩
    simp only at hlt ⊢
    have hset := hbit (by omega)
    have hoff : counter - c - (counter - g.vMax) = g.vMax - c := by omega
    rw [if_neg (by omega)]
    simp [hlt, hoff, hset]
    omega
  · rw [heq]
    refine ⟨hle, fun hlt => ?_⟩
    simp only at hlt ⊢
    simp [hbit hlt]

end SessionGuardU64

end Vantablack.Layers
