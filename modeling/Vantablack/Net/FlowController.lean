import Mathlib
import Vantablack.Lib.Runs

/-!
The transit shaper, `FlowController` of `net/mod.rs`, with its calls executed one at a time. The
potential behind its bound is the bytes admitted, the bucket and the credit since it was last
replenished, taken together.
-/

namespace Vantablack.Net

open Lib List

def minTransitBurst : ℕ := 1500

/-- The bucket and the burst are bytes, the rate bytes per second, the time nanoseconds. -/
structure FlowController where
  transitBucket : ℕ
  transitRate : ℕ
  transitBurst : ℕ
  lastReplenish : ℕ
  deriving DecidableEq

namespace FlowController

/-- The product wraps in a release build. -/
def bytesPerSec (transitRateMbps : ℕ) : ℕ :=
  transitRateMbps * 125000 % 2 ^ 64

def new (transitRateMbps now : ℕ) : FlowController :=
  let rate := bytesPerSec transitRateMbps
  { transitBucket := rate
    transitRate := rate
    transitBurst := max (rate / 10) minTransitBurst
    lastReplenish := now }

/-- The product saturates at 128 bits. -/
def replenish (fc : FlowController) (now : ℕ) : FlowController :=
  let elapsed := now - fc.lastReplenish
  if elapsed > 1000000 then
    let tokens := min (fc.transitRate * elapsed) (2 ^ 128 - 1) / 1000000000
    { fc with
      transitBucket := min (fc.transitBucket + tokens) fc.transitBurst
      lastReplenish := now }
  else fc

def tryConsumeTransit (fc : FlowController) (now bytes : ℕ) : Bool × FlowController :=
  let fc := fc.replenish now
  if bytes ≤ fc.transitBucket then
    (true, { fc with transitBucket := fc.transitBucket - bytes })
  else (false, fc)

def setTransitRateBps (fc : FlowController) (now rate : ℕ) : FlowController :=
  { fc with
    transitRate := rate
    transitBurst := max (rate / 10) minTransitBurst
    transitBucket := rate
    lastReplenish := now }

end FlowController

inductive FlowCall
  | consume (now bytes : ℕ)
  | setRate (now rate : ℕ)

namespace FlowCall

def now : FlowCall → ℕ
  | consume now _ => now
  | setRate now _ => now

def KeepsRate : FlowCall → Prop
  | consume _ _ => True
  | setRate _ _ => False

end FlowCall

namespace FlowController

def step (fc : FlowController) : FlowCall → FlowController
  | .consume now bytes => (fc.tryConsumeTransit now bytes).2
  | .setRate now rate => fc.setTransitRateBps now rate

def admits (fc : FlowController) : FlowCall → ℕ
  | .consume now bytes => if (fc.tryConsumeTransit now bytes).1 then bytes else 0
  | .setRate _ _ => 0

def admitted (fc : FlowController) : List FlowCall → ℕ
  | [] => 0
  | c :: calls => fc.admits c + (fc.step c).admitted calls

/-- No interval without a change of the rate admits more than the burst and what the rate gives over
the interval, and the bucket holds no more than the burst. Nanoseconds are cleared by the factor. -/
structure TransitBounded (fc : FlowController) (calls : List FlowCall) : Prop where
  interval : ∀ before window later, calls = before ++ window ++ later →
    (∀ c ∈ window, c.KeepsRate) → ∀ t₁ t₂, (∀ c ∈ window, t₁ ≤ c.now ∧ c.now ≤ t₂) →
      (before.foldl step fc).admitted window * 1000000000 ≤
        (before.foldl step fc).transitBurst * 1000000000 +
          (before.foldl step fc).transitRate * (t₂ - t₁)
  bucket : ∀ before later, calls = before ++ later →
    (before.foldl step fc).transitBucket ≤ (before.foldl step fc).transitBurst

/-- A call that takes bytes before the millisecond is over finds no more than the burst, the credit
since the last replenishment counted in. -/
def WithinBurst (fc : FlowController) : FlowCall → Prop
  | .consume now bytes =>
      0 < bytes → bytes ≤ fc.transitBucket → now - fc.lastReplenish ≤ 1000000 →
        fc.transitBucket * 1000000000 + fc.transitRate * (now - fc.lastReplenish) ≤
          fc.transitBurst * 1000000000
  | .setRate _ _ => True

def InOrder (start : ℕ) (calls : List FlowCall) : Prop :=
  (start :: calls.map FlowCall.now).Pairwise (· ≤ ·)

/-! ### One call -/

variable {fc : FlowController} {c : FlowCall}

@[simp] theorem replenish_transitRate (now : ℕ) :
    (fc.replenish now).transitRate = fc.transitRate := by
  rw [replenish]
  split <;> rfl

@[simp] theorem replenish_transitBurst (now : ℕ) :
    (fc.replenish now).transitBurst = fc.transitBurst := by
  rw [replenish]
  split <;> rfl

theorem replenish_cases (now : ℕ) :
    (now - fc.lastReplenish ≤ 1000000 ∧ fc.replenish now = fc) ∨
      ((fc.replenish now).lastReplenish = now ∧
        (fc.replenish now).transitBucket ≤ fc.transitBurst ∧
        (fc.replenish now).transitBucket * 1000000000 ≤
          fc.transitBucket * 1000000000 + fc.transitRate * (now - fc.lastReplenish)) := by
  by_cases hgap : now - fc.lastReplenish > 1000000
  · refine .inr ?_
    simp only [replenish, if_pos hgap]
    refine ⟨trivial, min_le_right _ _, ?_⟩
    have hcredit : min (fc.transitRate * (now - fc.lastReplenish)) (2 ^ 128 - 1) / 1000000000 *
        1000000000 ≤ fc.transitRate * (now - fc.lastReplenish) :=
      (Nat.div_mul_le_self _ _).trans (min_le_left _ _)
    generalize min (fc.transitRate * (now - fc.lastReplenish)) (2 ^ 128 - 1) / 1000000000 =
      tokens at hcredit
    have hbucket : min (fc.transitBucket + tokens) fc.transitBurst ≤ fc.transitBucket + tokens :=
      min_le_left _ _
    linarith
  · exact .inl ⟨not_lt.mp hgap, by rw [replenish, if_neg hgap]⟩

theorem consume_spec (now bytes : ℕ) :
    (fc.step (.consume now bytes)).transitRate = fc.transitRate ∧
      (fc.step (.consume now bytes)).transitBurst = fc.transitBurst ∧
      (fc.step (.consume now bytes)).lastReplenish = (fc.replenish now).lastReplenish ∧
      fc.admits (.consume now bytes) + (fc.step (.consume now bytes)).transitBucket =
        (fc.replenish now).transitBucket ∧
      (fc.admits (.consume now bytes) = 0 ∨
        (fc.admits (.consume now bytes) = bytes ∧ bytes ≤ (fc.replenish now).transitBucket)) := by
  simp only [step, admits, tryConsumeTransit]
  split
  · rename_i henough
    simp only [replenish_transitRate, replenish_transitBurst, if_true]
    exact ⟨trivial, trivial, trivial, by omega, .inr ⟨trivial, henough⟩⟩
  · simp

/-! ### An interval -/

/-- The state reached within an interval that began at `t₁`, when `total` bytes have been admitted
in it: none yet, or the potential has stayed below what it may be. -/
structure Window (burst rate t₁ total : ℕ) (fc : FlowController) : Prop where
  burst_eq : fc.transitBurst = burst
  rate_eq : fc.transitRate = rate
  bounded : total = 0 ∨
    (total + fc.transitBucket) * 1000000000 + rate * t₁ ≤
      burst * 1000000000 + rate * fc.lastReplenish

variable {burst rate t₁ total : ℕ}

theorem Window.consume (h : Window burst rate t₁ total fc) {now bytes : ℕ} (ht₁ : t₁ ≤ now)
    (hlast : fc.lastReplenish ≤ now) (hfc : fc.WithinBurst (.consume now bytes)) :
    Window burst rate t₁ (total + fc.admits (.consume now bytes))
      (fc.step (.consume now bytes)) := by
  obtain ⟨hrate, hburst, hlast', hsum, hadmits⟩ := fc.consume_spec now bytes
  refine ⟨hburst.trans h.burst_eq, hrate.trans h.rate_eq, ?_⟩
  have hstart : rate * t₁ ≤ rate * now := Nat.mul_le_mul_left rate ht₁
  have hgap : rate * (now - fc.lastReplenish) + rate * fc.lastReplenish = rate * now := by
    rw [← Nat.mul_add, Nat.sub_add_cancel hlast]
  rw [hlast', Nat.add_assoc, hsum]
  rcases fc.replenish_cases now with ⟨hsoon, hsame⟩ | ⟨hnow, hcap, hcredit⟩
  · -- the bucket as it was: the first bytes of the interval find it within the burst
    rw [hsame] at hadmits ⊢
    rcases h.bounded with rfl | hbounded
    · rcases hadmits with hnone | ⟨hall, henough⟩
      · exact .inl (by omega)
      · by_cases hbytes : 0 < bytes
        · have hwithin := hfc hbytes henough hsoon
          rw [h.rate_eq, h.burst_eq] at hwithin
          exact .inr (by linarith)
        · exact .inl (by omega)
    · exact .inr hbounded
  · rw [h.burst_eq] at hcap
    rw [h.rate_eq] at hcredit
    rw [hnow]
    rcases h.bounded with rfl | hbounded
    · exact .inr (by linarith)
    · exact .inr (by linarith)

variable {last : ℕ}

theorem lastReplenish_step_le (hlast : fc.lastReplenish ≤ last) (hc : last ≤ c.now) :
    (fc.step c).lastReplenish ≤ c.now := by
  cases c with
  | setRate now rate => exact le_rfl
  | consume now bytes =>
      rw [(fc.consume_spec now bytes).2.2.1]
      rcases fc.replenish_cases now with ⟨-, hsame⟩ | ⟨hnow, -⟩
      · rw [hsame]
        exact hlast.trans hc
      · exact hnow.le

variable {calls : List FlowCall}

theorem Window.run (h : Window burst rate t₁ total fc) (hkeeps : ∀ c ∈ calls, c.KeepsRate)
    (ht₁ : ∀ c ∈ calls, t₁ ≤ c.now) (hlast : fc.lastReplenish ≤ last) (horder : InOrder last calls)
    (hfc : Always step WithinBurst fc calls) :
    Window burst rate t₁ (total + fc.admitted calls) (calls.foldl step fc) := by
  induction calls generalizing fc total last with
  | nil => exact h
  | cons c calls ih =>
      obtain ⟨hfirst, hrest⟩ := pairwise_cons.mp horder
      have hc : last ≤ c.now := hfirst _ mem_cons_self
      have hstep : Window burst rate t₁ (total + fc.admits c) (fc.step c) := by
        cases c with
        | setRate now rate => exact absurd (hkeeps _ mem_cons_self) id
        | consume now bytes =>
            exact h.consume (ht₁ _ mem_cons_self) (hlast.trans hc) hfc.1
      have hend := ih hstep (fun d hd => hkeeps d (mem_cons_of_mem _ hd))
        (fun d hd => ht₁ d (mem_cons_of_mem _ hd)) (lastReplenish_step_le hlast hc) hrest hfc.2
      rw [Nat.add_assoc] at hend
      exact hend

theorem lastReplenish_run_le (hlast : fc.lastReplenish ≤ last) (horder : InOrder last calls) {t : ℕ}
    (hle : last ≤ t) (ht : ∀ c ∈ calls, c.now ≤ t) : (calls.foldl step fc).lastReplenish ≤ t := by
  induction calls generalizing fc last with
  | nil => exact hlast.trans hle
  | cons c calls ih =>
      obtain ⟨hfirst, hrest⟩ := pairwise_cons.mp horder
      exact ih (lastReplenish_step_le hlast (hfirst _ mem_cons_self)) hrest
        (ht c mem_cons_self) fun d hd => ht d (mem_cons_of_mem _ hd)

theorem exists_inOrder_of_append {before later : List FlowCall} (hlast : fc.lastReplenish ≤ last)
    (horder : InOrder last (before ++ later)) :
    ∃ last', (before.foldl step fc).lastReplenish ≤ last' ∧ InOrder last' later := by
  induction before generalizing fc last with
  | nil => exact ⟨last, hlast, horder⟩
  | cons c before ih =>
      obtain ⟨hfirst, hrest⟩ := pairwise_cons.mp horder
      exact ih (lastReplenish_step_le hlast (hfirst _ mem_cons_self)) hrest

theorem admitted_le (hkeeps : ∀ c ∈ calls, c.KeepsRate) (hlast : fc.lastReplenish ≤ last)
    (horder : InOrder last calls) (hfc : Always step WithinBurst fc calls) {t₂ : ℕ}
    (ht : ∀ c ∈ calls, t₁ ≤ c.now ∧ c.now ≤ t₂) :
    fc.admitted calls * 1000000000 ≤ fc.transitBurst * 1000000000 + fc.transitRate * (t₂ - t₁) := by
  cases hcalls : calls with
  | nil => simp [admitted]
  | cons c later =>
      rw [← hcalls]
      have hc : c ∈ calls := hcalls ▸ mem_cons_self
      have hle : last ≤ t₂ := by
        have hfirst := (pairwise_cons.mp horder).1 c.now (mem_map_of_mem hc)
        exact hfirst.trans (ht c hc).2
      have hstart : Window fc.transitBurst fc.transitRate t₁ 0 fc := ⟨rfl, rfl, .inl rfl⟩
      have hend := (hstart.run hkeeps (fun d hd => (ht d hd).1) hlast horder hfc).bounded
      rw [Nat.zero_add] at hend
      rcases hend with hnone | hbounded
      · rw [hnone, Nat.zero_mul]
        exact Nat.zero_le _
      · have hreplenish := lastReplenish_run_le hlast horder hle fun d hd => (ht d hd).2
        have hrate := Nat.mul_le_mul_left fc.transitRate hreplenish
        have hgap : fc.transitRate * (t₂ - t₁) + fc.transitRate * t₁ = fc.transitRate * t₂ := by
          rw [← Nat.mul_add, Nat.sub_add_cancel ((ht c hc).1.trans (ht c hc).2)]
        linarith

def BucketFits (fc : FlowController) : Prop :=
  fc.transitBucket ≤ fc.transitBurst

theorem BucketFits.step (h : fc.BucketFits)
    (hc : ∀ now rate, c = .setRate now rate → rate ≤ minTransitBurst) : (fc.step c).BucketFits := by
  cases c with
  | setRate now rate => exact (hc now rate rfl).trans (le_max_right _ _)
  | consume now bytes =>
      obtain ⟨-, hburst, -, hsum, -⟩ := fc.consume_spec now bytes
      have hbucket : (fc.replenish now).transitBucket ≤ fc.transitBurst := by
        rcases fc.replenish_cases now with ⟨-, hsame⟩ | ⟨-, hcap, -⟩
        · rw [hsame]
          exact h
        · exact hcap
      show (fc.step _).transitBucket ≤ (fc.step _).transitBurst
      rw [hburst]
      omega

theorem bucket_le_burst_iff (transitRateMbps start : ℕ) (calls : List FlowCall) :
    (∀ before later, calls = before ++ later →
        (before.foldl step (new transitRateMbps start)).BucketFits) ↔
      bytesPerSec transitRateMbps ≤ minTransitBurst ∧
        ∀ now rate, .setRate now rate ∈ calls → rate ≤ minTransitBurst := by
  constructor
  · intro h
    refine ⟨?_, fun now rate hmem => ?_⟩
    · have hnew : bytesPerSec transitRateMbps ≤ max (bytesPerSec transitRateMbps / 10)
          minTransitBurst := h [] calls rfl
      simp only [minTransitBurst] at hnew ⊢
      omega
    · obtain ⟨before, later, rfl⟩ := append_of_mem hmem
      have hset := h (before ++ [.setRate now rate]) later (by simp)
      rw [foldl_append] at hset
      have hset : rate ≤ max (rate / 10) minTransitBurst := hset
      simp only [minTransitBurst] at hset ⊢
      omega
  · rintro ⟨hnew, hset⟩ before later rfl
    have hlow : Always step (fun _ c => ∀ now rate, c = .setRate now rate → rate ≤ minTransitBurst)
        (new transitRateMbps start) before := by
      refine Always.of_forall (fun _ c hc => ?_) _
      rintro now rate rfl
      exact hset now rate (mem_append_left _ hc)
    exact hlow.invariant BucketFits (fun _ _ hs hc => hs.step hc) (hnew.trans (le_max_right _ _))

/-- A run in which every call that takes bytes finds the bucket within the burst keeps the bound
exactly if every rate that is set is at most the least burst. -/
theorem transitBounded_iff (transitRateMbps start : ℕ) (calls : List FlowCall)
    (horder : InOrder start calls)
    (hwithin : Always step WithinBurst (new transitRateMbps start) calls) :
    TransitBounded (new transitRateMbps start) calls ↔
      bytesPerSec transitRateMbps ≤ minTransitBurst ∧
        ∀ now rate, .setRate now rate ∈ calls → rate ≤ minTransitBurst := by
  rw [← bucket_le_burst_iff transitRateMbps start]
  refine ⟨TransitBounded.bucket, fun hbucket => ⟨?_, hbucket⟩⟩
  rintro before window later rfl hkeeps t₁ t₂ ht
  rw [append_assoc] at horder hwithin
  have hstart : (new transitRateMbps start).lastReplenish ≤ start := le_rfl
  obtain ⟨last, hlast, hrest⟩ := exists_inOrder_of_append hstart horder
  have hwindow : InOrder last window :=
    Pairwise.sublist (((sublist_append_left window later).map _).cons_cons last) hrest
  obtain ⟨hcalls, -⟩ := (always_append _ _ _ _ _).mp ((always_append _ _ _ _ _).mp hwithin).2
  exact admitted_le hkeeps hlast hwindow hcalls ht

/-- A trickle after the rate is set to 1000 bytes per second. -/
theorem transitBounded_trickle :
    TransitBounded (new 0 0) [.setRate 5 1000, .consume 2000005 700, .consume 2000009 303] := by
  have horder : InOrder 0 [.setRate 5 1000, .consume 2000005 700, .consume 2000009 303] := by
    simp [InOrder, FlowCall.now]
  have hwithin : Always step WithinBurst (new 0 0)
      [.setRate 5 1000, .consume 2000005 700, .consume 2000009 303] := by
    refine ⟨trivial, ?_, ?_, trivial⟩
    · intro _ _ hsoon
      exact absurd hsoon (by decide)
    · intro _ henough
      exact absurd henough (by decide)
  refine (transitBounded_iff 0 0 _ horder hwithin).mpr ⟨by decide, ?_⟩
  intro now rate hmem
  simp only [mem_cons, FlowCall.setRate.injEq, reduceCtorEq, not_mem_nil,
    or_false] at hmem
  rw [hmem.2]
  decide

/-- At 8 megabits a second, a million bytes pass at once; the burst is a tenth of it. -/
theorem not_transitBounded_new :
    InOrder 0 [.consume 1 1000000] ∧ ¬ TransitBounded (new 8 0) [.consume 1 1000000] := by
  refine ⟨by simp [InOrder], fun h => ?_⟩
  have hall := h.interval [] [.consume 1 1000000] [] rfl (by simp [FlowCall.KeepsRate]) 0 1
    (by simp [FlowCall.now])
  exact absurd hall (by decide)

end FlowController

end Vantablack.Net
