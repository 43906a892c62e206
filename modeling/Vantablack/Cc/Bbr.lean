import Vantablack.Cc.Window
import Vantablack.Lib.Recent

/-!
The third law of `net/cc.rs`, BBR: a model of the path made of a bandwidth and a round trip time,
and a machine of four phases driven by rounds. The estimates of the model are those of the latest
acknowledgement.
-/

namespace Vantablack.Cc

open Lib List

section Gains

variable {K : Type*} [Field K]

def bbrHighGain : K := 2885390082 / 1000000000

def bbrDrainGain : K := 1 / bbrHighGain

def bbrCwndGain : K := 2

def bbrProbeBwGains : List K := [5 / 4, 3 / 4, 1, 1, 1, 1, 1, 1]

end Gains

/-- Ten seconds. -/
def bbrProbeRttInterval : ℕ := 10000000000

/-- 200 milliseconds. -/
def bbrProbeRttDuration : ℕ := 200000000

inductive BbrState where
  | startup
  | drain
  | probeBw
  | probeRtt
  deriving DecidableEq

/-- The samples of the round trip time come with the time they were taken at. -/
structure Bbr (K : Type*) where
  mss : UInt64
  state : BbrState
  pacingGain : K
  cwndGain : K
  maxBw : K
  bwSamples : List K
  rttSamples : List (ℕ × ℕ)
  minRtt : Option ℕ
  roundCount : ℕ
  bwAtRoundStart : K
  roundsWithoutGrowth : ℕ
  probeBwCycle : ℕ
  enteredProbeRtt : Option ℕ
  lastMinRttUpdate : Option ℕ
  inFlight : ℕ
  maxCwnd : K

namespace Bbr

variable {K : Type*} [Field K] [LinearOrder K]

def new (mss : UInt64) : Bbr K where
  mss := max mss 1
  state := .startup
  pacingGain := bbrHighGain
  cwndGain := bbrCwndGain
  maxBw := 0
  bwSamples := []
  rttSamples := []
  minRtt := none
  roundCount := 0
  bwAtRoundStart := 0
  roundsWithoutGrowth := 0
  probeBwCycle := 0
  enteredProbeRtt := none
  lastMinRttUpdate := none
  inFlight := 0
  maxCwnd := asF64 defaultMaxCwnd

def bdpBytes (b : Bbr K) : K :=
  match b.minRtt with
  | some rtt => b.maxBw * asSecs rtt
  | none => 0

def cwnd [IsStrictOrderedRing K] [FloorRing K] (b : Bbr K) : ℕ :=
  if b.state = .probeRtt then (max minPipeCwnd b.mss).toNat
  else
    let floor := asF64 (max minPipeCwnd b.mss)
    let byModel := b.bdpBytes * b.cwndGain
    let startupFloor := (b.roundCount + 1 : K) * asF64 b.mss
    asU64 (min (max (max byModel startupFloor) floor) b.maxCwnd)

def pacingRateBps (b : Bbr K) : K :=
  if b.maxBw ≤ 0 then
    asF64 initCwnd / max (asSecs (b.minRtt.getD 100000000)) (1 / 1000) * b.pacingGain
  else b.maxBw * b.pacingGain

/-- The floor has not been refreshed for an interval. -/
def floorIsStale (b : Bbr K) (now : ℕ) : Bool :=
  b.lastMinRttUpdate.any fun t => bbrProbeRttInterval ≤ now - t

/-- The samples of the interval, and the least of them. -/
def observeRtt (b : Bbr K) (rtt now : ℕ) : Bbr K :=
  let samples := if 0 < rtt then b.rttSamples ++ [(now, rtt)] else b.rttSamples
  let samples := samples.dropWhile fun s => bbrProbeRttInterval < now - s.1
  match (samples.map Prod.snd).min? with
  | some sample =>
      { b with rttSamples := samples, minRtt := some sample, lastMinRttUpdate := some now }
  | none => { b with rttSamples := samples }

def deliveryRate (ackedBytes : UInt64) (rtt : ℕ) : K :=
  asF64 ackedBytes / max (asSecs rtt) (1 / 1000000)

/-- The last ten samples, and the largest of them if the bandwidth was not larger. -/
def observeBw (b : Bbr K) (ackedBytes : UInt64) (rtt : ℕ) : Bbr K :=
  let samples := recent 10 (b.bwSamples ++ [deliveryRate ackedBytes rtt])
  match samples.max? with
  | some best => { b with bwSamples := samples, maxBw := max b.maxBw best }
  | none => { b with bwSamples := samples }

/-- While the floor is measured, both gains are one. -/
def holdGains (b : Bbr K) : Bbr K :=
  if b.state = .probeRtt then { b with pacingGain := 1, cwndGain := 1 } else b

/-- How long the floor has been measured for. -/
def held (b : Bbr K) (now : ℕ) : ℕ := (b.enteredProbeRtt.map (now - ·)).getD 0

def maybeProbeRtt (b : Bbr K) (stale : Bool) (now : ℕ) : Bbr K :=
  if b.state = .probeRtt then
    if bbrProbeRttDuration ≤ b.held now then
      { b with
        state := .probeBw
        enteredProbeRtt := none
        probeBwCycle := 0
        pacingGain := bbrProbeBwGains.getD 0 0
        cwndGain := bbrCwndGain }
    else b
  else if stale = true ∧ b.state ≠ .startup then
    { b with state := .probeRtt, enteredProbeRtt := some now }
  else b

/-- Staleness is judged before the sample of this acknowledgement counts. -/
def onAck (b : Bbr K) (ackedBytes : UInt64) (rtt now : ℕ) : Bbr K :=
  if ackedBytes = 0 then b
  else
    let stale := b.floorIsStale now
    ((b.observeRtt rtt now).observeBw ackedBytes rtt).holdGains.maybeProbeRtt stale now

/-- The bandwidth is at least a quarter above that of the start of the round. -/
def grew (b : Bbr K) : Prop := b.bwAtRoundStart * (5 / 4) ≤ b.maxBw

instance (b : Bbr K) : Decidable b.grew := inferInstanceAs (Decidable (_ ≤ _))

/-- The rounds without growth up to the end of this one. The counter wraps. -/
def countGrowth (b : Bbr K) : Bbr K :=
  { b with
    roundsWithoutGrowth := if b.grew then 0 else (b.roundsWithoutGrowth + 1) % 2 ^ 32
    bwAtRoundStart := b.maxBw }

def nextGain (b : Bbr K) : Bbr K :=
  let cycle := (b.probeBwCycle + 1) % 8
  { b with probeBwCycle := cycle, pacingGain := bbrProbeBwGains.getD cycle 0 }

def advanceRound (b : Bbr K) (peakInFlight : ℕ) : Bbr K :=
  let b := { b with roundCount := (b.roundCount + 1) % 2 ^ 64 }
  match b.state with
  | .startup =>
      let counted := b.countGrowth
      if 3 ≤ counted.roundsWithoutGrowth ∧ 0 < b.maxBw then
        { counted with state := .drain, pacingGain := bbrDrainGain, cwndGain := bbrCwndGain }
      else counted
  | .drain =>
      if (peakInFlight : K) ≤ max b.bdpBytes 1 then
        { b with state := .probeBw, probeBwCycle := 0, pacingGain := bbrProbeBwGains.getD 0 0 }
      else b
  | .probeBw => if b.grew then b.countGrowth.nextGain else b.countGrowth
  | .probeRtt => b

def onLoss (b : Bbr K) (_now : ℕ) : Bbr K := b

/-- A flight that empties is a round boundary. -/
def setInFlight (b : Bbr K) (bytes : ℕ) : Bbr K :=
  let was := b.inFlight
  let b := { b with inFlight := bytes }
  if 0 < was ∧ bytes = 0 then b.advanceRound was else b

end Bbr

inductive BbrCall where
  | onAck (ackedBytes : UInt64) (rtt now : ℕ)
  | onLoss (now : ℕ)
  | setInFlight (bytes : ℕ)
  deriving DecidableEq

def Bbr.step {K : Type*} [Field K] [LinearOrder K] (b : Bbr K) : BbrCall → Bbr K
  | .onAck ackedBytes rtt now => b.onAck ackedBytes rtt now
  | .onLoss now => b.onLoss now
  | .setInFlight bytes => b.setInFlight bytes

/-! ### What the model says -/

/-- An acknowledgement: the bytes, the round trip time and the clock. -/
structure BbrAck where
  ackedBytes : UInt64
  rtt : ℕ
  now : ℕ

def BbrCall.ack? : BbrCall → Option BbrAck
  | .onAck ackedBytes rtt now => some ⟨ackedBytes, rtt, now⟩
  | _ => none

def acksOf (calls : List BbrCall) : List BbrAck := calls.filterMap BbrCall.ack?

section Model

variable {K : Type*} [Field K] [LinearOrder K]

def rates (acks : List BbrAck) : List K := acks.map fun a => Bbr.deliveryRate a.ackedBytes a.rtt

/-- The acknowledgements within the interval up to the last one. -/
def ofInterval (acks : List BbrAck) : List BbrAck :=
  let now := (acks.getLast?.map BbrAck.now).getD 0
  acks.filter fun a => now - a.now ≤ bbrProbeRttInterval

/-- Those of them that measured a round trip time. -/
def measured (acks : List BbrAck) : List BbrAck := (ofInterval acks).filter (0 < ·.rtt)

/-- The bandwidth is the largest of the last ten samples and the round trip time the least of the
interval, so that ten samples below a rate bound the bandwidth-delay product. -/
structure Bbr.Tracks (acks : List BbrAck) (b : Bbr K) : Prop where
  maxBw : b.maxBw = (recent 10 (rates acks)).max?.getD 0
  minRtt : b.minRtt = ((ofInterval acks).map BbrAck.rtt).min?
  follows : ∀ r rtt, 10 ≤ acks.length → (∀ x ∈ recent 10 (rates acks), x ≤ r) →
    b.minRtt = some rtt → b.bdpBytes ≤ r * asSecs rtt

/-- The model of the path, without the machine. -/
structure BbrModel (K : Type*) where
  maxBw : K
  bwSamples : List K
  rttSamples : List (ℕ × ℕ)
  minRtt : Option ℕ
  lastMinRttUpdate : Option ℕ

def Bbr.model (b : Bbr K) : BbrModel K where
  maxBw := b.maxBw
  bwSamples := b.bwSamples
  rttSamples := b.rttSamples
  minRtt := b.minRtt
  lastMinRttUpdate := b.lastMinRttUpdate

/-- What is kept for the estimates. -/
structure BbrModel.Samples (acks : List BbrAck) (b : BbrModel K) : Prop where
  bwSamples : b.bwSamples = recent 10 (rates acks)
  largest : ∀ x ∈ rates acks, x ≤ b.maxBw
  attained : acks ≠ [] → b.maxBw ∈ (rates acks : List K)
  none_yet : acks = [] → b.maxBw = 0
  rttSamples : b.rttSamples = (measured acks).map fun a => (a.now, a.rtt)
  minRtt : b.minRtt = ((measured acks).map BbrAck.rtt).min?

end Model

/-! #### The machine leaves the model alone -/

namespace Bbr

variable {K : Type*} [Field K] [LinearOrder K]

omit [LinearOrder K] in
@[simp] theorem model_maybeProbeRtt (b : Bbr K) (stale : Bool) (now : ℕ) :
    (b.maybeProbeRtt stale now).model = b.model := by
  rw [maybeProbeRtt]
  split
  · split <;> rfl
  · split <;> rfl

@[simp] theorem model_advanceRound (b : Bbr K) (peakInFlight : ℕ) :
    (b.advanceRound peakInFlight).model = b.model := by
  rw [advanceRound]
  dsimp only
  split
  · split <;> rfl
  · split <;> rfl
  · split <;> rfl
  · rfl

@[simp] theorem model_setInFlight (b : Bbr K) (bytes : ℕ) :
    (b.setInFlight bytes).model = b.model := by
  rw [setInFlight]
  split
  · rw [model_advanceRound]
    rfl
  · rfl

theorem model_onAck {ackedBytes : UInt64} (h : ackedBytes ≠ 0) (b : Bbr K) (rtt now : ℕ) :
    (b.onAck ackedBytes rtt now).model = ((b.observeRtt rtt now).observeBw ackedBytes rtt).model := by
  rw [onAck, if_neg h, model_maybeProbeRtt, holdGains]
  split <;> rfl

end Bbr

/-! #### One acknowledgement -/

section Samples

variable {K : Type*} [Field K] [LinearOrder K]

theorem rates_concat (acks : List BbrAck) (a : BbrAck) :
    (rates (acks ++ [a]) : List K) = rates acks ++ [Bbr.deliveryRate a.ackedBytes a.rtt] := by
  rw [rates, rates, map_append]
  rfl

theorem deliveryRate_pos [IsStrictOrderedRing K] {ackedBytes : UInt64} (h : ackedBytes ≠ 0) (rtt : ℕ) :
    (0 : K) < Bbr.deliveryRate ackedBytes rtt := by
  have hnat : 0 < ackedBytes.toNat := by
    rw [Nat.pos_iff_ne_zero]
    intro hzero
    exact h (UInt64.toNat_inj.mp hzero)
  have hacked : (0 : K) < asF64 ackedBytes := Nat.cast_pos.mpr hnat
  exact div_pos hacked (lt_max_of_lt_right (by norm_num))

variable {acks : List BbrAck} {b : Bbr K} {a : BbrAck}

theorem ofInterval_concat (htime : (acks ++ [a]).Pairwise fun x y => x.now ≤ y.now) :
    ofInterval (acks ++ [a]) =
      (ofInterval acks ++ [a]).filter fun x => !decide (bbrProbeRttInterval < a.now - x.now) := by
  have hlast : (acks.getLast?.map BbrAck.now).getD 0 ≤ a.now := by
    cases hacks : acks.getLast? with
    | none => exact Nat.zero_le _
    | some x =>
        have hx : x ∈ acks := mem_of_getLast? hacks
        exact (pairwise_append.mp htime).2.2 x hx a (mem_singleton_self a)
  rw [ofInterval, ofInterval, filter_append, filter_append, filter_filter,
    getLast?_concat]
  congr 1
  · -- what is young now was young before
    apply filter_congr
    intro x _
    simp only [Option.map_some, Option.getD_some]
    grind
  · simp

theorem mem_measured_concat (acks : List BbrAck) (hrtt : 0 < a.rtt) : a ∈ measured (acks ++ [a]) := by
  simp [measured, ofInterval, hrtt]

theorem dropWhile_measured (htime : (acks ++ [a]).Pairwise fun x y => x.now ≤ y.now) :
    ((ofInterval acks ++ [a]).filter (0 < ·.rtt)).dropWhile
        (fun x => bbrProbeRttInterval < a.now - x.now) = measured (acks ++ [a]) := by
  have hsorted : ((ofInterval acks ++ [a]).filter (0 < ·.rtt)).Pairwise fun x y => x.now ≤ y.now :=
    (htime.sublist (filter_sublist.append_right [a])).sublist filter_sublist
  have hold : ∀ s t, s ≤ t → decide (bbrProbeRttInterval < a.now - t) = true →
      decide (bbrProbeRttInterval < a.now - s) = true := by
    intro s t hst ht
    rw [decide_eq_true_eq] at ht ⊢
    omega
  rw [dropWhile_eq_filter BbrAck.now (fun t => bbrProbeRttInterval < a.now - t) hold hsorted,
    measured, ofInterval_concat htime, filter_comm]

omit [Field K] [LinearOrder K] in
theorem observeRtt_eq (h : b.rttSamples = (measured acks).map fun x => (x.now, x.rtt))
    (htime : (acks ++ [a]).Pairwise fun x y => x.now ≤ y.now) :
    b.observeRtt a.rtt a.now =
      { b with
        rttSamples := (measured (acks ++ [a])).map fun x => (x.now, x.rtt)
        minRtt := ((measured (acks ++ [a])).map BbrAck.rtt).min?.or b.minRtt
        lastMinRttUpdate :=
          if measured (acks ++ [a]) = [] then b.lastMinRttUpdate else some a.now } := by
  have hpush : (if 0 < a.rtt then b.rttSamples ++ [(a.now, a.rtt)] else b.rttSamples) =
      ((ofInterval acks ++ [a]).filter (0 < ·.rtt)).map fun x => (x.now, x.rtt) := by
    rw [h, measured, filter_append, map_append]
    by_cases hrtt : 0 < a.rtt <;> simp [hrtt]
  have hsamples : (if 0 < a.rtt then b.rttSamples ++ [(a.now, a.rtt)] else b.rttSamples).dropWhile
      (fun s => decide (bbrProbeRttInterval < a.now - s.1)) =
        (measured (acks ++ [a])).map fun x => (x.now, x.rtt) := by
    rw [hpush, dropWhile_map, ← dropWhile_measured htime]
    rfl
  have hrtts : ((measured (acks ++ [a])).map fun x => (x.now, x.rtt)).map Prod.snd =
      (measured (acks ++ [a])).map BbrAck.rtt := by
    rw [map_map]
    rfl
  rw [Bbr.observeRtt]
  simp only [hsamples, hrtts]
  split
  · rename_i hmin
    have hne : measured (acks ++ [a]) ≠ [] := by
      intro hnil
      rw [hnil] at hmin
      cases hmin
    rw [hmin, if_neg hne, Option.some_or]
  · rename_i hmin
    have hnil := map_eq_nil_iff.mp (min?_eq_none_iff.mp hmin)
    rw [hmin, if_pos hnil, Option.none_or]

theorem observeBw_eq (h : b.bwSamples = recent 10 (rates acks)) :
    ∃ best, (recent 10 (rates (acks ++ [a]) : List K)).max? = some best ∧
      b.observeBw a.ackedBytes a.rtt =
        { b with bwSamples := recent 10 (rates (acks ++ [a])), maxBw := max b.maxBw best } := by
  have hsamples : recent 10 (b.bwSamples ++ [Bbr.deliveryRate a.ackedBytes a.rtt]) =
      recent 10 (rates (acks ++ [a])) := by
    rw [h, recent_concat, rates_concat]
  rw [Bbr.observeBw]
  simp only [hsamples]
  cases hmax : (recent 10 (rates (acks ++ [a]) : List K)).max? with
  | some best => exact ⟨best, rfl, rfl⟩
  | none =>
      have hmem := mem_recent_concat (n := 10) (by decide) (rates acks)
        (Bbr.deliveryRate a.ackedBytes a.rtt : K)
      rw [← rates_concat, max?_eq_none_iff.mp hmax] at hmem
      cases hmem

variable [IsStrictOrderedRing K]

theorem BbrModel.Samples.onAck (h : b.model.Samples acks) (ha : a.ackedBytes ≠ 0) (hrtt : 0 < a.rtt)
    (htime : (acks ++ [a]).Pairwise fun x y => x.now ≤ y.now) :
    (b.onAck a.ackedBytes a.rtt a.now).model.Samples (acks ++ [a]) := by
  have hmodel := Bbr.model_onAck ha b a.rtt a.now
  rw [observeRtt_eq h.rttSamples htime] at hmodel
  obtain ⟨best, hbest, hbw⟩ := observeBw_eq (a := a) (b := { b with
    rttSamples := (measured (acks ++ [a])).map fun x => (x.now, x.rtt)
    minRtt := ((measured (acks ++ [a])).map BbrAck.rtt).min?.or b.minRtt
    lastMinRttUpdate :=
      if measured (acks ++ [a]) = [] then b.lastMinRttUpdate else some a.now }) h.bwSamples
  rw [hbw] at hmodel
  rw [hmodel]
  obtain ⟨hmem, hle⟩ := max?_eq_some_iff.mp hbest
  have hnew : (Bbr.deliveryRate a.ackedBytes a.rtt : K) ≤ best := by
    apply hle
    rw [rates_concat]
    exact mem_recent_concat (by decide) _ _
  constructor
  · rfl
  · intro x hx
    rw [rates_concat] at hx
    rcases mem_append.mp hx with hold | hlast
    · exact (h.largest x hold).trans (le_max_left _ _)
    · rw [mem_singleton.mp hlast]
      exact hnew.trans (le_max_right _ _)
  · intro _
    show max b.maxBw best ∈ _
    rcases le_total b.maxBw best with hless | hmore
    · rw [max_eq_right hless]
      exact recent_subset _ _ hmem
    · rw [max_eq_left hmore, rates_concat]
      apply mem_append_left
      apply h.attained
      rintro rfl
      -- without a sample so far the bandwidth is zero
      have hzero : b.maxBw = 0 := h.none_yet rfl
      have hpos := deliveryRate_pos (K := K) ha a.rtt
      linarith
  · simp
  · rfl
  · show ((measured (acks ++ [a])).map BbrAck.rtt).min?.or b.minRtt = _
    have hmem := mem_map_of_mem (f := BbrAck.rtt) (mem_measured_concat acks hrtt)
    cases hmin : ((measured (acks ++ [a])).map BbrAck.rtt).min? with
    | some least => rfl
    | none =>
        rw [min?_eq_none_iff.mp hmin] at hmem
        cases hmem

omit [IsStrictOrderedRing K] in
theorem samples_new (mss : UInt64) : (Bbr.new mss : Bbr K).model.Samples [] where
  bwSamples := rfl
  largest x hx := by cases hx
  attained h := absurd rfl h
  none_yet _ := rfl
  rttSamples := rfl
  minRtt := rfl

theorem BbrModel.Samples.tracks_iff (h : b.model.Samples acks) (hrtt : ∀ x ∈ acks, 0 < x.rtt) :
    b.Tracks acks ↔ ∀ x ∈ (rates acks : List K), ∃ y ∈ recent 10 (rates acks), x ≤ y := by
  constructor
  · intro htracks x hx
    cases hmax : (recent 10 (rates acks : List K)).max? with
    | none =>
        have hnil := max?_eq_none_iff.mp hmax
        have hlength := length_recent 10 (rates acks : List K)
        rw [hnil, length_nil] at hlength
        have hpos := length_pos_of_mem hx
        omega
    | some best =>
        have hbest : b.maxBw = best := by
          rw [htracks.maxBw, hmax]
          rfl
        exact ⟨best, (max?_eq_some_iff.mp hmax).1, hbest ▸ h.largest x hx⟩
  · intro hcovered
    have hmaxBw : b.maxBw = (recent 10 (rates acks)).max?.getD 0 := by
      by_cases hacks : acks = []
      · subst hacks
        exact h.none_yet rfl
      · obtain ⟨y, hy, hle⟩ := hcovered _ (h.attained hacks)
        cases hmax : (recent 10 (rates acks : List K)).max? with
        | none =>
            rw [max?_eq_none_iff.mp hmax] at hy
            cases hy
        | some best =>
            obtain ⟨hmem, hbest⟩ := max?_eq_some_iff.mp hmax
            exact le_antisymm (hle.trans (hbest y hy)) (h.largest best (recent_subset _ _ hmem))
    have hminRtt : b.minRtt = ((ofInterval acks).map BbrAck.rtt).min? := by
      have hall : measured acks = ofInterval acks :=
        filter_eq_self.mpr fun x hx => decide_eq_true (hrtt x (mem_filter.mp hx).1)
      rw [← hall]
      exact h.minRtt
    refine ⟨hmaxBw, hminRtt, ?_⟩
    intro r rtt hten hall hrtt'
    have hacks : acks ≠ [] := by
      rintro rfl
      cases hten
    obtain ⟨y, hy, hle⟩ := hcovered _ (h.attained hacks)
    have hbdp : b.bdpBytes = b.maxBw * asSecs rtt := by
      rw [Bbr.bdpBytes, hrtt']
    have hsecs : (0 : K) ≤ asSecs rtt := div_nonneg (Nat.cast_nonneg _) (by norm_num)
    rw [hbdp]
    exact mul_le_mul_of_nonneg_right (hle.trans (hall y hy)) hsecs

/-! ### Runs -/

/-- The acknowledgements of the run have bytes and round trip times, and the clock does not run
backwards. -/
structure Timely (calls : List BbrCall) : Prop where
  bytes : ∀ a ∈ acksOf calls, a.ackedBytes ≠ 0
  rtt : ∀ a ∈ acksOf calls, 0 < a.rtt
  now : (acksOf calls).Pairwise fun x y => x.now ≤ y.now

omit [Field K] [LinearOrder K] [IsStrictOrderedRing K] in
theorem Timely.of_append {before later : List BbrCall} (h : Timely (before ++ later)) :
    Timely before := by
  have hsplit : acksOf (before ++ later) = acksOf before ++ acksOf later := filterMap_append
  have hbytes := h.bytes
  have hrtt := h.rtt
  have hnow := h.now
  rw [hsplit] at hbytes hrtt hnow
  exact ⟨fun a ha => hbytes a (mem_append_left _ ha),
    fun a ha => hrtt a (mem_append_left _ ha), (pairwise_append.mp hnow).1⟩

theorem samples_run (mss : UInt64) {calls : List BbrCall} (h : Timely calls) :
    (calls.foldl Bbr.step (Bbr.new mss : Bbr K)).model.Samples (acksOf calls) := by
  induction calls using reverseRecOn with
  | nil => exact samples_new mss
  | append_singleton calls c ih =>
      have hbefore := ih h.of_append
      have hacks : acksOf (calls ++ [c]) = acksOf calls ++ c.ack?.toList := by
        rw [acksOf, filterMap_append, acksOf]
        cases hc : c.ack? <;> simp [hc]
      rw [foldl_append, hacks]
      cases c with
      | onAck ackedBytes rtt now =>
          have hlast : (⟨ackedBytes, rtt, now⟩ : BbrAck) ∈
              acksOf (calls ++ [.onAck ackedBytes rtt now]) := by
            rw [hacks]
            exact mem_append_right _ (mem_singleton_self _)
          have hnow := h.now
          rw [hacks] at hnow
          exact hbefore.onAck (h.bytes _ hlast) (h.rtt _ hlast) hnow
      | onLoss now =>
          have hnone : acksOf calls ++ (BbrCall.onLoss now).ack?.toList = acksOf calls :=
            append_nil _
          rw [hnone]
          exact hbefore
      | setInFlight bytes =>
          have hnone : acksOf calls ++ (BbrCall.setInFlight bytes).ack?.toList = acksOf calls :=
            append_nil _
          rw [hnone]
          show (Bbr.setInFlight _ bytes).model.Samples _
          rw [Bbr.model_setInFlight]
          exact hbefore

/-- The estimates follow the samples along a run exactly if no sample of the delivery rate is above
each of the ten that follow it. -/
theorem bbr_tracks_iff (mss : UInt64) {calls : List BbrCall} (h : Timely calls) :
    (∀ before later, calls = before ++ later →
        (before.foldl Bbr.step (Bbr.new mss : Bbr K)).Tracks (acksOf before)) ↔
      NoPeak 10 (rates (acksOf calls) : List K) := by
  rw [← covered_iff_noPeak (by decide)]
  constructor
  · intro htracks earlier later hsplit
    obtain ⟨acks, acks', hacks, rfl, -⟩ := map_eq_append_iff.mp hsplit
    obtain ⟨before, calls', rfl, rfl, -⟩ := filterMap_eq_append_iff.mp hacks
    exact ((samples_run mss h.of_append).tracks_iff h.of_append.rtt).mp (htracks before calls' rfl)
  · rintro hcovered before later rfl
    refine ((samples_run mss h.of_append).tracks_iff h.of_append.rtt).mpr (hcovered _ (rates (acksOf later)) ?_)
    rw [rates, rates, rates, ← map_append, acksOf, acksOf, acksOf, filterMap_append]

end Samples

/-- Two acknowledgements with other calls between them. -/
def oneRound : List BbrCall :=
  [.onAck 100000 50000000 0, .setInFlight 100000, .onLoss 1000,
    .onAck 70000 40000000 50000000, .setInFlight 0]

theorem bbr_tracks_one_round :
    Timely oneRound ∧
      ∀ before later, oneRound = before ++ later →
        (before.foldl Bbr.step (Bbr.new 1400 : Bbr ℚ)).Tracks (acksOf before) := by
  have htimely : Timely oneRound := ⟨by decide, by decide, by decide⟩
  refine ⟨htimely, (bbr_tracks_iff 1400 htimely).mpr ?_⟩
  intro before x window later hsplit hlength
  have hcount := congrArg length hsplit
  rw [length_append, length_append, length_cons, hlength] at hcount
  have htwo : (rates (acksOf oneRound) : List ℚ).length = 2 := rfl
  omega

/-- A path that gets ten times slower: ten acknowledgements later the bandwidth is still the old
one. -/
def slowerPath : List BbrCall :=
  .onAck 1000000 10000000 0 :: replicate 10 (.onAck 100000 10000000 1000000000)

theorem bbr_not_tracks_slowerPath :
    Timely slowerPath ∧
      ¬ ∀ before later, slowerPath = before ++ later →
        (before.foldl Bbr.step (Bbr.new 1400 : Bbr ℚ)).Tracks (acksOf before) := by
  refine ⟨⟨by decide, by decide, by decide⟩, fun h => ?_⟩
  exact absurd (h slowerPath [] (append_nil _).symm).maxBw (by decide +kernel)

end Vantablack.Cc
