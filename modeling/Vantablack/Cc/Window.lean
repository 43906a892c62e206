import Mathlib
import Vantablack.Lib.Runs

/-!
The window laws of `net/cc.rs`, CUBIC and NewReno. A float is an exact number of a field `K`, a
duration is in nanoseconds, and the cube root is a parameter. Both laws keep a window of their own
and report it clamped between the segment size and the ceiling, so that a law obeys its
specification exactly if no loss finds the stored window far above the ceiling.
-/

namespace Vantablack.Cc

open Lib

/-! What the literals of these laws find. -/

scoped instance two : Nat.AtLeastTwo 2 := ⟨by decide⟩
scoped instance three : Nat.AtLeastTwo 3 := ⟨by decide⟩
scoped instance four : Nat.AtLeastTwo 4 := ⟨by decide⟩
scoped instance seven : Nat.AtLeastTwo 7 := ⟨by decide⟩
scoped instance ten : Nat.AtLeastTwo 10 := ⟨by decide⟩
scoped instance thousand : Nat.AtLeastTwo 1000 := ⟨by decide⟩
scoped instance million : Nat.AtLeastTwo 1000000 := ⟨by decide⟩
scoped instance billion : Nat.AtLeastTwo 1000000000 := ⟨by decide⟩

def defaultMss : UInt64 := 1400

def initCwnd : UInt64 := 10 * defaultMss

def minPipeCwnd : UInt64 := 4 * defaultMss

def minSsthresh : UInt64 := 2 * defaultMss

def defaultMaxCwnd : UInt64 := 64 * 1024 * 1024

section Numbers

variable {K : Type*} [Field K]

def asF64 (n : UInt64) : K := (n.toNat : K)

/-- `Duration::as_secs_f64`. -/
def asSecs (nanos : ℕ) : K := (nanos : K) / 1000000000

def f64Max : K := (2 ^ 53 - 1) * 2 ^ 971

/-- `x as u64`: it rounds towards zero and saturates. -/
def asU64 [LinearOrder K] [IsStrictOrderedRing K] [FloorRing K] (x : K) : ℕ := min ⌊x⌋₊ (2 ^ 64 - 1)

def cubicBeta : K := 7 / 10

def cubicC : K := 4 / 10

end Numbers

/-- The source has `cwnd` and `ssthresh` both for a field and for what is reported of it. -/
structure Cubic (K : Type*) where
  mss : UInt64
  storedCwnd : K
  ssthresh : K
  wMax : K
  epochStart : Option ℕ
  k : K
  inSlowStart : Bool
  rtt : ℕ
  minRtt : ℕ
  maxCwnd : K

structure NewReno (K : Type*) where
  mss : UInt64
  storedCwnd : K
  ssthresh : K
  inSlowStart : Bool
  maxCwnd : K

variable {K : Type*} [Field K] [LinearOrder K] [IsStrictOrderedRing K] [FloorRing K]

namespace Cubic

def new (mss : UInt64) : Cubic K :=
  let mss := max mss 1
  let init := max initCwnd mss
  { mss := mss
    storedCwnd := asF64 init
    ssthresh := f64Max
    wMax := 0
    epochStart := none
    k := 0
    inSlowStart := true
    rtt := 100000000
    minRtt := 100000000
    maxCwnd := asF64 defaultMaxCwnd }

def setSsthresh (c : Cubic K) (bytes : UInt64) : Cubic K :=
  let c := { c with ssthresh := asF64 (max bytes minSsthresh) }
  if c.ssthresh ≤ c.storedCwnd then { c with inSlowStart := false } else c

def setCwndCeiling (c : Cubic K) (bytes : UInt64) : Cubic K :=
  { c with maxCwnd := asF64 (max bytes minPipeCwnd) }

def cwnd (c : Cubic K) : ℕ := asU64 (min (max c.storedCwnd (asF64 c.mss)) c.maxCwnd)

/-- The curve one round trip ahead, or the window of a Reno flow if that is larger. -/
def targetWindow (c : Cubic K) (tSecs : K) : K :=
  let rttSecs := max (asSecs c.rtt) (1 / 1000000)
  let cubic := cubicC * (tSecs + rttSecs - c.k) ^ 3 + c.wMax
  let alpha : K := 3 * (1 - cubicBeta) / (1 + cubicBeta)
  let reno := c.wMax * cubicBeta + alpha * (tSecs / rttSecs) * asF64 c.mss
  max cubic reno

/-- How long the curve takes to climb back to the window `wMax`. -/
def climb (cbrt : K → K) (wMax : K) : K := cbrt (max (wMax * (1 - cubicBeta) / cubicC) 0)

/-- The two round trip times, after a sample. -/
def sampleRtt (c : Cubic K) (rtt : ℕ) : Cubic K :=
  if 0 < rtt then
    { c with
      rtt := rtt
      minRtt := if c.minRtt = 0 ∨ rtt < c.minRtt then rtt else c.minRtt }
  else c

def onAck (cbrt : K → K) (c : Cubic K) (ackedBytes : UInt64) (rtt now : ℕ) : Cubic K :=
  if ackedBytes = 0 then c
  else
    let c := c.sampleRtt rtt
    if c.inSlowStart then
      let c := { c with storedCwnd := c.storedCwnd + asF64 ackedBytes }
      if c.ssthresh ≤ c.storedCwnd then
        { c with
          inSlowStart := false
          epochStart := some (c.epochStart.getD now)
          wMax := c.storedCwnd
          k := climb cbrt c.storedCwnd }
      else c
    else
      let epochStart := c.epochStart.getD now
      let c := { c with epochStart := some epochStart }
      let target := c.targetWindow (asSecs (now - epochStart))
      if target ≤ c.storedCwnd then c
      else
        let inc := (target - c.storedCwnd) / c.storedCwnd * asF64 ackedBytes
        { c with storedCwnd := min (c.storedCwnd + max inc 0) c.maxCwnd }

def onLoss (cbrt : K → K) (c : Cubic K) (now : ℕ) : Cubic K :=
  let wMax :=
    if c.storedCwnd < c.wMax then c.storedCwnd * (1 + cubicBeta) / 2 else c.storedCwnd
  let ssthresh := max (c.storedCwnd * cubicBeta) (asF64 minSsthresh)
  { c with
    wMax := wMax
    ssthresh := ssthresh
    storedCwnd := min ssthresh c.maxCwnd
    epochStart := some now
    inSlowStart := false
    k := climb cbrt wMax }

end Cubic

namespace NewReno

def new (mss : UInt64) : NewReno K :=
  let mss := max mss 1
  { mss := mss
    storedCwnd := asF64 (max initCwnd mss)
    ssthresh := f64Max
    inSlowStart := true
    maxCwnd := asF64 defaultMaxCwnd }

def setSsthresh (n : NewReno K) (bytes : UInt64) : NewReno K :=
  let n := { n with ssthresh := asF64 (max bytes minSsthresh) }
  if n.ssthresh ≤ n.storedCwnd then { n with inSlowStart := false } else n

def setCwndCeiling (n : NewReno K) (bytes : UInt64) : NewReno K :=
  { n with maxCwnd := asF64 (max bytes minPipeCwnd) }

def cwnd (n : NewReno K) : ℕ := asU64 (min (max n.storedCwnd (asF64 n.mss)) n.maxCwnd)

def onAck (n : NewReno K) (ackedBytes : UInt64) (_rtt _now : ℕ) : NewReno K :=
  if ackedBytes = 0 then n
  else if n.inSlowStart then
    let n := { n with storedCwnd := n.storedCwnd + asF64 ackedBytes }
    if n.ssthresh ≤ n.storedCwnd then { n with inSlowStart := false } else n
  else
    let grown := n.storedCwnd + asF64 n.mss * asF64 ackedBytes / n.storedCwnd
    { n with storedCwnd := min grown n.maxCwnd }

def onLoss (n : NewReno K) (_now : ℕ) : NewReno K :=
  let ssthresh := max (n.storedCwnd / 2) (asF64 minSsthresh)
  { n with
    ssthresh := ssthresh
    storedCwnd := min ssthresh n.maxCwnd
    inSlowStart := false }

end NewReno

/-! ### What the two laws have in common -/

inductive WindowCall where
  | onAck (ackedBytes : UInt64) (rtt now : ℕ)
  | onLoss (now : ℕ)
  | setSsthresh (bytes : UInt64)
  | setCwndCeiling (bytes : UInt64)

/-- The part of a law that decides what it reports. -/
structure View (K : Type*) where
  mss : UInt64
  window : K
  ceiling : K

namespace View

/-- The report: the window between the segment size and the ceiling. -/
def cwnd (v : View K) : ℕ := asU64 (min (max v.window (asF64 v.mss)) v.ceiling)

/-- The ceiling is one that can be set, and there is a window. -/
structure Sane (v : View K) : Prop where
  pos : 0 < v.window
  ceiling : ∃ n : UInt64, minPipeCwnd ≤ n ∧ v.ceiling = asF64 n

/-- What a call does with backoff factor `beta`: an acknowledgement takes nothing below the ceiling
away, and a loss cuts the stored window. -/
def Moves (beta : K) (v v' : View K) : WindowCall → Prop
  | .onAck _ _ _ =>
      v'.mss = v.mss ∧ v'.ceiling = v.ceiling ∧ min v.window v.ceiling ≤ v'.window
  | .onLoss _ =>
      v' = { v with window := min (max (beta * v.window) (asF64 minSsthresh)) v.ceiling }
  | .setSsthresh _ => v' = v
  | .setCwndCeiling bytes => v' = { v with ceiling := asF64 (max bytes minPipeCwnd) }

/-- A loss backs off, to within the rounding to whole bytes. -/
def BacksOff (beta : K) (v v' : View K) : Prop :=
  (v'.cwnd : K) < max (max (asF64 v.mss) (asF64 minSsthresh)) (beta * v.cwnd) + 1

/-- A loss that is not hidden by the ceiling: the stored window is within it, or the segment size is
not, or the cut brings the stored window down to what the cut of the ceiling gives. -/
def Visible (beta : K) (v : View K) : Prop :=
  v.window ≤ v.ceiling ∨ v.ceiling ≤ asF64 v.mss ∨
    (⌊beta * v.window⌋₊ : K) < max (asF64 v.mss) (beta * v.ceiling) + 1

variable {beta : K} {v v' : View K}

theorem toNat_max (a b : UInt64) : (max a b).toNat = max a.toNat b.toNat := by
  show (if a ≤ b then b else a).toNat = _
  split
  · rename_i h
    exact (max_eq_right (UInt64.le_iff_toNat_le.mp h)).symm
  · rename_i h
    exact (max_eq_left (not_le.mp (UInt64.le_iff_toNat_le.not.mp h)).le).symm

theorem asU64_eq_floor {x : K} {n : UInt64} (h : x ≤ asF64 n) : asU64 x = ⌊x⌋₊ := by
  have hfloor : ⌊x⌋₊ ≤ n.toNat := Nat.floor_le_of_le h
  have hn := n.toNat_lt
  rw [asU64, min_eq_left (by omega)]

theorem Sane.cwnd_eq (h : v.Sane) :
    v.cwnd = ⌊min (max v.window (asF64 v.mss)) v.ceiling⌋₊ := by
  obtain ⟨n, -, hn⟩ := h.ceiling
  exact asU64_eq_floor ((min_le_right _ _).trans hn.le)

theorem Sane.bounded (h : v.Sane) :
    min (asF64 v.mss) v.ceiling ≤ (v.cwnd : K) ∧ (v.cwnd : K) ≤ v.ceiling := by
  obtain ⟨n, -, hn⟩ := h.ceiling
  have hpos : 0 ≤ min (max v.window (asF64 v.mss)) v.ceiling := by
    rw [hn]
    exact le_min (h.pos.le.trans (le_max_left _ _)) (Nat.cast_nonneg _)
  rw [h.cwnd_eq]
  constructor
  · -- the least of two whole numbers is one
    have hwhole : (min v.mss.toNat n.toNat : ℕ) ≤ ⌊min (max v.window (asF64 v.mss)) v.ceiling⌋₊ := by
      apply Nat.le_floor
      rw [Nat.cast_min, hn]
      exact min_le_min (le_max_right _ _) le_rfl
    have hcast : ((min v.mss.toNat n.toNat : ℕ) : K) = min (asF64 v.mss) v.ceiling := by
      rw [Nat.cast_min, hn]
      rfl
    rw [← hcast]
    exact_mod_cast hwhole
  · exact (Nat.floor_le hpos).trans (min_le_right _ _)

omit [FloorRing K] in
theorem Sane.moves (h : v.Sane) {c : WindowCall} (hc : Moves beta v v' c) :
    v'.Sane := by
  obtain ⟨n, hpipe, hn⟩ := h.ceiling
  have hceiling : 0 < v.ceiling := by
    rw [hn]
    have hleast : 0 < minPipeCwnd.toNat := by decide
    exact Nat.cast_pos.mpr (hleast.trans_le hpipe)
  cases c with
  | onAck ackedBytes rtt now =>
      obtain ⟨-, hsame, hle⟩ := hc
      exact ⟨(lt_min h.pos hceiling).trans_le hle, n, hpipe, hsame.trans hn⟩
  | onLoss now =>
      have hleast : (0 : K) < asF64 minSsthresh := by
        have hnat : 0 < minSsthresh.toNat := by decide
        exact Nat.cast_pos.mpr hnat
      rw [Moves] at hc
      subst hc
      exact ⟨lt_min (hleast.trans_le (le_max_right _ _)) hceiling, n, hpipe, hn⟩
  | setSsthresh bytes =>
      rw [Moves] at hc
      exact hc ▸ h
  | setCwndCeiling bytes =>
      rw [Moves] at hc
      subst hc
      refine ⟨h.pos, _, ?_, rfl⟩
      rw [UInt64.le_iff_toNat_le, toNat_max]
      exact le_max_right _ _

theorem cwnd_le_of_ack {ackedBytes : UInt64} {rtt now : ℕ}
    (hc : Moves beta v v' (.onAck ackedBytes rtt now)) : v.cwnd ≤ v'.cwnd := by
  obtain ⟨hmss, hceiling, hle⟩ := hc
  have hclamped : min (max v.window (asF64 v.mss)) v.ceiling ≤
      min (max v'.window (asF64 v'.mss)) v'.ceiling := by
    rw [hmss, hceiling]
    apply le_min _ (min_le_right _ _)
    rcases le_total v.window (asF64 v.mss) with hsmall | hlarge
    · exact (min_le_left _ _).trans ((max_eq_right hsmall).trans_le (le_max_right _ _))
    · rw [max_eq_left hlarge]
      exact hle.trans (le_max_left _ _)
  exact min_le_min (Nat.floor_mono hclamped) le_rfl

theorem Sane.cwnd_onLoss (h : v.Sane) {n : UInt64} (hn : v.ceiling = asF64 n) {now : ℕ}
    (hc : Moves beta v v' (.onLoss now)) :
    v'.cwnd = min (max (max ⌊beta * v.window⌋₊ 2800) v.mss.toNat) n.toNat := by
  have hreport : v'.cwnd =
      ⌊min (max (max (beta * v.window) (asF64 minSsthresh)) (asF64 v.mss)) (asF64 n)⌋₊ := by
    rw [(h.moves hc).cwnd_eq]
    rw [Moves] at hc
    subst hc
    dsimp only
    rw [hn, max_min_distrib_right, min_assoc, min_eq_right (le_max_left _ _)]
  rw [hreport, Nat.floor_mono.map_min, Nat.floor_mono.map_max, Nat.floor_mono.map_max, asF64, asF64,
    asF64, Nat.floor_natCast, Nat.floor_natCast, Nat.floor_natCast]
  rfl

theorem Sane.window_lt (h : v.Sane) (hle : v.window ≤ v.ceiling) : v.window < (v.cwnd : K) + 1 := by
  rw [h.cwnd_eq]
  exact (le_min (le_max_left _ _) hle).trans_lt (Nat.lt_floor_add_one _)

theorem Sane.cwnd_of_lt (h : v.Sane) (hlt : v.ceiling < v.window) : (v.cwnd : K) = v.ceiling := by
  obtain ⟨n, -, hn⟩ := h.ceiling
  rw [h.cwnd_eq, min_eq_right (hlt.le.trans (le_max_left _ _)), hn, asF64, Nat.floor_natCast]

theorem Sane.backsOff_iff (h : v.Sane) (hhalf : 1 / 2 ≤ beta) (hbeta : beta ≤ 9 / 10) {now : ℕ}
    (hc : Moves beta v v' (.onLoss now)) : BacksOff beta v v' ↔ Visible beta v := by
  obtain ⟨n, hpipe, hn⟩ := h.ceiling
  have hpos : 0 ≤ beta * v.window := mul_nonneg (by linarith) h.pos.le
  have hleast : (asF64 minSsthresh : K) = 2800 := by
    have hnat : minSsthresh.toNat = 2800 := rfl
    rw [asF64, hnat, Nat.cast_ofNat]
  have hfive : (5600 : K) ≤ asF64 n := by
    have hnat : 5600 ≤ n.toNat := UInt64.le_iff_toNat_le.mp hpipe
    rw [asF64]
    exact_mod_cast hnat
  rw [BacksOff, Visible, h.cwnd_onLoss hn hc, hleast, hn]
  push_cast
  have hmss : (v.mss.toNat : K) = asF64 v.mss := rfl
  have hceil : (n.toNat : K) = asF64 n := rfl
  rw [hmss, hceil]
  by_cases hwithin : v.window ≤ asF64 n
  · refine iff_of_true ?_ (.inl hwithin)
    have hwindow := h.window_lt (hn ▸ hwithin)
    have hcut : (⌊beta * v.window⌋₊ : K) < beta * v.cwnd + 1 := by
      apply (Nat.floor_le hpos).trans_lt
      nlinarith
    grind
  · have hlt : asF64 n < v.window := not_le.mp hwithin
    have hreport : (v.cwnd : K) = asF64 n := hn ▸ h.cwnd_of_lt (hn ▸ hlt)
    -- the ceiling is a whole number, and a cut of it is shorter by more than a byte
    have hwhole : (asF64 n : K) ≤ asF64 v.mss ∨ (asF64 v.mss : K) + 1 ≤ asF64 n := by
      rcases Nat.lt_or_ge v.mss.toNat n.toNat with hmss | hmss
      · right
        rw [asF64, asF64]
        exact_mod_cast hmss
      · exact .inl (Nat.cast_le.mpr hmss)
    have hleft : 2800 ≤ beta * asF64 n := by nlinarith
    have hshort : beta * asF64 n + 1 ≤ asF64 n := by nlinarith
    rw [hreport]
    grind

end View

/-- A law: what it reports, what that depends on, and what its calls do. -/
structure Law (K σ : Type*) where
  beta : K
  cwnd : σ → ℕ
  view : σ → View K
  step : σ → WindowCall → σ

namespace Law

variable {σ : Type*}

/-- The report is that of the view, the view moves as it should, and the cut is neither too deep nor
too small. -/
structure Lawful (L : Law K σ) : Prop where
  half_le : 1 / 2 ≤ L.beta
  le_nine_tenths : L.beta ≤ 9 / 10
  cwnd_eq : ∀ s, L.cwnd s = (L.view s).cwnd
  moves : ∀ s c, (L.view s).Sane → View.Moves L.beta (L.view s) (L.view (L.step s c)) c

/-- Along a run, the report stays in its bounds, no acknowledgement lowers it and every loss cuts
it, to within the rounding to whole bytes. -/
structure Obeys (L : Law K σ) (s : σ) (calls : List WindowCall) : Prop where
  bounded : ∀ before later, calls = before ++ later →
    let t := before.foldl L.step s
    min (asF64 (L.view t).mss) (L.view t).ceiling ≤ (L.cwnd t : K) ∧
      (L.cwnd t : K) ≤ (L.view t).ceiling
  acked : Always L.step
    (fun t c => ∀ ackedBytes rtt now, c = .onAck ackedBytes rtt now → L.cwnd t ≤ L.cwnd (L.step t c))
    s calls
  backsOff : Always L.step
    (fun t c => ∀ now, c = .onLoss now →
      (L.cwnd (L.step t c) : K) <
        max (max (asF64 (L.view t).mss) (asF64 minSsthresh)) (L.beta * L.cwnd t) + 1)
    s calls

/-- No loss of the run is hidden by the ceiling. -/
def LossesVisible (L : Law K σ) (s : σ) (calls : List WindowCall) : Prop :=
  Always L.step (fun t c => ∀ now, c = .onLoss now → (L.view t).Visible L.beta) s calls

variable {L : Law K σ} {s : σ}

theorem Lawful.sane_step (hL : L.Lawful) {s : σ} (hs : (L.view s).Sane) (c : WindowCall) :
    (L.view (L.step s c)).Sane :=
  hs.moves (hL.moves s c hs)

theorem Lawful.backsOff_step_iff (hL : L.Lawful) {s : σ} (hs : (L.view s).Sane) (c : WindowCall) :
    (∀ now, c = .onLoss now →
        (L.cwnd (L.step s c) : K) <
          max (max (asF64 (L.view s).mss) (asF64 minSsthresh)) (L.beta * L.cwnd s) + 1) ↔
      ∀ now, c = .onLoss now → (L.view s).Visible L.beta := by
  apply forall_congr'
  intro now
  apply imp_congr_right
  rintro rfl
  rw [hL.cwnd_eq, hL.cwnd_eq]
  exact hs.backsOff_iff hL.half_le hL.le_nine_tenths (hL.moves s _ hs)

theorem Lawful.obeys_iff (hL : L.Lawful) (hs : (L.view s).Sane) (calls : List WindowCall) :
    L.Obeys s calls ↔ L.LossesVisible s calls := by
  have hbacks := Always.congr_of_invariant (fun t => (L.view t).Sane)
    (fun t c ht => hL.sane_step ht c) (fun t c ht => hL.backsOff_step_iff ht c) hs calls
  refine ⟨fun h => hbacks.mp h.backsOff, fun h => ⟨?_, ?_, hbacks.mpr h⟩⟩
  · intro before later _ t
    have ht : (L.view t).Sane :=
      foldl_invariant (fun t => (L.view t).Sane) (fun t c ht => hL.sane_step ht c) hs before
    rw [hL.cwnd_eq]
    exact ht.bounded
  · have hall : Always L.step (fun _ _ => True) s calls := .of_forall (fun _ _ _ => trivial) s
    refine .of_invariant (fun t => (L.view t).Sane) (fun t c ht _ => hL.sane_step ht c) ?_ hs hall
    rintro t _ ht - ackedBytes rtt now rfl
    rw [hL.cwnd_eq, hL.cwnd_eq]
    exact View.cwnd_le_of_ack (hL.moves t _ ht)

end Law

/-! ### The two laws -/

namespace Cubic

def step (cbrt : K → K) (c : Cubic K) : WindowCall → Cubic K
  | .onAck ackedBytes rtt now => c.onAck cbrt ackedBytes rtt now
  | .onLoss now => c.onLoss cbrt now
  | .setSsthresh bytes => c.setSsthresh bytes
  | .setCwndCeiling bytes => c.setCwndCeiling bytes

def view (c : Cubic K) : View K := ⟨c.mss, c.storedCwnd, c.maxCwnd⟩

def law (cbrt : K → K) : Law K (Cubic K) where
  beta := cubicBeta
  cwnd := cwnd
  view := view
  step := step cbrt

omit [Field K] [LinearOrder K] [IsStrictOrderedRing K] [FloorRing K] in
theorem view_sampleRtt (c : Cubic K) (rtt : ℕ) : (c.sampleRtt rtt).view = c.view := by
  rw [sampleRtt]
  split <;> rfl

omit [FloorRing K] in
theorem onAck_spec (cbrt : K → K) (c : Cubic K) (ackedBytes : UInt64) (rtt now : ℕ) :
    (c.onAck cbrt ackedBytes rtt now).mss = c.mss ∧
      (c.onAck cbrt ackedBytes rtt now).maxCwnd = c.maxCwnd ∧
      min c.storedCwnd c.maxCwnd ≤ (c.onAck cbrt ackedBytes rtt now).storedCwnd := by
  have hsame : (c.sampleRtt rtt).storedCwnd = c.storedCwnd :=
    congrArg View.window (c.view_sampleRtt rtt)
  have hmss : (c.sampleRtt rtt).mss = c.mss := congrArg View.mss (c.view_sampleRtt rtt)
  have hmax : (c.sampleRtt rtt).maxCwnd = c.maxCwnd := congrArg View.ceiling (c.view_sampleRtt rtt)
  rw [onAck, ← hsame, ← hmax, ← hmss]
  by_cases hnone : ackedBytes = 0
  · rw [if_pos hnone, hsame, hmss, hmax]
    exact ⟨rfl, rfl, min_le_left _ _⟩
  rw [if_neg hnone]
  generalize c.sampleRtt rtt = d
  cases hstart : d.inSlowStart with
  | true =>
      have hgrown : d.storedCwnd ≤ d.storedCwnd + asF64 ackedBytes :=
        le_add_of_nonneg_right (Nat.cast_nonneg _)
      simp only [hstart, if_true]
      split <;> exact ⟨rfl, rfl, (min_le_left _ _).trans hgrown⟩
  | false =>
      simp only [hstart, Bool.false_eq_true, if_false]
      split
      · exact ⟨rfl, rfl, min_le_left _ _⟩
      · exact ⟨rfl, rfl, min_le_min (le_add_of_nonneg_right (le_max_right _ _)) le_rfl⟩

theorem lawful (cbrt : K → K) : (law cbrt : Law K (Cubic K)).Lawful where
  half_le := by norm_num [law, cubicBeta]
  le_nine_tenths := by norm_num [law, cubicBeta]
  cwnd_eq _ := rfl
  moves c call _ := by
    cases call with
    | onAck ackedBytes rtt now => exact onAck_spec cbrt c ackedBytes rtt now
    | onLoss now =>
        show View.mk c.mss (min (max (c.storedCwnd * cubicBeta) _) _) _ = _
        rw [mul_comm]
        rfl
    | setSsthresh bytes =>
        show (c.setSsthresh bytes).view = c.view
        rw [setSsthresh]
        dsimp only
        split <;> rfl
    | setCwndCeiling bytes => rfl

omit [FloorRing K] in
theorem sane_new (mss : UInt64) : (new mss : Cubic K).view.Sane where
  pos := by
    have hnat : 0 < (max initCwnd (max mss 1)).toNat := by
      rw [View.toNat_max]
      exact lt_max_of_lt_left (by decide)
    exact Nat.cast_pos.mpr hnat
  ceiling := ⟨defaultMaxCwnd, by decide, rfl⟩

end Cubic

namespace NewReno

def step (n : NewReno K) : WindowCall → NewReno K
  | .onAck ackedBytes rtt now => n.onAck ackedBytes rtt now
  | .onLoss now => n.onLoss now
  | .setSsthresh bytes => n.setSsthresh bytes
  | .setCwndCeiling bytes => n.setCwndCeiling bytes

def view (n : NewReno K) : View K := ⟨n.mss, n.storedCwnd, n.maxCwnd⟩

def law : Law K (NewReno K) where
  beta := 1 / 2
  cwnd := cwnd
  view := view
  step := step

omit [FloorRing K] in
theorem onAck_spec {n : NewReno K} (hpos : 0 < n.storedCwnd) (ackedBytes : UInt64) (rtt now : ℕ) :
    (n.onAck ackedBytes rtt now).mss = n.mss ∧ (n.onAck ackedBytes rtt now).maxCwnd = n.maxCwnd ∧
      min n.storedCwnd n.maxCwnd ≤ (n.onAck ackedBytes rtt now).storedCwnd := by
  have hacked : (0 : K) ≤ asF64 ackedBytes := Nat.cast_nonneg _
  rw [onAck]
  by_cases hnone : ackedBytes = 0
  · rw [if_pos hnone]
    exact ⟨rfl, rfl, min_le_left _ _⟩
  rw [if_neg hnone]
  cases hstart : n.inSlowStart with
  | true =>
      simp only [if_true]
      split <;> exact ⟨rfl, rfl, (min_le_left _ _).trans (le_add_of_nonneg_right hacked)⟩
  | false =>
      have hmss : (0 : K) ≤ asF64 n.mss := Nat.cast_nonneg _
      have hinc : 0 ≤ asF64 n.mss * asF64 ackedBytes / n.storedCwnd :=
        div_nonneg (mul_nonneg hmss hacked) hpos.le
      simp only [Bool.false_eq_true, if_false]
      exact ⟨trivial, trivial, min_le_min (le_add_of_nonneg_right hinc) le_rfl⟩

theorem lawful : (law : Law K (NewReno K)).Lawful where
  half_le := le_rfl
  le_nine_tenths := by norm_num [law]
  cwnd_eq _ := rfl
  moves n call hn := by
    cases call with
    | onAck ackedBytes rtt now => exact onAck_spec hn.pos ackedBytes rtt now
    | onLoss now =>
        show View.mk n.mss (min (max (n.storedCwnd / 2) _) _) _ = _
        rw [div_eq_mul_one_div, mul_comm]
        rfl
    | setSsthresh bytes =>
        show (n.setSsthresh bytes).view = n.view
        rw [setSsthresh]
        dsimp only
        split <;> rfl
    | setCwndCeiling bytes => rfl

omit [FloorRing K] in
theorem sane_new (mss : UInt64) : (new mss : NewReno K).view.Sane where
  pos := (Cubic.sane_new mss).pos
  ceiling := (Cubic.sane_new mss).ceiling

end NewReno

/-- CUBIC, with any cube root, and NewReno obey the specification of a window law exactly along the
runs in which no loss is hidden by the ceiling. -/
theorem window_laws_obey_iff (cbrt : K → K) (mss : UInt64) (calls : List WindowCall) :
    ((Cubic.law cbrt).Obeys (Cubic.new mss) calls ↔
        (Cubic.law cbrt).LossesVisible (Cubic.new mss) calls) ∧
      ((NewReno.law : Law K (NewReno K)).Obeys (NewReno.new mss) calls ↔
        (NewReno.law : Law K (NewReno K)).LossesVisible (NewReno.new mss) calls) :=
  ⟨(Cubic.lawful cbrt).obeys_iff (Cubic.sane_new mss) calls,
    NewReno.lawful.obeys_iff (NewReno.sane_new mss) calls⟩

theorem window_laws_obey_doubled :
    let calls : List WindowCall := [.onAck 14000 50000000 0, .onLoss 1000000000]
    (Cubic.law fun x : ℚ => x).Obeys (Cubic.new 1400) calls ∧
      (NewReno.law : Law ℚ (NewReno ℚ)).Obeys (NewReno.new 1400) calls := by
  intro calls
  have hboth := window_laws_obey_iff (fun x : ℚ => x) 1400 calls
  refine ⟨hboth.1.mpr ⟨?_, fun _ _ => .inl ?_, trivial⟩, hboth.2.mpr ⟨?_, fun _ _ => .inl ?_, trivial⟩⟩
  · rintro now ⟨⟩
  · decide +kernel
  · rintro now ⟨⟩
  · decide +kernel

/-- Slow start takes the stored window far above the ceiling of 64 MiB, and the loss after it leaves
the report at the ceiling. -/
theorem window_laws_not_obey :
    let calls : List WindowCall := [.onAck 134217728 50000000 0, .onLoss 1000000000]
    ¬ (Cubic.law fun x : ℚ => x).Obeys (Cubic.new 1400) calls ∧
      ¬ (NewReno.law : Law ℚ (NewReno ℚ)).Obeys (NewReno.new 1400) calls := by
  intro calls
  constructor
  · intro h
    exact absurd (h.backsOff.2.1 1000000000 rfl) (by decide +kernel)
  · intro h
    exact absurd (h.backsOff.2.1 1000000000 rfl) (by decide +kernel)

end Vantablack.Cc
