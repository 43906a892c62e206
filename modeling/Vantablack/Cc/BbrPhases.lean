import Vantablack.Cc.Bbr
import Vantablack.Lib.Cycle

/-!
The phases of BBR along a run: when the floor of the round trip time is measured again, how long
that takes, and how the gains follow each other. The floor counts as refreshed by every
acknowledgement that has a sample in its interval, and the cycle of the gains stops while the
bandwidth does not grow.
-/

namespace Vantablack.Cc

open Lib List

variable {K : Type*}

/-- The state of the machine, without the model. -/
structure BbrMachine (K : Type*) where
  state : BbrState
  pacingGain : K
  probeBwCycle : ℕ
  enteredProbeRtt : Option ℕ

namespace Bbr

def machine (b : Bbr K) : BbrMachine K where
  state := b.state
  pacingGain := b.pacingGain
  probeBwCycle := b.probeBwCycle
  enteredProbeRtt := b.enteredProbeRtt

@[simp] theorem machine_observeRtt (b : Bbr K) (rtt now : ℕ) :
    (b.observeRtt rtt now).machine = b.machine := by
  rw [observeRtt]
  split <;> rfl

variable [Field K] [LinearOrder K]

@[simp] theorem machine_observeBw (b : Bbr K) (ackedBytes : UInt64) (rtt : ℕ) :
    (b.observeBw ackedBytes rtt).machine = b.machine := by
  rw [observeBw]
  split <;> rfl

omit [LinearOrder K] in
theorem maybeProbeRtt_cases (b : Bbr K) (stale : Bool) (now : ℕ) :
    (b.state = .probeRtt ∧ bbrProbeRttDuration ≤ b.held now ∧
        (b.maybeProbeRtt stale now).machine = ⟨.probeBw, bbrProbeBwGains.getD 0 0, 0, none⟩) ∨
      (b.state = .probeRtt ∧ b.maybeProbeRtt stale now = b) ∨
      (b.state ≠ .probeRtt ∧ b.state ≠ .startup ∧ stale = true ∧
        b.maybeProbeRtt stale now = { b with state := .probeRtt, enteredProbeRtt := some now }) ∨
      (b.state ≠ .probeRtt ∧ (b.state = .startup ∨ stale = false) ∧
        b.maybeProbeRtt stale now = b) := by
  rw [maybeProbeRtt]
  by_cases hprobe : b.state = .probeRtt
  · rw [if_pos hprobe]
    by_cases hheld : bbrProbeRttDuration ≤ b.held now
    · exact .inl ⟨hprobe, hheld, by rw [if_pos hheld]; rfl⟩
    · exact .inr (.inl ⟨hprobe, if_neg hheld⟩)
  · rw [if_neg hprobe]
    by_cases hstale : stale = true ∧ b.state ≠ .startup
    · exact .inr (.inr (.inl ⟨hprobe, hstale.2, hstale.1, if_pos hstale⟩))
    · refine .inr (.inr (.inr ⟨hprobe, ?_, if_neg hstale⟩))
      by_cases hstartup : b.state = .startup
      · exact .inl hstartup
      · exact .inr (Bool.eq_false_iff.mpr fun h => hstale ⟨h, hstartup⟩)

theorem onAck_cases {ackedBytes : UInt64} (h : ackedBytes ≠ 0) (b : Bbr K) (rtt now : ℕ) :
    (b.state = .probeRtt ∧ bbrProbeRttDuration ≤ b.held now ∧
        (b.onAck ackedBytes rtt now).machine = ⟨.probeBw, bbrProbeBwGains.getD 0 0, 0, none⟩) ∨
      (b.state = .probeRtt ∧ (b.onAck ackedBytes rtt now).state = .probeRtt ∧
        (b.onAck ackedBytes rtt now).enteredProbeRtt = b.enteredProbeRtt) ∨
      (b.state ≠ .probeRtt ∧ b.state ≠ .startup ∧ b.floorIsStale now = true ∧
        (b.onAck ackedBytes rtt now).state = .probeRtt ∧
        (b.onAck ackedBytes rtt now).enteredProbeRtt = some now) ∨
      (b.state ≠ .probeRtt ∧ (b.state = .startup ∨ b.floorIsStale now = false) ∧
        (b.onAck ackedBytes rtt now).machine = b.machine) := by
  have hmachine : ((b.observeRtt rtt now).observeBw ackedBytes rtt).machine = b.machine := by
    rw [machine_observeBw, machine_observeRtt]
  rw [onAck, if_neg h]
  dsimp only
  generalize (b.observeRtt rtt now).observeBw ackedBytes rtt = o at hmachine ⊢
  have hstate : o.holdGains.state = b.state := by
    rw [← show o.state = b.state from congrArg BbrMachine.state hmachine, holdGains]
    split <;> rfl
  have hentered : o.holdGains.enteredProbeRtt = b.enteredProbeRtt := by
    rw [← show o.enteredProbeRtt = b.enteredProbeRtt from
      congrArg BbrMachine.enteredProbeRtt hmachine, holdGains]
    split <;> rfl
  rcases o.holdGains.maybeProbeRtt_cases (b.floorIsStale now) now with
    ⟨hprobe, hheld, hleft⟩ | ⟨hprobe, hsame⟩ | ⟨hprobe, hstartup, hstale, hnext⟩ |
      ⟨hprobe, hfresh, hsame⟩
  · rw [held, hentered] at hheld
    exact .inl ⟨hstate ▸ hprobe, hheld, hleft⟩
  · rw [hsame]
    exact .inr (.inl ⟨hstate ▸ hprobe, hprobe, hentered⟩)
  · rw [hnext]
    exact .inr (.inr (.inl ⟨hstate ▸ hprobe, hstate ▸ hstartup, hstale, rfl, rfl⟩))
  · rw [hstate] at hprobe hfresh
    have hplain : o.holdGains = o := by
      rw [holdGains, if_neg]
      exact fun hbad => hprobe ((congrArg BbrMachine.state hmachine).symm.trans hbad)
    rw [hsame, hplain]
    exact .inr (.inr (.inr ⟨hprobe, hfresh, hmachine⟩))

theorem advanceRound_cases (b : Bbr K) (peakInFlight : ℕ) :
    (b.state = .probeRtt ∧ (b.advanceRound peakInFlight).machine = b.machine) ∨
      (b.state ≠ .probeRtt ∧ (b.advanceRound peakInFlight).state ≠ .probeRtt) := by
  cases hstate : b.state with
  | startup =>
      refine .inr ⟨by decide, ?_⟩
      simp only [advanceRound, hstate]
      split <;> rintro ⟨⟩
  | drain =>
      refine .inr ⟨by decide, ?_⟩
      simp only [advanceRound, hstate]
      split <;> rintro ⟨⟩
  | probeBw =>
      refine .inr ⟨by decide, ?_⟩
      simp only [advanceRound, hstate]
      split <;> rintro ⟨⟩
  | probeRtt =>
      refine .inl ⟨rfl, ?_⟩
      simp only [advanceRound, machine, hstate]

omit [Field K] [LinearOrder K] in
theorem bytes_or_none (c : BbrCall) :
    (∃ ackedBytes rtt now, c = .onAck ackedBytes rtt now ∧ ackedBytes ≠ 0) ∨
      ∀ ackedBytes rtt now, c = .onAck ackedBytes rtt now → ackedBytes = 0 := by
  cases c with
  | onLoss now => exact .inr nofun
  | setInFlight bytes => exact .inr nofun
  | onAck ackedBytes rtt now =>
      by_cases hbytes : ackedBytes = 0
      · exact .inr fun _ _ _ heq => by cases heq; exact hbytes
      · exact .inl ⟨ackedBytes, rtt, now, rfl, hbytes⟩

theorem step_cases_of_no_bytes (b : Bbr K) {c : BbrCall}
    (h : ∀ ackedBytes rtt now, c = .onAck ackedBytes rtt now → ackedBytes = 0) :
    (b.state = .probeRtt ∧ (b.step c).machine = b.machine) ∨
      (b.state ≠ .probeRtt ∧ (b.step c).state ≠ .probeRtt) := by
  have hsame : (b.state = .probeRtt ∧ b.machine = b.machine) ∨
      (b.state ≠ .probeRtt ∧ b.state ≠ .probeRtt) := by
    by_cases hprobe : b.state = .probeRtt
    · exact .inl ⟨hprobe, rfl⟩
    · exact .inr ⟨hprobe, hprobe⟩
  cases c with
  | onAck ackedBytes rtt now =>
      rw [step, onAck, if_pos (h ackedBytes rtt now rfl)]
      exact hsame
  | onLoss now => exact hsame
  | setInFlight bytes =>
      rw [step, setInFlight]
      split
      · exact advanceRound_cases { b with inFlight := bytes } b.inFlight
      · exact hsame

theorem advanceRound_of_probeBw {b : Bbr K} (h : b.state = .probeBw) (peakInFlight : ℕ) :
    (b.advanceRound peakInFlight).machine =
      if b.grew then
        { b.machine with
          probeBwCycle := (b.probeBwCycle + 1) % 8
          pacingGain := bbrProbeBwGains.getD ((b.probeBwCycle + 1) % 8) 0 }
      else b.machine := by
  have hgrew : ({ b with roundCount := (b.roundCount + 1) % 2 ^ 64 } : Bbr K).grew ↔ b.grew := Iff.rfl
  rw [advanceRound]
  split
  · rename_i hstate
    rw [h] at hstate
    cases hstate
  · rename_i hstate
    rw [h] at hstate
    cases hstate
  · by_cases hg : b.grew
    · rw [if_pos hg, if_pos (hgrew.mpr hg)]
      rfl
    · rw [if_neg hg, if_neg (hgrew.not.mpr hg)]
      rfl
  · rename_i hstate
    rw [h] at hstate
    cases hstate

def endsRound (b : Bbr K) : BbrCall → Bool
  | .setInFlight bytes => 0 < b.inFlight ∧ bytes = 0
  | _ => false

theorem step_of_probeBw {b : Bbr K} {c : BbrCall} (h : b.state = .probeBw)
    (h' : (b.step c).state = .probeBw) :
    (b.step c).machine =
      if b.endsRound c = true ∧ b.grew then
        { b.machine with
          probeBwCycle := (b.probeBwCycle + 1) % 8
          pacingGain := bbrProbeBwGains.getD ((b.probeBwCycle + 1) % 8) 0 }
      else b.machine := by
  cases c with
  | onLoss now => rfl
  | onAck ackedBytes rtt now =>
      have hnone : ¬ (b.endsRound (.onAck ackedBytes rtt now) = true ∧ b.grew) :=
        fun hends => Bool.false_ne_true hends.1
      rw [if_neg hnone]
      by_cases hbytes : ackedBytes = 0
      · rw [step, onAck, if_pos hbytes]
      · rcases onAck_cases hbytes b rtt now with
          ⟨hprobe, -⟩ | ⟨hprobe, -⟩ | ⟨-, -, -, hprobe, -⟩ | ⟨-, -, hsame⟩
        · rw [h] at hprobe
          cases hprobe
        · rw [h] at hprobe
          cases hprobe
        · rw [step, hprobe] at h'
          cases h'
        · exact hsame
  | setInFlight bytes =>
      rw [step, setInFlight]
      by_cases hends : 0 < b.inFlight ∧ bytes = 0
      · have hround : ({ b with inFlight := bytes } : Bbr K).state = .probeBw := h
        have hgrew : ({ b with inFlight := bytes } : Bbr K).grew ↔ b.grew := Iff.rfl
        rw [if_pos hends, advanceRound_of_probeBw hround]
        simp only [endsRound, decide_eq_true hends, true_and, hgrew]
        rfl
      · have hnone : b.endsRound (.setInFlight bytes) = false := decide_eq_false hends
        rw [if_neg hends, hnone, if_neg (fun hg => Bool.false_ne_true hg.1)]
        rfl

end Bbr

/-! ### The floor of the round trip time -/

/-- The acknowledgements that count. -/
def bytesAcked (calls : List BbrCall) : List BbrAck := (acksOf calls).filter (·.ackedBytes ≠ 0)

/-- An acknowledgement at `t` has a sample in its interval. -/
def Refreshes (acks : List BbrAck) (t : ℕ) : Prop :=
  ∃ earlier a later, acks = earlier ++ a :: later ∧ a.now = t ∧ measured (earlier ++ [a]) ≠ []

/-- There was such an acknowledgement, but not within the last interval. -/
def StaleAt (acks : List BbrAck) (now : ℕ) : Prop :=
  (∃ t, Refreshes acks t) ∧ ∀ t, Refreshes acks t → bbrProbeRttInterval ≤ now - t

theorem refreshes_concat {acks : List BbrAck} {a : BbrAck} {t : ℕ} :
    Refreshes (acks ++ [a]) t ↔
      Refreshes acks t ∨ (a.now = t ∧ measured (acks ++ [a]) ≠ []) := by
  constructor
  · rintro ⟨earlier, a', later, hsplit, hnow, hmeasured⟩
    rcases eq_nil_or_concat later with rfl | ⟨later, x, rfl⟩
    · obtain ⟨rfl, hlast⟩ := append_inj' hsplit rfl
      cases hlast
      exact .inr ⟨hnow, hmeasured⟩
    · rw [concat_eq_append, ← cons_append, ← append_assoc] at hsplit
      obtain ⟨rfl, -⟩ := append_inj' hsplit rfl
      exact .inl ⟨earlier, a', later, rfl, hnow, hmeasured⟩
  · rintro (⟨earlier, a', later, rfl, hnow, hmeasured⟩ | ⟨hnow, hmeasured⟩)
    · exact ⟨earlier, a', later ++ [a], by simp, hnow, hmeasured⟩
    · exact ⟨acks, a, [], rfl, hnow, hmeasured⟩

structure BbrModel.Floor (acks : List BbrAck) (m : BbrModel K) : Prop where
  rttSamples : m.rttSamples = (measured acks).map fun a => (a.now, a.rtt)
  none_yet : m.lastMinRttUpdate = none → ∀ t, ¬ Refreshes acks t
  latest : ∀ t, m.lastMinRttUpdate = some t →
    Refreshes acks t ∧ ∀ t', Refreshes acks t' → t' ≤ t

section Floor

variable {acks : List BbrAck} {a : BbrAck} {b : Bbr K}

theorem BbrModel.Floor.floorIsStale_iff (h : b.model.Floor acks) (now : ℕ) :
    b.floorIsStale now = true ↔ StaleAt acks now := by
  rw [Bbr.floorIsStale, StaleAt]
  cases hupdate : b.lastMinRttUpdate with
  | none =>
      refine iff_of_false Bool.false_ne_true ?_
      rintro ⟨⟨t, ht⟩, -⟩
      exact h.none_yet hupdate t ht
  | some t =>
      obtain ⟨hrefreshes, hlatest⟩ := h.latest t hupdate
      rw [Option.any_some, decide_eq_true_eq]
      constructor
      · intro hold
        refine ⟨⟨t, hrefreshes⟩, fun t' ht' => ?_⟩
        have hle := hlatest t' ht'
        omega
      · exact fun hstale => hstale.2 t hrefreshes

theorem BbrModel.Floor.concat {m : BbrModel K} (h : b.model.Floor acks)
    (htime : (acks ++ [a]).Pairwise fun x y => x.now ≤ y.now)
    (hsamples : m.rttSamples = (measured (acks ++ [a])).map fun x => (x.now, x.rtt))
    (hupdate : m.lastMinRttUpdate =
      if measured (acks ++ [a]) = [] then b.lastMinRttUpdate else some a.now) :
    m.Floor (acks ++ [a]) := by
  by_cases hnil : measured (acks ++ [a]) = []
  · have hsame : ∀ t, Refreshes (acks ++ [a]) t ↔ Refreshes acks t := by
      intro t
      rw [refreshes_concat]
      exact or_iff_left fun hnew => hnew.2 hnil
    rw [if_pos hnil] at hupdate
    refine ⟨hsamples, fun hnone t ht => ?_, fun t ht => ?_⟩
    · exact h.none_yet (hupdate.symm.trans hnone) t ((hsame t).mp ht)
    · obtain ⟨hrefreshes, hlatest⟩ := h.latest t (hupdate.symm.trans ht)
      exact ⟨(hsame t).mpr hrefreshes, fun t' ht' => hlatest t' ((hsame t').mp ht')⟩
  · rw [if_neg hnil] at hupdate
    refine ⟨hsamples, fun hnone => ?_, fun t ht => ?_⟩
    · rw [hupdate] at hnone
      cases hnone
    · rw [hupdate] at ht
      cases ht
      refine ⟨refreshes_concat.mpr (.inr ⟨rfl, hnil⟩), fun t' ht' => ?_⟩
      rcases refreshes_concat.mp ht' with ⟨earlier, x, later, rfl, rfl, -⟩ | ⟨rfl, -⟩
      · exact (pairwise_append.mp htime).2.2 x (by simp) a (mem_singleton_self a)
      · exact le_rfl

variable [Field K] [LinearOrder K]

theorem Bbr.observeBw_frame (b : Bbr K) (ackedBytes : UInt64) (rtt : ℕ) :
    (b.observeBw ackedBytes rtt).model.rttSamples = b.rttSamples ∧
      (b.observeBw ackedBytes rtt).model.lastMinRttUpdate = b.lastMinRttUpdate := by
  rw [observeBw]
  split <;> exact ⟨rfl, rfl⟩

theorem BbrModel.Floor.step (h : b.model.Floor acks) (c : BbrCall)
    (htime : (acks ++ bytesAcked [c]).Pairwise fun x y => x.now ≤ y.now) :
    (b.step c).model.Floor (acks ++ bytesAcked [c]) := by
  cases c with
  | onLoss now => exact (append_nil acks).symm ▸ h
  | setInFlight bytes =>
      rw [Bbr.step, Bbr.model_setInFlight]
      exact (append_nil acks).symm ▸ h
  | onAck ackedBytes rtt now =>
      by_cases hbytes : ackedBytes = 0
      · subst hbytes
        exact (append_nil acks).symm ▸ h
      · have hacked : bytesAcked [.onAck ackedBytes rtt now] = [⟨ackedBytes, rtt, now⟩] := by
          simp [bytesAcked, acksOf, BbrCall.ack?, hbytes]
        rw [hacked] at htime ⊢
        rw [Bbr.step, Bbr.model_onAck hbytes]
        obtain ⟨hsamples, hupdate⟩ := (b.observeRtt rtt now).observeBw_frame ackedBytes rtt
        have hrtt := observeRtt_eq h.rttSamples htime
        refine h.concat htime (hsamples.trans ?_) (hupdate.trans ?_)
        · exact congrArg Bbr.rttSamples hrtt
        · exact congrArg Bbr.lastMinRttUpdate hrtt

theorem bytesAcked_concat (calls : List BbrCall) (c : BbrCall) :
    bytesAcked (calls ++ [c]) = bytesAcked calls ++ bytesAcked [c] := by
  rw [bytesAcked, acksOf, filterMap_append, filter_append]
  rfl

theorem floor_run (mss : UInt64) {calls : List BbrCall}
    (htime : (bytesAcked calls).Pairwise fun x y => x.now ≤ y.now) :
    (calls.foldl Bbr.step (Bbr.new mss : Bbr K)).model.Floor (bytesAcked calls) := by
  induction calls using reverseRecOn with
  | nil =>
      refine ⟨rfl, ?_, nofun⟩
      rintro - t ⟨earlier, a, later, hsplit, -⟩
      simp [bytesAcked, acksOf] at hsplit
  | append_singleton calls c ih =>
      rw [bytesAcked_concat] at htime ⊢
      rw [foldl_append]
      exact (ih (pairwise_append.mp htime).1).step c htime

end Floor

/-! ### What is said of a run -/

/-- Acknowledgements over more than two intervals, with gaps of at most a second. -/
structure LongStretch (calls : List BbrCall) : Prop where
  long : ∃ first last, (acksOf calls).head? = some first ∧ (acksOf calls).getLast? = some last ∧
    2 * bbrProbeRttInterval < last.now - first.now
  gaps : (acksOf calls).IsChain fun x y => y.now - x.now ≤ 1000000000

namespace Bbr

variable [Field K] [LinearOrder K]

/-- No acknowledgement comes in `Startup`. -/
def OutsideStartup (b : Bbr K) (calls : List BbrCall) : Prop :=
  ∀ before c later, calls = before ++ c :: later → c.ack?.isSome →
    (before.foldl step b).state ≠ .startup

def Visits (b : Bbr K) (calls : List BbrCall) : Prop :=
  ∃ before later, calls = before ++ later ∧ (before.foldl step b).state = .probeRtt

def StaysIn (state : BbrState) (b : Bbr K) (calls : List BbrCall) : Prop :=
  ∀ before later, calls = before ++ later → (before.foldl step b).state = state

def roundEnds (b : Bbr K) : List BbrCall → List (Bbr K)
  | [] => []
  | c :: calls =>
      if b.endsRound c then b :: (b.step c).roundEnds calls else (b.step c).roundEnds calls

/-- The state of the round that starts when this one ends. -/
def nextRound (b : Bbr K) : Bbr K := b.setInFlight 0

/-- What BBR is to do in a run: the floor is measured again, each measurement takes its time, and in
`ProbeBw` eight rounds in a row take each gain once. -/
structure Phases (b : Bbr K) (calls : List BbrCall) : Prop where
  visits : ∀ before window later, calls = before ++ window ++ later → LongStretch window →
    (before.foldl step b).OutsideStartup window → (before.foldl step b).Visits window
  lasts : ∀ before c window c' later, calls = before ++ c :: window ++ c' :: later →
    (before.foldl step b).state ≠ .probeRtt →
    ((before ++ [c]).foldl step b).StaysIn .probeRtt window →
    ((before ++ c :: window ++ [c']).foldl step b).state ≠ .probeRtt →
    ∃ a a', c.ack? = some a ∧ c'.ack? = some a' ∧ bbrProbeRttDuration ≤ a'.now - a.now
  gains : ∀ before window later, calls = before ++ window ++ later →
    (before.foldl step b).StaysIn .probeBw window →
    let ends := (before.foldl step b).roundEnds window
    ends.length = 8 → (ends.map fun s => s.nextRound.probeBwCycle).Perm (range 8) ∧
      ∀ s ∈ ends, s.nextRound.pacingGain = bbrProbeBwGains.getD s.nextRound.probeBwCycle 0
  probeUp : ∀ before c later, calls = before ++ c :: later →
    (before.foldl step b).state = .probeBw → (before.foldl step b).endsRound c = true →
    ¬ ((before.foldl step b).pacingGain = 5 / 4 ∧
      ((before ++ [c]).foldl step b).pacingGain = 5 / 4)

/-- When it does: a long stretch starts while the floor is measured or has an acknowledgement that
finds the floor stale, and the bandwidth grows by a quarter in the rounds of `ProbeBw`. -/
structure Moving (b : Bbr K) (calls : List BbrCall) : Prop where
  stale : ∀ before window later, calls = before ++ window ++ later → LongStretch window →
    (before.foldl step b).OutsideStartup window →
    (before.foldl step b).state = .probeRtt ∨
      ∃ w c w' a, window = w ++ c :: w' ∧ c.ack? = some a ∧ a.ackedBytes ≠ 0 ∧
        StaleAt (bytesAcked (before ++ w)) a.now
  grows : ∀ before window later, calls = before ++ window ++ later →
    (before.foldl step b).StaysIn .probeBw window →
    ((before.foldl step b).roundEnds window).length = 8 →
    ∀ s ∈ ((before.foldl step b).roundEnds window).tail, s.grew
  probes : ∀ before c later, calls = before ++ c :: later →
    (before.foldl step b).state = .probeBw → (before.foldl step b).endsRound c = true →
    (before.foldl step b).probeBwCycle = 0 → (before.foldl step b).grew

/-! ### A visit and its length -/

variable {calls : List BbrCall}

theorem exists_stale_of_visits {b : Bbr K} (h : b.Visits calls) :
    b.state = .probeRtt ∨
      ∃ before c later a, calls = before ++ c :: later ∧ c.ack? = some a ∧ a.ackedBytes ≠ 0 ∧
        (before.foldl step b).floorIsStale a.now = true := by
  obtain ⟨before, later, rfl, hvisit⟩ := h
  induction before using reverseRecOn generalizing later with
  | nil => exact .inl hvisit
  | append_singleton before c ih =>
      rw [append_assoc]
      by_cases hprobe : (before.foldl step b).state = .probeRtt
      · exact ih (c :: later) hprobe
      · rw [foldl_append] at hvisit
        have hstep : ((before.foldl step b).step c).state = .probeRtt := hvisit
        rcases bytes_or_none c with ⟨ackedBytes, rtt, now, rfl, hbytes⟩ | hnone
        · rcases onAck_cases hbytes (before.foldl step b) rtt now with
            ⟨hprobe', -⟩ | ⟨hprobe', -⟩ | ⟨-, -, hstale, -⟩ | ⟨-, -, hsame⟩
          · exact absurd hprobe' hprobe
          · exact absurd hprobe' hprobe
          · exact .inr ⟨before, _, later, ⟨ackedBytes, rtt, now⟩, rfl, rfl, hbytes, hstale⟩
          · exact absurd ((congrArg BbrMachine.state hsame).symm.trans hstep) hprobe
        · rcases step_cases_of_no_bytes (before.foldl step b) hnone with ⟨hprobe', -⟩ | ⟨-, hnot⟩
          · exact absurd hprobe' hprobe
          · exact absurd hstep hnot

variable {before later : List BbrCall} {c : BbrCall}

theorem visits_of_stale {b : Bbr K} {a : BbrAck} (ha : c.ack? = some a) (hbytes : a.ackedBytes ≠ 0)
    (hstartup : (before.foldl step b).state ≠ .startup)
    (hstale : (before.foldl step b).floorIsStale a.now = true) :
    b.Visits (before ++ c :: later) := by
  by_cases hprobe : (before.foldl step b).state = .probeRtt
  · exact ⟨before, c :: later, rfl, hprobe⟩
  · refine ⟨before ++ [c], later, by simp, ?_⟩
    rw [foldl_append]
    cases c with
    | onLoss now => cases ha
    | setInFlight bytes => cases ha
    | onAck ackedBytes rtt now =>
        cases ha
        rcases onAck_cases hbytes (before.foldl step b) rtt now with
          ⟨hprobe', -⟩ | ⟨hprobe', -⟩ | ⟨-, -, -, hnext, -⟩ | ⟨-, hstays, -⟩
        · exact absurd hprobe' hprobe
        · exact absurd hprobe' hprobe
        · exact hnext
        · rcases hstays with hstays | hstays
          · exact absurd hstays hstartup
          · rw [hstale] at hstays
            cases hstays

theorem enteredProbeRtt_step {b : Bbr K} (h : b.state = .probeRtt)
    (h' : (b.step c).state = .probeRtt) : (b.step c).enteredProbeRtt = b.enteredProbeRtt := by
  rcases bytes_or_none c with ⟨ackedBytes, rtt, now, rfl, hbytes⟩ | hnone
  · rcases onAck_cases hbytes b rtt now with
      ⟨-, -, hleft⟩ | ⟨-, -, hsame⟩ | ⟨hnot, -⟩ | ⟨hnot, -⟩
    · have hnext : (b.step (.onAck ackedBytes rtt now)).state = .probeBw :=
        congrArg BbrMachine.state hleft
      rw [hnext] at h'
      cases h'
    · exact hsame
    · exact absurd h hnot
    · exact absurd h hnot
  · rcases step_cases_of_no_bytes b hnone with ⟨-, hsame⟩ | ⟨hnot, -⟩
    · exact congrArg BbrMachine.enteredProbeRtt hsame
    · exact absurd h hnot

theorem enteredProbeRtt_of_staysIn {b : Bbr K} (h : b.StaysIn .probeRtt calls) :
    (calls.foldl step b).enteredProbeRtt = b.enteredProbeRtt := by
  induction calls using reverseRecOn with
  | nil => rfl
  | append_singleton calls c ih =>
      have hbefore : b.StaysIn .probeRtt calls := by
        rintro before later rfl
        exact h before (later ++ [c]) (append_assoc _ _ _)
      have hstate := h calls [c] rfl
      have hnext := h (calls ++ [c]) [] (append_nil _).symm
      rw [foldl_append] at hnext ⊢
      exact (enteredProbeRtt_step hstate hnext).trans (ih hbefore)

theorem exists_ack_of_enters {b : Bbr K} (h : b.state ≠ .probeRtt)
    (h' : (b.step c).state = .probeRtt) :
    ∃ a, c.ack? = some a ∧ (b.step c).enteredProbeRtt = some a.now := by
  rcases bytes_or_none c with ⟨ackedBytes, rtt, now, rfl, hbytes⟩ | hnone
  · rcases onAck_cases hbytes b rtt now with
      ⟨hprobe, -⟩ | ⟨hprobe, -⟩ | ⟨-, -, -, -, hentered⟩ | ⟨-, -, hsame⟩
    · exact absurd hprobe h
    · exact absurd hprobe h
    · exact ⟨⟨ackedBytes, rtt, now⟩, rfl, hentered⟩
    · exact absurd ((congrArg BbrMachine.state hsame).symm.trans h') h
  · rcases step_cases_of_no_bytes b hnone with ⟨hprobe, -⟩ | ⟨-, hnot⟩
    · exact absurd hprobe h
    · exact absurd h' hnot

theorem exists_ack_of_leaves {b : Bbr K} (h : b.state = .probeRtt)
    (h' : (b.step c).state ≠ .probeRtt) :
    ∃ a, c.ack? = some a ∧ bbrProbeRttDuration ≤ b.held a.now := by
  rcases bytes_or_none c with ⟨ackedBytes, rtt, now, rfl, hbytes⟩ | hnone
  · rcases onAck_cases hbytes b rtt now with
      ⟨-, hheld, -⟩ | ⟨-, hprobe, -⟩ | ⟨hnot, -⟩ | ⟨hnot, -⟩
    · exact ⟨⟨ackedBytes, rtt, now⟩, rfl, hheld⟩
    · exact absurd hprobe h'
    · exact absurd h hnot
    · exact absurd h hnot
  · rcases step_cases_of_no_bytes b hnone with ⟨-, hsame⟩ | ⟨hnot, -⟩
    · exact absurd ((congrArg BbrMachine.state hsame).trans h) h'
    · exact absurd h hnot

theorem duration_of_visit {b : Bbr K} {c' : BbrCall} {window : List BbrCall}
    (hbefore : b.state ≠ .probeRtt) (hstays : (b.step c).StaysIn .probeRtt window)
    (hafter : ((window.foldl step (b.step c)).step c').state ≠ .probeRtt) :
    ∃ a a', c.ack? = some a ∧ c'.ack? = some a' ∧ bbrProbeRttDuration ≤ a'.now - a.now := by
  obtain ⟨a, ha, hentered⟩ := exists_ack_of_enters hbefore (hstays [] window rfl)
  obtain ⟨a', ha', hheld⟩ :=
    exists_ack_of_leaves (hstays window [] (append_nil _).symm) hafter
  rw [held, enteredProbeRtt_of_staysIn hstays, hentered] at hheld
  exact ⟨a, a', ha, ha', hheld⟩

/-! ### The gains -/

/-- In `ProbeBw` the gain is that of the cycle. -/
def GainOk (b : Bbr K) : Prop :=
  b.state = .probeBw → b.probeBwCycle < 8 ∧ b.pacingGain = bbrProbeBwGains.getD b.probeBwCycle 0

theorem advanceRound_enters {b : Bbr K} (h : b.state ≠ .probeBw) {peakInFlight : ℕ}
    (h' : (b.advanceRound peakInFlight).state = .probeBw) :
    (b.advanceRound peakInFlight).probeBwCycle = 0 ∧
      (b.advanceRound peakInFlight).pacingGain = bbrProbeBwGains.getD 0 0 := by
  cases hstate : b.state with
  | startup =>
      simp only [advanceRound, hstate] at h'
      split at h' <;> cases h'
  | drain =>
      simp only [advanceRound, hstate] at h' ⊢
      split at h'
      · rename_i hdrained
        rw [if_pos hdrained]
        exact ⟨rfl, rfl⟩
      · cases h'
  | probeBw => exact absurd hstate h
  | probeRtt =>
      simp only [advanceRound, hstate] at h'
      cases h'

theorem GainOk.step {b : Bbr K} (h : b.GainOk) (c : BbrCall) : (b.step c).GainOk := by
  intro h'
  by_cases hstate : b.state = .probeBw
  · obtain ⟨hcycle, hgain⟩ := h hstate
    have hmachine := step_of_probeBw hstate h'
    split at hmachine
    · have hnext : (b.step c).probeBwCycle = (b.probeBwCycle + 1) % 8 :=
        congrArg BbrMachine.probeBwCycle hmachine
      rw [hnext]
      exact ⟨Nat.mod_lt _ (by decide), congrArg BbrMachine.pacingGain hmachine⟩
    · have hnext : (b.step c).probeBwCycle = b.probeBwCycle :=
        congrArg BbrMachine.probeBwCycle hmachine
      rw [hnext]
      exact ⟨hcycle, (congrArg BbrMachine.pacingGain hmachine).trans hgain⟩
  · -- the first gain of the cycle, whether the phase is entered from `Drain` or from `ProbeRtt`
    have hfirst : (b.step c).probeBwCycle = 0 ∧
        (b.step c).pacingGain = bbrProbeBwGains.getD 0 0 := by
      cases c with
      | onLoss now => exact absurd h' hstate
      | setInFlight bytes =>
          rw [Bbr.step, setInFlight] at h' ⊢
          split at h'
          · rename_i hends
            rw [if_pos hends]
            have hbefore : ({ b with inFlight := bytes } : Bbr K).state ≠ .probeBw := hstate
            exact advanceRound_enters hbefore h'
          · exact absurd h' hstate
      | onAck ackedBytes rtt now =>
          by_cases hbytes : ackedBytes = 0
          · subst hbytes
            exact absurd h' hstate
          · rcases onAck_cases hbytes b rtt now with
              ⟨-, -, hentered⟩ | ⟨-, hprobe, -⟩ | ⟨-, -, -, hprobe, -⟩ | ⟨-, -, hsame⟩
            · exact ⟨congrArg BbrMachine.probeBwCycle hentered,
                congrArg BbrMachine.pacingGain hentered⟩
            · rw [Bbr.step, hprobe] at h'
              cases h'
            · rw [Bbr.step, hprobe] at h'
              cases h'
            · exact absurd ((congrArg BbrMachine.state hsame).symm.trans h') hstate
    rw [hfirst.1]
    exact ⟨by decide, hfirst.2⟩

theorem gainOk_run (mss : UInt64) (calls : List BbrCall) :
    (calls.foldl step (new mss : Bbr K)).GainOk :=
  foldl_invariant GainOk (fun _ c h => h.step c) (fun h => by cases h) calls

theorem step_of_endsRound {b : Bbr K} (h : b.endsRound c = true) : b.step c = b.nextRound := by
  cases c with
  | onAck ackedBytes rtt now => cases h
  | onLoss now => cases h
  | setInFlight bytes =>
      obtain ⟨-, rfl⟩ := of_decide_eq_true h
      rfl

theorem StaysIn.step {state : BbrState} {b : Bbr K} (h : b.StaysIn state (c :: calls)) :
    (b.step c).StaysIn state calls := by
  rintro before later rfl
  exact h (c :: before) later rfl

theorem exists_of_mem_roundEnds {b s : Bbr K} (h : s ∈ b.roundEnds calls) :
    ∃ before c later, calls = before ++ c :: later ∧ s = before.foldl Bbr.step b ∧
      s.endsRound c = true := by
  induction calls generalizing b with
  | nil => cases h
  | cons c calls ih =>
      have hlater : s ∈ (b.step c).roundEnds calls → ∃ before c' later,
          c :: calls = before ++ c' :: later ∧ s = before.foldl Bbr.step b ∧
            s.endsRound c' = true := by
        intro hs
        obtain ⟨before, c', later, rfl, hfold, hends⟩ := ih hs
        exact ⟨c :: before, c', later, rfl, hfold, hends⟩
      rw [roundEnds] at h
      split at h
      · rename_i hends
        rcases mem_cons.mp h with rfl | hs
        · exact ⟨[], c, calls, rfl, rfl, hends⟩
        · exact hlater hs
      · exact hlater h

/-- The places in the cycle, round by round. -/
def cyclesOf (ends : List (Bbr K)) : List ℕ := ends.map fun s => s.nextRound.probeBwCycle

theorem isChain_cyclesOf {b : Bbr K} (h : b.StaysIn .probeBw calls) :
    (b.probeBwCycle :: cyclesOf (b.roundEnds calls)).IsChain (fun x y => y = x ∨ y = (x + 1) % 8) ∧
      ((b.probeBwCycle :: cyclesOf (b.roundEnds calls)).IsChain (fun x y => y = (x + 1) % 8) ↔
        ∀ s ∈ b.roundEnds calls, s.grew) := by
  induction calls generalizing b with
  | nil => simp [roundEnds, cyclesOf]
  | cons c calls ih =>
      obtain ⟨hchain, hiff⟩ := ih h.step
      have hstate : b.state = .probeBw := h [] _ rfl
      have hmachine := step_of_probeBw hstate (h [c] calls rfl)
      rw [roundEnds]
      by_cases hends : b.endsRound c = true
      · have hcycle : b.nextRound.probeBwCycle =
            if b.grew then (b.probeBwCycle + 1) % 8 else b.probeBwCycle := by
          rw [← step_of_endsRound hends]
          rw [hends] at hmachine
          simp only [true_and] at hmachine
          have hmap := congrArg BbrMachine.probeBwCycle hmachine
          split at hmap
          · rename_i hgrew
            rw [if_pos hgrew]
            exact hmap
          · rename_i hgrew
            rw [if_neg hgrew]
            exact hmap
        rw [if_pos hends, cyclesOf, map_cons, isChain_cons_cons, isChain_cons_cons,
          forall_mem_cons]
        rw [step_of_endsRound hends] at hchain hiff ⊢
        refine ⟨⟨?_, hchain⟩, and_congr ?_ hiff⟩
        · rw [hcycle]
          split
          · exact .inr rfl
          · exact .inl rfl
        · rw [hcycle]
          split
          · rename_i hgrew
            exact iff_of_true rfl hgrew
          · rename_i hgrew
            exact iff_of_false (by omega) hgrew
      · have hcycle : (b.step c).probeBwCycle = b.probeBwCycle := by
          rw [if_neg fun hboth => hends hboth.1] at hmachine
          exact congrArg BbrMachine.probeBwCycle hmachine
        rw [if_neg hends, ← hcycle]
        exact ⟨hchain, hiff⟩

theorem isChain_cyclesOf_tail {b : Bbr K} (h : b.StaysIn .probeBw calls) :
    (cyclesOf (b.roundEnds calls)).IsChain (fun x y => y = (x + 1) % 8) ↔
      ∀ s ∈ (b.roundEnds calls).tail, s.grew := by
  induction calls generalizing b with
  | nil => simp [roundEnds, cyclesOf]
  | cons c calls ih =>
      rw [roundEnds]
      by_cases hends : b.endsRound c = true
      · rw [if_pos hends, tail_cons, cyclesOf, map_cons, ← step_of_endsRound hends]
        exact (isChain_cyclesOf h.step).2
      · rw [if_neg hends]
        exact ih h.step

theorem perm_cyclesOf_iff {b : Bbr K} (hb : b.GainOk) (h : b.StaysIn .probeBw calls)
    (hlength : (b.roundEnds calls).length = 8) :
    (cyclesOf (b.roundEnds calls)).Perm (range 8) ↔
      ∀ s ∈ (b.roundEnds calls).tail, s.grew := by
  have hlt : ∀ cycle ∈ cyclesOf (b.roundEnds calls), cycle < 8 := by
    intro cycle hcycle
    obtain ⟨s, hs, rfl⟩ := mem_map.mp hcycle
    obtain ⟨before, c, later, hsplit, rfl, hends⟩ := exists_of_mem_roundEnds hs
    have hgain : (before.foldl Bbr.step b).GainOk :=
      foldl_invariant GainOk (fun _ c h => h.step c) hb before
    have hstate := h (before ++ [c]) later (by rw [hsplit, append_assoc]; rfl)
    rw [foldl_append] at hstate
    rw [← step_of_endsRound hends]
    exact (hgain.step c hstate).1
  have hsize : (cyclesOf (b.roundEnds calls)).length = 8 := (length_map _).trans hlength
  rw [perm_range_iff_advancing hsize hlt (isChain_cyclesOf h).1.tail, isChain_cyclesOf_tail h]

theorem gainOk_nextRound {b s : Bbr K} (hb : b.GainOk) (h : b.StaysIn .probeBw calls)
    (hs : s ∈ b.roundEnds calls) :
    s.nextRound.pacingGain = bbrProbeBwGains.getD s.nextRound.probeBwCycle 0 := by
  obtain ⟨before, c, later, hsplit, rfl, hends⟩ := exists_of_mem_roundEnds hs
  have hgain : (before.foldl Bbr.step b).GainOk :=
    foldl_invariant GainOk (fun _ c h => h.step c) hb before
  have hstate := h (before ++ [c]) later (by rw [hsplit, append_assoc]; rfl)
  rw [foldl_append] at hstate
  rw [← step_of_endsRound hends]
  exact (hgain.step c hstate).2

variable [IsStrictOrderedRing K]

theorem gain_eq_probeUp_iff {cycle : ℕ} (h : cycle < 8) :
    (bbrProbeBwGains.getD cycle 0 : K) = 5 / 4 ↔ cycle = 0 := by
  interval_cases cycle <;> norm_num [bbrProbeBwGains]

theorem probeUp_iff {b : Bbr K} (hb : b.GainOk) (h : b.state = .probeBw)
    (hends : b.endsRound c = true) :
    ¬ (b.pacingGain = 5 / 4 ∧ (b.step c).pacingGain = 5 / 4) ↔ (b.probeBwCycle = 0 → b.grew) := by
  have hstate : (b.step c).state = .probeBw := by
    cases c with
    | onAck ackedBytes rtt now => cases hends
    | onLoss now => cases hends
    | setInFlight bytes =>
        have hround : ({ b with inFlight := bytes } : Bbr K).state = .probeBw := h
        rw [step, setInFlight, if_pos (of_decide_eq_true hends)]
        have hmachine := congrArg BbrMachine.state (advanceRound_of_probeBw hround b.inFlight)
        split at hmachine
        · exact hmachine.trans h
        · exact hmachine.trans h
  obtain ⟨hcycle, hgain⟩ := hb h
  obtain ⟨hcycle', hgain'⟩ := hb.step c hstate
  have hmachine := congrArg BbrMachine.probeBwCycle (step_of_probeBw h hstate)
  rw [hgain, hgain', gain_eq_probeUp_iff hcycle, gain_eq_probeUp_iff hcycle']
  by_cases hgrew : b.grew
  · rw [if_pos ⟨hends, hgrew⟩] at hmachine
    have hnext : (b.step c).probeBwCycle = (b.probeBwCycle + 1) % 8 := hmachine
    refine iff_of_true ?_ fun _ => hgrew
    omega
  · rw [if_neg fun hboth => hgrew hboth.2] at hmachine
    have hnext : (b.step c).probeBwCycle = b.probeBwCycle := hmachine
    rw [hnext, and_self]
    exact ⟨fun h h0 => absurd h0 h, fun h h0 => hgrew (h h0)⟩

/-! ### Runs -/

omit [IsStrictOrderedRing K] in
theorem floorIsStale_iff (mss : UInt64)
    (htime : (acksOf (before ++ later)).Pairwise fun x y => x.now ≤ y.now) (now : ℕ) :
    (before.foldl step (new mss : Bbr K)).floorIsStale now = true ↔
      StaleAt (bytesAcked before) now := by
  have hsub : (bytesAcked before).Sublist (acksOf (before ++ later)) := by
    rw [acksOf, filterMap_append]
    exact filter_sublist.trans (sublist_append_left _ _)
  exact (floor_run mss (htime.sublist hsub)).floorIsStale_iff now

omit [IsStrictOrderedRing K] in
theorem visits_iff (mss : UInt64) {window : List BbrCall}
    (htime : (acksOf (before ++ window ++ later)).Pairwise fun x y => x.now ≤ y.now)
    (hstartup : (before.foldl step (new mss : Bbr K)).OutsideStartup window) :
    (before.foldl step (new mss : Bbr K)).Visits window ↔
      (before.foldl step (new mss : Bbr K)).state = .probeRtt ∨
        ∃ w c w' a, window = w ++ c :: w' ∧ c.ack? = some a ∧ a.ackedBytes ≠ 0 ∧
          StaleAt (bytesAcked (before ++ w)) a.now := by
  have hstale : ∀ {w c w'} (now : ℕ), window = w ++ c :: w' →
      ((w.foldl step (before.foldl step (new mss : Bbr K))).floorIsStale now = true ↔
        StaleAt (bytesAcked (before ++ w)) now) := by
    rintro w c w' now rfl
    rw [← foldl_append]
    have hsplit : before ++ (w ++ c :: w') ++ later = before ++ w ++ (c :: w' ++ later) := by simp
    rw [hsplit] at htime
    exact floorIsStale_iff mss htime now
  constructor
  · intro hvisits
    refine (exists_stale_of_visits hvisits).imp_right ?_
    rintro ⟨w, c, w', a, hsplit, ha, hbytes, hfloor⟩
    exact ⟨w, c, w', a, hsplit, ha, hbytes, (hstale a.now hsplit).mp hfloor⟩
  · rintro (hprobe | ⟨w, c, w', a, hsplit, ha, hbytes, hfloor⟩)
    · exact ⟨[], window, rfl, hprobe⟩
    · have hout := hstartup w c w' hsplit (ha ▸ rfl)
      have hfloor' := (hstale a.now hsplit).mpr hfloor
      subst hsplit
      exact visits_of_stale ha hbytes hout hfloor'

/-- BBR goes through its phases along a run exactly if long stretches of acknowledgements find the
floor stale and the bandwidth grows in the rounds of `ProbeBw`. -/
theorem phases_iff_moving (mss : UInt64) {calls : List BbrCall}
    (htime : (acksOf calls).Pairwise fun x y => x.now ≤ y.now) :
    (new mss : Bbr K).Phases calls ↔ (new mss : Bbr K).Moving calls := by
  constructor
  · intro h
    refine ⟨?_, ?_, ?_⟩
    · rintro before window later rfl hlong hstartup
      exact (visits_iff mss htime hstartup).mp (h.visits before window later rfl hlong hstartup)
    · intro before window later hsplit hstays hlength
      exact (perm_cyclesOf_iff (gainOk_run mss before) hstays hlength).mp
        (h.gains before window later hsplit hstays hlength).1
    · intro before c later hsplit hstate hends
      have hprobe := h.probeUp before c later hsplit hstate hends
      rw [foldl_append] at hprobe
      exact (probeUp_iff (gainOk_run mss before) hstate hends).mp hprobe
  · intro h
    refine ⟨?_, ?_, ?_, ?_⟩
    · rintro before window later rfl hlong hstartup
      exact (visits_iff mss htime hstartup).mpr (h.stale before window later rfl hlong hstartup)
    · intro before c window c' later _ hbefore hstays hafter
      rw [foldl_append] at hstays
      rw [foldl_append, foldl_append] at hafter
      exact duration_of_visit hbefore hstays hafter
    · intro before window later hsplit hstays ends hlength
      have hok := gainOk_run (K := K) mss before
      exact ⟨(perm_cyclesOf_iff hok hstays hlength).mpr
          (h.grows before window later hsplit hstays hlength),
        fun s hs => gainOk_nextRound hok hstays hs⟩
    · intro before c later hsplit hstate hends
      rw [foldl_append]
      exact (probeUp_iff (gainOk_run mss before) hstate hends).mpr
        (h.probes before c later hsplit hstate hends)

omit [IsStrictOrderedRing K] in
theorem length_roundEnds_le (b : Bbr K) (calls : List BbrCall) :
    (b.roundEnds calls).length ≤ calls.length := by
  induction calls generalizing b with
  | nil => exact le_rfl
  | cons c calls ih =>
      have hrest := ih (b.step c)
      rw [roundEnds, length_cons]
      split
      · rw [length_cons]
        omega
      · omega

/-- A round of `bytes` that takes 50 milliseconds. -/
def round (bytes now : ℕ) : List BbrCall :=
  [.onAck (UInt64.ofNat bytes) 50000000 now, .setInFlight bytes, .setInFlight 0]

theorem phases_one_round : (new 1400 : Bbr ℚ).Phases (round 100000 0) := by
  refine (phases_iff_moving 1400 (by decide)).mpr ⟨?_, ?_, ?_⟩
  · intro before window later hsplit hlong _
    -- there is a single acknowledgement
    obtain ⟨first, last, hfirst, hlast, hlong⟩ := hlong.long
    have honly : ∀ a ∈ acksOf window, a.now = 0 := by
      intro a ha
      have hmem : a ∈ acksOf (round 100000 0) := by
        rw [hsplit, acksOf, filterMap_append, filterMap_append]
        exact mem_append_left _ (mem_append_right _ ha)
      rw [show acksOf (round 100000 0) = [⟨100000, 50000000, 0⟩] from rfl,
        mem_singleton] at hmem
      rw [hmem]
    rw [honly last (mem_of_getLast? hlast)] at hlong
    omega
  · intro before window later hsplit _ hlength
    have hle := length_roundEnds_le (before.foldl step (new 1400 : Bbr ℚ)) window
    have hcount := congrArg length hsplit
    rw [length_append, length_append] at hcount
    have hthree : (round 100000 0).length = 3 := rfl
    omega
  · intro before c later hsplit hstate
    have hmem : before ∈ (round 100000 0).inits :=
      (mem_inits _ _).mpr ⟨c :: later, hsplit.symm⟩
    have hnever : ∀ p ∈ (round 100000 0).inits,
        (p.foldl step (new 1400 : Bbr ℚ)).state ≠ .probeBw := by
      decide +kernel
    exact absurd hstate (hnever before hmem)

/-- Five rounds at one rate, which end in `ProbeBw`. -/
def warmUp : List BbrCall :=
  round 100000 0 ++ round 100000 50000000 ++ round 100000 100000000 ++ round 100000 150000000 ++
    round 100000 200000000

/-- An acknowledgement in every second from the first on. -/
def steadyAcks : List BbrCall :=
  (range 22).map fun i => .onAck 1400 50000000 ((i + 1) * 1000000000)

/-- On a steady path the floor is not measured again in 21 seconds, and a second round in `ProbeBw`
has the probe-up gain once more. -/
theorem not_phases_steady :
    ¬ (new 1400 : Bbr ℚ).Phases (warmUp ++ steadyAcks) ∧
      ¬ (new 1400 : Bbr ℚ).Phases (warmUp ++ round 100000 250000000) := by
  constructor
  · intro h
    have hstates : ∀ p ∈ steadyAcks.inits,
        (p.foldl step (warmUp.foldl step (new 1400 : Bbr ℚ))).state = .probeBw := by
      decide +kernel
    have hlong : LongStretch steadyAcks :=
      ⟨⟨_, ⟨1400, 50000000, 22000000000⟩, rfl, rfl, by decide⟩, by decide⟩
    have hvisits := h.visits warmUp steadyAcks [] (append_nil _).symm hlong (by
      intro before c later hsplit _
      rw [hstates before ((mem_inits _ _).mpr ⟨c :: later, hsplit.symm⟩)]
      exact nofun)
    obtain ⟨before, later, hsplit, hprobe⟩ := hvisits
    rw [hstates before ((mem_inits _ _).mpr ⟨later, hsplit.symm⟩)] at hprobe
    cases hprobe
  · intro h
    have hkept := h.probeUp (warmUp ++ (round 100000 250000000).take 2) (.setInFlight 0) [] rfl
      (by decide +kernel) (by decide +kernel)
    exact hkept (by decide +kernel)

end Bbr

end Vantablack.Cc
