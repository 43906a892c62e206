import Mathlib.Order.Filter.AtTopBot.Basic
import Mathlib.Order.Filter.Finite
import Vantablack.Ice.Agent
import Vantablack.Lib.Runs

/-!
Runs of `next_check` and `fail_pair` over a check list. A pair that is frozen stays frozen: the
siblings of a failed pair are freed only if all the pairs of its foundation have failed, the frozen
ones among them. So the list is worked off exactly if no foundation has two pairs.
-/

namespace Vantablack.Ice

open Lib Layers Receive Net Stun List

inductive IceState where
  | new
  | gathering
  | checking
  | connected
  | failed
  deriving DecidableEq

def CandidatePair.key (p : CandidatePair) : String × UInt16 :=
  (p.local_.foundation, p.local_.component)

def CandidatePair.Unfinished (p : CandidatePair) : Prop :=
  p.state = .waiting ∨ p.state = .inProgress

namespace IceAgent

def isExhausted (a : IceAgent) : Bool :=
  !a.pairs.isEmpty && a.pairs.all fun p => p.state = .failed

def state (a : IceAgent) : IceState :=
  if a.nominated.isSome then .connected
  else if a.localCandidates.isEmpty then .new
  else if a.pairs.isEmpty then .gathering
  else if a.isExhausted then .failed
  else .checking

/-! ### Runs -/

inductive CheckAct where
  | nextCheck
  | failPair (idx : ℕ)
  deriving DecidableEq

def checkStep (a : IceAgent) : CheckAct → IceAgent
  | .nextCheck => a.nextCheck.1
  | .failPair idx => a.failPair idx

/-- The index that a call returns. -/
def returned (a : IceAgent) : CheckAct → Option ℕ
  | .nextCheck => a.nextCheck.2
  | .failPair _ => none

def stateAt (a : IceAgent) (idx : ℕ) : Option PairState :=
  a.pairs[idx]?.map fun p => p.state

/-- No pair is given up before it is checked, the agent goes on asking for the next check, and every
pair in progress is given up in the end. -/
structure Fair (a : IceAgent) (acts : ℕ → CheckAct) : Prop where
  onlyChecked : ∀ n idx, acts n = .failPair idx →
    (trace checkStep a acts n).stateAt idx ≠ some .waiting ∧
      (trace checkStep a acts n).stateAt idx ≠ some .frozen
  goesOn : ∀ n, ∃ m, n ≤ m ∧ acts m = .nextCheck
  givesUp : ∀ n idx, (trace checkStep a acts n).stateAt idx = some .inProgress →
    ∃ m, n ≤ m ∧ acts m = .failPair idx

/-- Every pair is returned once, then none; none is returned only while every pair that is left
waits for one of its foundation; in the end the agent has failed. -/
structure ChecksAll (a : IceAgent) (acts : ℕ → CheckAct) : Prop where
  once : ∀ idx < a.pairs.length,
    ∃! n, (trace checkStep a acts n).returned (acts n) = some idx
  forGood : ∃ n, ∀ m, n ≤ m → (trace checkStep a acts m).returned (acts m) = none
  noneOnly : ∀ n, acts n = .nextCheck → (trace checkStep a acts n).nextCheck.2 = none →
    ∀ p ∈ (trace checkStep a acts n).pairs, p.state ≠ .waiting ∧
      (p.state = .frozen → ∃ q ∈ (trace checkStep a acts n).pairs, q.key = p.key ∧ q.Unfinished)
  exhausted : ∃ n, (trace checkStep a acts n).isExhausted = true ∧
    (trace checkStep a acts n).state = .failed

/-- The foundation and component of every pair that the candidates give. -/
def pairedKeys (a : IceAgent) : List (String × UInt16) :=
  a.localCandidates.flatMap fun l =>
    (a.remoteCandidates.filter fun r => l.component = r.component).map fun _ =>
      (l.foundation, l.component)

/-! ### One call -/

theorem unfreeze_eq (pairs : List CandidatePair) (key : String × UInt16) :
    unfreeze pairs key = pairs := by
  simp only [unfreeze]
  split
  · rename_i hall
    rw [all_eq_true] at hall
    calc pairs.map _ = pairs.map id := by
          apply map_congr_left
          intro p hp
          have hfailed := hall p hp
          rw [if_neg]
          · rfl
          · rintro ⟨hkey, hfrozen⟩
            simp [hkey, hfrozen] at hfailed
      _ = pairs := map_id pairs
  · rfl

theorem foldl_unfreeze (keys : List (String × UInt16)) (pairs : List CandidatePair) :
    keys.foldl unfreeze pairs = pairs := by
  induction keys generalizing pairs with
  | nil => rfl
  | cons key keys ih => rw [foldl_cons, unfreeze_eq, ih]

/-- The choice of `best_waiting`, from what is the best so far. -/
def betterWaiting (best : Option (ℕ × ℕ)) (x : CandidatePair × ℕ) : Option (ℕ × ℕ) :=
  if x.1.state = .waiting then
    match best with
    | some (priority, _) => if priority ≤ x.1.priority then some (x.1.priority, x.2) else best
    | none => some (x.1.priority, x.2)
  else best

theorem bestWaiting_eq (pairs : List CandidatePair) :
    bestWaiting pairs = (pairs.zipIdx.foldl betterWaiting none).map Prod.snd := rfl

theorem foldl_betterWaiting (l : List (CandidatePair × ℕ)) (best : Option (ℕ × ℕ)) :
    (l.foldl betterWaiting best = none → best = none ∧ ∀ x ∈ l, x.1.state ≠ .waiting) ∧
      ∀ y, l.foldl betterWaiting best = some y →
        best = some y ∨ ∃ x ∈ l, x.1.state = .waiting ∧ x.2 = y.2 := by
  induction l generalizing best with
  | nil => exact ⟨fun h => ⟨h, by simp⟩, fun y h => .inl h⟩
  | cons x l ih =>
      obtain ⟨hnone, hsome⟩ := ih (betterWaiting best x)
      rw [foldl_cons]
      have hnew : betterWaiting best x = best ∨
          (x.1.state = .waiting ∧ betterWaiting best x = some (x.1.priority, x.2)) := by
        unfold betterWaiting
        split
        · rename_i hwaiting
          split
          · split
            · exact .inr ⟨hwaiting, rfl⟩
            · exact .inl rfl
          · exact .inr ⟨hwaiting, rfl⟩
        · exact .inl rfl
      constructor
      · intro h
        obtain ⟨hbest, hrest⟩ := hnone h
        have hx : x.1.state ≠ .waiting := by
          intro hwaiting
          unfold betterWaiting at hbest
          rw [if_pos hwaiting] at hbest
          split at hbest
          · split at hbest <;> cases hbest
          · cases hbest
        unfold betterWaiting at hbest
        rw [if_neg hx] at hbest
        exact ⟨hbest, forall_mem_cons.mpr ⟨hx, hrest⟩⟩
      · intro y h
        rcases hsome y h with hy | ⟨z, hz, hwaiting, hidx⟩
        · rcases hnew with hsame | ⟨hwaiting, hbetter⟩
          · exact .inl (hsame.symm.trans hy)
          · refine .inr ⟨x, mem_cons_self, hwaiting, ?_⟩
            rw [hbetter] at hy
            rw [← Option.some.inj hy]
        · exact .inr ⟨z, mem_cons_of_mem x hz, hwaiting, hidx⟩

theorem nextCheck_cases (a : IceAgent) :
    (a.nextCheck = (a, none) ∧ ∀ p ∈ a.pairs, p.state ≠ .waiting) ∨
      ∃ idx, a.stateAt idx = some .waiting ∧
        a.nextCheck = ({ a with
          pairs := a.pairs.modify idx fun p =>
            { p with state := .inProgress, attempts := p.attempts + 1 } }, some idx) := by
  obtain ⟨hnone, hsome⟩ := foldl_betterWaiting a.pairs.zipIdx none
  rw [nextCheck]
  simp only [foldl_unfreeze, bestWaiting_eq]
  cases hbest : a.pairs.zipIdx.foldl betterWaiting none with
  | none =>
      refine .inl ⟨rfl, fun p hp => ?_⟩
      obtain ⟨i, hi⟩ := mem_iff_getElem?.mp hp
      exact (hnone hbest).2 (p, i) (mem_zipIdx_iff_getElem?.mpr hi)
  | some y =>
      obtain hnone | ⟨x, hx, hwaiting, hidx⟩ := hsome y hbest
      · cases hnone
      · refine .inr ⟨y.2, ?_, rfl⟩
        have hget := mem_zipIdx_iff_getElem?.mp hx
        rw [stateAt, ← hidx, hget, Option.map_some, hwaiting]

theorem stateAt_modify (a : IceAgent) (idx : ℕ) (f : CandidatePair → CandidatePair) (st : PairState)
    (hf : ∀ p, (f p).state = st) (i : ℕ) :
    ({ a with pairs := a.pairs.modify idx f } : IceAgent).stateAt i =
      if i = idx then (a.stateAt i).map fun _ => st else a.stateAt i := by
  simp only [stateAt, getElem?_modify]
  by_cases hi : i = idx
  · subst hi
    simp [hf, Function.comp_def]
  · have hne : ¬ idx = i := fun h => hi h.symm
    simp [hi, hne]

theorem stateAt_failPair (a : IceAgent) (i : ℕ) :
    (a.failPair i).stateAt i = (a.stateAt i).map fun _ => .failed := by
  rw [failPair, stateAt_modify _ _ _ .failed fun _ => rfl, if_pos rfl]

theorem stateAt_checkStep (a : IceAgent) (act : CheckAct) (i : ℕ) :
    ((a.checkStep act).stateAt i = a.stateAt i ∧ a.returned act ≠ some i) ∨
      (a.returned act = some i ∧ a.stateAt i = some .waiting ∧
        (a.checkStep act).stateAt i = some .inProgress) ∨
      (act = .failPair i ∧ (a.checkStep act).stateAt i = (a.stateAt i).map fun _ => .failed) := by
  cases act with
  | nextCheck =>
      simp only [checkStep, returned]
      rcases a.nextCheck_cases with ⟨hnone, -⟩ | ⟨idx, hwaiting, hnext⟩
      · rw [hnone]
        exact .inl ⟨rfl, by simp⟩
      · rw [hnext, stateAt_modify _ _ _ .inProgress fun _ => rfl]
        by_cases hi : i = idx
        · subst hi
          rw [if_pos rfl, hwaiting]
          exact .inr (.inl ⟨rfl, rfl, rfl⟩)
        · rw [if_neg hi]
          exact .inl ⟨rfl, by simpa using fun h => hi h.symm⟩
  | failPair idx =>
      simp only [checkStep, returned, failPair]
      rw [stateAt_modify _ _ _ .failed fun _ => rfl]
      by_cases hi : i = idx
      · subst hi
        rw [if_pos rfl]
        exact .inr (.inr ⟨rfl, rfl⟩)
      · rw [if_neg hi]
        exact .inl ⟨rfl, by simp⟩

theorem waiting_of_returned {a : IceAgent} {act : CheckAct} {i : ℕ}
    (hi : a.returned act = some i) : a.stateAt i = some .waiting := by
  rcases a.stateAt_checkStep act i with ⟨-, hother⟩ | ⟨-, hwaiting, -⟩ | ⟨hact, -⟩
  · exact absurd hi hother
  · exact hwaiting
  · rw [hact] at hi
    cases hi

theorem checkStep_keeps (a : IceAgent) (act : CheckAct) :
    (a.checkStep act).pairs.map CandidatePair.key = a.pairs.map CandidatePair.key ∧
      (a.checkStep act).nominated = a.nominated ∧
      (a.checkStep act).localCandidates = a.localCandidates := by
  have hmodify (idx : ℕ) (f : CandidatePair → CandidatePair) (hf : ∀ p, (f p).key = p.key) :
      (a.pairs.modify idx f).map CandidatePair.key = a.pairs.map CandidatePair.key := by
    apply ext_getElem?
    intro i
    simp only [getElem?_map, getElem?_modify]
    by_cases hi : idx = i
    · simp [hi, Function.comp_def, hf]
    · simp [hi]
  cases act with
  | nextCheck =>
      simp only [checkStep]
      rcases a.nextCheck_cases with ⟨hnone, -⟩ | ⟨idx, -, hnext⟩
      · rw [hnone]
        exact ⟨rfl, rfl, rfl⟩
      · rw [hnext]
        exact ⟨hmodify idx _ fun _ => rfl, rfl, rfl⟩
  | failPair idx => exact ⟨hmodify idx _ fun _ => rfl, rfl, rfl⟩

/-! ### A run -/

section

variable {a : IceAgent} {acts : ℕ → CheckAct}

theorem trace_keeps (n : ℕ) :
    (trace checkStep a acts n).pairs.map CandidatePair.key = a.pairs.map CandidatePair.key ∧
      (trace checkStep a acts n).nominated = a.nominated ∧
      (trace checkStep a acts n).localCandidates = a.localCandidates := by
  induction n with
  | zero => exact ⟨rfl, rfl, rfl⟩
  | succ n ih =>
      obtain ⟨hkeys, hnominated, hlocal⟩ := (trace checkStep a acts n).checkStep_keeps (acts n)
      exact ⟨hkeys.trans ih.1, hnominated.trans ih.2.1, hlocal.trans ih.2.2⟩

theorem length_trace (n : ℕ) : (trace checkStep a acts n).pairs.length = a.pairs.length := by
  have hkeys : (trace checkStep a acts n).pairs.map CandidatePair.key =
      a.pairs.map CandidatePair.key := (trace_keeps n).1
  simpa using congrArg length hkeys

variable {i : ℕ}

theorem Fair.frozen (h : Fair a acts) (hi : a.stateAt i = some .frozen) (n : ℕ) :
    (trace checkStep a acts n).stateAt i = some .frozen := by
  induction n with
  | zero => exact hi
  | succ n ih =>
      rcases (trace checkStep a acts n).stateAt_checkStep (acts n) i with
        ⟨hsame, -⟩ | ⟨-, hwaiting, -⟩ | ⟨hact, -⟩
      · exact hsame.trans ih
      · rw [ih] at hwaiting
        cases hwaiting
      · exact absurd ih (h.onlyChecked n i hact).2

variable {n : ℕ}

theorem failed_trace {m : ℕ} (hnm : n ≤ m)
    (hi : (trace checkStep a acts n).stateAt i = some .failed) :
    (trace checkStep a acts m).stateAt i = some .failed := by
  induction m, hnm using Nat.le_induction with
  | base => exact hi
  | succ m _ ih =>
      rcases (trace checkStep a acts m).stateAt_checkStep (acts m) i with
        ⟨hsame, -⟩ | ⟨-, hwaiting, -⟩ | ⟨-, hfailed⟩
      · exact hsame.trans ih
      · rw [ih] at hwaiting
        cases hwaiting
      · rw [ih] at hfailed
        exact hfailed

theorem not_waiting_of_returned {m : ℕ} (hnm : n < m)
    (hi : (trace checkStep a acts n).returned (acts n) = some i) :
    (trace checkStep a acts m).stateAt i = some .inProgress ∨
      (trace checkStep a acts m).stateAt i = some .failed := by
  induction m, hnm using Nat.le_induction with
  | base =>
      rcases (trace checkStep a acts n).stateAt_checkStep (acts n) i with
        ⟨-, hother⟩ | ⟨-, -, hprogress⟩ | ⟨hact, -⟩
      · exact absurd hi hother
      · exact .inl hprogress
      · rw [hact] at hi
        cases hi
  | succ m _ ih =>
      rcases (trace checkStep a acts m).stateAt_checkStep (acts m) i with
        ⟨hsame, -⟩ | ⟨-, hwaiting, -⟩ | ⟨-, hfailed⟩
      · rw [← hsame] at ih
        exact ih
      · rcases ih with ih | ih
        · rw [ih] at hwaiting
          cases hwaiting
        · rw [ih] at hwaiting
          cases hwaiting
      · right
        rcases ih with ih | ih
        · rw [ih] at hfailed
          exact hfailed
        · rw [ih] at hfailed
          exact hfailed

theorem returned_once {m : ℕ} (hn : (trace checkStep a acts n).returned (acts n) = some i)
    (hm : (trace checkStep a acts m).returned (acts m) = some i) : n = m := by
  rcases lt_trichotomy n m with hlt | heq | hlt
  · rcases not_waiting_of_returned hlt hn with h | h
    · rw [waiting_of_returned hm] at h
      cases h
    · rw [waiting_of_returned hm] at h
      cases h
  · exact heq
  · rcases not_waiting_of_returned hlt hm with h | h
    · rw [waiting_of_returned hn] at h
      cases h
    · rw [waiting_of_returned hn] at h
      cases h

theorem Fair.waiting_or_returned (h : Fair a acts) {m : ℕ} (hnm : n ≤ m)
    (hi : (trace checkStep a acts n).stateAt i = some .waiting) :
    (trace checkStep a acts m).stateAt i = some .waiting ∨
      ∃ k, n ≤ k ∧ k < m ∧ (trace checkStep a acts k).returned (acts k) = some i := by
  induction m, hnm using Nat.le_induction with
  | base => exact .inl hi
  | succ m hnm ih =>
      rcases ih with ih | hreturned
      · rcases (trace checkStep a acts m).stateAt_checkStep (acts m) i with
          ⟨hsame, -⟩ | ⟨hreturned, -⟩ | ⟨hact, -⟩
        · exact .inl (hsame.trans ih)
        · exact .inr ⟨m, hnm, Nat.lt_succ_self m, hreturned⟩
        · exact absurd ih (h.onlyChecked m i hact).1
      · obtain ⟨k, hnk, hkm, hreturned⟩ := hreturned
        exact .inr ⟨k, hnk, Nat.lt_succ_of_lt hkm, hreturned⟩

def waitingPairs (a : IceAgent) : Finset ℕ :=
  (Finset.range a.pairs.length).filter fun i => a.stateAt i = some .waiting

theorem mem_waitingPairs {b : IceAgent} : i ∈ b.waitingPairs ↔ b.stateAt i = some .waiting := by
  rw [waitingPairs, Finset.mem_filter, Finset.mem_range, and_iff_right_iff_imp]
  intro hi
  obtain ⟨p, hp, -⟩ := Option.map_eq_some_iff.mp hi
  exact (List.getElem?_eq_some_iff.mp hp).1

theorem waitingPairs_checkStep (b : IceAgent) (act : CheckAct) :
    (b.checkStep act).waitingPairs ⊆ b.waitingPairs := by
  intro i hi
  rw [mem_waitingPairs] at hi ⊢
  rcases b.stateAt_checkStep act i with ⟨hsame, -⟩ | ⟨-, hwaiting, -⟩ | ⟨-, hfailed⟩
  · rw [← hsame]
    exact hi
  · exact hwaiting
  · rw [hi] at hfailed
    cases hb : b.stateAt i with
    | none =>
        rw [hb] at hfailed
        cases hfailed
    | some st =>
        rw [hb] at hfailed
        cases hfailed

theorem waitingPairs_of_returned {b : IceAgent} {act : CheckAct} (hi : b.returned act = some i) :
    (b.checkStep act).waitingPairs.card < b.waitingPairs.card := by
  rcases b.stateAt_checkStep act i with ⟨-, hother⟩ | ⟨-, hwaiting, hprogress⟩ | ⟨hact, -⟩
  · exact absurd hi hother
  · apply Finset.card_lt_card
    refine (Finset.ssubset_iff_of_subset (waitingPairs_checkStep b act)).mpr
      ⟨i, mem_waitingPairs.mpr hwaiting, fun hmem => ?_⟩
    rw [mem_waitingPairs, hprogress] at hmem
    cases hmem
  · rw [hact] at hi
    cases hi

theorem Fair.exists_none_waiting (h : Fair a acts) (n : ℕ) :
    ∃ m, n ≤ m ∧ (trace checkStep a acts m).waitingPairs = ∅ := by
  have hprogress (k : ℕ) (hpos : 0 < (trace checkStep a acts k).waitingPairs.card) :
      ∃ m, k ≤ m ∧ (trace checkStep a acts (m + 1)).waitingPairs.card <
        (trace checkStep a acts m).waitingPairs.card := by
    obtain ⟨i, hi⟩ := Finset.card_pos.mp hpos
    rw [mem_waitingPairs] at hi
    obtain ⟨m, hkm, hact⟩ := h.goesOn k
    -- the next call returns this pair or another one, if this one was not returned before
    rcases h.waiting_or_returned hkm hi with hwaiting | ⟨m', hkm', -, hreturned⟩
    · rcases (trace checkStep a acts m).nextCheck_cases with ⟨-, hnone⟩ | ⟨j, -, hnext⟩
      · obtain ⟨p, hp, hstate⟩ := Option.map_eq_some_iff.mp hwaiting
        exact absurd hstate (hnone p (mem_of_getElem? hp))
      · refine ⟨m, hkm, waitingPairs_of_returned (i := j) ?_⟩
        rw [hact, returned, hnext]
    · exact ⟨m', hkm', waitingPairs_of_returned hreturned⟩
  obtain ⟨m, hnm, hzero⟩ := exists_eq_zero_of_progress
    (f := fun k => (trace checkStep a acts k).waitingPairs.card)
    (fun k => Finset.card_le_card (waitingPairs_checkStep _ _)) hprogress n
  exact ⟨m, hnm, Finset.card_eq_zero.mp hzero⟩

theorem Fair.exists_returned (h : Fair a acts) (hi : a.stateAt i = some .waiting) :
    ∃ n, (trace checkStep a acts n).returned (acts n) = some i := by
  obtain ⟨m, hm, hempty⟩ := h.exists_none_waiting 0
  rcases h.waiting_or_returned hm hi with hwaiting | ⟨n, -, -, hreturned⟩
  · rw [← mem_waitingPairs, hempty] at hwaiting
    cases hwaiting
  · exact ⟨n, hreturned⟩

theorem Fair.eventually_failed (h : Fair a acts) (hi : a.stateAt i = some .waiting) :
    ∀ᶠ n in Filter.atTop, (trace checkStep a acts n).stateAt i = some .failed := by
  obtain ⟨n, hn⟩ := h.exists_returned hi
  rw [Filter.eventually_atTop]
  rcases not_waiting_of_returned (Nat.lt_succ_self n) hn with hprogress | hfailed
  · obtain ⟨m, hnm, hact⟩ := h.givesUp _ i hprogress
    refine ⟨m + 1, fun k hk => failed_trace hk ?_⟩
    show ((trace checkStep a acts m).checkStep (acts m)).stateAt i = some .failed
    rw [hact, checkStep, stateAt_failPair]
    rcases not_waiting_of_returned (show n < m by omega) hn with hthere | hthere
    · rw [hthere]
      rfl
    · rw [hthere]
      rfl
  · exact ⟨n + 1, fun k hk => failed_trace hk hfailed⟩

/-! ### The check list at the start -/

theorem map_key_freeze (seen : List (String × UInt16)) (pairs : List CandidatePair) :
    (freeze seen pairs).map CandidatePair.key = pairs.map CandidatePair.key := by
  induction pairs generalizing seen with
  | nil => rfl
  | cons p pairs ih =>
      simp only [freeze]
      split
      · rw [map_cons, map_cons, ih]
        rfl
      · rw [map_cons, map_cons, ih]
        rfl

theorem freeze_spec (seen : List (String × UInt16)) (pairs : List CandidatePair) :
    (∀ p ∈ freeze seen pairs, p.state = .waiting ∨ p.state = .frozen) ∧
      ((∀ p ∈ freeze seen pairs, p.state = .waiting) ↔
        (pairs.map CandidatePair.key).Nodup ∧ ∀ key ∈ seen, key ∉ pairs.map CandidatePair.key) := by
  induction pairs generalizing seen with
  | nil => simp [freeze]
  | cons p pairs ih =>
      simp only [freeze]
      split
      · rename_i hseen
        refine ⟨forall_mem_cons.mpr ⟨.inr rfl, (ih seen).1⟩, ?_⟩
        constructor
        · intro h
          have := (forall_mem_cons.mp h).1
          cases this
        · rintro ⟨-, hnot⟩
          exact absurd mem_cons_self (hnot _ hseen)
      · rename_i hseen
        refine ⟨forall_mem_cons.mpr ⟨.inl rfl, (ih _).1⟩, ?_⟩
        rw [forall_mem_cons, (ih _).2, map_cons, nodup_cons]
        constructor
        · rintro ⟨-, hnodup, hnot⟩
          have hp : p.key ∉ pairs.map CandidatePair.key :=
            hnot _ (mem_append_right _ mem_cons_self)
          refine ⟨⟨hp, hnodup⟩, fun key hkey => ?_⟩
          rw [mem_cons, not_or]
          refine ⟨?_, hnot key (mem_append_left _ hkey)⟩
          rintro rfl
          exact hseen hkey
        · rintro ⟨⟨hp, hnodup⟩, hnot⟩
          refine ⟨rfl, hnodup, fun key hkey => ?_⟩
          rcases mem_append.mp hkey with hold | hnew
          · exact fun hmem => hnot key hold (mem_cons_of_mem _ hmem)
          · rw [mem_singleton.mp hnew]
            exact hp

theorem map_key_formPairs (a : IceAgent) :
    (a.formPairs.pairs.map CandidatePair.key).Perm a.pairedKeys := by
  rw [formPairs]
  simp only [map_key_freeze]
  refine ((perm_insertionSort _ _).map _).trans ?_
  rw [pairedKeys, map_flatMap]
  simp only [map_map, Function.comp_def, CandidatePair.key]
  exact Perm.refl _

theorem stateAt_formPairs (a : IceAgent) (hi : i < a.formPairs.pairs.length) :
    a.formPairs.stateAt i = some .waiting ∨ a.formPairs.stateAt i = some .frozen := by
  obtain ⟨p, hp⟩ : ∃ p, a.formPairs.pairs[i]? = some p := ⟨_, getElem?_eq_getElem hi⟩
  rw [stateAt, hp, Option.map_some]
  rcases (freeze_spec [] _).1 p (mem_of_getElem? hp) with h | h
  · exact .inl (congrArg some h)
  · exact .inr (congrArg some h)

theorem formPairs_waiting_iff (a : IceAgent) :
    (∀ p ∈ a.formPairs.pairs, p.state = .waiting) ↔ a.pairedKeys.Nodup := by
  rw [← a.map_key_formPairs.nodup_iff, formPairs]
  simp only [map_key_freeze]
  refine (freeze_spec [] _).2.trans ?_
  simp

theorem Fair.not_checksAll (h : Fair a acts) (hi : a.stateAt i = some .frozen) :
    ¬ ChecksAll a acts := by
  intro hall
  have hlt : i < a.pairs.length := by
    obtain ⟨p, hp, -⟩ := Option.map_eq_some_iff.mp hi
    exact (List.getElem?_eq_some_iff.mp hp).1
  obtain ⟨n, hn, -⟩ := hall.once i hlt
  have hwaiting := waiting_of_returned hn
  rw [h.frozen hi] at hwaiting
  cases hwaiting

theorem exists_stateAt_of_mem {p : CandidatePair} (hp : p ∈ (trace checkStep a acts n).pairs) :
    ∃ i < a.pairs.length, (trace checkStep a acts n).stateAt i = some p.state := by
  obtain ⟨i, hi⟩ := mem_iff_getElem?.mp hp
  have hlt := (List.getElem?_eq_some_iff.mp hi).1
  rw [length_trace] at hlt
  exact ⟨i, hlt, by rw [stateAt, hi, Option.map_some]⟩

theorem Fair.exists_all_failed (h : Fair a acts)
    (hstart : ∀ i < a.pairs.length, a.stateAt i = some .waiting) :
    ∃ n, ∀ m, n ≤ m → ∀ p ∈ (trace checkStep a acts m).pairs, p.state = .failed := by
  have hfailed : ∀ᶠ n in Filter.atTop, ∀ i ∈ Finset.range a.pairs.length,
      (trace checkStep a acts n).stateAt i = some .failed := by
    rw [Filter.eventually_all_finset]
    intro i hi
    exact h.eventually_failed (hstart i (Finset.mem_range.mp hi))
  obtain ⟨n, hn⟩ := Filter.eventually_atTop.mp hfailed
  refine ⟨n, fun m hm p hp => ?_⟩
  obtain ⟨i, hi, hstate⟩ := exists_stateAt_of_mem hp
  rw [hn m hm i (Finset.mem_range.mpr hi)] at hstate
  exact (Option.some.inj hstate).symm

theorem Fair.not_frozen (h : Fair a acts)
    (hstart : ∀ i < a.pairs.length, a.stateAt i = some .waiting) {p : CandidatePair}
    (hp : p ∈ (trace checkStep a acts n).pairs) : p.state ≠ .frozen := by
  intro hfrozen
  obtain ⟨i, hi, hstate⟩ := exists_stateAt_of_mem hp
  rw [hfrozen] at hstate
  rcases h.waiting_or_returned (Nat.zero_le n) (hstart i hi) with hthere | ⟨k, -, hkn, hreturned⟩
  · rw [hstate] at hthere
    cases hthere
  · rcases not_waiting_of_returned hkn hreturned with hthere | hthere
    · rw [hstate] at hthere
      cases hthere
    · rw [hstate] at hthere
      cases hthere

theorem failed_of_all_failed (hpairs : a.pairs ≠ []) (hnominated : a.nominated = none)
    (hlocal : a.localCandidates ≠ [])
    (hall : ∀ p ∈ (trace checkStep a acts n).pairs, p.state = .failed) :
    (trace checkStep a acts n).isExhausted = true ∧ (trace checkStep a acts n).state = .failed := by
  have hlen : (trace checkStep a acts n).pairs.length ≠ 0 := by
    rw [length_trace]
    exact fun hzero => hpairs (length_eq_zero_iff.mp hzero)
  have hnonempty : (trace checkStep a acts n).pairs.isEmpty = false := by
    rw [isEmpty_eq_false_iff]
    exact fun hnil => hlen (length_eq_zero_iff.mpr hnil)
  have hexhausted : (trace checkStep a acts n).isExhausted = true := by
    rw [isExhausted, hnonempty]
    simpa using hall
  have hlocal' : (trace checkStep a acts n).localCandidates.isEmpty = false := by
    rw [(trace_keeps n).2.2]
    exact isEmpty_eq_false_iff.mpr hlocal
  have hunnominated : (trace checkStep a acts n).nominated = a.nominated := (trace_keeps n).2.1
  refine ⟨hexhausted, ?_⟩
  simp [state, hunnominated, hnominated, hlocal', hnonempty, hexhausted]

theorem Fair.checksAll (h : Fair a acts) (hpairs : a.pairs ≠ [])
    (hwaiting : ∀ p ∈ a.pairs, p.state = .waiting) (hnominated : a.nominated = none)
    (hlocal : a.localCandidates ≠ []) : ChecksAll a acts := by
  have hstart (i : ℕ) (hi : i < a.pairs.length) : a.stateAt i = some .waiting := by
    rw [stateAt, getElem?_eq_getElem hi, Option.map_some, hwaiting _ (getElem_mem hi)]
  obtain ⟨n, hall⟩ := h.exists_all_failed hstart
  refine ⟨fun i hi => ?_, ⟨n, fun m hm => ?_⟩, fun m hact hnone p hp => ?_,
    ⟨n, failed_of_all_failed hpairs hnominated hlocal (hall n le_rfl)⟩⟩
  · obtain ⟨m, hm⟩ := h.exists_returned (hstart i hi)
    exact ⟨m, hm, fun k hk => returned_once hk hm⟩
  · cases hreturned : (trace checkStep a acts m).returned (acts m) with
    | none => rfl
    | some i =>
        obtain ⟨p, hp, hstate⟩ := Option.map_eq_some_iff.mp (waiting_of_returned hreturned)
        rw [hall m hm p (mem_of_getElem? hp)] at hstate
        cases hstate
  · have hnot : p.state ≠ .waiting := by
      rcases (trace checkStep a acts m).nextCheck_cases with ⟨-, hothers⟩ | ⟨j, -, hnext⟩
      · exact hothers p hp
      · rw [hnext] at hnone
        cases hnone
    exact ⟨hnot, fun hfrozen => absurd hfrozen (h.not_frozen hstart hp)⟩

end

/-- In a run in which no pair succeeds, the check list is worked off exactly if the candidates pair
up and no two pairs have a foundation in common. -/
theorem checksAll_iff (a : IceAgent) (acts : ℕ → CheckAct) (h : Fair a.formPairs acts) :
    ChecksAll a.formPairs acts ↔ a.pairedKeys ≠ [] ∧ a.pairedKeys.Nodup := by
  have hempty : a.pairedKeys = [] ↔ a.formPairs.pairs = [] := by
    rw [← length_eq_zero_iff, ← a.map_key_formPairs.length_eq, length_map,
      length_eq_zero_iff]
  constructor
  · intro hall
    constructor
    · intro hnil
      obtain ⟨n, hexhausted, -⟩ := hall.exhausted
      have hlen : (trace checkStep a.formPairs acts n).pairs.length = 0 := by
        rw [length_trace, hempty.mp hnil]
        rfl
      rw [isExhausted, length_eq_zero_iff.mp hlen] at hexhausted
      cases hexhausted
    · by_contra hdup
      rw [← formPairs_waiting_iff] at hdup
      apply hdup
      intro p hp
      obtain ⟨i, hi⟩ := mem_iff_getElem?.mp hp
      have hstate : a.formPairs.stateAt i = some p.state := by
        rw [stateAt, hi, Option.map_some]
      rcases a.stateAt_formPairs (List.getElem?_eq_some_iff.mp hi).1 with hwaiting | hfrozen
      · rw [hstate] at hwaiting
        exact Option.some.inj hwaiting
      · exact absurd hall (h.not_checksAll hfrozen)
  · rintro ⟨hpairs, hnodup⟩
    refine h.checksAll (fun hnil => hpairs (hempty.mpr hnil)) ((formPairs_waiting_iff a).mpr hnodup)
      rfl ?_
    intro hnil
    apply hpairs
    have hlocal : a.localCandidates = [] := hnil
    rw [pairedKeys, hlocal]
    rfl

/-! ### One pair at a time -/

def checkThenFail (n : ℕ) : CheckAct :=
  if n = 1 then .failPair 0 else .nextCheck

theorem trace_idle {a : IceAgent} {acts : ℕ → CheckAct} {n m : ℕ} (hnm : n ≤ m)
    (hidle : (trace checkStep a acts n).waitingPairs = ∅)
    (hacts : ∀ k, n ≤ k → acts k = .nextCheck) :
    trace checkStep a acts m = trace checkStep a acts n := by
  induction m, hnm using Nat.le_induction with
  | base => rfl
  | succ m hnm ih =>
      show (trace checkStep a acts m).checkStep (acts m) = _
      rw [hacts m hnm, checkStep, ih]
      rcases (trace checkStep a acts n).nextCheck_cases with ⟨hsame, -⟩ | ⟨i, hi, -⟩
      · rw [hsame]
      · rw [← mem_waitingPairs, hidle] at hi
        cases hi

section CheckThenFail

variable {a : IceAgent} (hfirst : a.stateAt 0 = some .waiting)
  (hrest : ∀ i, i ≠ 0 → a.stateAt i ≠ some .waiting ∧ a.stateAt i ≠ some .inProgress)

include hfirst hrest

theorem checkThenFail_one : (trace checkStep a checkThenFail 1).stateAt 0 = some .inProgress ∧
    ∀ i, i ≠ 0 → (trace checkStep a checkThenFail 1).stateAt i = a.stateAt i := by
  show (a.checkStep .nextCheck).stateAt 0 = _ ∧
    ∀ i, i ≠ 0 → (a.checkStep .nextCheck).stateAt i = _
  rw [checkStep]
  rcases a.nextCheck_cases with ⟨-, hnone⟩ | ⟨idx, hidx, hnext⟩
  · obtain ⟨p, hp, hstate⟩ := Option.map_eq_some_iff.mp hfirst
    exact absurd hstate (hnone p (mem_of_getElem? hp))
  · obtain rfl : idx = 0 := by
      by_contra hne
      exact (hrest idx hne).1 hidx
    rw [hnext]
    constructor
    · rw [stateAt_modify _ _ _ .inProgress fun _ => rfl, if_pos rfl, hfirst]
      rfl
    · intro i hi
      rw [stateAt_modify _ _ _ .inProgress fun _ => rfl, if_neg hi]

theorem checkThenFail_two : (trace checkStep a checkThenFail 2).stateAt 0 = some .failed ∧
    ∀ i, i ≠ 0 → (trace checkStep a checkThenFail 2).stateAt i = a.stateAt i := by
  obtain ⟨hzero, hothers⟩ := checkThenFail_one hfirst hrest
  show ((trace checkStep a checkThenFail 1).failPair 0).stateAt 0 = _ ∧
    ∀ i, i ≠ 0 → ((trace checkStep a checkThenFail 1).failPair 0).stateAt i = _
  constructor
  · rw [stateAt_failPair, hzero]
    rfl
  · intro i hi
    rw [failPair, stateAt_modify _ _ _ .failed fun _ => rfl, if_neg hi, hothers i hi]

theorem checkThenFail_later {n : ℕ} (hn : 2 ≤ n) :
    trace checkStep a checkThenFail n = trace checkStep a checkThenFail 2 := by
  obtain ⟨hzero, hothers⟩ := checkThenFail_two hfirst hrest
  have hidle : (trace checkStep a checkThenFail 2).waitingPairs = ∅ := by
    rw [Finset.eq_empty_iff_forall_notMem]
    intro i hi
    rw [mem_waitingPairs] at hi
    by_cases hi0 : i = 0
    · rw [hi0, hzero] at hi
      cases hi
    · rw [hothers i hi0] at hi
      exact (hrest i hi0).1 hi
  exact trace_idle hn hidle fun k hk => if_neg (by omega)

theorem fair_checkThenFail : Fair a checkThenFail := by
  obtain ⟨hone, hothers⟩ := checkThenFail_one hfirst hrest
  obtain ⟨htwo, hothers'⟩ := checkThenFail_two hfirst hrest
  constructor
  · intro n idx hact
    rw [checkThenFail] at hact
    split at hact
    · rename_i hn
      cases hact
      rw [hn, hone]
      decide
    · cases hact
  · intro n
    exact ⟨n + 2, by omega, if_neg (by omega)⟩
  · intro n i hi
    -- only the first pair is ever in progress, between the first step and the second
    by_cases hi0 : i = 0
    · subst hi0
      have hn : n < 2 := by
        by_contra hge
        rw [checkThenFail_later hfirst hrest (not_lt.mp hge), htwo] at hi
        cases hi
      exact ⟨1, by omega, rfl⟩
    · apply absurd _ (hrest i hi0).2
      match n with
      | 0 => exact hi
      | 1 => rwa [hothers i hi0] at hi
      | n + 2 =>
          rwa [checkThenFail_later hfirst hrest (show 2 ≤ n + 2 by omega), hothers' i hi0] at hi

end CheckThenFail

def hostOn (port : ℕ) : Candidate where
  foundation := "host"
  component := defaultComponent
  ctype := .host
  priority := 1
  base := { ip := .v4 (Block.zeroPadded 4 []), port := port }
  addr := { ip := .v4 (Block.zeroPadded 4 []), port := port }

/-- One host candidate, and the peer has one on each of the ports. -/
def hostWith (peerPorts : List ℕ) : IceAgent :=
  { IceAgent.new .controlling 0 { ufrag := "", password := "" } with
    localCandidates := [hostOn 1]
    remoteCandidates := peerPorts.map hostOn }

theorem hostWith_one_checksAll : ChecksAll (hostWith [2]).formPairs checkThenFail := by
  refine (checksAll_iff (hostWith [2]) checkThenFail (fair_checkThenFail rfl ?_)).mpr
    ⟨by decide, by decide⟩
  intro i hi
  have hlen : (hostWith [2]).formPairs.pairs.length = 1 := rfl
  rw [stateAt, getElem?_eq_none (by omega)]
  exact ⟨by simp, by simp⟩

/-- The peer has two candidates: the second pair is never checked. -/
theorem hostWith_two_not_checksAll :
    Fair (hostWith [2, 3]).formPairs checkThenFail ∧
      ¬ ChecksAll (hostWith [2, 3]).formPairs checkThenFail := by
  have hfrozen : (hostWith [2, 3]).formPairs.stateAt 1 = some .frozen := rfl
  have hfair : Fair (hostWith [2, 3]).formPairs checkThenFail := by
    refine fair_checkThenFail rfl fun i hi => ?_
    by_cases hone : i = 1
    · rw [hone, hfrozen]
      decide
    · have hlen : (hostWith [2, 3]).formPairs.pairs.length = 2 := rfl
      rw [stateAt, getElem?_eq_none (by omega)]
      exact ⟨by simp, by simp⟩
  exact ⟨hfair, hfair.not_checksAll hfrozen⟩

end IceAgent

end Vantablack.Ice
