import Vantablack.Session.Basic
import Vantablack.Symbolic

/-!
The transmit counter of a session, `tx_counter` of `session/mod.rs`, and the two that write it. The
loop of `try_next_tx_counter` adds one where its exchange succeeds, which is one step here.
`seal_material` takes its counter from the message chain under the lock of the ratchet and stores
the one after it when the lock is gone, which are two steps: other calls come between them.
-/

namespace Vantablack.Session

open Lib List

variable {C : Crypto} {ι : Type*}

/-! ### The two halves of `seal_material` -/

/-- The half under the lock: what is stored afterwards, the counter and whether a step is due. -/
def takeSeal (s : Session C) : (ℕ × Bool) × Session C :=
  let (counter, _, ratchet) := s.ratchet.advanceSeal s.sealDirection
  let (due, ratchet) := ratchet.countSeal
  ((counter + 1, due), { s with ratchet := ratchet })

def storeSeal (s : Session C) (stored : ℕ × Bool) : Session C :=
  { s with txCounter := stored.1, forcedRatchetDue := s.forcedRatchetDue || stored.2 }

@[simp] theorem txCounter_storeSeal (s : Session C) (stored : ℕ × Bool) :
    (s.storeSeal stored).txCounter = stored.1 := rfl

/-! ### Calls of several threads -/

/-- `storing` has what a thread between the two halves of `seal_material` will store, and `returned`
what `next_tx_counter` returned, from the beginning. -/
structure TxRun (ι : Type*) (C : Crypto) where
  session : Session C
  storing : ι → Option (ℕ × Bool)
  returned : List ℕ

inductive TxAct (ι : Type*)
  | nextTxCounter
  | tryNextTxCounter
  | sealTakes (t : ι)
  | sealStores (t : ι)

namespace TxRun

def start (s : Session C) : TxRun ι C where
  session := s
  storing _ := none
  returned := []

/-- A thread takes a counter only outside of the call, and stores only in it. -/
def step [DecidableEq ι] (w : TxRun ι C) : TxAct ι → TxRun ι C
  | .nextTxCounter =>
      let (value, session) := w.session.nextTxCounter
      { w with session := session, returned := w.returned ++ [value] }
  | .tryNextTxCounter => { w with session := w.session.tryNextTxCounter.2 }
  | .sealTakes t =>
      match w.storing t with
      | some _ => w
      | none =>
          let (stored, session) := w.session.takeSeal
          { w with session := session, storing := Function.update w.storing t (some stored) }
  | .sealStores t =>
      match w.storing t with
      | some stored =>
          { w with
            session := w.session.storeSeal stored
            storing := Function.update w.storing t none }
      | none => w

/-- The last value of the 64-bit space has been returned. -/
def Exhausted (returned : List ℕ) : Prop :=
  2 ^ 64 - 1 ∈ returned

/-- Until the space is exhausted, every value is larger than all before it. -/
def Increasing (returned : List ℕ) : Prop :=
  ∀ earlier value later, returned = earlier ++ value :: later → ¬ Exhausted earlier →
    ∀ v ∈ earlier, v < value

/-- What `seal_material` stores is not below a value that `next_tx_counter` has returned. -/
def StoresAhead (w : TxRun ι C) : TxAct ι → Prop
  | .sealStores t =>
      ¬ Exhausted w.returned → ∀ stored, w.storing t = some stored → ∀ v ∈ w.returned, v ≤ stored.1
  | _ => True

/-! ### The invariant -/

/-- No value that was returned is above the counter. -/
structure Inv (w : TxRun ι C) : Prop where
  returned_lt : ∀ v ∈ w.returned, v < 2 ^ 64
  returned_le : ¬ Exhausted w.returned → ∀ v ∈ w.returned, v ≤ w.session.txCounter
  increasing : Increasing w.returned

theorem inv_start (s : Session C) : (start s : TxRun ι C).Inv where
  returned_lt v hv := absurd hv not_mem_nil
  returned_le _ v hv := absurd hv not_mem_nil
  increasing earlier value later heq := absurd heq.symm (append_ne_nil_of_right_ne_nil _ (by simp))

theorem nextTxCounter_cases (s : Session C) :
    (s.txCounter + 1 < 2 ^ 64 ∧ s.nextTxCounter = (s.txCounter + 1,
        { s with txCounter := s.txCounter + 1 })) ∨
      (2 ^ 64 ≤ s.txCounter + 1 ∧ s.nextTxCounter = (2 ^ 64 - 1, s)) := by
  unfold nextTxCounter tryNextTxCounter
  by_cases hroom : s.txCounter + 1 < 2 ^ 64
  · left
    rw [if_pos hroom]
    exact ⟨hroom, rfl⟩
  · right
    rw [if_neg hroom]
    exact ⟨not_lt.mp hroom, rfl⟩

theorem txCounter_le_tryNextTxCounter (s : Session C) :
    s.txCounter ≤ s.tryNextTxCounter.2.txCounter := by
  unfold tryNextTxCounter
  split
  · exact Nat.le_succ _
  · exact le_rfl

theorem increasing_concat_iff {returned : List ℕ} {value : ℕ} :
    Increasing (returned ++ [value]) ↔
      Increasing returned ∧ (¬ Exhausted returned → ∀ v ∈ returned, v < value) := by
  constructor
  · intro h
    refine ⟨fun earlier v later heq => ?_, h returned value [] rfl⟩
    exact h earlier v (later ++ [value]) (by rw [heq, append_assoc, cons_append])
  · rintro ⟨hold, hnew⟩ earlier v later heq
    rcases eq_nil_or_concat later with rfl | ⟨init, last, rfl⟩
    · obtain ⟨rfl, hv⟩ := append_inj' heq rfl
      obtain ⟨rfl, -⟩ := cons.inj hv
      exact hnew
    · rw [concat_eq_append, ← cons_append, ← append_assoc] at heq
      obtain ⟨hinit, -⟩ := append_inj' heq rfl
      exact hold earlier v init hinit

variable {w : TxRun ι C}

theorem Inv.of_session (h : w.Inv) {w' : TxRun ι C} (hreturned : w'.returned = w.returned)
    (hcounter : ¬ Exhausted w.returned → ∀ v ∈ w.returned, v ≤ w'.session.txCounter) : w'.Inv where
  returned_lt := hreturned ▸ h.returned_lt
  returned_le := hreturned ▸ hcounter
  increasing := hreturned ▸ h.increasing

variable [DecidableEq ι]

theorem Inv.nextTxCounter (h : w.Inv) : (w.step .nextTxCounter).Inv := by
  have hcases := nextTxCounter_cases w.session
  simp only [step]
  rcases hcases with ⟨hroom, hnext⟩ | ⟨hfull, hnext⟩
  · rw [hnext]
    refine ⟨?_, ?_, increasing_concat_iff.mpr ⟨h.increasing, ?_⟩⟩
    · intro v hv
      rcases mem_append.mp hv with hv | hv
      · exact h.returned_lt v hv
      · rw [mem_singleton.mp hv]
        exact hroom
    · intro hmore v hv
      have hbefore : ¬ Exhausted w.returned := fun hlast => hmore (mem_append_left _ hlast)
      rcases mem_append.mp hv with hv | hv
      · exact (h.returned_le hbefore v hv).trans (Nat.le_succ _)
      · exact (mem_singleton.mp hv).le
    · intro hbefore v hv
      exact Nat.lt_succ_of_le (h.returned_le hbefore v hv)
  · rw [hnext]
    refine ⟨?_, ?_, increasing_concat_iff.mpr ⟨h.increasing, ?_⟩⟩
    · intro v hv
      rcases mem_append.mp hv with hv | hv
      · exact h.returned_lt v hv
      · rw [mem_singleton.mp hv]
        norm_num
    · intro hmore
      exact absurd (mem_append_right _ (mem_singleton_self _)) hmore
    · intro hbefore v hv
      have hlt := h.returned_lt v hv
      have hne : v ≠ 2 ^ 64 - 1 := by
        rintro rfl
        exact hbefore hv
      show v < 2 ^ 64 - 1
      omega

theorem Inv.step (h : w.Inv) {act : TxAct ι} (hahead : w.StoresAhead act) : (w.step act).Inv := by
  cases act with
  | nextTxCounter => exact h.nextTxCounter
  | tryNextTxCounter =>
      refine h.of_session rfl fun hmore v hv => ?_
      exact (h.returned_le hmore v hv).trans (txCounter_le_tryNextTxCounter w.session)
  | sealTakes t =>
      simp only [TxRun.step]
      split
      · exact h
      · exact h.of_session rfl h.returned_le
  | sealStores t =>
      simp only [TxRun.step]
      split
      · rename_i stored hstoring
        exact h.of_session rfl fun hmore => hahead hmore stored hstoring
      · exact h

theorem not_increasing_of_store {t : ι} (hbehind : ¬ w.StoresAhead (.sealStores t)) :
    ¬ Increasing ((w.step (.sealStores t)).step .nextTxCounter).returned := by
  simp only [StoresAhead, not_forall] at hbehind
  obtain ⟨hmore, stored, hstoring, v, hv, hlt⟩ := hbehind
  simp only [step, hstoring]
  intro hincreasing
  have hsmaller := (increasing_concat_iff.mp hincreasing).2 hmore v hv
  rcases nextTxCounter_cases (w.session.storeSeal stored) with ⟨-, hnext⟩ | ⟨hfull, hnext⟩
  · rw [hnext, txCounter_storeSeal] at hsmaller
    omega
  · rw [hnext] at hsmaller
    rw [txCounter_storeSeal] at hfull
    simp only at hsmaller
    omega

/-- Over any calls of any threads: what `next_tx_counter` returns is increasing, also if it is called
once more at any time, exactly as long as `seal_material` never stores a counter below a value that
was returned. -/
theorem increasing_iff (s : Session C) (acts : List (TxAct ι)) :
    (∀ before later, acts = before ++ later →
        Increasing ((before ++ [TxAct.nextTxCounter]).foldl step (start s)).returned) ↔
      Always step StoresAhead (start s) acts := by
  constructor
  · intro h
    rw [always_iff_forall_split]
    intro before act later heq
    cases act with
    | sealStores t =>
        by_contra hbehind
        have hafter := h (before ++ [.sealStores t]) later (by rw [heq, append_assoc]; rfl)
        simp only [foldl_append, foldl_cons, foldl_nil] at hafter
        exact not_increasing_of_store hbehind hafter
    | nextTxCounter => trivial
    | tryNextTxCounter => trivial
    | sealTakes t => trivial
  · rintro h before later rfl
    have hbefore := ((always_append _ _ _ _ _).mp h).1
    have hinv := hbefore.invariant Inv (fun _ _ hw hahead => hw.step hahead) (inv_start s)
    rw [foldl_append]
    exact hinv.nextTxCounter.increasing

/-- Two sequence numbers are drawn, and a message is sealed before the third. -/
def sealedBetween : List (TxAct Unit) :=
  [.nextTxCounter, .nextTxCounter, .sealTakes (), .sealStores (), .nextTxCounter]

/-- The third is the first of the message chain's, and smaller than both. -/
theorem sealedBetween_not_increasing :
    (sealedBetween.foldl step
        (start (newWithRole (C := .symbolic) (Term.master 7) "peer" .initiator 0))).returned =
        [3, 4, 2] ∧ ¬ Increasing [3, 4, 2] := by
  refine ⟨rfl, fun h => ?_⟩
  have hsmaller := h [3, 4] 2 [] rfl (by unfold Exhausted; decide) 3 (by decide)
  exact absurd hsmaller (by decide)

end TxRun

end Vantablack.Session
