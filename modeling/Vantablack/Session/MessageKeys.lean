import Vantablack.Session.MsgChain

/-!
The two ends of a message chain. The sender steps its chain once for a message. The receiver plans,
and commits what it planned later, in another order or not at all. A key of the receiver comes from
a walk forward, from a key that a walk passed over, or from a plan that was overtaken by others
before it was committed; it is the key of the sender in all of these cases.
-/

namespace Vantablack.Session

open Lib

namespace MsgChain

variable {Key : Type} (kdfCk : Key → Key × Key)

/-- The chain after so many calls of `advance`. -/
def afterAdvances (seed : Key) (n : ℕ) : MsgChain Key :=
  (fun m => (m.advance kdfCk).2)^[n] (MsgChain.seed seed)

/-- What the next call of `advance` returns. -/
def messageKey (seed : Key) (n : ℕ) : Key :=
  ((afterAdvances kdfCk seed n).advance kdfCk).1

theorem afterAdvances_succ (seed : Key) (n : ℕ) :
    afterAdvances kdfCk seed (n + 1) = ((afterAdvances kdfCk seed n).advance kdfCk).2 := by
  rw [afterAdvances, Function.iterate_succ_apply']
  rfl

theorem walk_afterAdvances (seed : Key) (gap pos : ℕ) :
    walk kdfCk gap pos (afterAdvances kdfCk seed pos).chain =
      (messageKey kdfCk seed (pos + gap), (afterAdvances kdfCk seed (pos + gap + 1)).chain,
        (List.range' pos gap).map fun c => (c, messageKey kdfCk seed c)) := by
  induction gap generalizing pos with
  | zero =>
      rw [Nat.add_zero, afterAdvances_succ]
      rfl
  | succ gap ih =>
      have hnext : (kdfCk (afterAdvances kdfCk seed pos).chain).1 =
          (afterAdvances kdfCk seed (pos + 1)).chain := by
        rw [afterAdvances_succ]
        rfl
      rw [walk, hnext, ih, List.range'_succ, List.map_cons,
        show pos + 1 + gap = pos + (gap + 1) by omega]
      rfl

/-! ### The cache of keys -/

/-- Every key in the cache is that of its counter. -/
def Keyed (seed : Key) (skipped : Std.ExtTreeMap ℕ Key) : Prop :=
  ∀ (c : ℕ) (key : Key), skipped[c]? = some key → key = messageKey kdfCk seed c

namespace Keyed

variable {kdfCk} {seed : Key} {skipped : Std.ExtTreeMap ℕ Key}

theorem erase (h : Keyed kdfCk seed skipped) (counter : ℕ) :
    Keyed kdfCk seed (skipped.erase counter) := by
  intro c key hc
  rw [Std.ExtTreeMap.getElem?_erase] at hc
  split at hc
  · cases hc
  · exact h c key hc

theorem evictOldest (h : Keyed kdfCk seed skipped) (n : ℕ) :
    Keyed kdfCk seed (evictOldest n skipped) := by
  induction n generalizing skipped with
  | zero => exact h
  | succ n ih =>
      rw [MsgChain.evictOldest]
      split
      · exact ih (h.erase _)
      · exact h

theorem insertAll (h : Keyed kdfCk seed skipped) {cache : List (ℕ × Key)}
    (hcache : ∀ e ∈ cache, e.2 = messageKey kdfCk seed e.1) :
    Keyed kdfCk seed (insertAll skipped cache) := by
  induction cache generalizing skipped with
  | nil => exact h
  | cons e cache ih =>
      apply ih _ fun e' he' => hcache e' (List.mem_cons_of_mem e he')
      intro c key hc
      rw [Std.ExtTreeMap.getElem?_insertIfNew] at hc
      split at hc
      · rename_i hnew
        have hcounter : e.1 = c := by simpa using hnew.1
        cases hc
        rw [← hcounter]
        exact hcache e List.mem_cons_self
      · exact h c key hc

end Keyed

/-! ### Plans -/

/-- A plan that leads to the sender's chain, by the sender's keys. -/
def OnChain (seed : Key) : OpenPlan Key → Prop
  | .forward _ newChain newPos cache =>
      newChain = (afterAdvances kdfCk seed newPos).chain ∧
        ∀ e ∈ cache, e.2 = messageKey kdfCk seed e.1
  | .cached _ _ => True
  | .refused => True

/-- A receiver that is where the sender was. -/
structure Follows (seed : Key) (m : MsgChain Key) : Prop where
  chain : m.chain = (afterAdvances kdfCk seed m.pos).chain
  skipped : Keyed kdfCk seed m.skipped

variable {kdfCk} {seed : Key} {m : MsgChain Key}

theorem follows_seed (seed : Key) : Follows kdfCk seed (MsgChain.seed seed) where
  chain := rfl
  skipped := by
    intro c key hc
    have hempty : (∅ : Std.ExtTreeMap ℕ Key)[c]? = none := Std.ExtTreeMap.getElem?_empty
    rw [MsgChain.seed, hempty] at hc
    cases hc

theorem Follows.plan_eq_forward (h : Follows kdfCk seed m) {counter : ℕ} (hge : m.pos ≤ counter)
    (hgap : counter - m.pos ≤ maxSkip) :
    m.plan kdfCk counter =
      .forward (messageKey kdfCk seed counter) (afterAdvances kdfCk seed (counter + 1)).chain
        (min (counter + 1) u64Max)
        ((List.range' m.pos (counter - m.pos)).map fun c => (c, messageKey kdfCk seed c)) := by
  have hcounter : m.pos + (counter - m.pos) = counter := by omega
  rw [plan, if_neg (by omega), if_neg (by omega), h.chain, walk_afterAdvances, hcounter]

theorem Follows.key_plan (h : Follows kdfCk seed m) {counter : ℕ} {key : Key}
    (hkey : (m.plan kdfCk counter).key? = some key) : key = messageKey kdfCk seed counter := by
  by_cases hge : m.pos ≤ counter
  · by_cases hgap : counter - m.pos ≤ maxSkip
    · rw [h.plan_eq_forward hge hgap] at hkey
      exact (Option.some.inj hkey).symm
    · rw [plan, if_neg (by omega), if_pos (by omega)] at hkey
      cases hkey
  · rw [plan, if_pos (by omega)] at hkey
    cases hheld : m.skipped[counter]? with
    | none =>
        rw [hheld] at hkey
        cases hkey
    | some k =>
        rw [hheld] at hkey
        cases hkey
        exact h.skipped counter key hheld

theorem Follows.onChain_plan (h : Follows kdfCk seed m) {counter : ℕ} (hlt : counter < u64Max) :
    OnChain kdfCk seed (m.plan kdfCk counter) := by
  by_cases hge : m.pos ≤ counter
  · by_cases hgap : counter - m.pos ≤ maxSkip
    · rw [h.plan_eq_forward hge hgap, min_eq_left (Nat.succ_le_of_lt hlt)]
      refine ⟨rfl, ?_⟩
      intro e he
      obtain ⟨c, -, rfl⟩ := List.mem_map.mp he
      rfl
    · rw [plan, if_neg (by omega), if_pos (by omega)]
      trivial
  · rw [plan, if_pos (by omega)]
    split <;> trivial

theorem Follows.commit (h : Follows kdfCk seed m) {p : OpenPlan Key} (hp : OnChain kdfCk seed p) :
    Follows kdfCk seed (m.commit p) := by
  cases p with
  | forward key newChain newPos cache =>
      obtain ⟨hchain, hcache⟩ := hp
      rw [MsgChain.commit]
      split
      · exact ⟨hchain, (h.skipped.insertAll hcache).evictOldest _⟩
      · exact ⟨h.chain, h.skipped.evictOldest _⟩
  | cached counter key => exact ⟨h.chain, h.skipped.erase counter⟩
  | refused => exact h

end MsgChain

/-! ### Runs of the two ends -/

/-- The sender with the keys it has returned so far, and the receiver with the plans it has made. -/
structure ChainEnds (Key : Type) where
  sender : MsgChain Key
  sent : List Key
  receiver : MsgChain Key
  plans : List (OpenPlan Key)

inductive ChainCall where
  | advance
  | plan (counter : ℕ)
  /-- Commit one of the plans made so far. -/
  | commit (i : ℕ)
  deriving DecidableEq

namespace ChainEnds

open MsgChain

variable {Key : Type} (kdfCk : Key → Key × Key)

def start (seed : Key) : ChainEnds Key where
  sender := MsgChain.seed seed
  sent := []
  receiver := MsgChain.seed seed
  plans := []

def step (s : ChainEnds Key) : ChainCall → ChainEnds Key
  | .advance =>
      { s with sender := (s.sender.advance kdfCk).2
               sent := s.sent ++ [(s.sender.advance kdfCk).1] }
  | .plan counter => { s with plans := s.plans ++ [s.receiver.plan kdfCk counter] }
  | .commit i =>
      match s.plans[i]? with
      -- a plan may even be committed again, which the move in the source rules out
      | some plan => { s with receiver := s.receiver.commit plan }
      | none => s

/-- The counters that are planned for are below `u64::MAX`. -/
def InRange (_ : ChainEnds Key) : ChainCall → Prop
  | .plan counter => counter < u64Max
  | .advance => True
  | .commit _ => True

/-- Both ends are on the chain of the seed, and so is every plan. -/
structure Inv (seed : Key) (s : ChainEnds Key) : Prop where
  sender : s.sender = afterAdvances kdfCk seed s.sent.length
  sent : s.sent = (List.range s.sent.length).map (messageKey kdfCk seed)
  receiver : Follows kdfCk seed s.receiver
  plans : ∀ p ∈ s.plans, OnChain kdfCk seed p

variable {kdfCk} {seed : Key} {s : ChainEnds Key}

theorem inv_start (seed : Key) : Inv kdfCk seed (start seed) where
  sender := rfl
  sent := rfl
  receiver := follows_seed seed
  plans := fun _ hp => nomatch hp

theorem Inv.step (h : Inv kdfCk seed s) {call : ChainCall} (hcall : InRange s call) :
    Inv kdfCk seed (s.step kdfCk call) := by
  cases call with
  | advance =>
      have hlen : (s.sent ++ [(s.sender.advance kdfCk).1]).length = s.sent.length + 1 :=
        List.length_append
      refine ⟨?_, ?_, h.receiver, h.plans⟩
      · show (s.sender.advance kdfCk).2 = _
        rw [ChainEnds.step, hlen, afterAdvances_succ, ← h.sender]
      · show s.sent ++ [(s.sender.advance kdfCk).1] = _
        rw [ChainEnds.step, hlen, List.range_succ, List.map_append, ← h.sent, List.map_singleton,
          messageKey, ← h.sender]
  | plan counter =>
      refine ⟨h.sender, h.sent, h.receiver, ?_⟩
      intro p hp
      rcases List.mem_append.mp hp with hold | hnew
      · exact h.plans p hold
      · rw [List.mem_singleton.mp hnew]
        exact h.receiver.onChain_plan hcall
  | commit i =>
      rw [ChainEnds.step]
      split
      · rename_i p hp
        exact ⟨h.sender, h.sent, h.receiver.commit (h.plans p (List.mem_of_getElem? hp)), h.plans⟩
      · exact h

/-- A key that the receiver plans with is the one that the sender got for this message, and the
chain of the receiver is that of the sender at the same position. -/
theorem receiver_follows_sender (kdfCk : Key → Key × Key) (seed : Key) (calls : List ChainCall)
    (hcalls : Always (step kdfCk) InRange (start seed) calls) :
    let s := calls.foldl (step kdfCk) (start seed)
    (∀ counter key, (s.receiver.plan kdfCk counter).key? = some key →
      key = messageKey kdfCk seed counter) ∧
    (∀ counter key, s.sent[counter]? = some key → key = messageKey kdfCk seed counter) ∧
    s.receiver.chain = (afterAdvances kdfCk seed s.receiver.pos).chain := by
  intro s
  have hinv : Inv kdfCk seed s :=
    hcalls.invariant (Inv kdfCk seed) (fun _ _ h hcall => h.step hcall) (inv_start seed)
  refine ⟨fun counter key hkey => hinv.receiver.key_plan hkey, ?_, hinv.receiver.chain⟩
  intro counter key hkey
  have hlt : counter < s.sent.length := (List.getElem?_eq_some_iff.mp hkey).1
  rw [hinv.sent, List.getElem?_map, List.getElem?_range hlt] at hkey
  exact (Option.some.inj hkey).symm

/-- Two plans are made, and the one that leads further is committed first. -/
theorem receiver_follows_sender_of_stale :
    let calls : List ChainCall := [.advance, .plan 2, .plan 5, .commit 1, .commit 0, .plan 1]
    let s := calls.foldl (step fun k : ℕ => (k + 1, k + 10)) (start 0)
    s.receiver.chain = (afterAdvances (fun k : ℕ => (k + 1, k + 10)) 0 s.receiver.pos).chain := by
  intro calls s
  have hcalls : Always (step fun k : ℕ => (k + 1, k + 10)) InRange (start 0) calls := by
    simp only [calls, always_cons, always_nil, InRange, u64Max]
    decide
  exact (receiver_follows_sender (fun k : ℕ => (k + 1, k + 10)) 0 calls hcalls).2.2

end ChainEnds

end Vantablack.Session
