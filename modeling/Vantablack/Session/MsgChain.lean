import Mathlib
import Vantablack.Lib.Runs

/-!
The per-message chain of one direction: `MsgChain` of `session/ratchet.rs`. A chain
is seeded with an epoch key and stepped once per message; opening is split in two,
`plan` computes what opening a counter would do and changes nothing, `commit`
applies a plan after the frame has authenticated.

Keys are an arbitrary type; the one-way step `kdf_ck` is a parameter.
-/

namespace Vantablack.Session

@[irreducible] def u64Max : ℕ := 2 ^ 64 - 1

/-- `MAX_SKIP`: the largest forward jump an open will pay for. -/
@[irreducible] def maxSkip : ℕ := 1024

/-- What opening one counter should do, computed without mutating anything. -/
inductive OpenPlan (Key : Type) where
  | forward (key newChain : Key) (newPos : ℕ) (cache : List (ℕ × Key))
  | cached (counter : ℕ) (key : Key)
  | refused
  deriving DecidableEq

def OpenPlan.key? {Key : Type} : OpenPlan Key → Option Key
  | .forward key _ _ _ => some key
  | .cached _ key => some key
  | .refused => none

@[simp] theorem OpenPlan.key?_forward {Key : Type} (key newChain : Key) (newPos : ℕ)
    (cache : List (ℕ × Key)) : (OpenPlan.forward key newChain newPos cache).key? = some key :=
  rfl

@[simp] theorem OpenPlan.key?_cached {Key : Type} (counter : ℕ) (key : Key) :
    (OpenPlan.cached counter key).key? = some key := rfl

@[simp] theorem OpenPlan.key?_refused {Key : Type} :
    (OpenPlan.refused : OpenPlan Key).key? = none := rfl

/-- One direction's per-message chain. -/
structure MsgChain (Key : Type) where
  chain : Key
  pos : ℕ
  skipped : Std.ExtTreeMap ℕ Key

namespace MsgChain

variable {Key : Type} (kdfCk : Key → Key × Key)

/-- Start a chain for one epoch from that epoch's derived seed key. -/
def seed (seed : Key) : MsgChain Key :=
  { chain := seed, pos := 0, skipped := ∅ }

/-- Take the key of the next message and move past it. -/
def advance (m : MsgChain Key) : Key × MsgChain Key :=
  ((kdfCk m.chain).2, { m with chain := (kdfCk m.chain).1, pos := m.pos + 1 })

/-- The loop `for i in 0..=gap` of `plan`, from a chain positioned at `pos`: the
step key of the last iteration, the chain after it, and the keys passed over. -/
def walk : (gap pos : ℕ) → (chain : Key) → Key × Key × List (ℕ × Key)
  | 0, _, chain => ((kdfCk chain).2, (kdfCk chain).1, [])
  | gap + 1, pos, chain =>
      let rest := walk gap (pos + 1) (kdfCk chain).1
      (rest.1, rest.2.1, (pos, (kdfCk chain).2) :: rest.2.2)

/-- Work out how to open `counter`, changing nothing. -/
def plan (m : MsgChain Key) (counter : ℕ) : OpenPlan Key :=
  if counter < m.pos then
    match m.skipped[counter]? with
    | some key => .cached counter key
    | none => .refused
  else if counter - m.pos > maxSkip then .refused
  else
    let w := walk kdfCk (counter - m.pos) m.pos m.chain
    -- `counter.saturating_add(1)`
    .forward w.1 w.2.1 (min (counter + 1) u64Max) w.2.2

/-- Remove the smallest counter `n` times. -/
def evictOldest : ℕ → Std.ExtTreeMap ℕ Key → Std.ExtTreeMap ℕ Key
  | 0, skipped => skipped
  | n + 1, skipped =>
      match skipped.minKey? with
      | some oldest => evictOldest n (skipped.erase oldest)
      | none => skipped

/-- The loop `while self.skipped.len() > MAX_SKIP`: each turn removes one entry, so
it turns `len - MAX_SKIP` times. -/
def evict (skipped : Std.ExtTreeMap ℕ Key) : Std.ExtTreeMap ℕ Key :=
  evictOldest (skipped.size - maxSkip) skipped

/-- `for (counter, key) in cache { skipped.entry(counter).or_insert(key) }`. -/
def insertAll (skipped : Std.ExtTreeMap ℕ Key) (cache : List (ℕ × Key)) :
    Std.ExtTreeMap ℕ Key :=
  cache.foldl (fun t e => t.insertIfNew e.1 e.2) skipped

/-- Apply a plan. The caller does this only after the frame has authenticated. -/
def commit (m : MsgChain Key) : OpenPlan Key → MsgChain Key
  | .forward _ newChain newPos cache =>
      if newPos > m.pos then
        { chain := newChain, pos := newPos, skipped := evict (insertAll m.skipped cache) }
      else { m with skipped := evict m.skipped }
  | .cached counter _ => { m with skipped := m.skipped.erase counter }
  | .refused => m

theorem pos_le_commit (m : MsgChain Key) (plan : OpenPlan Key) : m.pos ≤ (m.commit plan).pos := by
  cases plan with
  | forward key newChain newPos cache =>
      rw [commit]
      split
      · rename_i hlater
        exact hlater.le
      · exact le_rfl
  | cached counter key => exact le_rfl
  | refused => exact le_rfl

variable {counter : ℕ} {skipped : Std.ExtTreeMap ℕ Key}

theorem evictOldest_getElem?_none (n : ℕ) (h : skipped[counter]? = none) :
    (evictOldest n skipped)[counter]? = none := by
  induction n generalizing skipped with
  | zero => exact h
  | succ n ih =>
      rw [evictOldest]
      split
      · apply ih
        rw [Std.ExtTreeMap.getElem?_erase, h]
        split <;> rfl
      · exact h

theorem evict_getElem?_none (h : skipped[counter]? = none) : (evict skipped)[counter]? = none :=
  evictOldest_getElem?_none _ h

theorem insertAll_getElem?_none {cache : List (ℕ × Key)} (h : skipped[counter]? = none)
    (hc : ∀ e ∈ cache, e.1 ≠ counter) : (insertAll skipped cache)[counter]? = none := by
  induction cache generalizing skipped with
  | nil => exact h
  | cons e cache ih =>
      apply ih
      · have he : e.1 ≠ counter := hc e List.mem_cons_self
        rw [Std.ExtTreeMap.getElem?_insertIfNew, if_neg]
        · exact h
        · intro hand
          exact he (by simpa using hand.1)
      · intro e' he'
        exact hc e' (List.mem_cons_of_mem e he')

/-! ### What a plan says -/

theorem walk_cache {gap pos : ℕ} {chain : Key} {e : ℕ × Key}
    (he : e ∈ (walk kdfCk gap pos chain).2.2) : pos ≤ e.1 ∧ e.1 < pos + gap := by
  induction gap generalizing pos chain with
  | zero => simp [walk] at he
  | succ gap ih =>
      simp only [walk, List.mem_cons] at he
      rcases he with rfl | he
      · exact ⟨le_rfl, by omega⟩
      · have := ih he
        omega

theorem plan_forward {m : MsgChain Key} {newPos : ℕ} {key newChain : Key} {cache : List (ℕ × Key)}
    (h : m.plan kdfCk counter = .forward key newChain newPos cache) :
    m.pos ≤ counter ∧ newPos = min (counter + 1) u64Max ∧
      ∀ e ∈ cache, m.pos ≤ e.1 ∧ e.1 < counter := by
  unfold plan at h
  split at h
  · split at h <;> cases h
  · rename_i hle
    split at h
    · cases h
    · cases h
      refine ⟨by omega, rfl, ?_⟩
      intro e he
      have := walk_cache kdfCk he
      omega

theorem plan_cached {m : MsgChain Key} {c : ℕ} {key : Key}
    (h : m.plan kdfCk counter = .cached c key) :
    c = counter ∧ counter < m.pos ∧ m.skipped[counter]? = some key := by
  unfold plan at h
  split at h
  · rename_i hlt
    split at h
    · cases h
      exact ⟨rfl, hlt, by assumption⟩
    · cases h
  · split at h <;> cases h

theorem plan_refused {m : MsgChain Key} (hlt : counter < m.pos) (h : m.skipped[counter]? = none) :
    m.plan kdfCk counter = .refused := by
  rw [plan, if_pos hlt, h]

theorem passed_of_no_key {m : MsgChain Key} (h : (m.plan kdfCk counter).key?.isSome = false)
    (hnear : counter ≤ m.pos + maxSkip) : counter < m.pos ∧ m.skipped[counter]? = none := by
  unfold plan at h
  split at h
  · rename_i hlt
    refine ⟨hlt, ?_⟩
    cases hs : m.skipped[counter]? with
    | none => rfl
    | some key =>
        rw [hs] at h
        cases h
  · split at h
    · omega
    · cases h

/-! ### Spent counters -/

/-- Keys are held for counters that the chain has passed, and for none of those in `spent`, which it
has all passed. -/
structure Spends (m : MsgChain Key) (spent : Set ℕ) : Prop where
  skipped_lt : ∀ c key, m.skipped[c]? = some key → c < m.pos
  spent : ∀ c ∈ spent, c < m.pos ∧ m.skipped[c]? = none

theorem spends_seed (key : Key) {spent : Set ℕ} (h : spent = ∅) :
    (MsgChain.seed key).Spends spent where
  skipped_lt c key h := by simp [MsgChain.seed] at h
  spent c hc := by
    rw [h] at hc
    cases hc

variable {m : MsgChain Key} {spent spent' : Set ℕ} {c newPos : ℕ} {key newChain : Key}
  {cache : List (ℕ × Key)}

theorem Spends.mono (h : m.Spends spent) (hsub : spent' ⊆ spent) : m.Spends spent' where
  skipped_lt := h.skipped_lt
  spent c hc := h.spent c (hsub hc)

theorem Spends.plan_refused (h : m.Spends spent) (hc : c ∈ spent) :
    m.plan kdfCk c = .refused :=
  MsgChain.plan_refused kdfCk (h.spent c hc).1 (h.spent c hc).2

theorem Spends.skipped_none (h : m.Spends spent) (hc : m.pos ≤ c) : m.skipped[c]? = none := by
  cases hs : m.skipped[c]? with
  | none => rfl
  | some key => exact absurd (h.skipped_lt c key hs) (not_lt.mpr hc)

theorem Spends.commit_cached (h : m.Spends spent) (hlt : c < m.pos) :
    (m.commit (.cached c key)).Spends (insert c spent) where
  skipped_lt d key' hd := by
    refine h.skipped_lt d key' ?_
    simp only [commit] at hd
    grind
  spent d hd := by
    simp only [commit]
    rcases hd with rfl | hd
    · exact ⟨hlt, by simp⟩
    · refine ⟨(h.spent d hd).1, ?_⟩
      have hnone := (h.spent d hd).2
      grind

/-- A forward plan that is installed caches no spent counter, and one that was overtaken finds the
key of its counter gone. -/
theorem Spends.commit_forward (h : m.Spends spent) (hcache : ∀ e ∈ cache, e.1 < c ∧ e.1 < newPos)
    (hg : if m.pos < newPos then ∀ e ∈ cache, e.1 ∉ spent else m.skipped[c]? = none)
    (hsub : ∀ d ∈ spent', d ∈ spent ∨ d = c ∧ c < newPos) (hnext : newPos ≤ c + 1) :
    (m.commit (.forward key newChain newPos cache)).Spends spent' := by
  by_cases hpos : m.pos < newPos
  · rw [if_pos hpos] at hg
    simp only [commit, gt_iff_lt, hpos, if_true]
    have hnone : ∀ d, m.skipped[d]? = none → (∀ e ∈ cache, e.1 ≠ d) →
        (evict (insertAll m.skipped cache))[d]? = none :=
      fun d hd hout => evict_getElem?_none (insertAll_getElem?_none hd hout)
    constructor
    case skipped_lt =>
      intro d key' hd
      by_contra hge
      simp only [not_lt] at hge
      rw [hnone d (h.skipped_none (hpos.le.trans hge)) ?_] at hd
      · cases hd
      · intro e he heq
        have := hcache e he
        omega
    case spent =>
      intro d hd
      rcases hsub d hd with hold | ⟨rfl, hlt⟩
      · obtain ⟨hlt, hgone⟩ := h.spent d hold
        exact ⟨hlt.trans hpos, hnone d hgone fun e he heq => hg e he (heq ▸ hold)⟩
      · refine ⟨hlt, hnone d (h.skipped_none (by omega)) fun e he heq => ?_⟩
        have := hcache e he
        omega
  · rw [if_neg hpos] at hg
    simp only [commit, gt_iff_lt, hpos, if_false]
    constructor
    case skipped_lt =>
      intro d key' hd
      by_contra hge
      rw [evict_getElem?_none (h.skipped_none (not_lt.mp hge))] at hd
      cases hd
    case spent =>
      intro d hd
      rcases hsub d hd with hold | ⟨rfl, hlt⟩
      · exact ⟨(h.spent d hold).1, evict_getElem?_none (h.spent d hold).2⟩
      · exact ⟨hlt.trans_le (not_lt.mp hpos), evict_getElem?_none hg⟩

end MsgChain

end Vantablack.Session
