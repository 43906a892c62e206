import Vantablack.Session.MsgChain

/-!
Concurrent openers of one message chain. `Session::plan_open` and
`Session::commit_open` take the ratchet lock separately, so between an opener's plan
and its commit any number of other openers may plan and commit. A plan that has
gone stale in between is still applied.
-/

namespace Vantablack.Session

variable {Key : Type} (kdfCk : Key → Key × Key)

/-- A chain and the openers at work on it: the plans taken and not yet committed,
each with the counter it was asked for, and the counters whose plan was committed. -/
structure Openers (Key : Type) where
  chain : MsgChain Key
  inflight : List (ℕ × OpenPlan Key)
  committed : List ℕ

/-- The two atomic steps of an opener. `commit i` is the step of the opener that
holds the `i`-th plan in flight. -/
inductive OpenerAct where
  | plan (counter : ℕ)
  | commit (i : ℕ)

namespace Openers

/-- Openers about to start on a freshly seeded chain. -/
def start (seed : Key) : Openers Key :=
  { chain := .seed seed, inflight := [], committed := [] }

/-- One step of one opener. Committing a refused plan does nothing. -/
def step (s : Openers Key) : OpenerAct → Option (Openers Key)
  | .plan counter =>
      if counter ≤ u64Max then
        some { s with inflight := s.inflight ++ [(counter, s.chain.plan kdfCk counter)] }
      else none
  | .commit i =>
      match s.inflight[i]? with
      | none => none
      | some (_, .refused) => some { s with inflight := s.inflight.eraseIdx i }
      | some (counter, plan) =>
          some { chain := s.chain.commit plan, inflight := s.inflight.eraseIdx i,
                 committed := counter :: s.committed }

/-- Once a plan for a counter has been committed, the counter opens no more. -/
def CommittedRefused (s : Openers Key) : Prop :=
  ∀ counter ∈ s.committed, counter < u64Max → s.chain.plan kdfCk counter = .refused

/-- No counter has been committed twice. -/
def CommittedOnce (s : Openers Key) : Prop :=
  ∀ counter, counter < u64Max → s.committed.count counter ≤ 1

/-- A commit that cannot give a spent counter back its key: a forward plan that is
going to be installed caches no counter that has been committed, and one that has
been overtaken is not committed while the jump that overtook it still holds the
key of its counter. -/
def Harmless (s : Openers Key) : OpenerAct → Prop
  | .plan _ => True
  | .commit i =>
      match s.inflight[i]? with
      | some (counter, .forward _ _ newPos cache) =>
          if s.chain.pos < newPos then ∀ e ∈ cache, e.1 ∉ s.committed
          else s.chain.skipped[counter]? = none
      | _ => True

/-- No opener takes a plan for a counter another opener holds a plan for. -/
def Exclusive (s : Openers Key) : OpenerAct → Prop
  | .plan counter => ∀ e ∈ s.inflight, e.1 ≠ counter
  | .commit _ => True

instance (s : Openers Key) (a : OpenerAct) : Decidable (Harmless s a) :=
  match a with
  | .plan _ => inferInstanceAs (Decidable True)
  | .commit i =>
      match hi : s.inflight[i]? with
      | some (counter, .forward key newChain newPos cache) =>
          decidable_of_iff (if s.chain.pos < newPos then ∀ e ∈ cache, e.1 ∉ s.committed
            else (s.chain.skipped[counter]?).isNone = true) (by simp [Harmless, hi])
      | some (_, .cached ..) => .isTrue (by simp [Harmless, hi])
      | some (_, .refused) => .isTrue (by simp [Harmless, hi])
      | none => .isTrue (by simp [Harmless, hi])

instance (s : Openers Key) (a : OpenerAct) : Decidable (Exclusive s a) :=
  match a with
  | .plan counter => inferInstanceAs (Decidable (∀ e ∈ s.inflight, e.1 ≠ counter))
  | .commit _ => inferInstanceAs (Decidable True)

/-! ### A spent counter stays refused -/

/-- The counters committed. At the last one the position of the chain saturates. -/
def spent (s : Openers Key) : Set ℕ := { c | c ∈ s.committed ∧ c < u64Max }

/-- What the chain owes to the plans in flight and to the counters committed. -/
structure Inv (s : Openers Key) : Prop where
  chain : s.chain.Spends s.spent
  /-- A forward plan in flight ends right after its counter and caches earlier ones. -/
  forward : ∀ c key newChain newPos cache,
    (c, .forward key newChain newPos cache) ∈ s.inflight →
      c ≤ u64Max ∧ newPos = min (c + 1) u64Max ∧ ∀ e ∈ cache, e.1 < c
  /-- A cached plan in flight is for a counter already passed. -/
  cached : ∀ c d key, (c, .cached d key) ∈ s.inflight → d = c ∧ c < s.chain.pos

theorem inv_start (seed : Key) : Inv (start seed) where
  chain := MsgChain.spends_seed seed (by ext c; simp [spent, start])
  forward := by simp [start]
  cached := by simp [start]

variable {s : Openers Key}

theorem Inv.committedRefused (h : Inv s) : CommittedRefused kdfCk s :=
  fun _ hc hlt => h.chain.plan_refused kdfCk ⟨hc, hlt⟩

theorem Inv.plan (h : Inv s) {counter : ℕ} (hmax : counter ≤ u64Max) :
    Inv { s with inflight := s.inflight ++ [(counter, s.chain.plan kdfCk counter)] } where
  chain := h.chain
  forward := by
    intro c key newChain newPos cache hmem
    rcases List.mem_append.mp hmem with hmem | hmem
    · exact h.forward c key newChain newPos cache hmem
    · obtain ⟨rfl, hplan⟩ := Prod.mk.inj (List.mem_singleton.mp hmem)
      obtain ⟨_, hpos, hcache⟩ := MsgChain.plan_forward kdfCk hplan.symm
      exact ⟨hmax, hpos, fun e he => (hcache e he).2⟩
  cached := by
    intro c d key hmem
    rcases List.mem_append.mp hmem with hmem | hmem
    · exact h.cached c d key hmem
    · obtain ⟨rfl, hplan⟩ := Prod.mk.inj (List.mem_singleton.mp hmem)
      obtain ⟨rfl, hlt, _⟩ := MsgChain.plan_cached kdfCk hplan.symm
      exact ⟨rfl, hlt⟩

theorem Inv.commit_refused (h : Inv s) (i : ℕ) :
    Inv { s with inflight := s.inflight.eraseIdx i } where
  chain := h.chain
  forward := fun c key newChain newPos cache hmem =>
    h.forward c key newChain newPos cache (List.mem_of_mem_eraseIdx hmem)
  cached := fun c d key hmem => h.cached c d key (List.mem_of_mem_eraseIdx hmem)

variable {i : ℕ}

theorem Inv.of_commit (h : Inv s) {plan : OpenPlan Key} {c : ℕ}
    (hchain : (s.chain.commit plan).Spends { d | d ∈ c :: s.committed ∧ d < u64Max }) :
    Inv { chain := s.chain.commit plan, inflight := s.inflight.eraseIdx i,
          committed := c :: s.committed } where
  chain := hchain
  forward := (h.commit_refused i).forward
  cached d e key hmem := by
    obtain ⟨rfl, hlt⟩ := (h.commit_refused i).cached d e key hmem
    exact ⟨rfl, hlt.trans_le (MsgChain.pos_le_commit s.chain plan)⟩

theorem Inv.commit_cached (h : Inv s) {c d : ℕ} {key : Key}
    (hi : s.inflight[i]? = some (c, .cached d key)) :
    Inv { chain := s.chain.commit (.cached d key), inflight := s.inflight.eraseIdx i,
          committed := c :: s.committed } := by
  obtain ⟨rfl, hlt⟩ := h.cached c d key (List.mem_of_getElem? hi)
  refine h.of_commit ((h.chain.commit_cached hlt).mono ?_)
  rintro e ⟨he, hmax⟩
  exact (List.mem_cons.mp he).imp id fun hold => ⟨hold, hmax⟩

theorem Inv.commit_forward (h : Inv s) {c newPos : ℕ} {key newChain : Key} {cache : List (ℕ × Key)}
    (hi : s.inflight[i]? = some (c, .forward key newChain newPos cache))
    (hg : if s.chain.pos < newPos then ∀ e ∈ cache, e.1 ∉ s.committed
      else s.chain.skipped[c]? = none) :
    Inv { chain := s.chain.commit (.forward key newChain newPos cache),
          inflight := s.inflight.eraseIdx i, committed := c :: s.committed } := by
  obtain ⟨hc, hnew, hcache⟩ := h.forward c key newChain newPos cache (List.mem_of_getElem? hi)
  refine h.of_commit (h.chain.commit_forward (c := c) ?_ ?_ ?_ ?_)
  · intro e he
    have := hcache e he
    omega
  · split at hg
    · rename_i hpos
      rw [if_pos hpos]
      exact fun e he hspent => hg e he hspent.1
    · rename_i hpos
      rwa [if_neg hpos]
  · rintro e ⟨he, hmax⟩
    rcases List.mem_cons.mp he with rfl | hold
    · exact .inr ⟨rfl, by omega⟩
    · exact .inl ⟨hold, hmax⟩
  · omega

theorem Inv.step {t : Openers Key} (h : Inv s) {a : OpenerAct} (hg : s.Harmless a)
    (hstep : s.step kdfCk a = some t) : Inv t := by
  cases a with
  | plan counter =>
      simp only [Openers.step] at hstep
      split at hstep
      · rename_i hmax
        cases hstep
        exact h.plan kdfCk hmax
      · cases hstep
  | commit i =>
      simp only [Openers.step] at hstep
      simp only [Harmless] at hg
      cases hi : s.inflight[i]? with
      | none => simp [hi] at hstep
      | some entry =>
          obtain ⟨c, plan⟩ := entry
          cases plan with
          | refused =>
              simp only [hi, Option.some.injEq] at hstep
              subst hstep
              exact h.commit_refused i
          | cached d key =>
              simp only [hi, Option.some.injEq] at hstep
              subst hstep
              exact h.commit_cached hi
          | forward key newChain newPos cache =>
              simp only [hi, Option.some.injEq] at hstep
              subst hstep
              rw [hi] at hg
              exact h.commit_forward hi hg

/-! ### Counting the openers of one counter -/

/-- The openers of `counter`: its open plans in flight and its commits. -/
def openings (s : Openers Key) (counter : ℕ) : ℕ :=
  s.inflight.countP (fun e => e.1 == counter && e.2.key?.isSome) + s.committed.count counter

theorem countP_eraseIdx_add {α : Type} (p : α → Bool) {l : List α} {x : α} (h : l[i]? = some x) :
    (l.eraseIdx i).countP p + (if p x then 1 else 0) = l.countP p := by
  obtain ⟨hi, rfl⟩ := List.getElem?_eq_some_iff.mp h
  rw [← (List.getElem_cons_eraseIdx_perm hi).countP_eq p, List.countP_cons]

theorem openings_plan (href : CommittedRefused kdfCk s) {counter : ℕ}
    (hex : ∀ e ∈ s.inflight, e.1 ≠ counter) (hone : ∀ c < u64Max, s.openings c ≤ 1) {c : ℕ}
    (hc : c < u64Max) :
    openings { s with inflight := s.inflight ++ [(counter, s.chain.plan kdfCk counter)] } c
      ≤ 1 := by
  have hcur := hone c hc
  simp only [openings, List.countP_append, List.countP_singleton] at hcur ⊢
  by_cases heq : counter = c
  · subst heq
    have hzero : s.inflight.countP (fun e => e.1 == counter && e.2.key?.isSome) = 0 := by
      rw [List.countP_eq_zero]
      intro e he hand
      simp only [Bool.and_eq_true, beq_iff_eq] at hand
      exact hex e he hand.1
    by_cases hmem : counter ∈ s.committed
    · rw [href counter hmem hc]
      simpa using hcur
    · rw [hzero, List.count_eq_zero.mpr hmem]
      split <;> omega
  · simpa [heq] using hcur

theorem openings_commit {t : Openers Key} (hstep : s.step kdfCk (.commit i) = some t) (c : ℕ) :
    t.openings c = s.openings c := by
  simp only [Openers.step] at hstep
  cases hi : s.inflight[i]? with
  | none => simp [hi] at hstep
  | some entry =>
      obtain ⟨d, plan⟩ := entry
      have hcount := countP_eraseIdx_add (fun e => e.1 == c && e.2.key?.isSome) hi
      cases plan with
      | refused =>
          simp only [hi, Option.some.injEq] at hstep
          subst hstep
          simp only [openings]
          simp only [OpenPlan.key?_refused, Option.isSome_none, Bool.and_false,
            Bool.false_eq_true, if_false] at hcount
          omega
      | cached e key | forward key newChain newPos cache =>
          simp only [hi, Option.some.injEq] at hstep
          subst hstep
          simp only [openings, List.count_cons]
          simp only [OpenPlan.key?_cached, OpenPlan.key?_forward, Option.isSome_some,
            Bool.and_true] at hcount
          omega

/-- What holds along a run whose openers exclude each other per counter. -/
structure InvOnce (s : Openers Key) : Prop extends Inv s where
  once : ∀ c < u64Max, s.openings c ≤ 1

theorem InvOnce.step {t : Openers Key} (h : InvOnce s) {a : OpenerAct} (hg : s.Harmless a)
    (hex : s.Exclusive a) (hstep : s.step kdfCk a = some t) : InvOnce t where
  toInv := h.toInv.step kdfCk hg hstep
  once := by
    intro c hc
    cases a with
    | plan counter =>
        simp only [Openers.step] at hstep
        split at hstep
        · cases hstep
          exact openings_plan kdfCk (h.committedRefused kdfCk) hex h.once hc
        · cases hstep
    | commit i =>
        rw [openings_commit kdfCk hstep]
        exact h.once c hc

theorem InvOnce.committedOnce (h : InvOnce s) : CommittedOnce s := by
  intro c hc
  have := h.once c hc
  simp only [openings] at this
  omega

end Openers

open Openers

/-- In every run of concurrent openers on one chain whose commits are all harmless,
a counter whose plan was committed is refused from then on. If besides no two openers
ever hold a plan for one counter together, each counter is committed at most once. -/
theorem committed_counter_refused (seed : Key) (s : Openers Key) :
    (Lib.Reaches (Openers.step kdfCk) Harmless (start seed) s → CommittedRefused kdfCk s) ∧
    (Lib.Reaches (Openers.step kdfCk) (fun u a => u.Harmless a ∧ u.Exclusive a)
        (start seed) s → CommittedRefused kdfCk s ∧ CommittedOnce s) := by
  constructor
  · intro h
    have hinv : Inv s :=
      h.invariant Inv (inv_start seed) fun _ _ _ hu hg hstep => hu.step kdfCk hg hstep
    exact hinv.committedRefused kdfCk
  · intro h
    have hinv : InvOnce s :=
      h.invariant InvOnce ⟨inv_start seed, by simp [start, openings]⟩
        fun _ _ _ hu hg hstep => hu.step kdfCk hg.1 hg.2 hstep
    exact ⟨hinv.committedRefused kdfCk, hinv.committedOnce⟩

/-- Reordered frames of which each is opened once make a harmless run. -/
theorem committed_counter_refused_reordered :
    ∃ s : Openers ℕ, s.committed = [0, 1, 2] ∧
      CommittedRefused (fun k => (2 * k + 1, 2 * k + 2)) s ∧ CommittedOnce s := by
  obtain ⟨s, hs, hc⟩ := Lib.Reaches.of_exec_any
    (Openers.step fun k : ℕ => (2 * k + 1, 2 * k + 2))
    (fun u a => u.Harmless a ∧ u.Exclusive a) (start 0)
    [.plan 2, .commit 0, .plan 1, .commit 0, .plan 0, .commit 0]
    (fun s => s.committed == [0, 1, 2]) (by decide +kernel)
  exact ⟨s, by simpa using hc, (committed_counter_refused _ 0 s).2 hs⟩

/-- Frames 2 and 5 are planned together and committed in order. The jump to 5 was
planned before 2 was opened, so its commit brings the key of 2 back. -/
theorem committed_counter_reopens :
    ¬ ∀ (kdfCk : ℕ → ℕ × ℕ) (seed : ℕ) (s : Openers ℕ),
      Lib.Reaches (Openers.step kdfCk) (fun _ _ => True) (start seed) s →
        CommittedRefused kdfCk s := by
  intro h
  obtain ⟨s, hs, hp⟩ := Lib.Reaches.of_exec_any
    (Openers.step fun k : ℕ => (2 * k + 1, 2 * k + 2)) (fun _ _ => True) (start 0)
    [.plan 2, .plan 5, .commit 0, .commit 0]
    (fun s => s.committed == [5, 2] &&
      (s.chain.plan (fun k : ℕ => (2 * k + 1, 2 * k + 2)) 2 == .cached 2 8))
    (by decide +kernel)
  simp only [Bool.and_eq_true, beq_iff_eq] at hp
  have href := h _ 0 s hs 2 (by simp [hp.1]) (by simp [u64Max])
  rw [hp.2] at href
  cases href

end Vantablack.Session
