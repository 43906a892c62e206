import Vantablack.Lib.Newest
import Vantablack.Session.MsgChain

/-!
What the cache of a message chain holds. Seen as a set of counters it is the newest 1024 of those
that were passed over and not opened, at each commit, so that a key is lost only to 1024 larger
counters that are waiting too.
-/

namespace Vantablack.Session

open Lib

namespace MsgChain

variable {Key : Type}

def held (skipped : Std.ExtTreeMap ℕ Key) : Finset ℕ :=
  skipped.keys.toFinset

variable {skipped : Std.ExtTreeMap ℕ Key}

theorem mem_held {c : ℕ} : c ∈ held skipped ↔ c ∈ skipped := by
  rw [held, List.mem_toFinset, Std.ExtTreeMap.mem_keys]

theorem mem_held_iff {c : ℕ} : c ∈ held skipped ↔ ∃ key, skipped[c]? = some key := by
  rw [mem_held, Std.ExtTreeMap.mem_iff_isSome_getElem?, Option.isSome_iff_exists]

@[simp] theorem card_held (skipped : Std.ExtTreeMap ℕ Key) :
    (held skipped).card = skipped.size := by
  rw [held, List.toFinset_card_of_nodup Std.ExtTreeMap.nodup_keys, Std.ExtTreeMap.length_keys]

@[simp] theorem held_empty : held (∅ : Std.ExtTreeMap ℕ Key) = ∅ := by
  ext c
  rw [mem_held]
  simp

@[simp] theorem held_erase (counter : ℕ) :
    held (skipped.erase counter) = (held skipped).erase counter := by
  ext c
  rw [Finset.mem_erase, mem_held, mem_held, Std.ExtTreeMap.mem_erase]
  refine and_congr_left fun _ => ?_
  rw [Ne, Std.LawfulEqCmp.compare_eq_iff_eq, ne_comm]

theorem held_insertAll (cache : List (ℕ × Key)) :
    held (insertAll skipped cache) = held skipped ∪ (cache.map Prod.fst).toFinset := by
  induction cache generalizing skipped with
  | nil => simp [insertAll]
  | cons e cache ih =>
      have hnew : held (skipped.insertIfNew e.1 e.2) = insert e.1 (held skipped) := by
        ext c
        rw [Finset.mem_insert, mem_held, mem_held, Std.ExtTreeMap.mem_insertIfNew,
          Std.LawfulEqCmp.compare_eq_iff_eq, eq_comm]
      rw [insertAll, List.foldl_cons, ← insertAll, ih, hnew, List.map_cons, List.toFinset_cons,
        Finset.insert_union, Finset.union_insert]

theorem minKey?_of_size {n : ℕ} (h : skipped.size = n + 1) :
    ∃ oldest, skipped.minKey? = some oldest ∧ oldest ∈ held skipped ∧
      ∀ c ∈ held skipped, oldest ≤ c := by
  cases hmin : skipped.minKey? with
  | none =>
      rw [Std.ExtTreeMap.minKey?_eq_none_iff] at hmin
      rw [hmin, Std.ExtTreeMap.size_empty] at h
      cases h
  | some oldest =>
      rw [Std.ExtTreeMap.minKey?_eq_some_iff_mem_and_forall] at hmin
      refine ⟨oldest, rfl, mem_held.mpr hmin.1, ?_⟩
      intro c hc
      exact Nat.isLE_compare.mp (hmin.2 c (mem_held.mp hc))

theorem held_evictOldest {n k : ℕ} (h : skipped.size ≤ k ∧ n = 0 ∨ skipped.size = k + n) :
    held (evictOldest n skipped) = newest k (held skipped) := by
  induction n generalizing skipped with
  | zero =>
      rw [evictOldest, newest_eq_self]
      rw [card_held]
      omega
  | succ n ih =>
      have hsize : skipped.size = k + n + 1 := by omega
      obtain ⟨oldest, hmin, hmem, hle⟩ := minKey?_of_size hsize
      have herase : (skipped.erase oldest).size = k + n := by
        rw [← card_held, held_erase, Finset.card_erase_of_mem hmem, card_held, hsize]
        rfl
      rw [evictOldest, hmin]
      dsimp only
      rw [ih (.inr herase), held_erase, newest_erase hmem hle (by rw [card_held]; omega)]

theorem held_evict : held (evict skipped) = newest maxSkip (held skipped) := by
  apply held_evictOldest
  omega

theorem map_fst_walk (kdfCk : Key → Key × Key) (gap pos : ℕ) (chain : Key) :
    (walk kdfCk gap pos chain).2.2.map Prod.fst = List.range' pos gap := by
  induction gap generalizing pos chain with
  | zero => rfl
  | succ gap ih => rw [walk, List.map_cons, ih, List.range'_succ]

theorem cache_of_plan {kdfCk : Key → Key × Key} {m : MsgChain Key} {counter newPos : ℕ}
    {key newChain : Key} {cache : List (ℕ × Key)}
    (h : m.plan kdfCk counter = .forward key newChain newPos cache) :
    (cache.map Prod.fst).toFinset = Finset.Ico m.pos counter := by
  have hle := (plan_forward kdfCk h).1
  rw [plan, if_neg (by omega)] at h
  split at h
  · cases h
  · cases h
    rw [map_fst_walk, List.toFinset_range'_1, Nat.add_sub_cancel' hle]

end MsgChain

/-! ### Opening one message after another -/

structure Opening (Key : Type) where
  chain : MsgChain Key
  opened : Finset ℕ

namespace Opening

open MsgChain

variable {Key : Type} (kdfCk : Key → Key × Key)

def start (seed : Key) : Opening Key where
  chain := MsgChain.seed seed
  opened := ∅

/-- A plan is made and committed. -/
def step (s : Opening Key) (counter : UInt64) : Opening Key :=
  let plan := s.chain.plan kdfCk counter.toNat
  { chain := s.chain.commit plan
    opened := if plan.key?.isSome then insert counter.toNat s.opened else s.opened }

/-- The counters that were passed over and not opened. -/
def missing (s : Opening Key) : Finset ℕ :=
  Finset.range s.chain.pos \ s.opened

/-- At least 1024 larger counters are waiting. -/
def Crowded (c : ℕ) (s : Opening Key) : Prop :=
  maxSkip ≤ (s.missing.filter (c < ·)).card

variable {c : ℕ}

theorem lt_of_mem_missing {s : Opening Key} (hc : c ∈ s.missing) : c < s.chain.pos :=
  Finset.mem_range.mp (Finset.mem_sdiff.mp hc).1

/-- What is held is waiting, and with a counter all larger ones that wait are held. Only the largest
counter may be opened without being passed. -/
structure Inv (s : Opening Key) : Prop where
  subset : held s.chain.skipped ⊆ s.missing
  upper : UpperIn (held s.chain.skipped) s.missing
  size_le : s.chain.skipped.size ≤ maxSkip
  pos_le : s.chain.pos ≤ u64Max
  opened_lt : ∀ c ∈ s.opened, c < s.chain.pos ∨ c = u64Max

theorem inv_start (seed : Key) : Inv (start seed) where
  subset := by
    show held ∅ ⊆ _
    rw [held_empty]
    exact Finset.empty_subset _
  upper := by
    show UpperIn (held ∅) _
    rw [held_empty]
    intro a ha
    exact absurd ha (Finset.notMem_empty a)
  size_le := Nat.zero_le _
  pos_le := Nat.zero_le _
  opened_lt c hc := absurd hc (Finset.notMem_empty c)

theorem toNat_le_u64Max (counter : UInt64) : counter.toNat ≤ u64Max := by
  have hlt := counter.toNat_lt
  unfold u64Max
  omega

variable {kdfCk} {s : Opening Key}

theorem not_crowded_of_pos_le (h : s.chain.pos ≤ c) : ¬ Crowded c s := by
  have hempty : s.missing.filter (c < ·) = ∅ := by
    apply Finset.filter_false_of_mem
    intro d hd
    have := lt_of_mem_missing hd
    omega
  rw [Crowded, hempty, Finset.card_empty]
  unfold maxSkip
  omega

theorem Inv.not_crowded (h : Inv s) (hc : c ∈ held s.chain.skipped) : ¬ Crowded c s := by
  have hlt := card_larger_lt hc
  rw [h.upper.larger h.subset hc, card_held] at hlt
  exact not_le.mpr (hlt.trans_le h.size_le)

theorem Inv.step_cases (h : Inv s) (kdfCk : Key → Key × Key) (counter : UInt64) :
    s.step kdfCk counter = s ∨
    (s.step kdfCk counter).chain.pos = s.chain.pos ∧
      (s.step kdfCk counter).opened = insert counter.toNat s.opened ∧
      counter.toNat < s.chain.pos ∧
      held (s.step kdfCk counter).chain.skipped = (held s.chain.skipped).erase counter.toNat ∨
    (s.step kdfCk counter).chain.pos = min (counter.toNat + 1) u64Max ∧
      (s.step kdfCk counter).opened = insert counter.toNat s.opened ∧
      s.chain.pos ≤ counter.toNat ∧
      held (s.step kdfCk counter).chain.skipped =
        newest maxSkip (held s.chain.skipped ∪ Finset.Ico s.chain.pos counter.toNat) := by
  have hpos := h.pos_le
  have hcounter := toNat_le_u64Max counter
  rw [step]
  cases hplan : s.chain.plan kdfCk counter.toNat with
  | refused => exact .inl rfl
  | cached c key =>
      obtain ⟨rfl, hlt, -⟩ := plan_cached kdfCk hplan
      exact .inr (.inl ⟨rfl, rfl, hlt, held_erase _⟩)
  | forward key newChain newPos cache =>
      obtain ⟨hle, rfl, -⟩ := plan_forward kdfCk hplan
      have hcache := cache_of_plan hplan
      refine .inr (.inr ?_)
      dsimp only
      rw [commit]
      split
      · refine ⟨rfl, rfl, hle, ?_⟩
        rw [held_evict, held_insertAll, hcache]
      · rename_i hstays
        have hlast : counter.toNat = s.chain.pos ∧ s.chain.pos = u64Max := by omega
        have hmin : min (counter.toNat + 1) u64Max = s.chain.pos := by omega
        refine ⟨hmin.symm, rfl, hle, ?_⟩
        rw [held_evict, hlast.1, Finset.Ico_self, Finset.union_empty]

theorem Inv.missing_cases (h : Inv s) (kdfCk : Key → Key × Key) (counter : UInt64) :
    s.step kdfCk counter = s ∨
    (s.step kdfCk counter).missing = s.missing.erase counter.toNat ∧
      held (s.step kdfCk counter).chain.skipped = (held s.chain.skipped).erase counter.toNat ∨
    ∃ new : Finset ℕ, (∀ c ∈ new, s.chain.pos ≤ c) ∧
      (s.step kdfCk counter).missing = s.missing ∪ new ∧
      held (s.step kdfCk counter).chain.skipped = newest maxSkip (held s.chain.skipped ∪ new) := by
  have hcounter := toNat_le_u64Max counter
  rcases h.step_cases kdfCk counter with hsame | ⟨hpos, hopened, -, hheld⟩ |
    ⟨hpos, hopened, hle, hheld⟩
  · exact .inl hsame
  · refine .inr (.inl ⟨?_, hheld⟩)
    rw [missing, hpos, hopened, missing, Finset.sdiff_insert]
  · refine .inr (.inr ⟨_, fun c hc => (Finset.mem_Ico.mp hc).1, ?_, hheld⟩)
    ext c
    have hopen := h.opened_lt c
    rw [missing, hpos, hopened, missing, Finset.mem_union, Finset.mem_sdiff, Finset.mem_sdiff,
      Finset.mem_insert, Finset.mem_range, Finset.mem_range, Finset.mem_Ico]
    have hlast := h.pos_le
    by_cases hc : c ∈ s.opened
    · have := hopen hc
      simp only [hc, or_true, not_true_eq_false, and_false, false_or, false_iff]
      omega
    · simp only [hc, or_false, not_false_eq_true, and_true]
      omega

theorem Inv.step (h : Inv s) (counter : UInt64) : Inv (s.step kdfCk counter) := by
  have hcounter := toNat_le_u64Max counter
  have hlast := h.pos_le
  have hpos : (s.step kdfCk counter).chain.pos ≤ u64Max ∧
      ∀ c ∈ (s.step kdfCk counter).opened, c < (s.step kdfCk counter).chain.pos ∨ c = u64Max := by
    rcases h.step_cases kdfCk counter with hsame | ⟨hpos, hopened, hlt, -⟩ |
      ⟨hpos, hopened, hle, -⟩
    · rw [hsame]
      exact ⟨h.pos_le, h.opened_lt⟩
    · rw [hpos, hopened]
      refine ⟨h.pos_le, fun c hc => ?_⟩
      rcases Finset.mem_insert.mp hc with rfl | hc
      · exact .inl hlt
      · exact h.opened_lt c hc
    · rw [hpos, hopened]
      refine ⟨min_le_right _ _, fun c hc => ?_⟩
      rcases Finset.mem_insert.mp hc with rfl | hc
      · omega
      · have := h.opened_lt c hc
        omega
  rcases h.missing_cases kdfCk counter with hsame | ⟨hmissing, hheld⟩ |
    ⟨new, hnew, hmissing, hheld⟩
  · rw [hsame]
    exact h
  · refine ⟨?_, ?_, ?_, hpos.1, hpos.2⟩
    · rw [hheld, hmissing]
      exact Finset.erase_subset_erase _ h.subset
    · rw [hheld, hmissing]
      exact h.upper.erase _
    · rw [← card_held, hheld]
      exact (Finset.card_erase_le).trans ((card_held _).trans_le h.size_le)
  · have hunion : UpperIn (held s.chain.skipped ∪ new) (s.missing ∪ new) :=
      h.upper.union fun a ha b hb => (lt_of_mem_missing ha).trans_le (hnew b hb)
    refine ⟨?_, ?_, ?_, hpos.1, hpos.2⟩
    · rw [hheld, hmissing]
      exact (newest_subset _ _).trans (Finset.union_subset_union_left h.subset)
    · rw [hheld, hmissing]
      exact hunion.newest _
    · rw [← card_held, hheld]
      exact card_newest_le _ _

theorem Inv.mem_held_step (h : Inv s) (counter : UInt64) (c : ℕ) :
    c ∈ held (s.step kdfCk counter).chain.skipped ↔
      c ∈ (s.step kdfCk counter).missing ∧ (c ∈ s.missing → c ∈ held s.chain.skipped) ∧
        ¬ Crowded c (s.step kdfCk counter) := by
  have hstep : Inv (s.step kdfCk counter) := h.step counter
  constructor
  · intro hc
    refine ⟨hstep.subset hc, ?_, hstep.not_crowded hc⟩
    intro hold
    rcases h.missing_cases kdfCk counter with hsame | ⟨-, hheld⟩ | ⟨new, hnew, -, hheld⟩
    · rwa [hsame] at hc
    · rw [hheld] at hc
      exact Finset.mem_of_mem_erase hc
    · rw [hheld] at hc
      rcases Finset.mem_union.mp (newest_subset _ _ hc) with hc | hc
      · exact hc
      · exact absurd (hnew c hc) (not_le.mpr (lt_of_mem_missing hold))
  · rintro ⟨hwaits, hkept, hroom⟩
    rcases h.missing_cases kdfCk counter with hsame | ⟨hmissing, hheld⟩ |
      ⟨new, hnew, hmissing, hheld⟩
    · rw [hsame] at hwaits ⊢
      exact hkept hwaits
    · rw [hmissing] at hwaits
      obtain ⟨hne, hold⟩ := Finset.mem_erase.mp hwaits
      rw [hheld]
      exact Finset.mem_erase.mpr ⟨hne, hkept hold⟩
    · have hunion : UpperIn (held s.chain.skipped ∪ new) (s.missing ∪ new) :=
        h.upper.union fun a ha b hb => (lt_of_mem_missing ha).trans_le (hnew b hb)
      rw [hheld, hunion.mem_newest_iff (Finset.union_subset_union_left h.subset), ← hmissing]
      refine ⟨?_, not_le.mp hroom⟩
      rw [hmissing] at hwaits
      rcases Finset.mem_union.mp hwaits with hold | hc
      · exact Finset.mem_union_left _ (hkept hold)
      · exact Finset.mem_union_right _ hc

theorem Inv.pos_le_of_new (h : Inv s) {counter : UInt64} (hold : c ∉ s.missing)
    (hnew : c ∈ (s.step kdfCk counter).missing) : s.chain.pos ≤ c := by
  rcases h.missing_cases kdfCk counter with hsame | ⟨hmissing, -⟩ |
    ⟨new, hlarge, hmissing, -⟩
  · rw [hsame] at hnew
    exact absurd hnew hold
  · rw [hmissing] at hnew
    exact absurd (Finset.mem_of_mem_erase hnew) hold
  · rw [hmissing] at hnew
    rcases Finset.mem_union.mp hnew with hc | hc
    · exact absurd hc hold
    · exact hlarge c hc

theorem pos_le_step (s : Opening Key) (counter : UInt64) :
    s.chain.pos ≤ (s.step kdfCk counter).chain.pos :=
  pos_le_commit _ _

/-! ### Runs -/

theorem inv_run (kdfCk : Key → Key × Key) (seed : Key) (counters : List UInt64) :
    Inv (counters.foldl (step kdfCk) (start seed)) :=
  foldl_invariant Inv (fun _ counter h => Inv.step h counter) (inv_start seed) counters

theorem not_crowded_before (kdfCk : Key → Key × Key) (seed : Key) (counters : List UInt64)
    (h : (counters.foldl (step kdfCk) (start seed)).chain.pos ≤ c) :
    Always (step kdfCk) (fun s counter => ¬ Crowded c (s.step kdfCk counter)) (start seed)
      counters := by
  induction counters using List.reverseRecOn with
  | nil => trivial
  | append_singleton counters counter ih =>
      rw [List.foldl_append] at h
      rw [always_append]
      refine ⟨ih ((pos_le_step _ counter).trans h), ?_, trivial⟩
      exact not_crowded_of_pos_le h

theorem mem_held_run (kdfCk : Key → Key × Key) (seed : Key) (counters : List UInt64) (c : ℕ) :
    c ∈ held (counters.foldl (step kdfCk) (start seed)).chain.skipped ↔
      c ∈ (counters.foldl (step kdfCk) (start seed)).missing ∧
        Always (step kdfCk) (fun s counter => ¬ Crowded c (s.step kdfCk counter)) (start seed)
          counters := by
  induction counters using List.reverseRecOn with
  | nil =>
      show c ∈ held ∅ ↔ c ∈ Finset.range 0 \ ∅ ∧ True
      simp
  | append_singleton counters counter ih =>
      have hinv := inv_run kdfCk seed counters
      rw [List.foldl_append, List.foldl_cons, List.foldl_nil, hinv.mem_held_step, ih, always_append,
        always_cons]
      refine and_congr_right fun hwaits => ?_
      constructor
      · rintro ⟨hkept, hroom⟩
        refine ⟨?_, hroom, trivial⟩
        by_cases hold : c ∈ (counters.foldl (step kdfCk) (start seed)).missing
        · exact (hkept hold).2
        · exact not_crowded_before kdfCk seed counters (hinv.pos_le_of_new hold hwaits)
      · rintro ⟨halways, hroom, -⟩
        exact ⟨fun hold => ⟨hold, halways⟩, hroom⟩

/-- The cache has at most 1024 keys, of counters that were passed. A counter that was passed and not
opened can be opened from it exactly if at no commit 1024 larger ones were waiting. -/
theorem skipped_exact (kdfCk : Key → Key × Key) (seed : Key) (counters : List UInt64) :
    let s := counters.foldl (step kdfCk) (start seed)
    s.chain.skipped.size ≤ maxSkip ∧
      (∀ c key, s.chain.skipped[c]? = some key → c < s.chain.pos) ∧
      ∀ c < s.chain.pos, c ∉ s.opened →
        ((∃ key, s.chain.plan kdfCk c = .cached c key) ↔
          Always (step kdfCk) (fun s counter => ¬ Crowded c (s.step kdfCk counter)) (start seed)
            counters) := by
  intro s
  have hinv : Inv s := inv_run kdfCk seed counters
  refine ⟨hinv.size_le, ?_, ?_⟩
  · intro c key hkey
    exact lt_of_mem_missing (hinv.subset (mem_held_iff.mpr ⟨key, hkey⟩))
  · intro c hlt hclosed
    have hwaits : c ∈ s.missing := Finset.mem_sdiff.mpr ⟨Finset.mem_range.mpr hlt, hclosed⟩
    have hplan : (∃ key, s.chain.plan kdfCk c = .cached c key) ↔ c ∈ held s.chain.skipped := by
      rw [mem_held_iff, plan, if_pos hlt]
      refine exists_congr fun key => ?_
      cases s.chain.skipped[c]? <;> simp
    rw [hplan, mem_held_run]
    exact and_iff_right hwaits

end Opening

end Vantablack.Session
