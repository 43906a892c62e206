import Mathlib.Data.Finset.Card
import Mathlib.Data.List.MinMax
import Mathlib.Data.Prod.Lex
import Vantablack.Lib.Table

/-!
Label setting: a search that gives each node the least label it finds, in the order of the labels.
`relax n l` is what follows from the label `l` of the node `n`: labels for other nodes, each with
the edge it comes over. A label that follows from another is greater. The labels that are found are
those of the one labelling in which every node but the first has the least of the labels that follow
from the labels of the others.
-/

namespace Vantablack.Lib.LabelSetting

open List

variable {N L E O : Type*} [DecidableEq N] [LinearOrder L] [LinearOrder O]

structure Search (N L E : Type*) where
  best : Table N L
  prev : Table N E
  heap : List (L × N)

namespace Search

def start (n₀ : N) (l₀ : L) : Search N L E :=
  { best := (∅ : Table N L).insert n₀ l₀, prev := ∅, heap := [(l₀, n₀)] }

def record (s : Search N L E) (x : N × L × E) : Search N L E :=
  { best := s.best.insert x.1 x.2.1, prev := s.prev.insert x.1 x.2.2, heap := (x.2.1, x.1) :: s.heap }

def improve (s : Search N L E) (x : N × L × E) : Search N L E :=
  match s.best.lookup x.1 with
  | none => s.record x
  | some b => if x.2.1 < b then s.record x else s

/-- The least entry of the heap; of equal labels the one whose node has the least key. -/
def pop (key : N → O) (s : Search N L E) : Option ((L × N) × Search N L E) :=
  (s.heap.argmin fun e => toLex (e.1, key e.2)).map fun e => (e, { s with heap := s.heap.erase e })

/-- Whether the node of the entry has got a smaller label since. -/
def stale (s : Search N L E) (e : L × N) : Bool :=
  (s.best.lookup e.2).any (· < e.1)

/-- The search up to a node that satisfies `stop`, in `fuel` turns. -/
def run (key : N → O) (relax : N → L → List (N × L × E)) (stop : N → Bool) :
    ℕ → Search N L E → Bool × Search N L E
  | 0, s => (false, s)
  | fuel + 1, s =>
      match s.pop key with
      | none => (false, s)
      | some (e, s) =>
          if stop e.2 then (true, s)
          else if s.stale e then run key relax stop fuel s
          else run key relax stop fuel ((relax e.2 e.1).foldl improve s)

end Search

/-- Every node but the first has the least of the labels that follow from the labels of the others. -/
structure IsLabelling (relax : N → L → List (N × L × E)) (n₀ : N) (l₀ : L) (ℓ : N → Option L) :
    Prop where
  start : ℓ n₀ = some l₀
  realized : ∀ n l, ℓ n = some l → n ≠ n₀ → ∃ m k e, ℓ m = some k ∧ (n, l, e) ∈ relax m k
  least : ∀ m k, ℓ m = some k → ∀ x ∈ relax m k, ∃ b, ℓ x.1 = some b ∧ b ≤ x.2.1

/-- The first node gets no other label, and what follows from a label is greater, also in a rank
that is a number. -/
structure Increasing (relax : N → L → List (N × L × E)) (n₀ : N) (rank : L → ℕ) : Prop where
  ne_start : ∀ n l, ∀ x ∈ relax n l, x.1 ≠ n₀
  lt : ∀ n l, ∀ x ∈ relax n l, l < x.2.1
  rank_lt : ∀ n l, ∀ x ∈ relax n l, rank l < rank x.2.1

/-- What holds between the turns of the search: the nodes of `settled` have been expanded, but for
what is still in `pending`. -/
structure Settled (relax : N → L → List (N × L × E)) (n₀ : N) (l₀ : L) (settled : Finset N)
    (pending : List (N × L × E)) (s : Search N L E) : Prop where
  start : s.best.lookup n₀ = some l₀
  root : s.prev.lookup n₀ = none
  expanded : ∀ n ∈ settled, ∃ l, s.best.lookup n = some l ∧ ∀ x ∈ relax n l,
    x ∈ pending ∨ ∃ b, s.best.lookup x.1 = some b ∧ b ≤ x.2.1
  waiting : ∀ n l, s.best.lookup n = some l → n ∉ settled → (l, n) ∈ s.heap
  labelled : ∀ e ∈ s.heap, ∃ b, s.best.lookup e.2 = some b ∧ b ≤ e.1 ∧ (e.2 ∈ settled → b < e.1)
  above : ∀ n ∈ settled, ∀ l, s.best.lookup n = some l → ∀ e ∈ s.heap, l ≤ e.1
  traced : ∀ n l, s.best.lookup n = some l → n ≠ n₀ → ∃ m ∈ settled, ∃ k e,
    s.best.lookup m = some k ∧ s.prev.lookup n = some e ∧ (n, l, e) ∈ relax m k
  nodup : s.heap.Nodup
  agrees : ∀ ℓ, IsLabelling relax n₀ l₀ ℓ → ∀ n ∈ settled, s.best.lookup n = ℓ n

section

variable {relax : N → L → List (N × L × E)} {n₀ : N} {l₀ : L} {rank : L → ℕ} {settled : Finset N}
  {pending : List (N × L × E)} {s s' : Search N L E} {key : N → O} {e : L × N}

theorem settled_start (relax : N → L → List (N × L × E)) (n₀ : N) (l₀ : L) :
    Settled relax n₀ l₀ ∅ [] (Search.start n₀ l₀) where
  start := AList.lookup_insert _
  root := AList.lookup_empty _
  expanded := by simp
  waiting := by
    intro n l hl _
    rcases Table.lookup_insert_eq_some.mp hl with ⟨rfl, rfl⟩ | ⟨-, hl⟩
    · exact mem_singleton_self _
    · cases hl
  labelled := by
    intro e he
    obtain rfl := mem_singleton.mp he
    exact ⟨l₀, AList.lookup_insert _, le_refl _, by simp⟩
  above := by simp
  traced := by
    intro n l hl hn
    rcases Table.lookup_insert_eq_some.mp hl with ⟨rfl, -⟩ | ⟨-, hl⟩
    · exact absurd rfl hn
    · cases hl
  nodup := nodup_singleton _
  agrees := by simp

/-! ### One label that follows from the node just expanded -/

/-- A node has just been expanded, and no label of a settled node is greater than its label. -/
structure Expanding (relax : N → L → List (N × L × E)) (n₀ : N) (l₀ : L) (settled : Finset N)
    (m : N) (k : L) (pending : List (N × L × E)) (s : Search N L E) : Prop
    extends Settled relax n₀ l₀ settled pending s where
  mem : m ∈ settled
  label : s.best.lookup m = some k
  greatest : ∀ n ∈ settled, ∀ l, s.best.lookup n = some l → l ≤ k
  follows : ∀ x ∈ pending, x ∈ relax m k

/-- A label that improves on the one of its node, or is the first one. -/
def Improves (s : Search N L E) (x : N × L × E) : Prop :=
  ∀ b, s.best.lookup x.1 = some b → x.2.1 < b

variable {x : N × L × E}

theorem improve_eq_record (h : Improves s x) : s.improve x = s.record x := by
  unfold Search.improve
  split
  · rfl
  · rename_i b hb
    rw [if_pos (h b hb)]

theorem improve_eq_self (h : ¬ Improves s x) :
    s.improve x = s ∧ ∃ b, s.best.lookup x.1 = some b ∧ b ≤ x.2.1 := by
  unfold Improves at h
  push Not at h
  obtain ⟨b, hb, hle⟩ := h
  refine ⟨?_, b, hb, hle⟩
  rw [Search.improve, hb]
  exact if_neg (not_lt.mpr hle)

omit [LinearOrder L] in
@[simp]
theorem lookup_record_self (s : Search N L E) (x : N × L × E) :
    (s.record x).best.lookup x.1 = some x.2.1 :=
  AList.lookup_insert _

variable {n : N}

omit [LinearOrder L] in
theorem lookup_record_of_ne (s : Search N L E) (hn : n ≠ x.1) :
    (s.record x).best.lookup n = s.best.lookup n :=
  AList.lookup_insert_ne hn

omit [LinearOrder L] in
theorem lookup_prev_record_of_ne (s : Search N L E) (hn : n ≠ x.1) :
    (s.record x).prev.lookup n = s.prev.lookup n :=
  AList.lookup_insert_ne hn

theorem Improves.lookup_record_le (h : Improves s x) {b : L} (hb : s.best.lookup n = some b) :
    ∃ b', (s.record x).best.lookup n = some b' ∧ b' ≤ b := by
  by_cases hn : n = x.1
  · subst hn
    exact ⟨x.2.1, lookup_record_self s x, (h b hb).le⟩
  · exact ⟨b, (lookup_record_of_ne s hn).trans hb, le_refl b⟩

/-- A node whose label improves is not settled: its label would be greater than that of the node just
expanded. -/
theorem Expanding.notMem_of_improves (hinc : Increasing relax n₀ rank) {m : N} {k : L}
    (h : Expanding relax n₀ l₀ settled m k pending s) (hx : x ∈ relax m k)
    (himproves : Improves s x) : x.1 ∉ settled := by
  intro hmem
  obtain ⟨b, hb, -⟩ := h.expanded x.1 hmem
  have hlt := (hinc.lt m k x hx).trans (himproves b hb)
  exact absurd hlt (not_lt.mpr (h.greatest _ hmem b hb))

/-- An entry of the heap is above the label of its node, also after its node got a new one. -/
theorem Settled.labelled_record (h : Settled relax n₀ l₀ settled pending s)
    (himproves : Improves s x) (hfresh : x.1 ∉ settled) :
    ∀ e ∈ (s.record x).heap, ∃ b, (s.record x).best.lookup e.2 = some b ∧ b ≤ e.1 ∧
      (e.2 ∈ settled → b < e.1) := by
  intro e he
  rcases mem_cons.mp he with rfl | he
  · exact ⟨x.2.1, lookup_record_self s x, le_refl _, fun hmem => absurd hmem hfresh⟩
  · obtain ⟨b, hb, hle, hlt⟩ := h.labelled e he
    obtain ⟨b', hb', hle'⟩ := himproves.lookup_record_le hb
    exact ⟨b', hb', hle'.trans hle, fun hmem => lt_of_le_of_lt hle' (hlt hmem)⟩

theorem Expanding.record (hinc : Increasing relax n₀ rank) {m : N} {k : L}
    (h : Expanding relax n₀ l₀ settled m k (x :: pending) s) (himproves : Improves s x) :
    Expanding relax n₀ l₀ settled m k pending (s.record x) := by
  have hx := h.follows x mem_cons_self
  have hstart := (hinc.ne_start m k x hx).symm
  have hfresh := h.notMem_of_improves hinc hx himproves
  -- the settled nodes keep their labels
  have hkept : ∀ n ∈ settled, (s.record x).best.lookup n = s.best.lookup n := by
    intro n hn
    refine lookup_record_of_ne s ?_
    rintro rfl
    exact hfresh hn
  refine
    { start := (lookup_record_of_ne s hstart).trans h.start
      root := (lookup_prev_record_of_ne s hstart).trans h.root
      labelled := h.labelled_record himproves hfresh
      mem := h.mem
      label := (hkept m h.mem).trans h.label
      agrees := fun ℓ hℓ n hn => (hkept n hn).trans (h.agrees ℓ hℓ n hn)
      greatest := fun n hn l hl => h.greatest n hn l ((hkept n hn).symm.trans hl)
      follows := fun y hy => h.follows y (mem_cons_of_mem _ hy)
      expanded := ?_
      waiting := ?_
      above := ?_
      traced := ?_
      nodup := ?_ }
  · intro n hn
    obtain ⟨l, hl, hexpanded⟩ := h.expanded n hn
    refine ⟨l, (hkept n hn).trans hl, fun y hy => ?_⟩
    rcases hexpanded y hy with hpending | ⟨b, hb, hle⟩
    · rcases mem_cons.mp hpending with rfl | hpending
      · exact Or.inr ⟨y.2.1, lookup_record_self s y, le_refl _⟩
      · exact Or.inl hpending
    · obtain ⟨b', hb', hle'⟩ := himproves.lookup_record_le hb
      exact Or.inr ⟨b', hb', hle'.trans hle⟩
  · intro n l hl hn
    rcases Table.lookup_insert_eq_some.mp hl with ⟨rfl, rfl⟩ | ⟨-, hl⟩
    · exact mem_cons_self
    · exact mem_cons_of_mem _ (h.waiting n l hl hn)
  · intro n hn l hl e he
    rw [hkept n hn] at hl
    rcases mem_cons.mp he with rfl | he
    · exact (h.greatest n hn l hl).trans (hinc.lt m k x hx).le
    · exact h.above n hn l hl e he
  · intro n l hl hn
    rcases Table.lookup_insert_eq_some.mp hl with ⟨rfl, rfl⟩ | ⟨hnx, hl⟩
    · exact ⟨m, h.mem, k, x.2.2, (hkept m h.mem).trans h.label, AList.lookup_insert _, hx⟩
    · obtain ⟨m', hm', k', e, hk', hprev, hfollows⟩ := h.traced n l hl hn
      exact ⟨m', hm', k', e, (hkept m' hm').trans hk',
        (lookup_prev_record_of_ne s hnx).trans hprev, hfollows⟩
  · refine nodup_cons.mpr ⟨fun hmem => ?_, h.nodup⟩
    obtain ⟨b, hb, hle, -⟩ := h.labelled _ hmem
    exact absurd (himproves b hb) (not_lt.mpr hle)

theorem Expanding.improve (hinc : Increasing relax n₀ rank) {m : N} {k : L}
    (h : Expanding relax n₀ l₀ settled m k (x :: pending) s) :
    Expanding relax n₀ l₀ settled m k pending (s.improve x) := by
  by_cases himproves : Improves s x
  · rw [improve_eq_record himproves]
    exact h.record hinc himproves
  · obtain ⟨hsame, hold⟩ := improve_eq_self himproves
    rw [hsame]
    refine ⟨{ h.toSettled with expanded := ?_ }, h.mem, h.label, h.greatest,
      fun y hy => h.follows y (mem_cons_of_mem _ hy)⟩
    intro n hn
    obtain ⟨l, hl, hexpanded⟩ := h.expanded n hn
    refine ⟨l, hl, fun y hy => ?_⟩
    rcases hexpanded y hy with hpending | hbest
    · rcases mem_cons.mp hpending with rfl | hpending
      · exact Or.inr hold
      · exact Or.inl hpending
    · exact Or.inr hbest

theorem Expanding.foldl (hinc : Increasing relax n₀ rank) {m : N} {k : L}
    (h : Expanding relax n₀ l₀ settled m k pending s) :
    Settled relax n₀ l₀ settled [] (pending.foldl Search.improve s) := by
  induction pending generalizing s with
  | nil => exact h.toSettled
  | cons x pending ih => exact ih (h.improve hinc)

/-! ### An entry is taken off the heap -/

theorem pop_eq_some (h : s.pop key = some (e, s')) :
    e ∈ s.heap ∧ (∀ e' ∈ s.heap, e.1 ≤ e'.1) ∧ s' = { s with heap := s.heap.erase e } := by
  unfold Search.pop at h
  obtain ⟨e', hmin, heq⟩ := Option.map_eq_some_iff.mp h
  obtain ⟨rfl, rfl⟩ := Prod.mk.inj heq
  refine ⟨argmin_mem hmin, fun e' he' => ?_, rfl⟩
  rcases Prod.Lex.toLex_le_toLex.mp (le_of_mem_argmin he' hmin) with hlt | ⟨heq, -⟩
  · exact hlt.le
  · exact heq.le

theorem pop_eq_none (h : s.pop key = none) : s.heap = [] :=
  argmin_eq_none.mp (Option.map_eq_none_iff.mp h)

theorem stale_eq_true_iff :
    s.stale e = true ↔ ∃ b, s.best.lookup e.2 = some b ∧ b < e.1 := by
  rw [Search.stale, Option.any_eq_true]
  simp only [decide_eq_true_eq]

/-- An entry that is not stale is the label of its node, which has not been expanded. -/
theorem Settled.current (h : Settled relax n₀ l₀ settled [] s) (he : e ∈ s.heap)
    (hfresh : ∀ b, s.best.lookup e.2 = some b → ¬ b < e.1) :
    s.best.lookup e.2 = some e.1 ∧ e.2 ∉ settled := by
  obtain ⟨b, hb, hle, hlt⟩ := h.labelled e he
  have heq : b = e.1 := le_antisymm hle (not_lt.mp (hfresh b hb))
  refine ⟨by rw [hb, heq], fun hmem => ?_⟩
  exact hfresh b hb (hlt hmem)

theorem Settled.dropStale (h : Settled relax n₀ l₀ settled [] s) {b : L}
    (hb : s.best.lookup e.2 = some b) (hlt : b < e.1) :
    Settled relax n₀ l₀ settled [] { s with heap := s.heap.erase e } where
  start := h.start
  root := h.root
  expanded := h.expanded
  waiting := by
    intro n l hl hn
    refine (mem_erase_of_ne ?_).mpr (h.waiting n l hl hn)
    rintro rfl
    rw [hl] at hb
    cases hb
    exact lt_irrefl _ hlt
  labelled := fun e' he' => h.labelled e' (mem_of_mem_erase he')
  above := fun n hn l hl e' he' => h.above n hn l hl e' (mem_of_mem_erase he')
  traced := h.traced
  nodup := h.nodup.erase e
  agrees := h.agrees

variable {ℓ : N → Option L}

/-- A node with a label that is not settled leaves an entry in the heap that is no greater. -/
theorem Settled.frontier (hinc : Increasing relax n₀ rank) (h : Settled relax n₀ l₀ settled [] s)
    (hℓ : IsLabelling relax n₀ l₀ ℓ) {l : L} (hl : ℓ n = some l) :
    n ∈ settled ∨ ∃ e ∈ s.heap, e.1 ≤ l := by
  -- the label follows from one of smaller rank
  induction hrank : rank l using Nat.strong_induction_on generalizing n l with
  | _ r ih =>
      by_cases hn : n = n₀
      · subst hn
        rw [hℓ.start] at hl
        cases hl
        by_cases hmem : n ∈ settled
        · exact Or.inl hmem
        · exact Or.inr ⟨_, h.waiting n l₀ h.start hmem, le_refl _⟩
      · obtain ⟨m, k, e, hk, hx⟩ := hℓ.realized n l hl hn
        have hlt := hinc.lt m k _ hx
        rcases ih (rank k) (hrank ▸ hinc.rank_lt m k _ hx) hk rfl with hm | ⟨e', he', hle⟩
        · obtain ⟨k', hk', hexpanded⟩ := h.expanded m hm
          have hkk : k' = k := by
            have hagree := h.agrees ℓ hℓ m hm
            rw [hk', hk] at hagree
            exact Option.some.inj hagree
          subst hkk
          rcases hexpanded _ hx with hpending | ⟨b, hb, hle⟩
          · cases hpending
          · by_cases hmem : n ∈ settled
            · exact Or.inl hmem
            · exact Or.inr ⟨_, h.waiting n b hb hmem, hle⟩
        · exact Or.inr ⟨e', he', hle.trans hlt.le⟩

/-- The least entry of the heap, if it is not stale, is the label of its node in the labelling. -/
theorem Settled.label_eq (hinc : Increasing relax n₀ rank) (h : Settled relax n₀ l₀ settled [] s)
    (hcurrent : s.best.lookup e.2 = some e.1) (hnew : e.2 ∉ settled)
    (hmin : ∀ e' ∈ s.heap, e.1 ≤ e'.1) (hℓ : IsLabelling relax n₀ l₀ ℓ) : ℓ e.2 = some e.1 := by
  have hbound : ∃ b, ℓ e.2 = some b ∧ b ≤ e.1 := by
    by_cases hn : e.2 = n₀
    · rw [hn, h.start] at hcurrent
      exact ⟨l₀, by rw [hn, hℓ.start], (Option.some.inj hcurrent).le⟩
    · obtain ⟨m, hm, k, edge, hk, -, hx⟩ := h.traced e.2 e.1 hcurrent hn
      rw [h.agrees ℓ hℓ m hm] at hk
      exact hℓ.least m k hk _ hx
  obtain ⟨b, hb, hle⟩ := hbound
  rcases h.frontier hinc hℓ hb with hmem | ⟨e', he', hle'⟩
  · exact absurd hmem hnew
  · rw [hb, le_antisymm hle ((hmin e' he').trans hle')]

theorem Settled.expand (hinc : Increasing relax n₀ rank) (h : Settled relax n₀ l₀ settled [] s)
    (he : e ∈ s.heap) (hcurrent : s.best.lookup e.2 = some e.1) (hnew : e.2 ∉ settled)
    (hmin : ∀ e' ∈ s.heap, e.1 ≤ e'.1) :
    Expanding relax n₀ l₀ (insert e.2 settled) e.2 e.1 (relax e.2 e.1)
      { s with heap := s.heap.erase e } where
  start := h.start
  root := h.root
  expanded := by
    intro n hn
    rcases Finset.mem_insert.mp hn with rfl | hn
    · exact ⟨e.1, hcurrent, fun x hx => Or.inl hx⟩
    · obtain ⟨l, hl, hexpanded⟩ := h.expanded n hn
      refine ⟨l, hl, fun x hx => Or.inr ?_⟩
      exact (hexpanded x hx).resolve_left not_mem_nil
  waiting := by
    intro n l hl hn
    rw [Finset.mem_insert, not_or] at hn
    refine (mem_erase_of_ne ?_).mpr (h.waiting n l hl hn.2)
    rintro rfl
    exact hn.1 rfl
  labelled := by
    intro e' he'
    obtain ⟨hne, he'⟩ := h.nodup.mem_erase_iff.mp he'
    obtain ⟨b, hb, hle, hlt⟩ := h.labelled e' he'
    refine ⟨b, hb, hle, fun hmem => ?_⟩
    rcases Finset.mem_insert.mp hmem with heq | hmem
    · rw [heq, hcurrent] at hb
      obtain rfl := Option.some.inj hb
      exact lt_of_le_of_ne hle fun hlabel => hne (Prod.ext hlabel.symm heq)
    · exact hlt hmem
  above := by
    intro n hn l hl e' he'
    have he' := mem_of_mem_erase he'
    rcases Finset.mem_insert.mp hn with rfl | hn
    · rw [hcurrent] at hl
      cases hl
      exact hmin e' he'
    · exact h.above n hn l hl e' he'
  traced := by
    intro n l hl hn
    obtain ⟨m, hm, hfound⟩ := h.traced n l hl hn
    exact ⟨m, Finset.mem_insert_of_mem hm, hfound⟩
  nodup := h.nodup.erase e
  agrees := by
    intro ℓ hℓ n hn
    rcases Finset.mem_insert.mp hn with rfl | hn
    · exact hcurrent.trans (h.label_eq hinc hcurrent hnew hmin hℓ).symm
    · exact h.agrees ℓ hℓ n hn
  mem := Finset.mem_insert_self _ _
  label := hcurrent
  greatest := by
    intro n hn l hl
    rcases Finset.mem_insert.mp hn with rfl | hn
    · rw [hcurrent] at hl
      exact (Option.some.inj hl).ge
    · exact h.above n hn l hl e he
  follows := fun x hx => hx

/-! ### The whole search -/

/-- Labels follow from the labels of finitely many nodes, and not more than `degree` from one. -/
structure Bounded (relax : N → L → List (N × L × E)) (nodes : Finset N) (degree : ℕ) : Prop where
  nodes : ∀ n ∉ nodes, ∀ l, relax n l = []
  degree : ∀ n l, (relax n l).length ≤ degree

theorem length_heap_improve (s : Search N L E) (x : N × L × E) :
    (s.improve x).heap.length ≤ s.heap.length + 1 := by
  by_cases himproves : Improves s x
  · rw [improve_eq_record himproves]
    exact Nat.le_refl _
  · rw [(improve_eq_self himproves).1]
    exact Nat.le_succ _

theorem length_heap_foldl (s : Search N L E) (pending : List (N × L × E)) :
    (pending.foldl Search.improve s).heap.length ≤ s.heap.length + pending.length := by
  induction pending generalizing s with
  | nil => exact Nat.le_refl _
  | cons x pending ih =>
      have hx := length_heap_improve s x
      have hrest := ih (s.improve x)
      rw [foldl_cons, length_cons]
      omega

omit [LinearOrder L] in
/-- With a node expanded, what may still come into the heap is less by what came into it. -/
theorem Bounded.room_insert {nodes : Finset N} {degree : ℕ} (hb : Bounded relax nodes degree)
    (hn : n ∉ settled) (l : L) :
    (relax n l).length + (nodes \ insert n settled).card * degree ≤
      (nodes \ settled).card * degree := by
  rw [Finset.sdiff_insert]
  by_cases hmem : n ∈ nodes
  · have hcard := Finset.card_erase_add_one (Finset.mem_sdiff.mpr ⟨hmem, hn⟩)
    rw [← hcard, Nat.add_mul, Nat.one_mul, Nat.add_comm]
    exact Nat.add_le_add_left (hb.degree n l) _
  · rw [hb.nodes n hmem l, length_nil, Nat.zero_add]
    exact Nat.mul_le_mul_right _ (Finset.card_le_card (Finset.erase_subset _ _))

/-- The search came to a node that satisfies `stop`, with the least entry of the heap. -/
structure Reached (relax : N → L → List (N × L × E)) (n₀ : N) (l₀ : L) (stop : N → Bool)
    (settled : Finset N) (heap : List (L × N)) (e : L × N) (s : Search N L E) : Prop where
  invariant : Settled relax n₀ l₀ settled [] { s with heap := heap }
  mem : e ∈ heap
  min : ∀ e' ∈ heap, e.1 ≤ e'.1
  label : s.best.lookup e.2 = some e.1
  new : e.2 ∉ settled
  stop : stop e.2 = true

/-- The search has expanded every node that has a label. -/
structure Exhausted (relax : N → L → List (N × L × E)) (n₀ : N) (l₀ : L) (stop : N → Bool)
    (settled : Finset N) (s : Search N L E) : Prop where
  invariant : Settled relax n₀ l₀ settled [] s
  heap : s.heap = []
  stop : ∀ n ∈ settled, stop n = false

theorem run_spec (key : N → O) (stop : N → Bool) (hinc : Increasing relax n₀ rank)
    {nodes : Finset N} {degree : ℕ} (hb : Bounded relax nodes degree) {fuel : ℕ}
    (h : Settled relax n₀ l₀ settled [] s) (hstop : ∀ n ∈ settled, stop n = false)
    (hfuel : s.heap.length + (nodes \ settled).card * degree < fuel) :
    ((s.run key relax stop fuel).1 = true ∧ ∃ settled' heap e,
        Reached relax n₀ l₀ stop settled' heap e (s.run key relax stop fuel).2) ∨
      ((s.run key relax stop fuel).1 = false ∧ ∃ settled',
        Exhausted relax n₀ l₀ stop settled' (s.run key relax stop fuel).2) := by
  induction fuel generalizing s settled with
  | zero => exact absurd hfuel (Nat.not_lt_zero _)
  | succ fuel ih =>
      rw [Search.run]
      cases hpop : s.pop key with
      | none => exact Or.inr ⟨rfl, settled, h, pop_eq_none hpop, hstop⟩
      | some popped =>
          obtain ⟨e, s'⟩ := popped
          obtain ⟨he, hmin, rfl⟩ := pop_eq_some hpop
          have hlen := length_erase_of_mem he
          have hpos := length_pos_of_mem he
          dsimp only
          by_cases hstale : Search.stale { s with heap := s.heap.erase e } e = true
          · obtain ⟨b, hb', hlt⟩ := stale_eq_true_iff.mp hstale
            -- a stale entry of a node to stop at would not be the least one
            have hgo : stop e.2 = false := by
              by_contra hstopped
              have hnew : e.2 ∉ settled := fun hmem => hstopped (hstop _ hmem)
              exact absurd hlt (not_lt.mpr (hmin _ (h.waiting _ b hb' hnew)))
            rw [if_neg (by rw [hgo]; exact Bool.false_ne_true), if_pos hstale]
            refine ih (h.dropStale hb' hlt) hstop ?_
            dsimp only
            omega
          · obtain ⟨hcurrent, hnew⟩ := h.current he fun b hb' hlt =>
              hstale (stale_eq_true_iff.mpr ⟨b, hb', hlt⟩)
            by_cases hstopped : stop e.2 = true
            · rw [if_pos hstopped]
              exact Or.inl ⟨rfl, settled, s.heap, e, h, he, hmin, hcurrent, hnew, hstopped⟩
            · rw [if_neg hstopped, if_neg hstale]
              refine ih ((h.expand hinc he hcurrent hnew hmin).foldl hinc) ?_ ?_
              · intro n hn
                rcases Finset.mem_insert.mp hn with rfl | hn
                · exact Bool.eq_false_iff.mpr hstopped
                · exact hstop n hn
              · have hheap := length_heap_foldl { s with heap := s.heap.erase e } (relax e.2 e.1)
                have hroom := hb.room_insert hnew e.1
                dsimp only at hheap
                omega

/-! ### The labelling -/

variable {stop : N → Bool}

theorem Reached.label_eq (hinc : Increasing relax n₀ rank) {heap : List (L × N)}
    (h : Reached relax n₀ l₀ stop settled heap e s) (hℓ : IsLabelling relax n₀ l₀ ℓ) :
    ℓ e.2 = some e.1 :=
  h.invariant.label_eq hinc h.label h.new h.min hℓ

theorem Exhausted.label_eq_none (hinc : Increasing relax n₀ rank)
    (h : Exhausted relax n₀ l₀ stop settled s) (hn : stop n = true)
    (hℓ : IsLabelling relax n₀ l₀ ℓ) : ℓ n = none := by
  cases hl : ℓ n with
  | none => rfl
  | some l =>
      rcases h.invariant.frontier hinc hℓ hl with hmem | ⟨e, he, -⟩
      · rw [h.stop n hmem] at hn
        cases hn
      · rw [h.heap] at he
        cases he

theorem Exhausted.mem (h : Exhausted relax n₀ l₀ stop settled s) {l : L}
    (hl : s.best.lookup n = some l) : n ∈ settled := by
  by_contra hn
  have hwaiting := h.invariant.waiting n l hl hn
  rw [h.heap] at hwaiting
  cases hwaiting

theorem Exhausted.best_eq_none (h : Exhausted relax n₀ l₀ stop settled s) (hn : stop n = true) :
    s.best.lookup n = none := by
  cases hl : s.best.lookup n with
  | none => rfl
  | some l =>
      rw [h.stop n (h.mem hl)] at hn
      cases hn

theorem exists_isLabelling (hinc : Increasing relax n₀ rank) {nodes : Finset N} {degree : ℕ}
    (hb : Bounded relax nodes degree) (key : N → O) (l₀ : L) :
    ∃ ℓ, IsLabelling relax n₀ l₀ ℓ := by
  rcases run_spec key (fun _ => false) hinc hb (settled_start relax n₀ l₀) (by simp)
    (Nat.lt_succ_self _) with ⟨-, settled, heap, e, hreached⟩ | ⟨-, settled, hexhausted⟩
  · exact absurd hreached.stop Bool.false_ne_true
  · generalize (Search.start n₀ l₀).run key relax (fun _ => false) _ = r at hexhausted
    refine ⟨fun n => r.2.best.lookup n, hexhausted.invariant.start, ?_, ?_⟩
    · intro n l hl hn
      obtain ⟨m, -, k, e, hk, -, hx⟩ := hexhausted.invariant.traced n l hl hn
      exact ⟨m, k, e, hk, hx⟩
    · intro m k hk x hx
      obtain ⟨k', hk', hexpanded⟩ := hexhausted.invariant.expanded m (hexhausted.mem hk)
      rw [hk] at hk'
      cases hk'
      exact (hexpanded x hx).resolve_left not_mem_nil

end

end Vantablack.Lib.LabelSetting
