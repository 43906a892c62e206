import Mathlib
import Vantablack.Lib.Table

/-!
The reorder buffer of a stream, `RxState` and `rx_push` of `main.rs`. Once its window is anchored,
it gives out what it is pushed in the order of the counters, each as soon as all before it are
there.
-/

namespace Vantablack.Net

open Lib List

variable {α : Type*}

/-- The next counter expected, and what came early. -/
structure RxState (α : Type*) where
  next : Option ℕ
  buf : Table ℕ α

/-- `RxState::default`. -/
def RxState.new : RxState α :=
  { next := none, buf := ∅ }

/-- The loop of `rx_push`. Each turn takes one entry out of the buffer. -/
def flush : ℕ → ℕ → Table ℕ α → List α × ℕ × Table ℕ α
  | 0, next, buf => ([], next, buf)
  | fuel + 1, next, buf =>
      match buf.lookup next with
      | some d =>
          let (out, rest) := flush fuel (next + 1) (buf.erase next)
          (d :: out, rest)
      | none => ([], next, buf)

def rxPush (state : RxState α) (ctr : ℕ) (payload : α) : List α × RxState α :=
  match state.next with
  | none => ([payload], { state with next := some (ctr + 1) })
  | some next =>
      if ctr < next then ([], state)
      else
        let buf : Table ℕ α := state.buf.insert ctr payload
        let (out, next, buf) := flush buf.size next buf
        (out, { next := some next, buf := buf })

/-! ### What has come in -/

/-- The counter was pushed: given out already, or in the buffer. -/
def Seen (next : ℕ) (buf : Table ℕ α) (ctr : ℕ) : Prop :=
  ctr < next ∨ ctr ∈ buf

/-- What the loop does to a buffer: `out` are the entries from `next` on, without a gap, up to the
first counter that is missing. -/
structure Flushed (next : ℕ) (buf : Table ℕ α) (out : List α) (next' : ℕ) (buf' : Table ℕ α) :
    Prop where
  next_eq : next' = next + out.length
  item : ∀ i d, out[i]? = some d → buf.lookup (next + i) = some d
  rest : ∀ c d, buf'.lookup c = some d ↔ buf.lookup c = some d ∧ ¬ (next ≤ c ∧ c < next')
  stops : buf.lookup next' = none

variable {buf : Table ℕ α}

theorem flushed_flush (fuel : ℕ) {next : ℕ} (hfuel : buf.size ≤ fuel) :
    Flushed next buf (flush fuel next buf).1 (flush fuel next buf).2.1
      (flush fuel next buf).2.2 := by
  induction fuel generalizing next buf with
  | zero =>
      have hentries : buf.entries = [] := length_eq_zero_iff.mp (Nat.le_zero.mp hfuel)
      have hempty : buf.lookup next = none := by
        rw [AList.lookup, hentries]
        rfl
      refine ⟨rfl, by simp [flush], fun c d => ?_, hempty⟩
      simp only [flush]
      exact ⟨fun h => ⟨h, by omega⟩, fun h => h.1⟩
  | succ fuel ih =>
      cases hnext : buf.lookup next with
      | none =>
          simp only [flush, hnext]
          exact ⟨rfl, by simp, fun c d => ⟨fun h => ⟨h, by omega⟩, fun h => h.1⟩, hnext⟩
      | some d =>
          have hmem : next ∈ buf := AList.lookup_isSome.mp (by rw [hnext]; rfl)
          have hsmaller : Table.size (buf.erase next) ≤ fuel := by
            have := Table.size_erase_of_mem hmem
            omega
          have hflush : Flushed (next + 1) (buf.erase next) _ _ _ := ih hsmaller
          obtain ⟨hend, hitem, hrest, hstops⟩ := hflush
          simp only [flush, hnext]
          have hlater : next < (flush fuel (next + 1) (buf.erase next)).2.1 := by omega
          refine ⟨?_, fun i x hx => ?_, fun c x => ?_, ?_⟩
          · rw [hend, length_cons]
            omega
          · match i with
            | 0 =>
                rw [getElem?_cons_zero] at hx
                rw [← hx, Nat.add_zero, hnext]
            | i + 1 =>
                rw [getElem?_cons_succ] at hx
                have hold := (Table.lookup_erase_eq_some.mp (hitem i x hx)).2
                rwa [Nat.add_right_comm] at hold
          · rw [hrest, Table.lookup_erase_eq_some]
            constructor
            · rintro ⟨⟨hne, hold⟩, hout⟩
              exact ⟨hold, fun h => hout ⟨by omega, h.2⟩⟩
            · rintro ⟨hold, hout⟩
              refine ⟨⟨?_, hold⟩, fun h => hout ⟨by omega, h.2⟩⟩
              rintro rfl
              exact hout ⟨le_rfl, hlater⟩
          · rwa [AList.lookup_erase_ne (by omega)] at hstops

theorem Flushed.seen_iff {next next' : ℕ} {buf' : Table ℕ α} {out : List α}
    (h : Flushed next buf out next' buf') (c : ℕ) : Seen next' buf' c ↔ Seen next buf c := by
  have hmem : ∀ (t : Table ℕ α), c ∈ t ↔ ∃ d, t.lookup c = some d := fun t =>
    AList.lookup_isSome.symm.trans Option.isSome_iff_exists
  have hend := h.next_eq
  rw [Seen, Seen, hmem, hmem]
  constructor
  · rintro (hlt | ⟨d, hd⟩)
    · by_cases hc : c < next
      · exact Or.inl hc
      · have hi : c - next < out.length := by omega
        have hd := h.item _ _ (getElem?_eq_getElem hi)
        rw [Nat.add_sub_cancel' (not_lt.mp hc)] at hd
        exact Or.inr ⟨_, hd⟩
    · exact Or.inr ⟨d, ((h.rest c d).mp hd).1⟩
  · rintro (hlt | ⟨d, hd⟩)
    · exact Or.inl (by omega)
    · by_cases hout : next ≤ c ∧ c < next'
      · exact Or.inl hout.2
      · exact Or.inr ⟨d, (h.rest c d).mpr ⟨hd, hout⟩⟩

/-- The first `k` items of `l`, which have the counters from `a` on, are out; the buffer holds some
of the later ones, the next one not among them. -/
structure Waits (a : ℕ) (l : List α) (k : ℕ) (buf : Table ℕ α) : Prop where
  le : k ≤ l.length
  later : ∀ c x, buf.lookup c = some x → a + k < c ∧ l[c - a]? = some x

/-- The same, where the next one may be there too. -/
structure Ready (a : ℕ) (l : List α) (k : ℕ) (buf : Table ℕ α) : Prop where
  le : k ≤ l.length
  later : ∀ c x, buf.lookup c = some x → a + k ≤ c ∧ l[c - a]? = some x

theorem waits_flush {a : ℕ} {l : List α} (fuel : ℕ) {k : ℕ} (h : Ready a l k buf)
    (hfuel : buf.size ≤ fuel) :
    ∃ k', (flush fuel (a + k) buf).2.1 = a + k' ∧
      Waits a l k' (flush fuel (a + k) buf).2.2 ∧
      l.take k ++ (flush fuel (a + k) buf).1 = l.take k' ∧
      ∀ c, Seen (a + k') (flush fuel (a + k) buf).2.2 c ↔ Seen (a + k) buf c := by
  have hflush : Flushed (a + k) buf _ _ _ := flushed_flush fuel hfuel
  set r := flush fuel (a + k) buf
  have hend : r.2.1 = a + (k + r.1.length) := by rw [hflush.next_eq, Nat.add_assoc]
  have hitem : ∀ i d, r.1[i]? = some d → l[k + i]? = some d := by
    intro i d hd
    have hld := (h.later _ d (hflush.item i d hd)).2
    rwa [Nat.add_assoc, Nat.add_sub_cancel_left] at hld
  have hle : k + r.1.length ≤ l.length := by
    by_contra hgt
    have hlast : r.1.length - 1 < r.1.length := by
      have := h.le
      omega
    obtain ⟨hlt, -⟩ := List.getElem?_eq_some_iff.mp
      (hitem _ _ (getElem?_eq_getElem hlast))
    omega
  refine ⟨k + r.1.length, hend, ⟨hle, fun c x hx => ?_⟩, ?_, fun c => ?_⟩
  · obtain ⟨hold, hout⟩ := (hflush.rest c x).mp hx
    obtain ⟨hkc, hcx⟩ := h.later c x hold
    refine ⟨lt_of_le_of_ne (by omega) ?_, hcx⟩
    rintro rfl
    rw [← hend, hflush.stops] at hold
    cases hold
  · have hout : r.1 = (l.drop k).take r.1.length := by
      apply ext_getElem
      · rw [length_take, length_drop]
        omega
      · intro i hi _
        have hli := hitem i _ (getElem?_eq_getElem hi)
        rw [getElem_take, getElem_drop]
        exact ((List.getElem?_eq_some_iff.mp hli).2).symm
    rw [take_add, ← hout]
  · rw [← hend]
    exact hflush.seen_iff c

/-- A buffer anchored at `a` that has given out `out` of the items in `l`. -/
structure Delivers (a : ℕ) (l : List α) (st : RxState α) (out : List α) (next : ℕ) : Prop where
  next_eq : st.next = some next
  le : a ≤ next
  waits : Waits a l (next - a) st.buf
  out_eq : out = l.take (next - a)

theorem delivers_new (a : ℕ) (l : List α) : Delivers a l { next := some a, buf := ∅ } [] a where
  next_eq := rfl
  le := le_rfl
  waits := by
    refine ⟨by omega, ?_⟩
    intro c x hx
    rw [AList.lookup_empty] at hx
    cases hx
  out_eq := by rw [Nat.sub_self, take_zero]

namespace Delivers

variable {a : ℕ} {l out : List α} {st : RxState α} {next : ℕ}

theorem append (h : Delivers a l st out next) (x : α) : Delivers a (l ++ [x]) st out next where
  next_eq := h.next_eq
  le := h.le
  waits := by
    refine ⟨h.waits.le.trans (by simp), ?_⟩
    intro c y hy
    obtain ⟨hlt, hitem⟩ := h.waits.later c y hy
    obtain ⟨hc, -⟩ := List.getElem?_eq_some_iff.mp hitem
    exact ⟨hlt, (getElem?_append_left hc).trans hitem⟩
  out_eq := by rw [h.out_eq, take_append_of_le_length h.waits.le]

theorem push (h : Delivers a l st out next) {c : ℕ} {x : α} (hc : a ≤ c)
    (hx : l[c - a]? = some x) :
    ∃ next', Delivers a l (rxPush st c x).2 (out ++ (rxPush st c x).1) next' ∧
      ∀ c', Seen next' (rxPush st c x).2.buf c' ↔ Seen next st.buf c' ∨ c' = c := by
  simp only [rxPush, h.next_eq]
  by_cases hold : c < next
  · simp only [if_pos hold, append_nil]
    refine ⟨next, h, fun c' => ⟨Or.inl, ?_⟩⟩
    rintro (hseen | rfl)
    · exact hseen
    · exact Or.inl hold
  · simp only [if_neg hold]
    have hnext : a + (next - a) = next := Nat.add_sub_cancel' h.le
    have hready : Ready a l (next - a) (st.buf.insert c x) := by
      refine ⟨h.waits.le, ?_⟩
      intro c' y hy
      rcases Table.lookup_insert_eq_some.mp hy with ⟨rfl, rfl⟩ | ⟨-, hbuf⟩
      · exact ⟨by omega, hx⟩
      · obtain ⟨hlt, hitem⟩ := h.waits.later c' y hbuf
        exact ⟨hlt.le, hitem⟩
    obtain ⟨k, hend, hwaits, htake, hseen⟩ := waits_flush _ hready le_rfl
    rw [hnext] at hend hwaits htake hseen
    refine ⟨a + k, ⟨congrArg some hend, Nat.le_add_right a k, ?_, ?_⟩, ?_⟩
    · rw [Nat.add_sub_cancel_left]
      exact hwaits
    · rw [Nat.add_sub_cancel_left, ← htake, h.out_eq]
    · intro c'
      refine (hseen c').trans ?_
      unfold Seen
      rw [AList.mem_insert]
      tauto

theorem eq_of_seen (h : Delivers a l st out next)
    (hseen : ∀ i < l.length, Seen next st.buf (a + i)) : out = l := by
  have hle := h.waits.le
  by_contra hne
  have hshort : next - a < l.length := by
    by_contra hlong
    apply hne
    rw [h.out_eq, take_of_length_le (not_lt.mp hlong)]
  rcases hseen _ hshort with hlt | hmem
  · omega
  · obtain ⟨x, hx⟩ := Option.isSome_iff_exists.mp (AList.lookup_isSome.mpr hmem)
    exact lt_irrefl _ (h.waits.later _ x hx).1

theorem out_initial (h : Delivers a l st out next) : out <+: l := by
  rw [h.out_eq]
  exact take_prefix _ _

end Delivers

/-! ### Pushes in any order -/

/-- All calls of a run, with the batch each of them returns. -/
def rxPushAll (state : RxState α) : List (ℕ × α) → List (List α) × RxState α
  | [] => ([], state)
  | (ctr, payload) :: pushes =>
      let (out, state) := rxPush state ctr payload
      let (outs, state) := rxPushAll state pushes
      (out :: outs, state)

/-- A state whose window was anchored at `a`, after the calls `pushes`, with `out` given out. -/
structure Ordered (a : ℕ) (pushes : List (ℕ × α)) (st : RxState α) (out : List α) : Prop where
  next_eq : st.next = some (a + out.length)
  item : ∀ i d, out[i]? = some d → (a + i, d) ∈ pushes
  later : ∀ c d, st.buf.lookup c = some d → a + out.length < c ∧ (c, d) ∈ pushes
  seen : ∀ c d, (c, d) ∈ pushes → Seen (a + out.length) st.buf c

theorem ordered_first (a : ℕ) (x : α) :
    Ordered a [(a, x)] (rxPush .new a x).2 (rxPush .new a x).1 where
  next_eq := rfl
  item := by
    intro i d hd
    match i with
    | 0 => exact mem_singleton.mpr (Prod.ext rfl (Option.some.inj hd).symm)
    | i + 1 => cases hd
  later := by
    intro c d hd
    cases hd
  seen := by
    intro c d hcd
    cases mem_singleton.mp hcd
    exact Or.inl (Nat.lt_succ_self a)

namespace Ordered

variable {a : ℕ} {pushes : List (ℕ × α)} {st : RxState α} {out : List α}

theorem push (h : Ordered a pushes st out) (c : ℕ) (x : α) :
    Ordered a (pushes ++ [(c, x)]) (rxPush st c x).2 (out ++ (rxPush st c x).1) := by
  simp only [rxPush, h.next_eq]
  by_cases hold : c < a + out.length
  · simp only [if_pos hold, append_nil]
    refine ⟨h.next_eq, fun i d hd => mem_append_left _ (h.item i d hd), fun c' d hd => ?_,
      fun c' d hcd => ?_⟩
    · obtain ⟨hlt, hmem⟩ := h.later c' d hd
      exact ⟨hlt, mem_append_left _ hmem⟩
    · rcases mem_append.mp hcd with hmem | hnew
      · exact h.seen c' d hmem
      · cases mem_singleton.mp hnew
        exact Or.inl hold
  simp only [if_neg hold]
  -- the entries of the buffer that the loop runs over, the new one among them
  have hbuf : ∀ c' d, AList.lookup c' (st.buf.insert c x) = some d →
      a + out.length ≤ c' ∧ (c', d) ∈ pushes ++ [(c, x)] := by
    intro c' d hd
    rcases Table.lookup_insert_eq_some.mp hd with ⟨rfl, rfl⟩ | ⟨-, hd⟩
    · exact ⟨not_lt.mp hold, mem_append_right _ (mem_singleton.mpr rfl)⟩
    · obtain ⟨hlt, hmem⟩ := h.later c' d hd
      exact ⟨hlt.le, mem_append_left _ hmem⟩
  have hflush : Flushed (a + out.length) (st.buf.insert c x) _ _ _ := flushed_flush _ le_rfl
  set r := flush (Table.size (st.buf.insert c x)) (a + out.length) (st.buf.insert c x)
  have hend : a + (out ++ r.1).length = r.2.1 := by
    rw [hflush.next_eq, length_append, Nat.add_assoc]
  refine ⟨?_, fun i d hd => ?_, fun c' d hd => ?_, fun c' d hcd => ?_⟩
  · rw [hend]
  · by_cases hi : i < out.length
    · rw [getElem?_append_left hi] at hd
      exact mem_append_left _ (h.item i d hd)
    · rw [getElem?_append_right (not_lt.mp hi)] at hd
      have hitem := (hbuf _ d (hflush.item _ d hd)).2
      rwa [show a + out.length + (i - out.length) = a + i by omega] at hitem
  · rw [hend]
    obtain ⟨hd, hout⟩ := (hflush.rest c' d).mp hd
    obtain ⟨hle, hmem⟩ := hbuf c' d hd
    refine ⟨lt_of_le_of_ne (not_lt.mp fun hlt => hout ⟨hle, hlt⟩) ?_, hmem⟩
    rintro rfl
    rw [hflush.stops] at hd
    cases hd
  · rw [hend]
    refine (hflush.seen_iff c').mpr ?_
    rcases mem_append.mp hcd with hmem | hnew
    · exact (h.seen c' d hmem).imp_right fun hold => (AList.mem_insert _).mpr (Or.inr hold)
    · cases mem_singleton.mp hnew
      exact Or.inr ((AList.mem_insert _).mpr (Or.inl rfl))

theorem pushAll (h : Ordered a pushes st out) (more : List (ℕ × α)) :
    Ordered a (pushes ++ more) (rxPushAll st more).2 (out ++ (rxPushAll st more).1.flatten) := by
  induction more generalizing pushes st out with
  | nil => simpa [rxPushAll] using h
  | cons p more ih =>
      have hnext := ih (h.push p.1 p.2)
      rw [append_assoc, append_assoc] at hnext
      exact hnext

theorem lt_of_pushed (h : Ordered a pushes st out) {c : ℕ}
    (hall : ∀ c', a ≤ c' → c' ≤ c → ∃ d, (c', d) ∈ pushes) : c < a + out.length := by
  by_contra hlate
  obtain ⟨d, hd⟩ := hall (a + out.length) (Nat.le_add_right _ _) (not_lt.mp hlate)
  rcases h.seen _ d hd with hlt | hmem
  · exact lt_irrefl _ hlt
  · obtain ⟨x, hx⟩ := Option.isSome_iff_exists.mp (AList.lookup_isSome.mpr hmem)
    exact lt_irrefl _ (h.later _ x hx).1

end Ordered

theorem rxPushAll_take (st : RxState α) (pushes : List (ℕ × α)) (n : ℕ) :
    (rxPushAll st (pushes.take n)).1 = (rxPushAll st pushes).1.take n := by
  induction pushes generalizing st n with
  | nil => simp [rxPushAll]
  | cons p pushes ih =>
      cases n with
      | zero => rfl
      | succ n =>
          rw [take_succ_cons]
          simp only [rxPushAll, take_succ_cons, ih]

theorem ordered_rxPushAll (a : ℕ) (x : α) (more : List (ℕ × α)) :
    Ordered a ((a, x) :: more) (rxPushAll .new ((a, x) :: more)).2
      (rxPushAll .new ((a, x) :: more)).1.flatten :=
  (ordered_first a x).pushAll more

/-- The batches of a run whose first counter is `a` make up one run of counters from `a` on, in
order and without a gap, each with a payload that was pushed for it. After any number of calls the
counters are out up to which all have been pushed. No sum of the code overflows. -/
theorem rxPushAll_in_order (a : ℕ) (x : α) (pushes : List (ℕ × α))
    (hfirst : pushes.head? = some (a, x)) (hctr : ∀ p ∈ pushes, p.1 < 2 ^ 64 - 1) :
    (∀ i d, (rxPushAll .new pushes).1.flatten[i]? = some d → (a + i, d) ∈ pushes) ∧
      (∀ n c, a ≤ c → (∀ c', a ≤ c' → c' ≤ c → ∃ d, (c', d) ∈ pushes.take n) →
        c - a < ((rxPushAll .new pushes).1.take n).flatten.length) ∧
      ∃ next, (rxPushAll .new pushes).2.next = some next ∧ next ≤ 2 ^ 64 - 1 := by
  obtain ⟨more, rfl⟩ := head?_eq_some_iff.mp hfirst
  have hrun := ordered_rxPushAll a x more
  refine ⟨hrun.item, ?_, ?_⟩
  · intro n c hac hall
    rw [← rxPushAll_take]
    cases n with
    | zero =>
        obtain ⟨d, hd⟩ := hall c hac le_rfl
        cases hd
    | succ n =>
        rw [take_succ_cons] at hall ⊢
        have := (ordered_rxPushAll a x (more.take n)).lt_of_pushed hall
        omega
  · refine ⟨_, hrun.next_eq, ?_⟩
    set out := (rxPushAll .new ((a, x) :: more)).1.flatten
    have ha : a < 2 ^ 64 - 1 := hctr _ mem_cons_self
    by_cases hout : out.length = 0
    · omega
    · obtain ⟨d, hd⟩ : ∃ d, out[out.length - 1]? = some d :=
        ⟨_, getElem?_eq_getElem (by omega)⟩
      have := hctr _ (hrun.item _ d hd)
      simp only [] at this
      omega

/-- The third counter comes first but one, the second one twice. -/
theorem rxPushAll_in_order_seven :
    (rxPushAll .new [(7, 'a'), (9, 'c'), (8, 'b'), (8, 'x'), (3, 'y')]).1 =
        [['a'], [], ['b', 'c'], [], []] ∧
      8 - 7 < ((rxPushAll .new [(7, 'a'), (9, 'c'), (8, 'b'), (8, 'x'), (3, 'y')]).1.take
        3).flatten.length := by
  refine ⟨by decide, ?_⟩
  refine (rxPushAll_in_order 7 'a' [(7, 'a'), (9, 'c'), (8, 'b'), (8, 'x'), (3, 'y')] rfl
    (by simp)).2.1 3 8 (by decide) ?_
  intro c' h7 h8
  obtain rfl | rfl : c' = 7 ∨ c' = 8 := by omega
  · exact ⟨'a', by simp⟩
  · exact ⟨'b', by simp⟩

end Vantablack.Net
