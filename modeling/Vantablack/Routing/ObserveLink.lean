import Vantablack.Routing.EarliestArrival

/-!
What `observe_link` of `net/routing.rs` leaves for the search: the link that was just measured can be
used at once, unless the contact that takes the measurement has not begun.
-/

namespace Vantablack.Routing

open Lib LabelSetting List

def Joins (source dest : NodeId) (c : Contact) : Prop := c.source = source ∧ c.destination = dest

/-- A contact with the measured light time is there for the whole window, so that data can arrive
after half of the round trip. -/
structure LinkUsable (plan : ContactPlan) (source dest : NodeId) (rtt : ℚ≥0) (now : Timestamp)
    (windowSecs : ℚ) : Prop where
  present : ∃ c ∈ plan.contacts, Joins source dest c ∧ c.owltSecs = rtt / 2 ∧
    ∀ t, now ≤ t → t ≤ now + windowSecs → edgePresence c t
  arrival : source ≠ dest → ∃ j, plan.findEarliestArrival source dest now = some j ∧
    j.arrivalTime ≤ now + rtt / 2

/-- Each contact of the pair has ended, or one is open. -/
def OpenOrEnded (plan : ContactPlan) (source dest : NodeId) (now : Timestamp) : Prop :=
  (∀ c ∈ plan.contacts, Joins source dest c → c.tEnd < now) ∨
    ∃ c ∈ plan.contacts, Joins source dest c ∧ edgePresence c now

section

variable {plan : ContactPlan} {source dest : NodeId} {now : Timestamp}

theorem live_eq_none (h : plan.live source dest now = none) :
    ∀ c ∈ plan.contacts, Joins source dest c → c.tEnd < now := by
  rintro c hc ⟨hsource, hdest⟩
  obtain ⟨i, hi⟩ := mem_iff_getElem?.mp hc
  have hnot := find?_eq_none.mp h i ((plan.sorted.mem source i).mpr ⟨c, hi, hsource⟩)
  rw [hi] at hnot
  simpa [hdest] using hnot

theorem live_eq_some {i : ℕ} (h : plan.live source dest now = some i) :
    ∃ c, plan.contacts[i]? = some c ∧ Joins source dest c ∧ now ≤ c.tEnd ∧
      ∀ c' ∈ plan.contacts, Joins source dest c' → now ≤ c'.tEnd → c.tStart ≤ c'.tStart := by
  obtain ⟨hi, before, after, hlist, hbefore⟩ := find?_eq_some_iff_append.mp h
  have hmem : i ∈ indicesOf plan.bySource source := by
    rw [hlist]
    exact mem_append_right _ mem_cons_self
  obtain ⟨c, hc, hsource⟩ := (plan.sorted.mem source i).mp hmem
  rw [hc] at hi
  obtain ⟨hdest, hlive⟩ : c.destination = dest ∧ now ≤ c.tEnd := by simpa using hi
  refine ⟨c, hc, ⟨hsource, hdest⟩, hlive, ?_⟩
  rintro c' hc' ⟨hsource', hdest'⟩ hlive'
  obtain ⟨k, hk⟩ := mem_iff_getElem?.mp hc'
  have hkmem := (plan.sorted.mem source k).mpr ⟨c', hk, hsource'⟩
  have hsorted := plan.sorted.pairwise source
  rw [hlist] at hkmem hsorted
  rcases mem_append.mp hkmem with hkmem | hkmem
  · -- those before it are not live
    have hnot := hbefore k hkmem
    rw [hk] at hnot
    simp [hdest', hlive'] at hnot
  · rcases mem_cons.mp hkmem with rfl | hkmem
    · rw [hc] at hk
      cases hk
      exact le_refl _
    · have hle := (pairwise_cons.mp (pairwise_append.mp hsorted).2.1).1 k hkmem
      unfold startOf at hle
      rw [hc, hk] at hle
      exact hle

/-! ### What the measurement leaves -/

theorem findEarliestArrival_le {c : Contact} (hc : c ∈ plan.contacts)
    (hne : c.source ≠ c.destination) (hpresence : edgePresence c now) (howlt : 0 ≤ c.owltSecs) :
    ∃ j, plan.findEarliestArrival c.source c.destination now = some j ∧
      j.arrivalTime ≤ now + c.owltSecs := by
  obtain ⟨ℓ, hℓ⟩ := exists_keepsLeast plan c.source c.destination now .default
  have hpass : Passable .default c.source c.destination c :=
    ⟨hne.symm, Finset.notMem_empty _, fun _ => Finset.notMem_empty _, howlt⟩
  obtain ⟨label, hlabel, hle⟩ := hℓ.le_of_hop hℓ.start (Nat.succ_pos _) (le_refl _) hc hpass
    hpresence (by simp [RouteOptions.default])
  rcases findEarliestArrivalWith_spec plan hne now .default with
    ⟨j, hj, hroute, harrival, hkept⟩ | ⟨-, hnone⟩
  · refine ⟨j, hj, ?_⟩
    have hlast := (hkept ℓ hℓ).label (hroute.ne_nil hne) c.source now
    rw [hroute.endNode_eq, hlabel] at hlast
    have hsame : label.arrival = endTime now j.contacts :=
      congrArg Label.arrival (Option.some.inj hlast)
    rw [harrival, ← hsame]
    exact (Prod.Lex.toLex_le_toLex'.mp hle).1
  · rw [hnone ℓ hℓ] at hlabel
    cases hlabel

variable {windowSecs : ℚ}

theorem linkUsable_of_contact {rtt : ℚ≥0} (hwindow : 0 ≤ windowSecs) {c : Contact}
    (hc : c ∈ plan.contacts) (hjoins : Joins source dest c) (hstart : c.tStart ≤ now)
    (hend : now + windowSecs ≤ c.tEnd) (howlt : c.owltSecs = rtt / 2) :
    LinkUsable plan source dest rtt now windowSecs where
  present := ⟨c, hc, hjoins, howlt, fun _ hlo hhi => ⟨hstart.trans hlo, hhi.trans hend⟩⟩
  arrival := by
    intro hne
    obtain ⟨rfl, rfl⟩ := hjoins
    have hnow : now ≤ c.tEnd := (le_add_of_nonneg_right hwindow).trans hend
    have howlt' : 0 ≤ c.owltSecs := by
      rw [howlt]
      exact div_nonneg rtt.coe_nonneg zero_le_two
    rw [← howlt]
    exact findEarliestArrival_le hc hne ⟨hstart, hnow⟩ howlt'

theorem max_half (rtt : ℚ≥0) : max ((rtt : ℚ) / 2) 0 = rtt / 2 :=
  max_eq_left (div_nonneg rtt.coe_nonneg zero_le_two)

theorem observeLink_of_live {i : ℕ} (hlive : plan.live source dest now = some i) (rtt : ℚ≥0)
    (hwindow : 0 ≤ windowSecs) (rateBps : ℚ) :
    (plan.observeLink source dest rtt now windowSecs rateBps).contacts =
      plan.contacts.modify i (·.refresh (rtt / 2) (now + windowSecs) rateBps) := by
  rw [ContactPlan.observeLink]
  simp only [hlive, ContactPlan.update, max_half, max_eq_left hwindow]

theorem observeLink_of_none (hlive : plan.live source dest now = none) (rtt : ℚ≥0)
    (hwindow : 0 ≤ windowSecs) (rateBps : ℚ) :
    (plan.observeLink source dest rtt now windowSecs rateBps).contacts =
      plan.contacts ++
        [.measured source dest (rtt / 2) now (now + windowSecs) windowSecs rateBps] := by
  rw [ContactPlan.observeLink]
  simp only [hlive, ContactPlan.addContact, max_half, max_eq_left hwindow]

theorem owltSecs_measured (source dest : NodeId) (rtt : ℚ≥0) (now tEnd : Timestamp)
    (windowSecs rateBps : ℚ) :
    (Contact.measured source dest (rtt / 2) now tEnd windowSecs rateBps).owltSecs = rtt / 2 :=
  max_half rtt

theorem OpenOrEnded.linkUsable (h : OpenOrEnded plan source dest now) (rtt : ℚ≥0)
    (hwindow : 0 ≤ windowSecs) (rateBps : ℚ) :
    LinkUsable (plan.observeLink source dest rtt now windowSecs rateBps) source dest rtt now
      windowSecs := by
  cases hlive : plan.live source dest now with
  | none =>
      have hmem : Contact.measured source dest (rtt / 2) now (now + windowSecs) windowSecs rateBps ∈
          (plan.observeLink source dest rtt now windowSecs rateBps).contacts := by
        rw [observeLink_of_none hlive rtt hwindow]
        exact mem_append_right _ mem_cons_self
      exact linkUsable_of_contact hwindow hmem ⟨rfl, rfl⟩ (le_refl now) (le_refl _)
        (owltSecs_measured ..)
  | some i =>
      obtain ⟨c, hc, hjoins, hnow, hfirst⟩ := live_eq_some hlive
      obtain ⟨hsource, hdest, hstart, hend, howlt⟩ :=
        c.refresh_frame (rtt / 2) (now + windowSecs) rateBps
      rcases h with hended | ⟨c', hc', hjoins', hopen⟩
      · exact absurd (hended c (mem_of_getElem? hc) hjoins) (not_lt.mpr hnow)
      · -- the first live contact starts no later than the one that is open
        have hle := hfirst c' hc' hjoins' hopen.2
        have hmem : c.refresh (rtt / 2) (now + windowSecs) rateBps ∈
            (plan.observeLink source dest rtt now windowSecs rateBps).contacts := by
          rw [observeLink_of_live hlive rtt hwindow]
          refine mem_of_getElem? (i := i) ?_
          rw [getElem?_modify, hc]
          exact congrArg some (if_pos rfl)
        refine linkUsable_of_contact hwindow hmem ⟨hsource.trans hjoins.1, hdest.trans hjoins.2⟩ ?_
          ?_ howlt
        · rw [hstart]
          exact hle.trans hopen.1
        · rw [hend]
          exact le_max_right _ _

theorem mem_observeLink_of_live {i : ℕ} (hlive : plan.live source dest now = some i) (rtt : ℚ≥0)
    (hwindow : 0 ≤ windowSecs) (rateBps : ℚ) {c : Contact}
    (hc : c ∈ (plan.observeLink source dest rtt now windowSecs rateBps).contacts) :
    ∃ old ∈ plan.contacts, c.tStart = old.tStart ∧ (c = old ∨ plan.contacts[i]? = some old) := by
  rw [observeLink_of_live hlive rtt hwindow] at hc
  obtain ⟨k, hk⟩ := mem_iff_getElem?.mp hc
  rw [getElem?_modify] at hk
  obtain ⟨old, hold, rfl⟩ := Option.map_eq_some_iff.mp hk
  refine ⟨old, mem_of_getElem? hold, ?_⟩
  by_cases hik : i = k
  · subst hik
    rw [if_pos rfl]
    exact ⟨(old.refresh_frame _ _ _).2.2.1, Or.inr hold⟩
  · rw [if_neg hik]
    exact ⟨rfl, Or.inl rfl⟩

/-- The link that was measured can be used exactly if each contact of the pair had ended or one was
open: a contact that has not begun keeps its start. -/
theorem linkUsable_observeLink_iff (plan : ContactPlan) (source dest : NodeId) (rtt : ℚ≥0)
    (now : Timestamp) (windowSecs rateBps : ℚ) (hwindow : 0 ≤ windowSecs) :
    LinkUsable (plan.observeLink source dest rtt now windowSecs rateBps) source dest rtt now
        windowSecs ↔
      OpenOrEnded plan source dest now := by
  refine ⟨fun h => ?_, fun h => h.linkUsable rtt hwindow rateBps⟩
  cases hlive : plan.live source dest now with
  | none => exact Or.inl (live_eq_none hlive)
  | some i =>
      obtain ⟨first, hfirst, hjoins, hnow, -⟩ := live_eq_some hlive
      obtain ⟨c, hc, hjoins', -, hpresence⟩ := h.present
      have hopen := hpresence now (le_refl now) (le_add_of_nonneg_right hwindow)
      obtain ⟨old, hold, hstart, rfl | hchanged⟩ :=
        mem_observeLink_of_live hlive rtt hwindow rateBps hc
      · exact Or.inr ⟨c, hold, hjoins', hopen⟩
      · rw [hfirst] at hchanged
        cases hchanged
        exact Or.inr ⟨first, hold, hjoins, hstart ▸ hopen.1, hnow⟩

/-! ### Measurements only -/

/-- A plan in which no window lies ahead. -/
def Begun (plan : ContactPlan) (now : Timestamp) : Prop := ∀ c ∈ plan.contacts, c.tStart ≤ now

theorem Begun.openOrEnded (h : Begun plan now) (source dest : NodeId) :
    OpenOrEnded plan source dest now := by
  by_cases hopen : ∃ c ∈ plan.contacts, Joins source dest c ∧ now ≤ c.tEnd
  · obtain ⟨c, hc, hjoins, hnow⟩ := hopen
    exact Or.inr ⟨c, hc, hjoins, h c hc, hnow⟩
  · exact Or.inl fun c hc hjoins => not_le.mp fun hnow => hopen ⟨c, hc, hjoins, hnow⟩

theorem Begun.observeLink (h : Begun plan now) (source dest : NodeId) (rtt : ℚ≥0)
    (hwindow : 0 ≤ windowSecs) (rateBps : ℚ) {later : Timestamp} (hlater : now ≤ later) :
    Begun (plan.observeLink source dest rtt now windowSecs rateBps) later := by
  intro c hc
  refine le_trans ?_ hlater
  cases hlive : plan.live source dest now with
  | none =>
      rw [observeLink_of_none hlive rtt hwindow] at hc
      rcases mem_append.mp hc with hc | hc
      · exact h c hc
      · obtain rfl := mem_singleton.mp hc
        exact le_refl now
  | some i =>
      obtain ⟨old, hold, hstart, -⟩ := mem_observeLink_of_live hlive rtt hwindow rateBps hc
      rw [hstart]
      exact h old hold

structure Measurement where
  source : NodeId
  dest : NodeId
  rtt : ℚ≥0
  now : Timestamp
  windowSecs : ℚ≥0
  rateBps : ℚ

def observeAll : List Measurement → ContactPlan :=
  foldl (fun plan m => plan.observeLink m.source m.dest m.rtt m.now m.windowSecs m.rateBps)
    ContactPlan.empty

theorem observeAll_append (ms : List Measurement) (m : Measurement) :
    observeAll (ms ++ [m]) =
      (observeAll ms).observeLink m.source m.dest m.rtt m.now m.windowSecs m.rateBps :=
  foldl_append ..

theorem begun_observeAll {ms : List Measurement} (hms : ms.Pairwise fun m m' => m.now ≤ m'.now)
    (hlater : ∀ m ∈ ms, m.now ≤ now) : Begun (observeAll ms) now := by
  induction ms using reverseRecOn generalizing now with
  | nil => exact fun c hc => absurd hc not_mem_nil
  | append_singleton ms m ih =>
      obtain ⟨hms, -, hm⟩ := pairwise_append.mp hms
      rw [observeAll_append]
      exact (ih hms fun m' hm' => hm m' hm' m mem_cons_self).observeLink m.source m.dest m.rtt
        m.windowSecs.coe_nonneg m.rateBps
        (hlater m (mem_append_right _ mem_cons_self))

/-- In a plan that only measurements have filled, one after the other, each leaves a link that can be
used. -/
theorem linkUsable_observeAll {ms : List Measurement} {m : Measurement}
    (hms : (ms ++ [m]).Pairwise fun m m' => m.now ≤ m'.now) :
    LinkUsable (observeAll (ms ++ [m])) m.source m.dest m.rtt m.now m.windowSecs := by
  obtain ⟨hms, -, hm⟩ := pairwise_append.mp hms
  rw [observeAll_append]
  have hbegun : Begun (observeAll ms) m.now :=
    begun_observeAll hms fun m' hm' => hm m' hm' m mem_cons_self
  exact (hbegun.openOrEnded m.source m.dest).linkUsable m.rtt m.windowSecs.coe_nonneg m.rateBps

end

def plannedPlan : ContactPlan := ContactPlan.empty.addContact (Contact.new "a" "b" 100 200 0)

/-- A round trip is measured at the instant 0; the planned window takes the measurement, and begins at
100 all the same. -/
theorem plannedPlan_not_usable :
    ¬ LinkUsable (plannedPlan.observeLink "a" "b" 1 0 30 0) "a" "b" 1 0 30 := by
  intro h
  obtain ⟨c, hc, -, -, hpresence⟩ := h.present
  have hstart : ∀ c ∈ (plannedPlan.observeLink "a" "b" 1 0 30 0).contacts, 0 < c.tStart := by
    decide +kernel
  exact absurd (hpresence 0 (le_refl 0) (by decide +kernel)).1 (not_le.mpr (hstart c hc))

/-- With no window planned the link can be used. -/
theorem empty_usable :
    LinkUsable (ContactPlan.empty.observeLink "a" "b" 1 0 30 0) "a" "b" 1 0 30 :=
  (linkUsable_observeLink_iff ContactPlan.empty "a" "b" 1 0 30 0 (by decide)).mpr
    (Or.inl fun _ hc => absurd hc not_mem_nil)

def twoMeasurements : List Measurement :=
  [⟨"a", "b", 1, 0, 30, 0⟩, ⟨"b", "c", 1, 10, 30, 0⟩]

theorem linkUsable_twice :
    LinkUsable (observeAll (twoMeasurements ++ [⟨"a", "b", 3, 20, 30, 0⟩])) "a" "b" 3 20 30 :=
  @linkUsable_observeAll twoMeasurements ⟨"a", "b", 3, 20, 30, 0⟩ (by decide +kernel)

end Vantablack.Routing
