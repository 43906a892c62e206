import Mathlib.Data.List.InsertIdx
import Mathlib.Data.List.TakeWhile
import Mathlib.Algebra.Order.Ring.Rat
import Vantablack.Lib.Table

/-!
The contact plan of `net/routing.rs`: the windows in which two nodes can see each other, and beside
them, for each node, where its contacts are, by the start of their windows. Times are rational
numbers of seconds.
-/

namespace Vantablack.Routing

open Lib List

abbrev NodeId := String

abbrev Timestamp := ℚ

def cKmS : ℚ := 299792458 / 1000

def fibreKmS : ℚ := cKmS / (1468 / 1000)

inductive LinkMedium where
  | laser
  | radio
  | fibre
  deriving DecidableEq

def LinkMedium.speedKmS : LinkMedium → ℚ
  | .laser | .radio => cKmS
  | .fibre => fibreKmS

structure Contact where
  source : NodeId
  destination : NodeId
  tStart : Timestamp
  tEnd : Timestamp
  xCap : ℚ
  rangeKm : ℚ
  medium : LinkMedium
  rateBps : ℚ
  measuredOwltSecs : Option ℚ
  deriving DecidableEq

namespace Contact

def new (source destination : NodeId) (tStart tEnd : Timestamp) (xCap : ℚ) : Contact where
  source := source
  destination := destination
  tStart := tStart
  tEnd := tEnd
  xCap := xCap
  rangeKm := 0
  medium := .laser
  rateBps := 0
  measuredOwltSecs := none

def windowSecs (c : Contact) : ℚ := max (c.tEnd - c.tStart) 0

def withRateBps (c : Contact) (rateBps : ℚ) : Contact :=
  { c with rateBps := max rateBps 0, xCap := max rateBps 0 * c.windowSecs }

def withMeasuredOwlt (c : Contact) (owltSecs : ℚ) : Contact :=
  { c with measuredOwltSecs := some (max owltSecs 0) }

/-- The one-way light time. -/
def owltSecs (c : Contact) : ℚ :=
  match c.measuredOwltSecs with
  | some m => m
  | none => max c.rangeKm 0 / c.medium.speedKmS

end Contact

def edgePresence (contact : Contact) (t : Timestamp) : Prop :=
  contact.tStart ≤ t ∧ t ≤ contact.tEnd
  deriving Decidable

/-! ### The plan -/

/-- The list of a node, empty if it has none. -/
def indicesOf (bySource : Table NodeId (List ℕ)) (node : NodeId) : List ℕ :=
  (bySource.lookup node).getD []

/-- The start of the window with the number `i`. -/
def startOf (contacts : List Contact) (i : ℕ) : Timestamp :=
  (contacts[i]?.map Contact.tStart).getD 0

/-- The list of each node has its contacts, once each, by the start of their windows. -/
structure Sorted (contacts : List Contact) (bySource : Table NodeId (List ℕ)) : Prop where
  mem : ∀ node i, i ∈ indicesOf bySource node ↔ ∃ c, contacts[i]? = some c ∧ c.source = node
  pairwise : ∀ node, (indicesOf bySource node).Pairwise fun i j =>
    startOf contacts i ≤ startOf contacts j
  nodup : ∀ node, (indicesOf bySource node).Nodup

structure ContactPlan where
  contacts : List Contact
  bySource : Table NodeId (List ℕ)
  sorted : Sorted contacts bySource

/-- The list with a new number in its place, after those that start no later. -/
def insertSorted (contacts : List Contact) (key : Timestamp) (idx : ℕ) (list : List ℕ) : List ℕ :=
  let pos := (list.takeWhile fun i => startOf contacts i ≤ key).length
  list.insertIdx pos idx

section

variable {contacts : List Contact} {bySource : Table NodeId (List ℕ)}

theorem indicesOf_insert (bySource : Table NodeId (List ℕ)) (source node : NodeId)
    (list : List ℕ) :
    indicesOf (bySource.insert source list) node =
      if node = source then list else indicesOf bySource node := by
  unfold indicesOf
  by_cases h : node = source
  · subst h
    rw [AList.lookup_insert, if_pos rfl]
    rfl
  · rw [AList.lookup_insert_ne h, if_neg h]

theorem insertIdx_length_left {α : Type*} (l l' : List α) (a : α) :
    (l ++ l').insertIdx l.length a = l ++ a :: l' := by
  induction l with
  | nil => rfl
  | cons b l ih => rw [cons_append, length_cons, insertIdx_succ_cons, ih]; rfl

theorem insertSorted_eq (key : Timestamp) (idx : ℕ) (list : List ℕ) :
    insertSorted contacts key idx list =
      (list.takeWhile fun i => startOf contacts i ≤ key) ++
        idx :: list.dropWhile fun i => startOf contacts i ≤ key := by
  have h := insertIdx_length_left (list.takeWhile fun i => startOf contacts i ≤ key)
    (list.dropWhile fun i => startOf contacts i ≤ key) idx
  rw [takeWhile_append_dropWhile] at h
  exact h

theorem perm_insertSorted (key : Timestamp) (idx : ℕ) (list : List ℕ) :
    (insertSorted contacts key idx list).Perm (idx :: list) := by
  rw [insertSorted_eq]
  refine perm_middle.trans ?_
  rw [takeWhile_append_dropWhile]

variable {i : ℕ}

theorem lt_startOf_of_mem_dropWhile {key : Timestamp} {list : List ℕ}
    (hsorted : list.Pairwise fun i j => startOf contacts i ≤ startOf contacts j)
    (hi : i ∈ list.dropWhile fun i => startOf contacts i ≤ key) : key < startOf contacts i := by
  induction list with
  | nil => cases hi
  | cons j list ih =>
      obtain ⟨hj, hlist⟩ := pairwise_cons.mp hsorted
      by_cases hle : startOf contacts j ≤ key
      · rw [dropWhile_cons_of_pos (by simpa using hle)] at hi
        exact ih hlist hi
      · rw [dropWhile_cons_of_neg (by simpa using hle)] at hi
        have hlt := not_le.mp hle
        rcases mem_cons.mp hi with rfl | hi
        · exact hlt
        · exact hlt.trans_le (hj i hi)

theorem pairwise_insertSorted {key : Timestamp} {idx : ℕ} {list : List ℕ}
    (hsorted : list.Pairwise fun i j => startOf contacts i ≤ startOf contacts j)
    (hidx : startOf contacts idx = key) :
    (insertSorted contacts key idx list).Pairwise fun i j =>
      startOf contacts i ≤ startOf contacts j := by
  rw [insertSorted_eq]
  have hbefore : ∀ i ∈ list.takeWhile fun i => startOf contacts i ≤ key,
      startOf contacts i ≤ key := by
    intro i hi
    simpa using mem_takeWhile_imp hi
  have hafter : ∀ i ∈ list.dropWhile fun i => startOf contacts i ≤ key,
      key ≤ startOf contacts i :=
    fun i hi => (lt_startOf_of_mem_dropWhile hsorted hi).le
  refine pairwise_append.mpr ⟨hsorted.sublist (takeWhile_sublist _),
    pairwise_cons.mpr ⟨?_, hsorted.sublist (dropWhile_sublist _)⟩, ?_⟩
  · intro i hi
    rw [hidx]
    exact hafter i hi
  · intro i hi j hj
    rcases mem_cons.mp hj with rfl | hj
    · rw [hidx]
      exact hbefore i hi
    · exact (hbefore i hi).trans (hafter j hj)

/-! ### A new contact -/

theorem sorted_empty : Sorted [] ∅ where
  mem := by
    intro node i
    simp [indicesOf]
  pairwise := by
    intro node
    simp [indicesOf]
  nodup := by
    intro node
    simp [indicesOf]

theorem Sorted.lt_length (h : Sorted contacts bySource) {node : NodeId}
    (hi : i ∈ indicesOf bySource node) : i < contacts.length := by
  obtain ⟨c, hc, -⟩ := (h.mem node i).mp hi
  exact (List.getElem?_eq_some_iff.mp hc).1

theorem startOf_append_of_lt (contact : Contact) (h : i < contacts.length) :
    startOf (contacts ++ [contact]) i = startOf contacts i := by
  unfold startOf
  rw [getElem?_append_left h]

theorem startOf_append_length (contact : Contact) :
    startOf (contacts ++ [contact]) contacts.length = contact.tStart := by
  simp [startOf]

theorem Sorted.pairwise_append (h : Sorted contacts bySource) (contact : Contact) (node : NodeId) :
    (indicesOf bySource node).Pairwise fun i j =>
      startOf (contacts ++ [contact]) i ≤ startOf (contacts ++ [contact]) j := by
  refine (h.pairwise node).imp_of_mem ?_
  intro i j hi hj hle
  rw [startOf_append_of_lt _ (h.lt_length hi), startOf_append_of_lt _ (h.lt_length hj)]
  exact hle

theorem getElem?_concat_eq_some {α : Type*} {l : List α} {a b : α} :
    (l ++ [a])[i]? = some b ↔ l[i]? = some b ∨ (i = l.length ∧ b = a) := by
  rcases Nat.lt_trichotomy i l.length with hlt | rfl | hgt
  · rw [getElem?_append_left hlt]
    exact ⟨Or.inl, fun h => h.resolve_right fun hi => hlt.ne hi.1⟩
  · simp [eq_comm]
  · have hlong : (l ++ [a]).length ≤ i := by
      rw [length_append, length_singleton]
      exact hgt
    rw [getElem?_eq_none hlong, getElem?_eq_none hgt.le]
    simp [hgt.ne']

theorem exists_concat_iff {contact : Contact} {node : NodeId} :
    (∃ c, (contacts ++ [contact])[i]? = some c ∧ c.source = node) ↔
      (i = contacts.length ∧ node = contact.source) ∨
        ∃ c, contacts[i]? = some c ∧ c.source = node := by
  simp only [getElem?_concat_eq_some]
  constructor
  · rintro ⟨c, hc | ⟨hi, rfl⟩, hsource⟩
    · exact Or.inr ⟨c, hc, hsource⟩
    · exact Or.inl ⟨hi, hsource.symm⟩
  · rintro (⟨hi, hsource⟩ | ⟨c, hc, hsource⟩)
    · exact ⟨contact, Or.inr ⟨hi, rfl⟩, hsource.symm⟩
    · exact ⟨c, Or.inl hc, hsource⟩

theorem Sorted.append (h : Sorted contacts bySource) (contact : Contact) :
    Sorted (contacts ++ [contact]) (bySource.insert contact.source
      (insertSorted (contacts ++ [contact]) contact.tStart contacts.length
        (indicesOf bySource contact.source))) where
  mem := by
    intro node i
    rw [exists_concat_iff, indicesOf_insert, ← h.mem node i]
    by_cases hnode : node = contact.source
    · rw [if_pos hnode, (perm_insertSorted _ _ _).mem_iff, mem_cons, ← hnode]
      simp
    · rw [if_neg hnode]
      simp [hnode]
  pairwise := by
    intro node
    rw [indicesOf_insert]
    split
    · exact pairwise_insertSorted (h.pairwise_append contact _) (startOf_append_length contact)
    · exact h.pairwise_append contact node
  nodup := by
    intro node
    rw [indicesOf_insert]
    split
    · refine (perm_insertSorted _ _ _).nodup_iff.mpr (nodup_cons.mpr ⟨?_, h.nodup _⟩)
      intro hmem
      exact Nat.lt_irrefl _ (h.lt_length hmem)
    · exact h.nodup node

theorem Sorted.modify (h : Sorted contacts bySource) (i : ℕ) {f : Contact → Contact}
    (hsource : ∀ c, (f c).source = c.source) (hstart : ∀ c, (f c).tStart = c.tStart) :
    Sorted (contacts.modify i f) bySource := by
  have hget : ∀ j, (contacts.modify i f)[j]? =
      contacts[j]?.map fun c => if i = j then f c else c := fun j => getElem?_modify ..
  have hstartOf : ∀ j, startOf (contacts.modify i f) j = startOf contacts j := by
    intro j
    unfold startOf
    rw [hget j]
    cases contacts[j]? with
    | none => rfl
    | some c =>
        by_cases hj : i = j
        · simp [hj, hstart]
        · simp [hj]
  refine ⟨?_, ?_, h.nodup⟩
  · intro node j
    rw [h.mem node j, hget j]
    cases contacts[j]? with
    | none => simp
    | some c =>
        by_cases hj : i = j
        · simp [hj, hsource]
        · simp [hj]
  · intro node
    simp only [hstartOf]
    exact h.pairwise node

end

/-! ### The operations -/

namespace ContactPlan

/-- `ContactPlan::default`. -/
def empty : ContactPlan := { contacts := [], bySource := ∅, sorted := sorted_empty }

def addContact (plan : ContactPlan) (contact : Contact) : ContactPlan :=
  let idx := plan.contacts.length
  let contacts := plan.contacts ++ [contact]
  let list := indicesOf plan.bySource contact.source
  { contacts := contacts
    bySource := plan.bySource.insert contact.source
      (insertSorted contacts contact.tStart idx list)
    sorted := plan.sorted.append contact }

def contactsFrom (plan : ContactPlan) (node : NodeId) : List Contact :=
  (indicesOf plan.bySource node).filterMap fun i => plan.contacts[i]?

/-- A contact of the plan changes in place. -/
def update (plan : ContactPlan) (i : ℕ) (f : Contact → Contact)
    (hsource : ∀ c, (f c).source = c.source) (hstart : ∀ c, (f c).tStart = c.tStart) :
    ContactPlan :=
  { plan with
    contacts := plan.contacts.modify i f
    sorted := plan.sorted.modify i hsource hstart }

end ContactPlan

/-- What a measurement makes of a live contact. -/
def Contact.refresh (c : Contact) (owlt : ℚ) (tEnd : Timestamp) (rateBps : ℚ) : Contact :=
  let c := { c with tEnd := max c.tEnd tEnd }
  let c := { c with measuredOwltSecs := some owlt }
  let c := { c with rangeKm := c.medium.speedKmS * owlt }
  let c := if 0 < rateBps then { c with rateBps := rateBps } else c
  { c with xCap := max c.rateBps 1 * c.windowSecs }

theorem Contact.refresh_frame (c : Contact) (owlt : ℚ) (tEnd : Timestamp) (rateBps : ℚ) :
    (c.refresh owlt tEnd rateBps).source = c.source ∧
      (c.refresh owlt tEnd rateBps).destination = c.destination ∧
      (c.refresh owlt tEnd rateBps).tStart = c.tStart ∧
      (c.refresh owlt tEnd rateBps).tEnd = max c.tEnd tEnd ∧
      (c.refresh owlt tEnd rateBps).owltSecs = owlt := by
  unfold refresh
  by_cases hrate : 0 < rateBps
  · simp [hrate, owltSecs]
  · simp [hrate, owltSecs]

/-- The contact of a first measurement. -/
def Contact.measured (source dest : NodeId) (owlt : ℚ) (now tEnd : Timestamp)
    (windowSecs rateBps : ℚ) : Contact :=
  { (Contact.new source dest now tEnd (max rateBps 1 * windowSecs)).withMeasuredOwlt owlt with
    rateBps := rateBps
    medium := .laser
    rangeKm := cKmS * owlt }

namespace ContactPlan

/-- The first contact of the pair, by the start of its window, that has not ended. -/
def live (plan : ContactPlan) (source dest : NodeId) (now : Timestamp) : Option ℕ :=
  (indicesOf plan.bySource source).find? fun i =>
    plan.contacts[i]?.any fun c => c.destination = dest && now ≤ c.tEnd

def observeLink (plan : ContactPlan) (source dest : NodeId) (rtt : ℚ≥0) (now : Timestamp)
    (windowSecs rateBps : ℚ) : ContactPlan :=
  let owlt := max ((rtt : ℚ) / 2) 0
  let windowSecs := max windowSecs 0
  let tEnd := now + windowSecs
  match plan.live source dest now with
  | some i =>
      plan.update i (·.refresh owlt tEnd rateBps) (fun c => (c.refresh_frame ..).1)
        fun c => (c.refresh_frame ..).2.2.1
  | none => plan.addContact (.measured source dest owlt now tEnd windowSecs rateBps)

theorem mem_contactsFrom {plan : ContactPlan} {node : NodeId} {c : Contact} :
    c ∈ plan.contactsFrom node ↔ c ∈ plan.contacts ∧ c.source = node := by
  unfold contactsFrom
  rw [mem_filterMap, mem_iff_getElem?]
  constructor
  · rintro ⟨i, hi, hc⟩
    obtain ⟨c', hc', hsource⟩ := (plan.sorted.mem node i).mp hi
    rw [hc] at hc'
    cases hc'
    exact ⟨⟨i, hc⟩, hsource⟩
  · rintro ⟨⟨i, hc⟩, hsource⟩
    exact ⟨i, (plan.sorted.mem node i).mpr ⟨c, hc, hsource⟩, hc⟩

end ContactPlan

end Vantablack.Routing
