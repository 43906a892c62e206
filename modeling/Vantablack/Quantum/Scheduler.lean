import Mathlib
import Vantablack.Lib.Heap
import Vantablack.Lib.Runs
import Vantablack.Lib.Table

/-!
The discrete-event scheduler of `core/scheduler.py`. Pending events are in a heap that compares
their times alone; an event has a number, too, that no comparison looks at.

A handler is a function of what it is called with, of the queue and of a world that the handlers
share. What it does is a list of further events to schedule. Times are of any linear order with an
addition of which nothing is assumed.
-/

namespace Vantablack.Quantum

open Lib List

structure Event (τ V : Type*) where
  time : τ
  seq : ℕ
  kind : String
  nodeId : String
  payload : Table String V

/-- A call of one of the three `schedule` methods. -/
inductive ScheduleCall (τ V : Type*) where
  | schedule (time : τ) (kind nodeId : String) (payload : Option (Table String V))
  | scheduleNow (kind nodeId : String) (payload : Option (Table String V))
  | scheduleRelative (delta : τ) (kind nodeId : String) (payload : Option (Table String V))

structure Scheduler (H τ V : Type*) where
  queue : Array (Event τ V)
  seq : ℕ
  time : τ
  handlers : Table String (List H)

variable {H W τ V : Type*} [LinearOrder τ] [Add τ]

namespace Scheduler

def new [Zero τ] : Scheduler H τ V := ⟨#[], 0, 0, ∅⟩

/-- The event that a call of `schedule` makes. -/
def newEvent (s : Scheduler H τ V) (time : τ) (kind nodeId : String)
    (payload : Option (Table String V)) : Event τ V :=
  { time := time, seq := s.seq + 1, kind := kind, nodeId := nodeId, payload := payload.getD ∅ }

def eventOf (s : Scheduler H τ V) : ScheduleCall τ V → Event τ V
  | .schedule time kind nodeId payload => s.newEvent time kind nodeId payload
  | .scheduleNow kind nodeId payload => s.newEvent s.time kind nodeId payload
  | .scheduleRelative delta kind nodeId payload => s.newEvent (s.time + delta) kind nodeId payload

def schedule (s : Scheduler H τ V) (c : ScheduleCall τ V) : Scheduler H τ V :=
  { s with seq := s.seq + 1, queue := Heap.heappush Event.time s.queue (s.eventOf c) }

def on (s : Scheduler H τ V) (kind : String) (handler : H) : Scheduler H τ V :=
  { s with
    handlers := s.handlers.insert kind ((s.handlers.lookup kind).getD [] ++ [handler]) }

/-- A handler that is not registered is left alone. -/
def off [DecidableEq H] (s : Scheduler H τ V) (kind : String) (handler : H) : Scheduler H τ V :=
  { s with
    handlers := s.handlers.insert kind (((s.handlers.lookup kind).getD []).erase handler) }

end Scheduler

/-- What a handler does when it is called with a node, a kind, a payload and the time. -/
abbrev EventHandler (W τ V : Type*) :=
  String → String → Table String V → τ → Array (Event τ V) → W → List (ScheduleCall τ V) × W

/-- A scheduler in use, with all events that were executed and all that were scheduled, the oldest
first. `onTime` says that none was scheduled for a time before the current one, and `apart` that
none was scheduled for a time at which another one was pending. -/
structure Simulation (H W τ V : Type*) where
  scheduler : Scheduler H τ V
  world : W
  executed : List (Event τ V)
  scheduled : List (Event τ V)
  onTime : Bool
  apart : Bool

namespace Simulation

def start [Zero τ] (world : W) : Simulation H W τ V := ⟨.new, world, [], [], true, true⟩

def schedule (s : Simulation H W τ V) (c : ScheduleCall τ V) : Simulation H W τ V :=
  { s with
    scheduler := s.scheduler.schedule c
    scheduled := s.scheduled ++ [s.scheduler.eventOf c]
    onTime := s.onTime && decide (s.scheduler.time ≤ (s.scheduler.eventOf c).time)
    apart := s.apart && s.scheduler.queue.toList.all fun e =>
      decide (e.time ≠ (s.scheduler.eventOf c).time) }

variable (call : H → EventHandler W τ V)

def handle (ev : Event τ V) (s : Simulation H W τ V) (handler : H) : Simulation H W τ V :=
  let (calls, world) := call handler ev.nodeId ev.kind ev.payload s.scheduler.time
    s.scheduler.queue s.world
  calls.foldl schedule { s with world := world }

def popped (s : Simulation H W τ V) (ev : Event τ V) (rest : Array (Event τ V)) :
    Simulation H W τ V :=
  { s with
    scheduler := { s.scheduler with queue := rest, time := ev.time }
    executed := s.executed ++ [ev] }

/-- The next event is executed: all its handlers are called. -/
def execute (s : Simulation H W τ V) : Option (Simulation H W τ V) :=
  match Heap.heappop Event.time s.scheduler.queue with
  | none => none
  | some (ev, rest) =>
      let s := s.popped ev rest
      some (((s.scheduler.handlers.lookup ev.kind).getD []).foldl (handle call ev) s)

def step (s : Simulation H W τ V) : Simulation H W τ V × Bool :=
  match s.execute call with
  | none => (s, false)
  | some s => (s, true)

/-- The loop of `run` up to `fuel` times, with the number of events executed before. It ends when
the queue is empty or after `maxSteps` events, if that is not zero. -/
def run (maxSteps : ℕ) : ℕ → ℕ → Simulation H W τ V → Simulation H W τ V × ℕ
  | 0, count, s => (s, count)
  | fuel + 1, count, s =>
      if maxSteps ≠ 0 ∧ maxSteps ≤ count then (s, count)
      else
        match s.execute call with
        | none => (s, count)
        | some s => run maxSteps fuel (count + 1) s

end Simulation

/-- What happens to a scheduler from outside. -/
inductive SchedulerAction (H τ V : Type*) where
  | schedule (c : ScheduleCall τ V)
  | on (kind : String) (handler : H)
  | off (kind : String) (handler : H)
  | step

namespace Simulation

section Runs

variable [DecidableEq H] (call : H → EventHandler W τ V)

def next (s : Simulation H W τ V) : SchedulerAction H τ V → Simulation H W τ V
  | .schedule c => s.schedule c
  | .on kind handler => { s with scheduler := s.scheduler.on kind handler }
  | .off kind handler => { s with scheduler := s.scheduler.off kind handler }
  | .step => (s.step call).1

theorem run_eq (maxSteps fuel : ℕ) (s : Simulation H W τ V) (count : ℕ) :
    ∃ k, s.run call maxSteps fuel count =
      ((replicate k .step).foldl (next call) s, count + k) := by
  induction fuel generalizing s count with
  | zero => exact ⟨0, rfl⟩
  | succ fuel ih =>
      rw [run]
      split
      · exact ⟨0, rfl⟩
      · cases hexecute : s.execute call with
        | none => exact ⟨0, rfl⟩
        | some s' =>
            obtain ⟨k, hk⟩ := ih s' (count + 1)
            have hstep : s.next call .step = s' := by rw [next, step, hexecute]
            refine ⟨k + 1, ?_⟩
            rw [replicate_succ, foldl_cons, hstep, ← Nat.add_assoc, Nat.add_right_comm]
            exact hk

end Runs

/-- The event was executed before the one at place `j`. -/
def ExecutedBefore (s : Simulation H W τ V) (e : Event τ V) (j : ℕ) : Prop :=
  ∃ i < j, s.executed[i]? = some e

/-- Events are executed in the order of their times and, of one time, in the order in which they
were scheduled. Each has a number of its own, and is pending until it is executed, once. -/
structure Orderly (s : Simulation H W τ V) : Prop where
  numbered : s.scheduled.Pairwise fun e f => e.seq < f.seq
  accounted : (s.executed ++ s.scheduler.queue.toList).Perm s.scheduled
  by_time : s.executed.Pairwise fun x y => x.time ≤ y.time
  before_later : ∀ e ∈ s.scheduled, ∀ j x, s.executed[j]? = some x → e.time < x.time →
    s.ExecutedBefore e j
  fifo : ∀ e ∈ s.scheduled, ∀ j x, s.executed[j]? = some x → e.time = x.time → e.seq < x.seq →
    s.ExecutedBefore e j

/-! ### What handlers leave as it is -/

/-- More events have been scheduled, and nothing else has happened. -/
structure Extends (s s' : Simulation H W τ V) : Prop where
  executed : s'.executed = s.executed
  time : s'.scheduler.time = s.scheduler.time
  scheduled : s.scheduled <+: s'.scheduled
  onTime : s'.onTime = true → s.onTime = true
  apart : s'.apart = true → s.apart = true

omit [Add τ] [LinearOrder τ] in
theorem Extends.refl (s : Simulation H W τ V) : Extends s s := ⟨rfl, rfl, prefix_rfl, id, id⟩

omit [Add τ] [LinearOrder τ] in
theorem Extends.trans {s t u : Simulation H W τ V} (h : Extends s t) (h' : Extends t u) :
    Extends s u :=
  ⟨h'.executed.trans h.executed, h'.time.trans h.time, h.scheduled.trans h'.scheduled,
    fun hu => h.onTime (h'.onTime hu), fun hu => h.apart (h'.apart hu)⟩

theorem extends_schedule (s : Simulation H W τ V) (c : ScheduleCall τ V) :
    Extends s (s.schedule c) :=
  ⟨rfl, rfl, prefix_append _ _, fun h => (Bool.and_eq_true_iff.mp h).1,
    fun h => (Bool.and_eq_true_iff.mp h).1⟩

theorem extends_handlers (call : H → EventHandler W τ V) (ev : Event τ V) (handlers : List H)
    (s : Simulation H W τ V) :
    Extends s (handlers.foldl (handle call ev) s) := by
  refine foldl_invariant (Extends s) (fun t handler ht => ?_) (.refl s) handlers
  refine foldl_invariant (Extends s) (fun u c hu => hu.trans (extends_schedule u c)) ?_ _
  exact ⟨ht.executed, ht.time, ht.scheduled, ht.onTime, ht.apart⟩

/-! ### The invariants -/

structure Kept (s : Simulation H W τ V) : Prop where
  heap : Heap.IsHeap Event.time s.scheduler.queue
  numbered : s.scheduled.Pairwise fun e f => e.seq < f.seq
  seq_le : ∀ e ∈ s.scheduled, e.seq ≤ s.scheduler.seq
  accounted : (s.executed ++ s.scheduler.queue.toList).Perm s.scheduled
  by_time : s.executed.Pairwise fun x y => x.time ≤ y.time
  past : ∀ x ∈ s.executed, x.time ≤ s.scheduler.time
  pending : ∀ e ∈ s.scheduler.queue.toList, s.scheduler.time ≤ e.time

/-- No two pending events are of one time, and no event has been executed before one of its time
that was scheduled earlier. -/
structure Fifo (s : Simulation H W τ V) : Prop where
  distinct : (s.scheduler.queue.toList.map Event.time).Nodup
  executed : s.executed.Pairwise fun x y => x.time = y.time → x.seq < y.seq
  pending : ∀ x ∈ s.executed, ∀ e ∈ s.scheduler.queue.toList, e.time = x.time → x.seq < e.seq

theorem pairwise_get {α : Type*} {R : α → α → Prop} {l : List α} (h : l.Pairwise R) {i j : ℕ}
    (hij : i < j) {x y : α} (hx : l[i]? = some x) (hy : l[j]? = some y) : R x y := by
  obtain ⟨hi, rfl⟩ := List.getElem?_eq_some_iff.mp hx
  obtain ⟨hj, rfl⟩ := List.getElem?_eq_some_iff.mp hy
  exact pairwise_iff_getElem.mp h i j hi hj hij

section Invariants

variable {s : Simulation H W τ V} {c : ScheduleCall τ V}

omit [LinearOrder τ] in
theorem seq_eventOf (s : Scheduler H τ V) (c : ScheduleCall τ V) :
    (s.eventOf c).seq = s.seq + 1 := by
  cases c <;> rfl

omit [Add τ] in
theorem kept_start [Zero τ] (world : W) :
    Kept (.start world : Simulation H W τ V) where
  heap := Heap.isHeap_empty
  numbered := .nil
  seq_le _ h := absurd h not_mem_nil
  accounted := .refl _
  by_time := .nil
  past _ h := absurd h not_mem_nil
  pending _ h := absurd h not_mem_nil

theorem mem_schedule_queue {e : Event τ V} :
    e ∈ (s.schedule c).scheduler.queue.toList ↔
      e = s.scheduler.eventOf c ∨ e ∈ s.scheduler.queue.toList := by
  rw [← mem_cons]
  exact Heap.heappush_perm.mem_iff

theorem Kept.schedule (h : Kept s) (hc : s.scheduler.time ≤ (s.scheduler.eventOf c).time) :
    Kept (s.schedule c) where
  heap := h.heap.heappush
  numbered := by
    refine pairwise_append.mpr ⟨h.numbered, pairwise_singleton _ _, fun e he f hf => ?_⟩
    rw [mem_singleton.mp hf, seq_eventOf]
    exact Nat.lt_succ_of_le (h.seq_le e he)
  seq_le e he := by
    rcases mem_append.mp he with hold | hnew
    · exact (h.seq_le e hold).trans (Nat.le_succ _)
    · rw [mem_singleton.mp hnew, seq_eventOf]
      exact le_rfl
  accounted := by
    have hpush : (Heap.heappush Event.time s.scheduler.queue (s.scheduler.eventOf c)).toList.Perm
        (s.scheduler.eventOf c :: s.scheduler.queue.toList) := Heap.heappush_perm
    refine (hpush.append_left s.executed).trans (perm_middle.trans ?_)
    exact (h.accounted.cons _).trans (perm_append_singleton _ _).symm
  by_time := h.by_time
  past := h.past
  pending e he := by
    rcases mem_schedule_queue.mp he with rfl | hold
    · exact hc
    · exact h.pending e hold

theorem Fifo.schedule (h : Fifo s) (hkept : Kept s) (hapart : (s.schedule c).apart = true) :
    Fifo (s.schedule c) where
  distinct := by
    have hpush : (Heap.heappush Event.time s.scheduler.queue (s.scheduler.eventOf c)).toList.Perm
        (s.scheduler.eventOf c :: s.scheduler.queue.toList) := Heap.heappush_perm
    refine (hpush.map Event.time).nodup_iff.mpr (nodup_cons.mpr ⟨fun hmem => ?_, h.distinct⟩)
    obtain ⟨e, he, htime⟩ := mem_map.mp hmem
    have hall := all_eq_true.mp (Bool.and_eq_true_iff.mp hapart).2 e he
    exact of_decide_eq_true hall htime
  executed := h.executed
  pending x hx e he heq := by
    rcases mem_schedule_queue.mp he with rfl | hold
    · rw [seq_eventOf]
      exact Nat.lt_succ_of_le
        (hkept.seq_le x (hkept.accounted.subset (mem_append_left _ hx)))
    · exact h.pending x hx e hold heq

omit [Add τ] in
theorem Kept.popped (h : Kept s) {ev : Event τ V} {rest : Array (Event τ V)}
    (hpop : Heap.heappop Event.time s.scheduler.queue = some (ev, rest)) :
    Kept (s.popped ev rest) ∧ s.scheduler.time ≤ ev.time := by
  obtain ⟨hfront, hperm, hheap⟩ := Heap.heappop_eq_some hpop
  obtain ⟨hpos, hfront⟩ := Array.getElem?_eq_some_iff.mp hfront
  have hmem : ∀ e, e ∈ s.scheduler.queue.toList ↔ e = ev ∨ e ∈ rest.toList := fun e => by
    rw [hperm.mem_iff, mem_cons]
  have hmin : ∀ e ∈ rest.toList, ev.time ≤ e.time := by
    intro e he
    obtain ⟨i, hi, rfl⟩ := mem_iff_getElem.mp ((hmem e).mpr (Or.inr he))
    rw [← hfront]
    exact h.heap.front_le hpos hi
  have hnow : s.scheduler.time ≤ ev.time := h.pending ev ((hmem ev).mpr (Or.inl rfl))
  have hpast : ∀ x ∈ s.executed, x.time ≤ ev.time := fun x hx => (h.past x hx).trans hnow
  refine ⟨⟨hheap h.heap, h.numbered, h.seq_le, ?_, ?_, ?_, hmin⟩, hnow⟩
  · refine Perm.trans ?_ h.accounted
    show (s.executed ++ [ev] ++ rest.toList).Perm _
    rw [append_assoc]
    exact hperm.symm.append_left s.executed
  · refine pairwise_append.mpr ⟨h.by_time, pairwise_singleton _ _, fun x hx y hy => ?_⟩
    rw [mem_singleton.mp hy]
    exact hpast x hx
  · intro x hx
    rcases mem_append.mp hx with hold | hnew
    · exact hpast x hold
    · rw [mem_singleton.mp hnew]
      exact le_rfl

omit [Add τ] in
theorem Fifo.popped (h : Fifo s) {ev : Event τ V} {rest : Array (Event τ V)}
    (hpop : Heap.heappop Event.time s.scheduler.queue = some (ev, rest)) :
    Fifo (s.popped ev rest) := by
  obtain ⟨-, hperm, -⟩ := Heap.heappop_eq_some hpop
  have hmem : ∀ e, e ∈ s.scheduler.queue.toList ↔ e = ev ∨ e ∈ rest.toList := fun e => by
    rw [hperm.mem_iff, mem_cons]
  have hev := (hmem ev).mpr (Or.inl rfl)
  obtain ⟨hnotin, hdistinct⟩ := nodup_cons.mp ((hperm.map Event.time).nodup_iff.mp h.distinct)
  refine ⟨hdistinct, ?_, ?_⟩
  · refine pairwise_append.mpr ⟨h.executed, pairwise_singleton _ _, fun x hx y hy => ?_⟩
    rw [mem_singleton.mp hy]
    exact fun heq => h.pending x hx ev hev heq.symm
  · intro x hx e he heq
    rcases mem_append.mp hx with hold | hnew
    · exact h.pending x hold e ((hmem e).mpr (Or.inr he)) heq
    · rw [mem_singleton.mp hnew] at heq
      exact absurd (mem_map.mpr ⟨e, he, heq⟩) hnotin

theorem Kept.handlers (h : Kept s) (call : H → EventHandler W τ V) (ev : Event τ V)
    (handlers : List H) (hontime : (handlers.foldl (handle call ev) s).onTime = true) :
    Kept (handlers.foldl (handle call ev) s) ∧
      ((handlers.foldl (handle call ev) s).apart = true → Fifo s →
        Fifo (handlers.foldl (handle call ev) s)) := by
  let I (t : Simulation H W τ V) : Prop :=
    t.onTime = true → Kept t ∧ (t.apart = true → Fifo s → Fifo t)
  have hstep : ∀ (t : Simulation H W τ V) (c : ScheduleCall τ V), I t → I (t.schedule c) := by
    intro t c ht hlate
    obtain ⟨hold, hc⟩ := Bool.and_eq_true_iff.mp hlate
    obtain ⟨hkept, hfifo⟩ := ht hold
    refine ⟨hkept.schedule (of_decide_eq_true hc), fun hapart hs => ?_⟩
    exact (hfifo ((extends_schedule t c).apart hapart) hs).schedule hkept hapart
  refine foldl_invariant I (fun t handler ht => ?_) (fun _ => ⟨h, fun _ => id⟩) handlers hontime
  refine foldl_invariant I hstep (fun hlate => ?_) _
  obtain ⟨hkept, hfifo⟩ := ht hlate
  refine ⟨⟨hkept.heap, hkept.numbered, hkept.seq_le, hkept.accounted, hkept.by_time, hkept.past,
    hkept.pending⟩, fun hapart hs => ?_⟩
  obtain ⟨hdistinct, hexecuted, hpending⟩ := hfifo hapart hs
  exact ⟨hdistinct, hexecuted, hpending⟩

omit [Add τ] in
theorem Kept.executedBefore (h : Kept s) {e x : Event τ V} {j : ℕ} (he : e ∈ s.scheduled)
    (hx : s.executed[j]? = some x) (hne : e ≠ x) (hpending : e ∉ s.scheduler.queue.toList)
    (hlater : ∀ i, j < i → s.executed[i]? ≠ some e) : s.ExecutedBefore e j := by
  have hmem := (mem_append.mp (h.accounted.symm.subset he)).resolve_right hpending
  obtain ⟨i, hi⟩ := mem_iff_getElem?.mp hmem
  refine ⟨i, not_le.mp fun hle => ?_, hi⟩
  rcases hle.eq_or_lt with rfl | hlt
  · exact hne (Option.some.inj (hi.symm.trans hx))
  · exact hlater i hlt hi

omit [Add τ] in
theorem Kept.orderly (h : Kept s) (hfifo : Fifo s) : Orderly s where
  numbered := h.numbered
  accounted := h.accounted
  by_time := h.by_time
  before_later e he j x hx hlt := by
    have hmem : x ∈ s.executed := mem_of_getElem? hx
    refine h.executedBefore he hx (fun heq => ?_) (fun hpending => ?_) fun i hi hie => ?_
    · rw [heq] at hlt
      exact lt_irrefl _ hlt
    · exact absurd ((h.past x hmem).trans (h.pending e hpending)) (not_le.mpr hlt)
    · exact absurd (pairwise_get h.by_time hi hx hie) (not_le.mpr hlt)
  fifo e he j x hx heq hseq := by
    have hmem : x ∈ s.executed := mem_of_getElem? hx
    refine h.executedBefore he hx (fun hself => ?_) (fun hpending => ?_) fun i hi hie => ?_
    · rw [hself] at hseq
      exact Nat.lt_irrefl _ hseq
    · exact Nat.lt_asymm hseq (hfifo.pending x hmem e hpending heq)
    · exact Nat.lt_asymm hseq (pairwise_get hfifo.executed hi hx hie heq.symm)

end Invariants

/-! ### Runs -/

section Runs

variable [DecidableEq H] (call : H → EventHandler W τ V) {s : Simulation H W τ V}

/-- A step of the simulation, on time, from a state in order. -/
structure Next (s : Simulation H W τ V) (a : SchedulerAction H τ V) : Prop where
  kept : Kept (s.next call a)
  fifo : (s.next call a).apart = true → Fifo s → Fifo (s.next call a)
  time_le : s.scheduler.time ≤ (s.next call a).scheduler.time

/-- What was late, or not apart, before a step is so after it. -/
theorem flags_of_next (s : Simulation H W τ V) (a : SchedulerAction H τ V) :
    ((s.next call a).onTime = true → s.onTime = true) ∧
      ((s.next call a).apart = true → s.apart = true) := by
  cases a with
  | schedule c => exact ⟨(extends_schedule s c).onTime, (extends_schedule s c).apart⟩
  | on kind handler => exact ⟨id, id⟩
  | off kind handler => exact ⟨id, id⟩
  | step =>
      rw [next, step, execute]
      cases hpop : Heap.heappop Event.time s.scheduler.queue with
      | none => exact ⟨id, id⟩
      | some x =>
          have hextends := extends_handlers call x.1
            (((s.popped x.1 x.2).scheduler.handlers.lookup x.1.kind).getD []) (s.popped x.1 x.2)
          exact ⟨hextends.onTime, hextends.apart⟩

theorem flags_of_foldl (as : List (SchedulerAction H τ V)) (s : Simulation H W τ V) :
    ((as.foldl (next call) s).onTime = true → s.onTime = true) ∧
      ((as.foldl (next call) s).apart = true → s.apart = true) := by
  induction as generalizing s with
  | nil => exact ⟨id, id⟩
  | cons a as ih =>
      obtain ⟨hontime, hapart⟩ := flags_of_next call s a
      exact ⟨fun h => hontime ((ih _).1 h), fun h => hapart ((ih _).2 h)⟩

theorem Kept.next (h : Kept s) (a : SchedulerAction H τ V)
    (hontime : (s.next call a).onTime = true) : Next call s a := by
  cases a with
  | schedule c =>
      have hc := of_decide_eq_true (Bool.and_eq_true_iff.mp hontime).2
      exact ⟨h.schedule hc, fun hapart hfifo => hfifo.schedule h hapart, le_rfl⟩
  | on kind handler =>
      exact ⟨⟨h.heap, h.numbered, h.seq_le, h.accounted, h.by_time, h.past, h.pending⟩,
        fun _ hfifo => ⟨hfifo.distinct, hfifo.executed, hfifo.pending⟩, le_rfl⟩
  | off kind handler =>
      exact ⟨⟨h.heap, h.numbered, h.seq_le, h.accounted, h.by_time, h.past, h.pending⟩,
        fun _ hfifo => ⟨hfifo.distinct, hfifo.executed, hfifo.pending⟩, le_rfl⟩
  | step =>
      cases hpop : Heap.heappop Event.time s.scheduler.queue with
      | none =>
          have hsame : s.next call .step = s := by rw [Simulation.next, step, execute, hpop]
          exact ⟨hsame.symm ▸ h, fun _ hfifo => hsame.symm ▸ hfifo, by rw [hsame]⟩
      | some x =>
          obtain ⟨ev, rest⟩ := x
          have hnext : s.next call .step = (((s.popped ev rest).scheduler.handlers.lookup
              ev.kind).getD []).foldl (handle call ev) (s.popped ev rest) := by
            rw [Simulation.next, step, execute, hpop]
          generalize ((s.popped ev rest).scheduler.handlers.lookup ev.kind).getD [] = handlers
            at hnext
          rw [hnext] at hontime
          obtain ⟨hkept, hnow⟩ := h.popped hpop
          have hextends := extends_handlers call ev handlers (s.popped ev rest)
          obtain ⟨hafter, hfifo⟩ := hkept.handlers call ev handlers hontime
          rw [← hnext] at hextends hafter hfifo
          refine ⟨hafter, fun hapart hold => hfifo hapart (hold.popped hpop), ?_⟩
          rw [hextends.time]
          exact hnow

theorem Kept.foldl {as : List (SchedulerAction H τ V)} (h : Kept s)
    (hontime : (as.foldl (Simulation.next call) s).onTime = true) :
    Kept (as.foldl (Simulation.next call) s) ∧
      s.scheduler.time ≤ (as.foldl (Simulation.next call) s).scheduler.time := by
  induction as generalizing s with
  | nil => exact ⟨h, le_rfl⟩
  | cons a as ih =>
      have hnext := h.next call a ((flags_of_foldl call as _).1 hontime)
      obtain ⟨hkept, hle⟩ := ih hnext.kept hontime
      exact ⟨hkept, hnext.time_le.trans hle⟩

theorem Fifo.foldl {as : List (SchedulerAction H τ V)} (h : Fifo s) (hkept : Kept s)
    (hontime : (as.foldl (next call) s).onTime = true)
    (hapart : (as.foldl (next call) s).apart = true) : Fifo (as.foldl (next call) s) := by
  induction as generalizing s with
  | nil => exact h
  | cons a as ih =>
      have hnext := hkept.next call a ((flags_of_foldl call as _).1 hontime)
      exact ih (hnext.fifo ((flags_of_foldl call as _).2 hapart) h) hnext.kept hontime hapart

end Runs

/-- A scheduler with which nothing is scheduled for a time that has passed, and nothing for a time
at which another event is pending. At every moment the events executed are in the order of their
times and, of one time, in the order in which they were scheduled, each once at most and none before
one of an earlier time, and the clock never goes back. -/
theorem orderly_of_apart [Zero τ] [DecidableEq H] (call : H → EventHandler W τ V) (world : W)
    {as : List (SchedulerAction H τ V)}
    (hontime : (as.foldl (next call) (start world)).onTime = true)
    (hapart : (as.foldl (next call) (start world)).apart = true) :
    ∀ before later, as = before ++ later →
      Orderly (before.foldl (next call) (start world)) ∧
        (before.foldl (next call) (start world)).scheduler.time ≤
          (as.foldl (next call) (start world)).scheduler.time := by
  intro before later heq
  subst heq
  rw [foldl_append] at hontime hapart ⊢
  have hkept : Kept (start world : Simulation H W τ V) := kept_start world
  have hfifo : Fifo (start world : Simulation H W τ V) :=
    ⟨nodup_nil, .nil, fun _ h => absurd h not_mem_nil⟩
  have hontime' := (flags_of_foldl call later _).1 hontime
  obtain ⟨hbefore, -⟩ := hkept.foldl call hontime'
  have hapart' := (flags_of_foldl call later _).2 hapart
  exact ⟨hbefore.orderly (hfifo.foldl call hkept hontime' hapart'),
    (hbefore.foldl call hontime).2⟩

/-! ### Two runs -/

/-- A handler that answers an event with another one at the same time. -/
def answer : Unit → EventHandler Unit ℕ Unit := fun _ nodeId _ _ _ _ world =>
  ([.scheduleNow "answer" nodeId none], world)

/-- Two events that are answered and one that is not. -/
def answered : List (SchedulerAction Unit ℕ Unit) :=
  [.on "ask" (), .schedule (.schedule 5 "ask" "b" none),
    .schedule (.scheduleRelative 3 "ask" "a" none), .schedule (.schedule 6 "tell" "c" none),
    .step, .step, .step, .step, .step]

theorem orderly_answered :
    ((answered.foldl (next answer) (start ())).executed.map Event.time = [3, 3, 5, 5, 6]) ∧
      ∀ before later, answered = before ++ later →
        Orderly (before.foldl (next answer) (start ())) ∧
          (before.foldl (next answer) (start ())).scheduler.time ≤
            (answered.foldl (next answer) (start ())).scheduler.time :=
  ⟨by decide, orderly_of_apart answer () (by decide) (by decide)⟩

def fourTies : List (SchedulerAction Unit ℕ Unit) :=
  [.schedule (.schedule 1 "a" "n" none), .schedule (.schedule 1 "b" "n" none),
    .schedule (.schedule 1 "c" "n" none), .schedule (.schedule 1 "d" "n" none), .step, .step]

/-- The third event is executed before the second one. -/
theorem not_orderly_fourTies : (fourTies.foldl (next answer) (start ())).onTime = true ∧
    ¬ Orderly (fourTies.foldl (next answer) (start ())) := by
  refine ⟨rfl, fun h => ?_⟩
  have hsecond : (⟨1, 2, "b", "n", ∅⟩ : Event ℕ Unit) ∈
      (fourTies.foldl (next answer) (start ())).scheduled :=
    mem_cons_of_mem _ mem_cons_self
  obtain ⟨i, hi, he⟩ := h.fifo _ hsecond 1 ⟨1, 3, "c", "n", ∅⟩ rfl rfl (by decide)
  obtain rfl : i = 0 := by omega
  cases he

end Simulation

end Vantablack.Quantum
