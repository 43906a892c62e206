import Vantablack.Lib.Runs

/-!
The mix batch of `net/relay.rs`, and the queue of `main.rs` in which framed datagrams wait to be
mixed: a batch that is full leaves at once, and one that is not leaves when the timer fires that
its first frame started, if it is due by then. Time is counted in milliseconds, and a timer fires
when it is due or later.
-/

namespace Vantablack.Net

open Lib

variable {α : Type}

/-- What a shuffle of the random number generator does to a list. -/
def Shuffle (α : Type) : Type := { f : List α → List α // ∀ l, (f l).Perm l }

structure MixBatch (α : Type) where
  items : List (ℕ × α)
  capacity : ℕ
  maxDelay : ℕ

namespace MixBatch

def new (capacity maxDelay : ℕ) : MixBatch α where
  items := []
  capacity := max capacity 1
  maxDelay := maxDelay

def drainRandomized (b : MixBatch α) (shuffle : Shuffle (ℕ × α)) : List α × MixBatch α :=
  ((shuffle.1 b.items).map Prod.snd, { b with items := [] })

def push (b : MixBatch α) (now : ℕ) (item : α) (shuffle : Shuffle (ℕ × α)) :
    Option (List α) × MixBatch α :=
  let b := { b with items := b.items ++ [(now, item)] }
  if b.capacity ≤ b.items.length then
    let (items, b) := b.drainRandomized shuffle
    (some items, b)
  else (none, b)

/-- `delayMs` is what `mix_batch_delay_ms` reads; a batch made without a delay is due at once. -/
def flushDue (b : MixBatch α) (delayMs now : ℕ) : Bool :=
  let deadline := if b.maxDelay = 0 then 0 else delayMs
  b.items.head?.any fun item => deadline ≤ now - item.1

end MixBatch

/-- The queue, the clock, the timers that have not fired with the time each is due at, the delay
in force, and the frames handed to the socket. -/
structure MixQueue (α : Type) where
  batch : MixBatch α
  now : ℕ
  timers : List ℕ
  delayMs : ℕ
  sent : List α

namespace MixQueue

/-- The queue before its first frame. Whatever delay the batch is made with, the one in force is
the runtime setting, which starts at 20. -/
def start (maxDelay : ℕ) : MixQueue α where
  batch := .new 9 maxDelay
  now := 0
  timers := []
  delayMs := 20
  sent := []

def enqueueMixedFrame (q : MixQueue α) (frame : α) (shuffle : Shuffle (ℕ × α)) : MixQueue α :=
  let startTimer := q.batch.items.isEmpty
  match q.batch.push q.now frame shuffle with
  | (some frames, batch) => { q with batch := batch, sent := q.sent ++ frames }
  | (none, batch) =>
      { q with batch := batch
               timers := if startTimer then (q.now + 20) :: q.timers else q.timers }

/-- The task behind a timer. -/
def onTimer (q : MixQueue α) (due : ℕ) (shuffle : Shuffle (ℕ × α)) : MixQueue α :=
  let q := { q with timers := q.timers.erase due }
  if q.batch.flushDue q.delayMs q.now then
    let (frames, batch) := q.batch.drainRandomized shuffle
    { q with batch := batch, sent := q.sent ++ frames }
  else q

def setLowLatency (q : MixQueue α) (enabled : Bool) : MixQueue α :=
  { q with delayMs := if enabled then 1 else 20 }

def setMixBatchDelayMs (q : MixQueue α) (ms : ℕ) : MixQueue α :=
  { q with delayMs := max 1 (min ms 500) }

inductive Act (α : Type) where
  | enqueue (frame : α) (shuffle : Shuffle (ℕ × α))
  | fire (due : ℕ) (shuffle : Shuffle (ℕ × α))
  | pass (ms : ℕ)
  | lowLatency (enabled : Bool)
  | setDelay (ms : ℕ)

def step (q : MixQueue α) : Act α → MixQueue α
  | .enqueue frame shuffle => q.enqueueMixedFrame frame shuffle
  | .fire due shuffle => if due ∈ q.timers ∧ due ≤ q.now then q.onTimer due shuffle else q
  | .pass ms => { q with now := q.now + ms }
  | .lowLatency enabled => q.setLowLatency enabled
  | .setDelay ms => q.setMixBatchDelayMs ms

def waiting (q : MixQueue α) : List α := q.batch.items.map Prod.snd

def enqueued (as : List (Act α)) : List α :=
  as.filterMap fun
    | .enqueue frame _ => some frame
    | _ => none

theorem enqueueMixedFrame_cases (q : MixQueue α) (frame : α) (shuffle : Shuffle (ℕ × α)) :
    (q.batch.capacity ≤ q.batch.items.length + 1 ∧
      q.enqueueMixedFrame frame shuffle =
        { q with batch := { q.batch with items := [] }
                 sent := q.sent ++
                  (shuffle.1 (q.batch.items ++ [(q.now, frame)])).map Prod.snd }) ∨
    (q.batch.items.length + 1 < q.batch.capacity ∧
      q.enqueueMixedFrame frame shuffle =
        { q with batch := { q.batch with items := q.batch.items ++ [(q.now, frame)] }
                 timers := if q.batch.items.isEmpty then (q.now + 20) :: q.timers
                  else q.timers }) := by
  have hlen : (q.batch.items ++ [(q.now, frame)]).length = q.batch.items.length + 1 :=
    List.length_append
  unfold enqueueMixedFrame MixBatch.push
  dsimp only
  rw [hlen]
  by_cases hfull : q.batch.capacity ≤ q.batch.items.length + 1
  · exact .inl ⟨hfull, by rw [if_pos hfull]; rfl⟩
  · exact .inr ⟨not_le.mp hfull, by rw [if_neg hfull]⟩

theorem onTimer_cases (q : MixQueue α) (due : ℕ) (shuffle : Shuffle (ℕ × α)) :
    (q.onTimer due shuffle =
      { q with batch := { q.batch with items := [] }
               timers := q.timers.erase due
               sent := q.sent ++ (shuffle.1 q.batch.items).map Prod.snd }) ∨
    (q.batch.flushDue q.delayMs q.now = false ∧
      q.onTimer due shuffle = { q with timers := q.timers.erase due }) := by
  unfold onTimer
  dsimp only
  cases hdue : q.batch.flushDue q.delayMs q.now with
  | true => exact .inl rfl
  | false => exact .inr ⟨rfl, rfl⟩

/-! ### No frame is lost, and none is sent twice -/

/-- The frames so far are sent or wait, and a batch has room for one more. -/
structure Conserves (maxDelay : ℕ) (frames : List α) (q : MixQueue α) : Prop where
  perm : (q.sent ++ q.waiting).Perm frames
  room : q.batch.items.length < 9
  capacity : q.batch.capacity = 9
  maxDelay : q.batch.maxDelay = maxDelay

variable {maxDelay : ℕ} {frames : List α} {q : MixQueue α}

theorem Conserves.drain {items : List (ℕ × α)} (h : Conserves maxDelay frames q)
    {frames' : List α} (hperm : (q.sent ++ items.map Prod.snd).Perm frames')
    (shuffle : Shuffle (ℕ × α)) (timers : List ℕ) :
    Conserves maxDelay frames'
      { q with batch := { q.batch with items := [] }
               timers := timers
               sent := q.sent ++ (shuffle.1 items).map Prod.snd } where
  perm := by
    show ((q.sent ++ (shuffle.1 items).map Prod.snd) ++ []).Perm frames'
    rw [List.append_nil]
    exact (((shuffle.2 items).map Prod.snd).append_left q.sent).trans hperm
  room := Nat.zero_lt_of_lt h.room
  capacity := h.capacity
  maxDelay := h.maxDelay

theorem Conserves.step (h : Conserves maxDelay frames q) (a : Act α) :
    Conserves maxDelay (frames ++ enqueued [a]) (q.step a) := by
  have hquiet : ∀ q' : MixQueue α, q'.sent = q.sent → q'.batch = q.batch →
      Conserves maxDelay (frames ++ []) q' := by
    intro q' hsent hbatch
    rw [List.append_nil]
    exact ⟨by rw [waiting, hsent, hbatch]; exact h.perm, by rw [hbatch]; exact h.room,
      by rw [hbatch]; exact h.capacity, by rw [hbatch]; exact h.maxDelay⟩
  cases a with
  | enqueue frame shuffle =>
      have hperm : (q.sent ++ (q.batch.items ++ [(q.now, frame)]).map Prod.snd).Perm
          (frames ++ [frame]) := by
        rw [List.map_append, ← List.append_assoc]
        exact h.perm.append_right [frame]
      obtain ⟨-, heq⟩ | ⟨hroom, heq⟩ := enqueueMixedFrame_cases q frame shuffle
      · rw [MixQueue.step, heq]
        exact h.drain hperm shuffle q.timers
      · rw [MixQueue.step, heq]
        rw [h.capacity] at hroom
        exact ⟨hperm, by simpa using hroom, h.capacity, h.maxDelay⟩
  | fire due shuffle =>
      show Conserves maxDelay (frames ++ []) _
      rw [MixQueue.step]
      split
      · obtain heq | ⟨-, heq⟩ := onTimer_cases q due shuffle
        · rw [heq, List.append_nil]
          exact h.drain h.perm shuffle _
        · exact hquiet _ (by rw [heq]) (by rw [heq])
      · exact hquiet q rfl rfl
  | pass ms => exact hquiet _ rfl rfl
  | lowLatency enabled => exact hquiet _ rfl rfl
  | setDelay ms => exact hquiet _ rfl rfl

theorem Conserves.run (h : Conserves maxDelay frames q) (as : List (Act α)) :
    Conserves maxDelay (frames ++ enqueued as) (as.foldl MixQueue.step q) := by
  induction as generalizing q frames with
  | nil => simpa [enqueued] using h
  | cons a as ih =>
      have hsplit : enqueued (a :: as) = enqueued [a] ++ enqueued as :=
        List.filterMap_append (l := [a])
      rw [hsplit, ← List.append_assoc]
      exact ih (h.step a)

theorem conserves_start (maxDelay : ℕ) : Conserves maxDelay ([] : List α) (start maxDelay) where
  perm := .refl []
  room := show 0 < 9 by omega
  capacity := rfl
  maxDelay := rfl

/-- Whatever happens in whatever order, each frame that was enqueued is sent once or waits, and
fewer wait than a full batch holds. -/
theorem sent_or_waiting (maxDelay : ℕ) (as : List (Act α)) :
    ((as.foldl step (start maxDelay)).sent ++ (as.foldl step (start maxDelay)).waiting).Perm
        (enqueued as) ∧
      (as.foldl step (start maxDelay)).waiting.length < 9 := by
  have h := (conserves_start maxDelay).run as
  exact ⟨h.perm, by rw [waiting, List.length_map]; exact h.room⟩

/-! ### No frame is left behind -/

/-- The first frame of a batch has a timer. -/
structure Timed (q : MixQueue α) : Prop where
  first : ∀ e ∈ q.batch.items.head?, e.1 + 20 ∈ q.timers ∧ ∀ e' ∈ q.batch.items, e.1 ≤ e'.1
  past : ∀ e ∈ q.batch.items, e.1 ≤ q.now

theorem Timed.of_empty (h : q.batch.items = []) : Timed q where
  first := by simp [h]
  past := by simp [h]

theorem Timed.enqueue (h : Timed q) (frame : α) (shuffle : Shuffle (ℕ × α)) :
    Timed (q.enqueueMixedFrame frame shuffle) := by
  obtain ⟨-, heq⟩ | ⟨-, heq⟩ := enqueueMixedFrame_cases q frame shuffle
  · rw [heq]
    exact .of_empty rfl
  · rw [heq]
    cases hitems : q.batch.items with
    | nil => exact ⟨by simp, by simp⟩
    | cons e items =>
        have hfirst := h.first e (by rw [hitems]; rfl)
        have hpast := h.past
        rw [hitems] at hfirst hpast
        refine ⟨?_, ?_⟩
        · intro e₀ he₀
          obtain rfl : e = e₀ := by simpa using he₀
          refine ⟨by simpa using hfirst.1, fun e' he' => ?_⟩
          obtain he' | rfl : e' ∈ e :: items ∨ e' = (q.now, frame) := by simpa [or_assoc] using he'
          · exact hfirst.2 e' he'
          · exact hpast e List.mem_cons_self
        · intro e' he'
          obtain he' | rfl : e' ∈ e :: items ∨ e' = (q.now, frame) := by simpa [or_assoc] using he'
          · exact hpast e' he'
          · exact le_rfl

/-- The timer of a batch finds it due, unless the delay in force is more than the 20 milliseconds
that a timer takes. -/
theorem Timed.fire (h : Timed q) (hdelay : q.batch.maxDelay = 0 ∨ q.delayMs ≤ 20)
    {due : ℕ} (hdue : due ≤ q.now) (shuffle : Shuffle (ℕ × α)) :
    Timed (q.onTimer due shuffle) := by
  obtain heq | ⟨hearly, heq⟩ := onTimer_cases q due shuffle
  · rw [heq]
    exact .of_empty rfl
  · rw [heq]
    refine ⟨fun e he => ⟨?_, (h.first e he).2⟩, h.past⟩
    have hne : e.1 + 20 ≠ due := by
      rintro rfl
      have hlate : (if q.batch.maxDelay = 0 then 0 else q.delayMs) ≤ q.now - e.1 := by
        split <;> omega
      rw [MixBatch.flushDue, Option.mem_def.mp he] at hearly
      simp [hlate] at hearly
    exact (List.mem_erase_of_ne hne).mpr (h.first e he).1

theorem Timed.step (h : Timed q)
    (hdelay : q.batch.maxDelay = 0 ∨ q.delayMs ≤ 20) (a : Act α) : Timed (q.step a) := by
  cases a with
  | enqueue frame shuffle => exact h.enqueue frame shuffle
  | fire due shuffle =>
      rw [MixQueue.step]
      split
      next hfire => exact h.fire hdelay hfire.2 shuffle
      next => exact h
  | pass ms => exact ⟨h.first, fun e he => Nat.le_add_right_of_le (h.past e he)⟩
  | lowLatency enabled => exact ⟨h.first, h.past⟩
  | setDelay ms => exact ⟨h.first, h.past⟩

/-- Each frame that waits has a timer that is due within 20 milliseconds of its arrival, in every
run whose delay stays within `bound`, exactly if `bound` is at most 20 or the queue was made
without a delay. Else a frame can wait with no timer left. -/
theorem waiting_has_timer_iff [Inhabited α] (maxDelay bound : ℕ) :
    (∀ as : List (Act α), Always step (fun q _ => q.delayMs ≤ bound) (start maxDelay) as →
      ∀ e ∈ (as.foldl step (start maxDelay)).batch.items,
        ∃ due ∈ (as.foldl step (start maxDelay)).timers, due ≤ e.1 + 20) ↔
      maxDelay = 0 ∨ bound ≤ 20 := by
  constructor
  · intro h
    by_contra hlong
    obtain ⟨hdelay, hbound⟩ := not_or.mp hlong
    have frame : α := default
    have hid : ∀ l : List (ℕ × α), (id l).Perm l := List.Perm.refl
    -- The delay becomes 21, and the timer of a single frame fires when it is due.
    have hrun := h [.setDelay 21, .enqueue frame ⟨id, hid⟩, .pass 20, .fire 20 ⟨id, hid⟩]
    have hstate : ([.setDelay 21, .enqueue frame ⟨id, hid⟩, .pass 20, .fire 20 ⟨id, hid⟩].foldl
        step (start maxDelay) : MixQueue α) =
        { batch := ⟨[(0, frame)], 9, maxDelay⟩, now := 20, timers := [], delayMs := 21,
          sent := [] } := by
      simp [step, start, setMixBatchDelayMs, enqueueMixedFrame, MixBatch.push, MixBatch.new,
        onTimer, MixBatch.flushDue, hdelay]
    rw [hstate] at hrun
    obtain ⟨due, hdue, -⟩ := hrun (by
      simp [step, start, setMixBatchDelayMs, enqueueMixedFrame, MixBatch.push, MixBatch.new]
      omega) (0, frame) List.mem_cons_self
    cases hdue
  · intro hdelay as has
    have htimed : Timed (as.foldl step (start maxDelay)) := by
      refine (has.invariant (fun q => (∃ frames, Conserves maxDelay frames q) ∧ Timed q) ?_
        ⟨⟨[], conserves_start maxDelay⟩, .of_empty rfl⟩).2
      rintro q a ⟨⟨frames, hq⟩, htimed⟩ hle
      exact ⟨⟨_, hq.step a⟩, htimed.step (hdelay.imp hq.maxDelay.trans hle.trans) a⟩
    intro e he
    obtain ⟨e₀, items, hitems⟩ := List.exists_cons_of_ne_nil (List.ne_nil_of_mem he)
    have hfirst := htimed.first e₀ (by rw [hitems]; rfl)
    exact ⟨e₀.1 + 20, hfirst.1, Nat.add_le_add_right (hfirst.2 e he) 20⟩

end MixQueue

end Vantablack.Net
