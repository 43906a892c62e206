import Vantablack.Lib.Circular
import Vantablack.Lib.Runs
import Mathlib.Data.List.Induction

/-!
The ring buffer of `layers/l8_memsec.rs` between one producer and one consumer. Each load of an
index, access to a slot and store of an index is a step of its own, and the steps of the two sides
come in any order.
-/

namespace Vantablack.Layers

open Lib List

/-- `usize::is_power_of_two`. -/
def isPowerOfTwo (n : UInt64) : Prop := ∃ k < 64, n.toNat = 2 ^ k

instance (n : UInt64) : Decidable (isPowerOfTwo n) :=
  inferInstanceAs (Decidable (∃ k < 64, n.toNat = 2 ^ k))

structure VerifiedRingBuffer (α : Type) where
  slots : List (Option α)
  capacity : UInt64
  writeIdx : UInt64
  readIdx : UInt64
  drops : UInt64

/-- Where the producer is in `try_push`. -/
inductive TryPush (α : Type) where
  | idle
  | loadRead (item : α) (write : UInt64)
  | drop
  | fill (item : α) (write : UInt64)
  | publish (item : α) (write : UInt64)

/-- Where the consumer is in `try_pop`. -/
inductive TryPop (α : Type) where
  | idle
  | loadRead (write : UInt64)
  | take (read : UInt64)
  | release (item : α) (read : UInt64)

inductive RingAction (α : Type) where
  /-- The producer calls `try_push`. -/
  | push (item : α)
  /-- The producer goes on. -/
  | producer
  /-- The consumer goes on, or calls `try_pop`. -/
  | consumer

variable {α : Type}

/-- A buffer with its two sides, the items that were pushed and those that were popped. -/
structure RingState (α : Type) where
  buffer : VerifiedRingBuffer α
  producer : TryPush α
  consumer : TryPop α
  pushed : List α
  popped : List α

namespace VerifiedRingBuffer

/-- A new buffer of a capacity that is a power of two; the indices of the source start at zero. -/
def new (capacity start : UInt64) : VerifiedRingBuffer α where
  slots := replicate capacity.toNat none
  capacity := capacity
  writeIdx := start
  readIdx := start
  drops := 0

def slot (b : VerifiedRingBuffer α) (idx : UInt64) : ℕ := (idx &&& (b.capacity - 1)).toNat

end VerifiedRingBuffer

namespace RingState

def new (capacity start : UInt64) : RingState α :=
  ⟨.new capacity start, .idle, .idle, [], []⟩

/-- A step of `try_push`. -/
def tryPush (s : RingState α) : Option (RingState α) :=
  match s.producer with
  | .idle => none
  | .loadRead item write =>
      let read := s.buffer.readIdx
      some { s with
        producer := if s.buffer.capacity ≤ write - read then .drop else .fill item write }
  | .drop =>
      some { s with buffer := { s.buffer with drops := s.buffer.drops + 1 }, producer := .idle }
  | .fill item write =>
      some { s with
        buffer := { s.buffer with slots := s.buffer.slots.set (s.buffer.slot write) (some item) }
        producer := .publish item write }
  | .publish item write =>
      some { s with
        buffer := { s.buffer with writeIdx := write + 1 }
        producer := .idle
        pushed := s.pushed ++ [item] }

/-- A step of `try_pop`. -/
def tryPop (s : RingState α) : RingState α :=
  match s.consumer with
  | .idle => { s with consumer := .loadRead s.buffer.writeIdx }
  | .loadRead write =>
      let read := s.buffer.readIdx
      { s with consumer := if read = write then .idle else .take read }
  | .take read =>
      let taken := { s with
        buffer := { s.buffer with slots := s.buffer.slots.set (s.buffer.slot read) none } }
      match (s.buffer.slots[s.buffer.slot read]?).join with
      | some item => { taken with consumer := .release item read }
      | none => { taken with consumer := .idle }
  | .release item read =>
      { s with
        buffer := { s.buffer with readIdx := read + 1 }
        consumer := .idle
        popped := s.popped ++ [item] }

def step (s : RingState α) : RingAction α → Option (RingState α)
  | .push item =>
      match s.producer with
      | .idle => some { s with producer := .loadRead item s.buffer.writeIdx }
      | _ => none
  | .producer => s.tryPush
  | .consumer => some s.tryPop

/-- The slot that the producer is about to write. -/
def written (s : RingState α) : Option ℕ :=
  match s.producer with
  | .fill _ write => some (s.buffer.slot write)
  | _ => none

/-- The slot that the consumer is about to take from. -/
def takenFrom (s : RingState α) : Option ℕ :=
  match s.consumer with
  | .take read => some (s.buffer.slot read)
  | _ => none

/-- The item in the buffer that is not pushed yet. -/
def staged (s : RingState α) : List α :=
  match s.producer with
  | .publish item _ => [item]
  | _ => []

/-- The item that is out of the buffer and not popped yet. -/
def held (s : RingState α) : List α :=
  match s.consumer with
  | .release item _ => [item]
  | _ => []

end RingState

/-! ### Indices -/

theorem toNat_add_ofNat (start : UInt64) (n : ℕ) :
    (start + UInt64.ofNat n).toNat = (start.toNat + n) % 2 ^ 64 := by
  rw [UInt64.toNat_add, UInt64.toNat_ofNat', Nat.add_mod_mod]

theorem slot_eq (b : VerifiedRingBuffer α) (h : isPowerOfTwo b.capacity) (start : UInt64) (n : ℕ) :
    b.slot (start + UInt64.ofNat n) = (start.toNat + n) % b.capacity.toNat := by
  obtain ⟨k, hk, hcapacity⟩ := h
  have hpos : 0 < 2 ^ k := Nat.two_pow_pos k
  have hmask : (b.capacity - 1).toNat = 2 ^ k - 1 := by
    rw [UInt64.toNat_sub_of_le _ _ (UInt64.le_iff_toNat_le.mpr (by rw [hcapacity]; exact hpos)),
      hcapacity]
    rfl
  rw [VerifiedRingBuffer.slot, UInt64.toNat_and, hmask, Nat.and_two_pow_sub_one_eq_mod,
    toNat_add_ofNat, hcapacity, Nat.mod_mod_of_dvd _ (Nat.pow_dvd_pow 2 (Nat.le_of_lt hk))]

theorem distance_eq (start : UInt64) {r w : ℕ} (hle : r ≤ w) (hlt : w < r + 2 ^ 64) :
    ((start + UInt64.ofNat w) - (start + UInt64.ofNat r)).toNat = w - r := by
  obtain ⟨d, rfl⟩ := Nat.exists_eq_add_of_le hle
  have hsum : start + UInt64.ofNat (r + d) = UInt64.ofNat d + (start + UInt64.ofNat r) := by
    rw [UInt64.ofNat_add]
    ac_rfl
  rw [hsum, UInt64.add_sub_cancel, UInt64.toNat_ofNat', Nat.mod_eq_of_lt (by omega)]
  omega

theorem succ_idx (start : UInt64) (n : ℕ) :
    start + UInt64.ofNat n + 1 = start + UInt64.ofNat (n + 1) := by
  rw [UInt64.ofNat_add, UInt64.add_assoc]
  rfl

/-! ### The invariant -/

namespace TryPush

/-- What the producer knows: `pushed` items are pushed, `popped` are popped. -/
def Knows (capacity writeIdx : UInt64) (pushed popped : ℕ) : TryPush α → Prop
  | .idle => True
  | .loadRead _ write => write = writeIdx
  | .drop => True
  | .fill _ write => write = writeIdx ∧ pushed < popped + capacity.toNat
  | .publish _ write => write = writeIdx

end TryPush

namespace TryPop

/-- What the consumer knows. The number that it loaded first may be old. -/
def Knows (start readIdx : UInt64) (pushed popped : ℕ) : TryPop α → Prop
  | .idle => True
  | .loadRead write => ∃ w, popped ≤ w ∧ w ≤ pushed ∧ write = start + UInt64.ofNat w
  | .take read => read = readIdx ∧ popped < pushed
  | .release _ read => read = readIdx

end TryPop

namespace RingState

/-- The items that are pushed and not popped are in the slots in order, but for the one that the
consumer holds; behind them is the one that is to be pushed. -/
structure Inv (capacity start : UInt64) (s : RingState α) : Prop where
  capacity_eq : s.buffer.capacity = capacity
  slots : s.buffer.slots.length = capacity.toNat
  writeIdx : s.buffer.writeIdx = start + UInt64.ofNat s.pushed.length
  readIdx : s.buffer.readIdx = start + UInt64.ofNat s.popped.length
  queue : ∃ inSlots, s.pushed ++ s.staged = s.popped ++ (s.held ++ inSlots) ∧
    Lies s.buffer.slots (start.toNat + s.popped.length + s.held.length) inSlots
  room : s.pushed.length + s.staged.length ≤ s.popped.length + capacity.toNat
  taken : s.popped.length + s.held.length ≤ s.pushed.length
  producer : s.producer.Knows capacity s.buffer.writeIdx s.pushed.length s.popped.length
  consumer : s.consumer.Knows start s.buffer.readIdx s.pushed.length s.popped.length

theorem inv_new (capacity start : UInt64) : (new capacity start : RingState α).Inv capacity start where
  capacity_eq := rfl
  slots := length_replicate
  writeIdx := (UInt64.add_zero start).symm
  readIdx := (UInt64.add_zero start).symm
  queue := ⟨[], rfl, lies_nil _ _⟩
  room := Nat.zero_le _
  taken := Nat.le_refl 0
  producer := trivial
  consumer := trivial

variable {capacity start : UInt64} {s t : RingState α}

namespace Inv

theorem slot_write (h : s.Inv capacity start) (hcapacity : isPowerOfTwo capacity) :
    s.buffer.slot s.buffer.writeIdx = (start.toNat + s.pushed.length) % s.buffer.slots.length := by
  rw [h.writeIdx, slot_eq s.buffer (h.capacity_eq.symm ▸ hcapacity), h.capacity_eq, h.slots]

theorem slot_read (h : s.Inv capacity start) (hcapacity : isPowerOfTwo capacity) :
    s.buffer.slot s.buffer.readIdx = (start.toNat + s.popped.length) % s.buffer.slots.length := by
  rw [h.readIdx, slot_eq s.buffer (h.capacity_eq.symm ▸ hcapacity), h.capacity_eq, h.slots]

theorem push (h : s.Inv capacity start) {item : α} (hstep : s.step (.push item) = some t) :
    t.Inv capacity start := by
  rw [step] at hstep
  split at hstep
  · rename_i hidle
    cases hstep
    have hstaged : s.staged = [] := by rw [staged, hidle]
    exact
      { h with
        queue := by
          have hqueue := h.queue
          rw [hstaged] at hqueue
          exact hqueue
        room := by
          have hroom := h.room
          rw [hstaged] at hroom
          exact hroom
        producer := rfl }
  · cases hstep

theorem full_iff (h : s.Inv capacity start) :
    capacity ≤ s.buffer.writeIdx - s.buffer.readIdx ↔
      s.pushed.length = s.popped.length + capacity.toNat := by
  have hlt : capacity.toNat < 2 ^ 64 := capacity.toNat_lt
  have hroom := h.room
  have htaken := h.taken
  rw [UInt64.le_iff_toNat_le, h.writeIdx, h.readIdx, distance_eq start (by omega) (by omega)]
  omega

theorem tryPush (hcapacity : isPowerOfTwo capacity) (h : s.Inv capacity start)
    (hstep : s.tryPush = some t) : t.Inv capacity start := by
  have hknows := h.producer
  have hqueue := h.queue
  have hroom := h.room
  rw [RingState.tryPush] at hstep
  rw [staged] at hqueue hroom
  cases hproducer : s.producer with
  | idle =>
      rw [hproducer] at hstep
      cases hstep
  | drop =>
      rw [hproducer] at hstep hqueue hroom
      cases hstep
      exact { h with queue := hqueue, room := hroom, producer := trivial }
  | loadRead item write =>
      rw [hproducer] at hstep hqueue hroom hknows
      cases hstep
      have hwrite : write = s.buffer.writeIdx := hknows
      rw [hwrite, h.capacity_eq]
      split
      · exact { h with queue := hqueue, room := hroom, producer := trivial }
      · rename_i hspace
        have hfull : s.pushed.length ≠ s.popped.length + capacity.toNat :=
          fun heq => hspace (h.full_iff.mpr heq)
        rw [length_nil] at hroom
        exact
          { h with
            queue := hqueue
            room := hroom
            producer := ⟨rfl, show s.pushed.length < s.popped.length + capacity.toNat by omega⟩ }
  | fill item write =>
      rw [hproducer] at hstep hqueue hroom hknows
      cases hstep
      obtain ⟨hwrite, hspace⟩ := hknows
      obtain ⟨inSlots, hitems, hlies⟩ := hqueue
      have hlength := congrArg length hitems
      rw [append_nil, length_append, length_append] at hlength
      have htaken := h.taken
      have hslot : s.buffer.slot write =
          (start.toNat + s.popped.length + s.held.length + inSlots.length) %
            s.buffer.slots.length := by
        rw [hwrite, h.slot_write hcapacity, hlength]
        congr 1
        omega
      exact
        { h with
          slots := length_set.trans h.slots
          queue := by
            refine ⟨inSlots ++ [item], ?_, ?_⟩
            · show s.pushed ++ [item] = s.popped ++ (s.held ++ (inSlots ++ [item]))
              rw [append_nil] at hitems
              rw [hitems, append_assoc, append_assoc]
            · show Lies (s.buffer.slots.set (s.buffer.slot write) (some item)) _ _
              rw [hslot]
              exact hlies.push item (by rw [h.slots]; omega)
          room := hspace
          producer := hwrite }
  | publish item write =>
      rw [hproducer] at hstep hqueue hroom hknows
      cases hstep
      have hwrite : write = s.buffer.writeIdx := hknows
      have hlength : (s.pushed ++ [item]).length = s.pushed.length + 1 := length_append
      exact
        { h with
          writeIdx := by
            show write + 1 = start + UInt64.ofNat (s.pushed ++ [item]).length
            rw [hwrite, h.writeIdx, succ_idx, hlength]
          queue := by
            obtain ⟨inSlots, hitems, hlies⟩ := hqueue
            exact ⟨inSlots, (append_nil _).trans hitems, hlies⟩
          room := by
            show (s.pushed ++ [item]).length ≤ s.popped.length + capacity.toNat
            rw [hlength]
            exact hroom
          taken := by
            show s.popped.length + s.held.length ≤ (s.pushed ++ [item]).length
            rw [hlength]
            exact Nat.le_succ_of_le h.taken
          producer := trivial
          consumer := by
            show s.consumer.Knows start s.buffer.readIdx (s.pushed ++ [item]).length _
            rw [hlength]
            have hconsumer := h.consumer
            cases hc : s.consumer with
            | idle => trivial
            | loadRead seen =>
                rw [hc] at hconsumer
                obtain ⟨w, hpopped, hpushed, hseen⟩ := hconsumer
                exact ⟨w, hpopped, Nat.le_succ_of_le hpushed, hseen⟩
            | take read =>
                rw [hc] at hconsumer
                exact ⟨hconsumer.1, Nat.lt_succ_of_lt hconsumer.2⟩
            | release item' read =>
                rw [hc] at hconsumer
                exact hconsumer }

theorem take (hcapacity : isPowerOfTwo capacity) (h : s.Inv capacity start) {read : UInt64}
    (hconsumer : s.consumer = .take read) :
    ∃ item, s.tryPop = { s with
        buffer := { s.buffer with slots := s.buffer.slots.set (s.buffer.slot read) none }
        consumer := .release item read } ∧
      s.tryPop.Inv capacity start := by
  have hknows := h.consumer
  rw [hconsumer] at hknows
  obtain ⟨hread, hsome⟩ := hknows
  obtain ⟨inSlots, hitems, hlies⟩ := h.queue
  have hheld : s.held = [] := by rw [held, hconsumer]
  rw [hheld] at hitems hlies
  cases inSlots with
  | nil =>
      have hlength := congrArg length hitems
      rw [append_nil, append_nil, length_append] at hlength
      omega
  | cons item rest =>
      have hslot : s.buffer.slot read =
          (start.toNat + s.popped.length) % s.buffer.slots.length := by
        rw [hread, h.slot_read hcapacity]
      have hfound : (s.buffer.slots[s.buffer.slot read]?).join = some item := by
        rw [hslot]
        exact congrArg Option.join hlies.head
      have hstep : s.tryPop = { s with
          buffer := { s.buffer with slots := s.buffer.slots.set (s.buffer.slot read) none }
          consumer := .release item read } := by
        rw [RingState.tryPop, hconsumer]
        simp only [hfound]
      refine ⟨item, hstep, ?_⟩
      rw [hstep]
      exact
        { h with
          slots := length_set.trans h.slots
          queue := by
            refine ⟨rest, hitems, ?_⟩
            show Lies (s.buffer.slots.set (s.buffer.slot read) none)
              (start.toNat + s.popped.length + 1) rest
            rw [hslot]
            apply hlies.pop
            have hlength := congrArg length hitems
            rw [length_append, length_append, nil_append] at hlength
            have hroom := h.room
            rw [h.slots]
            omega
          taken := hsome
          consumer := hread }

theorem tryPop (hcapacity : isPowerOfTwo capacity) (h : s.Inv capacity start) :
    s.tryPop.Inv capacity start := by
  have hknows := h.consumer
  have hqueue := h.queue
  have htaken := h.taken
  rw [held] at hqueue htaken
  cases hconsumer : s.consumer with
  | idle =>
      rw [hconsumer] at hqueue htaken
      rw [length_nil] at htaken
      rw [RingState.tryPop, hconsumer]
      exact
        { h with
          queue := hqueue
          taken := htaken
          consumer := ⟨s.pushed.length, htaken, Nat.le_refl _, h.writeIdx⟩ }
  | loadRead write =>
      rw [hconsumer] at hqueue htaken hknows
      obtain ⟨w, hpopped, hpushed, hwrite⟩ := hknows
      rw [RingState.tryPop, hconsumer]
      dsimp only
      split
      · exact { h with queue := hqueue, taken := htaken, consumer := trivial }
      · rename_i hne
        -- the number that was loaded first is still ahead of what is popped
        have hahead : s.popped.length ≠ w := by
          rintro rfl
          exact hne (h.readIdx.trans hwrite.symm)
        exact
          { h with
            queue := hqueue
            taken := htaken
            consumer := ⟨rfl, show s.popped.length < s.pushed.length by omega⟩ }
  | take read =>
      obtain ⟨-, -, hinv⟩ := h.take hcapacity hconsumer
      exact hinv
  | release item read =>
      rw [hconsumer] at hqueue htaken hknows
      have hread : read = s.buffer.readIdx := hknows
      obtain ⟨inSlots, hitems, hlies⟩ := hqueue
      have hlength : (s.popped ++ [item]).length = s.popped.length + 1 := length_append
      have hroom := h.room
      rw [RingState.tryPop, hconsumer]
      exact
        { h with
          readIdx := by
            show read + 1 = start + UInt64.ofNat (s.popped ++ [item]).length
            rw [hread, h.readIdx, succ_idx, hlength]
          queue := by
            refine ⟨inSlots, hitems.trans (append_assoc _ _ _).symm, ?_⟩
            show Lies s.buffer.slots (start.toNat + (s.popped ++ [item]).length) inSlots
            rw [hlength]
            exact hlies
          room := by
            show s.pushed.length + s.staged.length ≤ (s.popped ++ [item]).length + _
            omega
          taken := by
            show (s.popped ++ [item]).length ≤ s.pushed.length
            rw [hlength]
            exact htaken
          producer := by
            show s.producer.Knows capacity s.buffer.writeIdx _ (s.popped ++ [item]).length
            rw [hlength]
            have hproducer := h.producer
            cases hp : s.producer with
            | fill item' write =>
                rw [hp] at hproducer
                have hspace := hproducer.2
                exact ⟨hproducer.1, show s.pushed.length < s.popped.length + 1 + _ by omega⟩
            | idle => trivial
            | drop => trivial
            | loadRead item' write =>
                rw [hp] at hproducer
                exact hproducer
            | publish item' write =>
                rw [hp] at hproducer
                exact hproducer
          consumer := trivial }

theorem step (hcapacity : isPowerOfTwo capacity) (h : s.Inv capacity start) {a : RingAction α}
    (hstep : s.step a = some t) : t.Inv capacity start := by
  cases a with
  | push item => exact h.push hstep
  | producer => exact h.tryPush hcapacity hstep
  | consumer =>
      cases hstep
      exact h.tryPop hcapacity

theorem slot_ne (hcapacity : isPowerOfTwo capacity) (h : s.Inv capacity start) {i j : ℕ}
    (hi : i ∈ s.written) (hj : j ∈ s.takenFrom) : j ≠ i := by
  have hproducer := h.producer
  have hconsumer := h.consumer
  rw [written] at hi
  rw [takenFrom] at hj
  split at hi
  · rename_i item write hfill
    split at hj
    · rename_i read htake
      cases hi
      cases hj
      rw [hfill] at hproducer
      rw [htake] at hconsumer
      rw [hproducer.1, hconsumer.1, h.slot_write hcapacity, h.slot_read hcapacity]
      have hspace := hproducer.2
      have hsome := hconsumer.2
      exact place_ne (by omega) (by rw [h.slots]; omega)
    · cases hj
  · cases hi

end Inv

/-! ### Runs -/

/-- `capacity` items are pushed and not popped. -/
def Full (s : RingState α) : Prop := s.pushed.length = s.popped.length + s.buffer.capacity.toNat

/-- The buffer loses, doubles and reorders nothing, and the two sides are never at the same slot. -/
structure Correct (s : RingState α) : Prop where
  fifo : s.popped <+: s.pushed
  /-- What is pushed and not popped is with the consumer, or in order in the slots. -/
  kept : ∃ inSlots, s.pushed = s.popped ++ (s.held ++ inSlots) ∧
    Lies s.buffer.slots (s.buffer.readIdx.toNat + s.held.length) inSlots
  exclusive : ∀ i ∈ s.written, ∀ j ∈ s.takenFrom, j ≠ i
  inRange : ∀ i, i ∈ s.written ∨ i ∈ s.takenFrom → i < s.buffer.slots.length

/-- A call of `try_push` is going on, and the buffer was full at some moment since it began. -/
def FullInCall (capacity start : UInt64) (actions : List (RingAction α)) : Prop :=
  ∃ before item during since, actions = before ++ .push item :: (during ++ since) ∧
    (∀ a ∈ during ++ since, a = .producer ∨ a = .consumer) ∧
    ∃ t, exec step (new capacity start) (before ++ .push item :: during) = some t ∧ t.Full

/-- A call of `try_push` is going on. -/
def InCall (actions : List (RingAction α)) : Prop :=
  ∃ before item during, actions = before ++ .push item :: during ∧
    ∀ a ∈ during, a = .producer ∨ a = .consumer

variable {actions : List (RingAction α)}

theorem InCall.concat {a : RingAction α} (h : InCall actions) (ha : a = .producer ∨ a = .consumer) :
    InCall (actions ++ [a]) := by
  obtain ⟨before, item, during, rfl, hduring⟩ := h
  refine ⟨before, item, during ++ [a], by rw [append_assoc, cons_append], ?_⟩
  intro b hb
  rcases mem_append.mp hb with hold | hlast
  · exact hduring b hold
  · exact mem_singleton.mp hlast ▸ ha

theorem InCall.full (h : InCall actions) (hs : exec step (new capacity start) actions = some s)
    (hfull : s.Full) : FullInCall capacity start actions := by
  obtain ⟨before, item, during, rfl, hduring⟩ := h
  refine ⟨before, item, during, [], by rw [append_nil], ?_, s, hs, hfull⟩
  rw [append_nil]
  exact hduring

theorem FullInCall.concat {a : RingAction α} (h : FullInCall capacity start actions)
    (ha : a = .producer ∨ a = .consumer) : FullInCall capacity start (actions ++ [a]) := by
  obtain ⟨before, item, during, since, rfl, hcall, t, ht, hfull⟩ := h
  refine ⟨before, item, during, since ++ [a], ?_, ?_, t, ht, hfull⟩
  · rw [append_assoc, cons_append, append_assoc]
  · intro b hb
    rw [← append_assoc] at hb
    rcases mem_append.mp hb with hold | hlast
    · exact hcall b hold
    · exact mem_singleton.mp hlast ▸ ha

/-- The producer is in a call of `try_push` when it says so, and gives the item up only if the
buffer was full. -/
structure Calls (capacity start : UInt64) (actions : List (RingAction α)) (s : RingState α) :
    Prop where
  inCall : s.producer ≠ .idle → InCall actions
  full : s.producer = .drop → FullInCall capacity start actions

theorem Calls.producer (h : s.Calls capacity start actions) (hinv : s.Inv capacity start)
    (hs : exec step (new capacity start) actions = some s) (hstep : s.tryPush = some t) :
    t.Calls capacity start (actions ++ [.producer]) := by
  rw [tryPush] at hstep
  cases hproducer : s.producer with
  | idle =>
      rw [hproducer] at hstep
      cases hstep
  | loadRead item write =>
      have hcall := h.inCall (by rw [hproducer]; nofun)
      refine ⟨fun _ => hcall.concat (.inl rfl), fun hdrop => ?_⟩
      rw [hproducer] at hstep
      cases hstep
      dsimp only at hdrop
      split at hdrop
      · rename_i hfull
        have hwrite : write = s.buffer.writeIdx := by
          have hknows := hinv.producer
          rw [hproducer] at hknows
          exact hknows
        rw [hinv.capacity_eq, hwrite] at hfull
        have hcount := hinv.full_iff.mp hfull
        rw [← hinv.capacity_eq] at hcount
        exact (hcall.full hs hcount).concat (.inl rfl)
      · cases hdrop
  | drop =>
      rw [hproducer] at hstep
      cases hstep
      exact ⟨fun hidle => absurd rfl hidle, nofun⟩
  | fill item write =>
      have hcall := h.inCall (by rw [hproducer]; nofun)
      rw [hproducer] at hstep
      cases hstep
      exact ⟨fun _ => hcall.concat (.inl rfl), nofun⟩
  | publish item write =>
      rw [hproducer] at hstep
      cases hstep
      exact ⟨fun hidle => absurd rfl hidle, nofun⟩

theorem tryPop_producer (s : RingState α) : s.tryPop.producer = s.producer := by
  rw [tryPop]
  split
  · rfl
  · rfl
  · dsimp only
    split <;> rfl
  · rfl

theorem run_inv (hcapacity : isPowerOfTwo capacity) {s : RingState α}
    (h : exec step (new capacity start) actions = some s) :
    s.Inv capacity start ∧ s.Calls capacity start actions := by
  induction actions using reverseRecOn generalizing s with
  | nil =>
      cases h
      exact ⟨inv_new capacity start, fun hidle => absurd rfl hidle, nofun⟩
  | append_singleton actions a ih =>
      rw [exec_append] at h
      obtain ⟨u, hu, hlast⟩ := Option.bind_eq_some_iff.mp h
      obtain ⟨hinv, hcalls⟩ := ih hu
      rw [exec_cons] at hlast
      obtain ⟨t, hstep, ht⟩ := Option.bind_eq_some_iff.mp hlast
      cases ht
      refine ⟨hinv.step hcapacity hstep, ?_⟩
      cases a with
      | push item =>
          refine ⟨fun _ => ⟨actions, item, [], rfl, nofun⟩, fun hdrop => ?_⟩
          rw [step] at hstep
          split at hstep
          · cases hstep
            cases hdrop
          · cases hstep
      | producer => exact hcalls.producer hinv hu hstep
      | consumer =>
          cases hstep
          refine ⟨fun hidle => ?_, fun hdrop => ?_⟩
          · rw [tryPop_producer] at hidle
            exact (hcalls.inCall hidle).concat (.inr rfl)
          · rw [tryPop_producer] at hdrop
            exact (hcalls.full hdrop).concat (.inr rfl)

theorem Inv.correct (hcapacity : isPowerOfTwo capacity) (h : s.Inv capacity start) : s.Correct := by
  obtain ⟨k, hk, hpower⟩ := id hcapacity
  obtain ⟨inSlots, hitems, hlies⟩ := h.queue
  have hpos : 0 < s.buffer.slots.length := by
    rw [h.slots, hpower]
    exact Nat.two_pow_pos k
  have hheld : s.popped ++ s.held <+: s.pushed := by
    refine prefix_of_prefix_length_le ⟨inSlots, ?_⟩ (prefix_append s.pushed s.staged) ?_
    · rw [hitems, append_assoc]
    · rw [length_append]
      exact h.taken
  obtain ⟨stored, hstored⟩ := hheld
  rw [append_assoc] at hstored
  refine ⟨⟨s.held ++ stored, hstored⟩, ⟨stored, hstored.symm, ?_⟩, ?_, ?_⟩
  · have hsplit : inSlots = stored ++ s.staged := by
      rw [← hstored, append_assoc, append_assoc] at hitems
      exact (append_cancel_left (append_cancel_left hitems)).symm
    rw [hsplit] at hlies
    refine hlies.of_append.congr_mod ?_
    apply Nat.ModEq.add_right
    rw [h.readIdx, toNat_add_ofNat, h.slots, hpower]
    exact (Nat.mod_mod_of_dvd _ (Nat.pow_dvd_pow 2 (Nat.le_of_lt hk))).symm
  · exact fun i hi j hj => h.slot_ne hcapacity hi hj
  · rintro i (hi | hi)
    · rw [written] at hi
      split at hi
      · rename_i item write hfill
        cases hi
        have hproducer := h.producer
        rw [hfill] at hproducer
        rw [hproducer.1, h.slot_write hcapacity]
        exact Nat.mod_lt _ hpos
      · cases hi
    · rw [takenFrom] at hi
      split at hi
      · rename_i read htake
        cases hi
        have hconsumer := h.consumer
        rw [htake] at hconsumer
        rw [hconsumer.1, h.slot_read hcapacity]
        exact Nat.mod_lt _ hpos
      · cases hi

end RingState

/-- Whatever the order of the steps, what is popped is what was pushed, in its order, nothing is
lost, the two sides never meet at a slot, and an item is refused only when the buffer was full. -/
theorem ring_buffer_correct {capacity start : UInt64} (hcapacity : isPowerOfTwo capacity)
    {actions : List (RingAction α)} {s : RingState α}
    (h : exec RingState.step (.new capacity start) actions = some s) :
    s.Correct ∧ (s.producer = .drop → RingState.FullInCall capacity start actions) := by
  obtain ⟨hinv, hcalls⟩ := RingState.run_inv hcapacity h
  exact ⟨hinv.correct hcapacity, hcalls.full⟩

/-- Two slots at the end of the counters: the third item is given up while the first is popped. -/
def wrappingRun : List (RingAction ℕ) :=
  [.push 1, .producer, .consumer, .producer, .producer, .push 2, .consumer, .producer, .producer,
    .consumer, .producer, .consumer, .push 3, .consumer, .producer, .consumer]

theorem ring_buffer_correct_wrapping :
    ∃ s, exec RingState.step (.new 2 18446744073709551615) wrappingRun = some s ∧
      s.producer = .drop ∧ s.popped = [1] ∧ s.Correct ∧
      RingState.FullInCall 2 18446744073709551615 wrappingRun := by
  have hrun := @ring_buffer_correct ℕ 2 18446744073709551615 (by decide) wrappingRun _ rfl
  exact ⟨_, rfl, rfl, rfl, hrun.1, hrun.2 rfl⟩

end Vantablack.Layers
