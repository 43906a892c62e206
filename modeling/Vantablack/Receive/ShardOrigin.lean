import Vantablack.Receive.Ingest
import Vantablack.Symbolic

/-!
Where the shards of a delivered message come from. `handle_pkt` takes a message that is
delivered with ShardSec metadata and a session hash for authentic plaintext. The spool does
not tell shards that were opened from shards that were not, so a run keeps a record of what
was entered: the newest entry for a slot is the shard that is in it.
-/

namespace Vantablack.Receive

open Lib Layers Session List

variable {C : Crypto}

/-- A shard entered into the spool, with the datagram it came in and the sessions then. -/
structure Entered (C : Crypto) where
  key : SpoolKey
  idx : ℕ
  data : Bytes
  datagram : Bytes
  sessions : SessionTable C

namespace Entered

/-- The datagram carried the ShardSec flag. -/
def flagged (e : Entered C) : Bool := (V2FrameMeta.of e.datagram).any V2FrameMeta.shardsec

/-- `open_shard` accepted the shard of the datagram, under a key that the session with this peer,
this master key and this hash had for this epoch and counter. -/
def OpenedBy (A : ShardAead C) (fp : String) (masterKey : C.Key) (hash : Octets 4)
    (epoch counter : ℕ) (e : Entered C) : Prop :=
  e.flagged = true ∧
    ∃ v2 sd index sealedShard s direction key,
      V2FrameMeta.of e.datagram = some v2 ∧ unframe (extractPayload e.datagram) = some sd ∧
      sealedShardOf index sd = some sealedShard ∧ index.toNat = e.idx ∧
      e.sessions.table.lookup fp = some s ∧ s.masterKey = masterKey ∧
      s.sessionHash = hash.toList ∧ (s.planOpen epoch direction counter).key? = some key ∧
      openShard A key epoch v2.nonce direction sealedShard = some e.data

end Entered

/-- A receiver with the record of its spool, the newest entry first. -/
structure Observed (C : Crypto) where
  ctx : RxContext C
  entered : List (Entered C)

def lastEntered (entered : List (Entered C)) (key : SpoolKey) (idx : ℕ) : Option (Entered C) :=
  entered.find? fun e => e.key = key ∧ e.idx = idx

/-- A datagram arrives, or the rest of the node has changed the sessions or gone on- or
offline. -/
inductive RxEvent (C : Crypto) where
  | arrive (now : ℕ) (datagram : Bytes) (src : SocketAddr)
  | node (connected : Bool) (sessions : SessionTable C)

namespace Observed

def record (A : ShardAead C) (w : Observed C) (now : ℕ) (datagram : Bytes) (src : SocketAddr) :
    List (Entered C) :=
  match (route A w.ctx now datagram).1 with
  | .shard idx data =>
      { key := SpoolKey.of src datagram (V2FrameMeta.of datagram), idx := idx, data := data
        datagram := datagram, sessions := w.ctx.sessions } :: w.entered
  | _ => w.entered

def step (rs : ReedSolomon) (A : ShardAead C) (w : Observed C) : RxEvent C → Observed C
  | .arrive now datagram src =>
      { ctx := (ingest rs A w.ctx now datagram src).1, entered := w.record A now datagram src }
  | .node connected sessions =>
      { w with ctx := { w.ctx with connected := connected, sessions := sessions } }

/-- A receiver with nothing in its spool. -/
def start (connected : Bool) (sessions : SessionTable C) : Observed C :=
  { ctx := { connected := connected, sessions := sessions, spool := ∅ }, entered := [] }

/-- A delivery that `handle_pkt` takes for authentic was put together from shards that were
each opened under a key of one session, which is named on the wire, for the epoch and counter. -/
def DeliversOpened (rs : ReedSolomon) (A : ShardAead C) (w : Observed C) : RxEvent C → Prop
  | .arrive now datagram src =>
      ∀ d v2 hash, (ingest rs A w.ctx now datagram src).2 = some d → d.v2 = some v2 →
        v2.shardsec = true → d.wireSessionHash = some hash →
        rejoin rs d.shards = some d.payload ∧
          ∃ fp masterKey, ∀ j v, d.shards[j]? = some (some v) →
            ∃ e, lastEntered (w.record A now datagram src) (SpoolKey.of src datagram d.v2) j =
              some e ∧ e.data = v ∧ e.OpenedBy A fp masterKey hash v2.epoch d.ctr
  | .node _ _ => True

/-- When the shard of a ShardSec datagram is opened, every other shard in its bucket came in
a ShardSec datagram too. -/
def Unmixed (A : ShardAead C) (w : Observed C) : RxEvent C → Prop
  | .arrive now datagram src =>
      ∀ v2 idx data, V2FrameMeta.of datagram = some v2 → v2.shardsec = true →
        (route A w.ctx now datagram).1 = .shard idx data →
        ∀ b j v e, (prune w.ctx.spool).lookup (SpoolKey.of src datagram (some v2)) = some b →
          j ≠ idx → b[j]? = some (some v) →
          lastEntered w.entered (SpoolKey.of src datagram (some v2)) j = some e →
          e.flagged = true
  | .node _ _ => True

/-- The session hash of a datagram means the same session to it as to the shards that were entered
under its key before. -/
def NoCollision (w : Observed C) : RxEvent C → Prop
  | .arrive _ datagram src =>
      ∀ x ∈ w.ctx.sessions.table.entries, x.2.sessionHash = (parseSessionHash datagram).toList →
        ∀ e ∈ w.entered, e.key = SpoolKey.of src datagram (V2FrameMeta.of datagram) →
          ∀ y ∈ e.sessions.table.entries, y.2.sessionHash = (parseSessionHash datagram).toList →
            y.1 = x.1 ∧ y.2.masterKey = x.2.masterKey
  | .node _ _ => True

instance (w : Observed C) (a : RxEvent C) : Decidable (w.NoCollision a) :=
  match a with
  | .arrive _ datagram src =>
      inferInstanceAs (Decidable (∀ x ∈ w.ctx.sessions.table.entries,
        x.2.sessionHash = (parseSessionHash datagram).toList → ∀ e ∈ w.entered,
          e.key = SpoolKey.of src datagram (V2FrameMeta.of datagram) →
            ∀ y ∈ e.sessions.table.entries,
              y.2.sessionHash = (parseSessionHash datagram).toList →
                y.1 = x.1 ∧ y.2.masterKey = x.2.masterKey))
  | .node _ _ => inferInstanceAs (Decidable True)

/-- Buckets have three slots, the record knows the shard in each, and a shard was either
opened for its bucket or is not empty. -/
structure Inv (A : ShardAead C) (w : Observed C) : Prop where
  length : ∀ key b, w.ctx.spool.lookup key = some b → b.length = 3
  slot : ∀ key b j v, w.ctx.spool.lookup key = some b → b[j]? = some (some v) →
    ∃ e, lastEntered w.entered key j = some e ∧ e.data = v
  opened : ∀ e ∈ w.entered, e.flagged = true →
    ∃ fp masterKey, e.OpenedBy A fp masterKey e.key.sessionHash e.key.epoch e.key.counter
  nonempty : ∀ e ∈ w.entered, e.flagged = false → e.data ≠ []

theorem inv_start (A : ShardAead C) (connected : Bool) (sessions : SessionTable C) :
    Inv A (start connected sessions) where
  length := by
    intro key b h
    cases h
  slot := by
    intro key b j v h
    cases h
  opened := by
    intro e he
    cases he
  nonempty := by
    intro e he
    cases he

end Observed

theorem route_eq_shard {A : ShardAead C} {ctx : RxContext C} {now : ℕ} {datagram : Bytes}
    {idx : ℕ} {data : Bytes} (src : SocketAddr)
    (h : (route A ctx now datagram).1 = .shard idx data) :
    let key := SpoolKey.of src datagram (V2FrameMeta.of datagram)
    let e : Entered C :=
      { key := key, idx := idx, data := data, datagram := datagram, sessions := ctx.sessions }
    idx < 3 ∧ (e.flagged = true → ∃ fp masterKey,
        e.OpenedBy A fp masterKey key.sessionHash key.epoch key.counter) ∧
      (e.flagged = false → data ≠ []) := by
  intro key e
  unfold route at h
  split at h
  · cases h
  split at h
  · cases h
  rename_i sd hsd
  split at h
  · cases h
  dsimp only at h
  split at h
  · cases h
  rename_i hindex
  split at h
  · rename_i hplain
    cases h
    have hflag : e.flagged = false := by
      rw [Option.filter_eq_none_iff] at hplain
      simp only [Entered.flagged, e, Option.any_eq_false]
      intro v2 hv2
      exact eq_false_of_ne_true (hplain v2 hv2)
    refine ⟨by omega, fun hflagged => ?_, fun _ => unframe_ne_nil hsd⟩
    rw [hflag] at hflagged
    cases hflagged
  rename_i v2 hv2
  obtain ⟨hmeta, hshardsec⟩ := Option.filter_eq_some_iff.mp hv2
  split at h
  · cases h
  rename_i sealedShard hsealed
  split at h
  · cases h
  rename_i plain sessions hopen
  cases h
  have hflag : e.flagged = true := by
    simp only [Entered.flagged, e, hmeta, Option.any_some, hshardsec]
  refine ⟨by omega, fun _ => ?_, fun hflagged => ?_⟩
  · obtain ⟨fp, s, hs, hhash, direction, key', hkey, hopened⟩ :=
      openWith_eq_some (congrArg Prod.fst hopen)
    refine ⟨fp, s.masterKey, hflag, ?_⟩
    have hepoch : key.epoch = v2.epoch := by
      simp only [key, SpoolKey.of, hmeta, Option.elim_some]
    rw [hepoch]
    exact ⟨v2, sd, _, sealedShard, s, direction, key', hmeta, hsd, hsealed, rfl, hs, rfl, hhash,
      hkey, hopened⟩
  · rw [hflag] at hflagged
    cases hflagged

/-! ### The record and a step -/

theorem lastEntered_eq_some {entered : List (Entered C)} {key : SpoolKey} {idx : ℕ}
    {e : Entered C} (h : lastEntered entered key idx = some e) :
    e ∈ entered ∧ e.key = key ∧ e.idx = idx := by
  have hfound := find?_some h
  simp only [decide_eq_true_eq] at hfound
  exact ⟨mem_of_find?_eq_some h, hfound⟩

theorem lastEntered_cons_self (e : Entered C) (entered : List (Entered C)) :
    lastEntered (e :: entered) e.key e.idx = some e :=
  find?_cons_of_pos (by simp)

theorem lastEntered_cons_ne {e : Entered C} {entered : List (Entered C)} {key : SpoolKey} {idx : ℕ}
    (h : ¬ (e.key = key ∧ e.idx = idx)) :
    lastEntered (e :: entered) key idx = lastEntered entered key idx :=
  find?_cons_of_neg (by simpa using h)

namespace Observed

theorem step_arrive (rs : ReedSolomon) (A : ShardAead C) (w : Observed C) (now : ℕ)
    (datagram : Bytes) (src : SocketAddr) :
    ((w.step rs A (.arrive now datagram src)).ctx.spool = w.ctx.spool ∧
        (w.step rs A (.arrive now datagram src)).entered = w.entered) ∨
      ∃ idx data, (route A w.ctx now datagram).1 = .shard idx data ∧
        (w.step rs A (.arrive now datagram src)).ctx.spool =
          (assemble rs w.ctx.spool (SpoolKey.of src datagram (V2FrameMeta.of datagram)) idx
            data).2 ∧
        (w.step rs A (.arrive now datagram src)).entered =
          { key := SpoolKey.of src datagram (V2FrameMeta.of datagram), idx := idx, data := data
            datagram := datagram, sessions := w.ctx.sessions } :: w.entered := by
  cases hroute : route A w.ctx now datagram with
  | mk routed sessions =>
      cases routed with
      | dropped => exact Or.inl (by simp [step, ingest, record, hroute])
      | whole sd => exact Or.inl (by simp [step, ingest, record, hroute])
      | shard idx data => exact Or.inr ⟨idx, data, rfl, by simp [step, ingest, record, hroute]⟩

theorem length_filled {pool : SpoolPool} {key : SpoolKey} {idx : ℕ} {data : Bytes}
    (h : ∀ key b, pool.lookup key = some b → b.length = 3) :
    (filled pool key idx data).length = 3 := by
  rw [filled, length_set]
  cases hb : (prune pool).lookup key with
  | none => rfl
  | some b => exact h key b (lookup_prune hb)

variable {A : ShardAead C} {w : Observed C}

theorem Inv.step (h : Inv A w) (rs : ReedSolomon) (a : RxEvent C) : Inv A (w.step rs A a) := by
  cases a with
  | node connected sessions => exact ⟨h.length, h.slot, h.opened, h.nonempty⟩
  | arrive now datagram src =>
      rcases step_arrive rs A w now datagram src with
        ⟨hspool, hentered⟩ | ⟨idx, data, hroute, hspool, hentered⟩
      · constructor
        · rw [hspool]
          exact h.length
        · rw [hspool, hentered]
          exact h.slot
        · rw [hentered]
          exact h.opened
        · rw [hentered]
          exact h.nonempty
      obtain ⟨_, hopened, hnonempty⟩ := route_eq_shard src hroute
      constructor
      · rw [hspool]
        intro key b hb
        rcases lookup_assemble hb with ⟨_, hold⟩ | ⟨_, rfl⟩
        · exact h.length key b hold
        · exact length_filled h.length
      · rw [hspool, hentered]
        intro key b j v hb hv
        rcases lookup_assemble hb with ⟨hkey, hold⟩ | ⟨rfl, rfl⟩
        · rw [lastEntered_cons_ne (fun hsame => hkey hsame.1.symm)]
          exact h.slot key b j v hold hv
        -- the slot holds the new shard, or one the record knew before
        rcases getElem?_filled hv with ⟨rfl, rfl⟩ | ⟨hj, b, hb, hv⟩
        · exact ⟨_, lastEntered_cons_self _ _, rfl⟩
        · rw [lastEntered_cons_ne (fun hsame => hj hsame.2.symm)]
          exact h.slot _ b j v (lookup_prune hb) hv
      · rw [hentered]
        intro e he
        rcases mem_cons.mp he with rfl | he
        · exact hopened
        · exact h.opened e he
      · rw [hentered]
        intro e he
        rcases mem_cons.mp he with rfl | he
        · exact hnonempty
        · exact h.nonempty e he

/-! ### Deliveries -/

theorem ingest_delivers_iff {rs : ReedSolomon} {ctx : RxContext C} {now : ℕ} {datagram : Bytes}
    {src : SocketAddr} {d : Delivery} {hash : Octets 4} :
    (ingest rs A ctx now datagram src).2 = some d ∧ d.wireSessionHash = some hash ↔
      ∃ idx data payload, (route A ctx now datagram).1 = .shard idx data ∧
        hash = parseSessionHash datagram ∧
        (assemble rs ctx.spool (SpoolKey.of src datagram (V2FrameMeta.of datagram)) idx data).1 =
          some payload ∧
        d = { ctr := parsePacketCounterU64 datagram, v2 := V2FrameMeta.of datagram
              payload := payload, src := src, wireSessionHash := some (parseSessionHash datagram)
              shards := filled ctx.spool (SpoolKey.of src datagram (V2FrameMeta.of datagram)) idx
                data } := by
  unfold ingest
  cases hroute : route A ctx now datagram with
  | mk routed sessions =>
      cases routed with
      | dropped => simp
      | whole sd =>
          simp only [Option.some.injEq, reduceCtorEq, false_and, exists_false, iff_false, not_and]
          rintro rfl hhash
          cases hhash
      | shard idx data =>
          simp only [Option.map_eq_some_iff, Routed.shard.injEq]
          constructor
          · rintro ⟨⟨payload, hpayload, rfl⟩, hhash⟩
            cases hhash
            exact ⟨idx, data, payload, ⟨rfl, rfl⟩, rfl, hpayload, rfl⟩
          · rintro ⟨idx', data', payload, ⟨rfl, rfl⟩, rfl, hpayload, rfl⟩
            exact ⟨⟨payload, hpayload, rfl⟩, rfl⟩

theorem two_le_present {b : Bucket} {i j : ℕ} {u v : Bytes} (hij : i ≠ j)
    (hi : b[i]? = some (some u)) (hj : b[j]? = some (some v)) (hlen : b.length = 3) :
    2 ≤ present b := by
  obtain ⟨x, y, z, rfl⟩ := length_eq_three.mp hlen
  have hi3 := (List.getElem?_eq_some_iff.mp hi).1
  have hj3 := (List.getElem?_eq_some_iff.mp hj).1
  simp only [length_cons, length_nil] at hi3 hj3
  interval_cases i <;> interval_cases j <;>
    first
      | exact absurd rfl hij
      | (simp at hi hj; simp [present, countP_cons, hi, hj])

theorem deliversOpened_of_unmixed {rs : ReedSolomon} (hinv : Inv A w) {a : RxEvent C}
    (hone : w.NoCollision a) (h : w.Unmixed A a) : w.DeliversOpened rs A a := by
  cases a with
  | node connected sessions => trivial
  | arrive now datagram src =>
      intro d v2 hash hd hv2 hshardsec hhash
      obtain ⟨idx, data, payload, hroute, rfl, hpayload, rfl⟩ :=
        ingest_delivers_iff.mp ⟨hd, hhash⟩
      have hmeta : V2FrameMeta.of datagram = some v2 := hv2
      have hnew := (route_eq_shard src hroute).2.1
      have hunmixed := h v2 idx data hmeta hshardsec hroute
      rw [← hmeta] at hunmixed
      have hflag : (V2FrameMeta.of datagram).any V2FrameMeta.shardsec = true := by
        rw [hmeta, Option.any_some, hshardsec]
      have hepoch : (SpoolKey.of src datagram (V2FrameMeta.of datagram)).epoch = v2.epoch := by
        rw [hmeta]
        rfl
      obtain ⟨fp, masterKey, hopened⟩ := hnew hflag
      rw [hepoch] at hopened
      refine ⟨?_, fp, masterKey, fun j v hv => ?_⟩
      · simp only [assemble] at hpayload
        split at hpayload
        · exact hpayload
        · cases hpayload
      simp only [record, hroute]
      rcases getElem?_filled hv with ⟨rfl, rfl⟩ | ⟨hj, b, hb, hv⟩
      · exact ⟨_, lastEntered_cons_self _ _, rfl, hopened⟩
      · obtain ⟨e, he, hdata⟩ := hinv.slot _ b j v (lookup_prune hb) hv
        obtain ⟨hmem, hkey, _⟩ := lastEntered_eq_some he
        obtain ⟨fp', masterKey', hold⟩ := hinv.opened e hmem (hunmixed b j v e hb hj hv he)
        rw [hkey, hepoch] at hold
        -- both were opened by a session with the hash on the wire, so by the same one
        obtain ⟨-, -, -, -, -, s, -, -, -, -, -, -, hs, rfl, hhash, -⟩ := hopened
        obtain ⟨-, -, -, -, -, s', -, -, -, -, -, -, hs', rfl, hhash', -⟩ := id hold
        obtain ⟨hfp, hmaster⟩ : fp' = fp ∧ s'.masterKey = s.masterKey :=
          hone ⟨fp, s⟩ (AList.mem_lookup_iff.mp hs) hhash e hmem hkey ⟨fp', s'⟩
            (AList.mem_lookup_iff.mp hs') hhash'
        rw [hfp, hmaster] at hold
        refine ⟨e, ?_, hdata, hold⟩
        rw [lastEntered_cons_ne (fun hsame => hj hsame.2.symm)]
        exact he

theorem unmixed_of_deliversOpened {rs : ReedSolomon} (hinv : Inv A w) {a : RxEvent C}
    (h : w.DeliversOpened rs A a) : w.Unmixed A a := by
  cases a with
  | node connected sessions => trivial
  | arrive now datagram src =>
      intro v2 idx data hmeta hshardsec hroute b j v e hb hj hv he
      rw [← hmeta] at hb he
      by_contra hplain
      obtain ⟨hidx, -, -⟩ := route_eq_shard src hroute
      obtain ⟨e', he', hdata⟩ := hinv.slot _ b j v (lookup_prune hb) hv
      rw [he] at he'
      cases he'
      have hne : v ≠ [] := by
        rw [← hdata]
        exact hinv.nonempty e (lastEntered_eq_some he).1 (eq_false_of_ne_true hplain)
      have hlen := hinv.length _ b (lookup_prune hb)
      have hset : filled w.ctx.spool (SpoolKey.of src datagram (V2FrameMeta.of datagram)) idx
          data = b.set idx (some data) := by
        rw [filled, hb, Option.getD_some]
      have hlen' : (b.set idx (some data)).length = 3 := by
        rw [length_set, hlen]
      have hslot : (b.set idx (some data))[j]? = some (some v) := by
        rw [getElem?_set_ne (Ne.symm hj)]
        exact hv
      have hself : (b.set idx (some data))[idx]? = some (some data) :=
        getElem?_set_self (by omega)
      have htwo := two_le_present (Ne.symm hj) hself hslot hlen'
      obtain ⟨payload, hpayload⟩ :=
        rejoin_isSome rs hlen' htwo (mem_of_getElem? hslot) hne
      have hassemble : (assemble rs w.ctx.spool
          (SpoolKey.of src datagram (V2FrameMeta.of datagram)) idx data).1 = some payload := by
        simp only [assemble]
        rw [hset, if_pos htwo]
        exact hpayload
      obtain ⟨hd, hhash⟩ := ingest_delivers_iff.mpr
        ⟨idx, data, payload, hroute, rfl, hassemble, rfl⟩
      have hv' : (filled w.ctx.spool (SpoolKey.of src datagram (V2FrameMeta.of datagram)) idx
          data)[j]? = some (some v) := by
        rw [hset]
        exact hslot
      obtain ⟨-, fp, masterKey, hall⟩ := h _ v2 _ hd hmeta hshardsec hhash
      obtain ⟨e', he', -, hflag, -⟩ := hall j v hv'
      simp only [record, hroute] at he'
      rw [lastEntered_cons_ne (fun hsame => hj hsame.2.symm), he] at he'
      cases he'
      exact hplain hflag

/-- Along every run in which no session hash means two sessions to the shards of one bucket, what is
delivered as authentic was opened shard by shard by one session exactly when no opened shard joins
one that came without the ShardSec flag. -/
theorem delivered_shards_opened_iff (rs : ReedSolomon) (A : ShardAead C) (connected : Bool)
    (sessions : SessionTable C) (events : List (RxEvent C))
    (hone : Always (Observed.step rs A) NoCollision (start connected sessions) events) :
    Always (Observed.step rs A) (Observed.DeliversOpened rs A) (start connected sessions) events ↔
      Always (Observed.step rs A) (Observed.Unmixed A) (start connected sessions) events := by
  constructor
  · exact Always.of_invariant (Inv A) (fun _ a h _ => h.step rs a)
      (fun _ _ h hdelivers => unmixed_of_deliversOpened h hdelivers) (inv_start A connected sessions)
  · intro hunmixed
    exact Always.of_invariant (Inv A) (fun _ a h _ => h.step rs a)
      (fun _ _ h hboth => deliversOpened_of_unmixed h hboth.1 hboth.2)
      (inv_start A connected sessions) (hone.and hunmixed)

theorem unmixed_of_flagged (h : ∀ e ∈ w.entered, e.flagged = true) (a : RxEvent C) :
    w.Unmixed A a := by
  cases a with
  | node connected sessions => trivial
  | arrive now datagram src =>
      intro v2 idx data _ _ _ b j v e _ _ _ he
      exact h e (lastEntered_eq_some he).1

end Observed

section Mixed

def peerSession : Session .symbolic := Session.newWithRole (.master 1) "peer" .responder 0

def peerSessions : SessionTable .symbolic where
  table := AList.singleton "peer" peerSession
  keyed := by
    intro fp s h
    rw [← AList.insert_empty] at h
    rcases Table.lookup_insert_eq_some.mp h with ⟨rfl, rfl⟩ | ⟨_, h⟩
    · rfl
    · cases h

/-- A v2 frame of this session for epoch 0 and counter 0. -/
def frameOf (flags index : UInt8) (shard : Bytes) : Bytes :=
  [1, 0, 0, 0] ++ [0, 0, 0, 0] ++ [index, flagV2 ||| flags] ++ toBeBytes 8 0 ++ toBeBytes 8 0 ++
    replicate 12 7 ++ toBeBytes 2 shard.length ++ shard ++
    replicate (472 - shard.length) 0

/-- The peer has sealed two shards of its message 0. -/
def sealedTwo : ShardAead .symbolic where
  shardKey master _ _ _ := master
  xchachaOpen key nonce epoch direction ciphertext :=
    if some key = (peerSession.planOpen 0 .initiatorToResponder 0).key? ∧ epoch = 0 ∧
        direction = .initiatorToResponder then
      if nonce.toList = replicate 12 7 ∧ ciphertext = replicate 20 0xA5 then
        some [0, 6, 1, 2]
      else if nonce.toList = replicate 11 7 ++ [6] ∧ ciphertext = replicate 20 0x5A then
        some [3, 4, 5, 6]
      else none
    else none

def pairArrives (src : SocketAddr) : List (RxEvent .symbolic) :=
  [.arrive 0 (frameOf flagShardsec 1 (replicate 20 0x5A)) src,
    .arrive 0 (frameOf flagShardsec 0 (replicate 20 0xA5)) src]

/-- The two shards are delivered together. -/
theorem pair_delivered :
    let src : SocketAddr := { ip := .v4 (List.Vector.replicate 4 9), port := 4000 }
    Always (Observed.step galois8 sealedTwo) (Observed.DeliversOpened galois8 sealedTwo)
        (Observed.start true peerSessions) (pairArrives src) ∧
      ((ingest galois8 sealedTwo ((Observed.start true peerSessions).step galois8 sealedTwo
          (.arrive 0 (frameOf flagShardsec 1 (replicate 20 0x5A)) src)).ctx 0
        (frameOf flagShardsec 0 (replicate 20 0xA5)) src).2.map Delivery.payload) =
          some [0, 6, 1, 2, 3, 4, 5, 6] := by
  intro src
  have hone : Always (Observed.step galois8 sealedTwo) Observed.NoCollision
      (Observed.start true peerSessions) (pairArrives src) := by decide +kernel
  refine ⟨(Observed.delivered_shards_opened_iff galois8 sealedTwo true peerSessions _ hone).mpr
    ⟨Observed.unmixed_of_flagged (fun e he => absurd he not_mem_nil) _,
      Observed.unmixed_of_flagged (by decide +kernel) _, trivial⟩, by decide +kernel⟩

/-- A forged shard without the ShardSec flag is delivered as half of an authentic message. -/
theorem forged_shard_delivered :
    let src : SocketAddr := { ip := .v4 (List.Vector.replicate 4 9), port := 4000 }
    ¬ Always (Observed.step galois8 sealedTwo) (Observed.DeliversOpened galois8 sealedTwo)
      (Observed.start true peerSessions)
      [.arrive 0 (frameOf 0 1 [66, 66, 66, 66]) src,
       .arrive 0 (frameOf flagShardsec 0 (replicate 20 0xA5)) src] := by
  intro src h
  have hinv := (Observed.inv_start sealedTwo true peerSessions).step
    galois8 (.arrive 0 (frameOf 0 1 [66, 66, 66, 66]) src)
  have hunmixed := Observed.unmixed_of_deliversOpened hinv h.2.1
  obtain ⟨v2, hmeta, hshardsec⟩ := (Option.any_eq_true _ _).mp
    (show (V2FrameMeta.of (frameOf flagShardsec 0 (replicate 20 0xA5))).any
      V2FrameMeta.shardsec = true by decide +kernel)
  have hkept := hunmixed v2 0 [0, 6, 1, 2] hmeta hshardsec (by decide +kernel)
    [none, some [66, 66, 66, 66], none] 1 [66, 66, 66, 66]
  rw [← hmeta] at hkept
  -- the record knows the shard in slot 1 as one without the flag
  obtain ⟨e, he, hplain⟩ := (Option.any_eq_true _ _).mp
    (show (lastEntered ((Observed.start true peerSessions).step galois8 sealedTwo
        (.arrive 0 (frameOf 0 1 [66, 66, 66, 66]) src)).entered
        (SpoolKey.of src (frameOf flagShardsec 0 (replicate 20 0xA5))
          (V2FrameMeta.of (frameOf flagShardsec 0 (replicate 20 0xA5)))) 1).any
        (fun e => !e.flagged) = true by decide +kernel)
  have hflag := hkept e (by decide +kernel) (by decide) rfl he
  rw [hflag] at hplain
  cases hplain

end Mixed

end Vantablack.Receive
