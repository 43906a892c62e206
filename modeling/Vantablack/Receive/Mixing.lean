import Vantablack.Send.FrameV1
import Vantablack.Send.RoundTrip
import Vantablack.Session.Chains

/-!
Which shards meet in a bucket of the spool when many senders' frames arrive in any order and the
tasks that enter them interleave.

`assemble` is taken in its two steps here: a shard is written under the lock of its bucket, and a
task that is told to then removes the bucket and puts the message together. Between the two any
other task may come.
-/

namespace Vantablack.Receive

open Lib Layers Session Send List

/-! ### Entering a shard in two steps -/

section Spool

variable {α : Type*}

/-- The spool, whatever its slots hold. A fourth slot is the claim marker. -/
abbrev Spool (α : Type*) := Table SpoolKey (List (Option α))

def occupied (b : List (Option α)) : ℕ := b.countP Option.isSome

def pruned (pool : Spool α) : Spool α :=
  if maxSpoolEntries < pool.size then pool.retain fun _ v => 2 ≤ occupied v else pool

/-- The bucket under a key, with three slots at least. -/
def bucketAt (pool : Spool α) (key : SpoolKey) : List (Option α) :=
  let e := (pool.lookup key).getD [none, none, none]
  e ++ replicate (3 - e.length) none

/-- Write a shard: whether the task shall assemble, and the spool after. -/
def write (pool : Spool α) (key : SpoolKey) (idx : ℕ) (data : α) : Bool × Spool α :=
  let e := (bucketAt (pruned pool) key).set idx (some data)
  let e := if 2 ≤ occupied e ∧ e.length = 3 then e ++ [none] else e
  (3 < e.length, (pruned pool).insert key e)

/-- Remove a bucket: its three shards, and the spool after. -/
def remove (pool : Spool α) (key : SpoolKey) : List (Option α) × Spool α :=
  let s := (pool.lookup key).getD []
  ((range 3).map fun i => s[i]?.join, pool.erase key)

variable {b : List (Option α)}

theorem map_join_range {rest : List (Option α)} (h : b.length = 3) :
    ((range 3).map fun i => (b ++ rest)[i]?.join) = b := by
  obtain ⟨x, y, z, rfl⟩ := length_eq_three.mp h
  rfl

variable {pool : Spool α} {key : SpoolKey}

theorem lookup_pruned (h : (pruned pool).lookup key = some b) : pool.lookup key = some b := by
  unfold pruned at h
  split at h
  · exact (Table.lookup_retain.mp h).1
  · exact h

theorem assemble_eq_write (rs : ReedSolomon) {pool : SpoolPool}
    (hlen : ∀ b, pool.lookup key = some b → b.length = 3) (idx : ℕ) (data : Bytes) :
    assemble rs pool key idx data =
      if (write pool key idx data).1 then
        (rejoin rs (remove (write pool key idx data).2 key).1,
          (remove (write pool key idx data).2 key).2)
      else (none, (write pool key idx data).2) := by
  have hthree : (((prune pool).lookup key).getD [none, none, none]).length = 3 := by
    cases hb : (prune pool).lookup key with
    | none => rfl
    | some b => exact hlen b (lookup_prune hb)
  have hbucket : (bucketAt (pruned pool) key).set idx (some data) = filled pool key idx data := by
    show (_ ++ replicate (3 - (((prune pool).lookup key).getD [none, none, none]).length)
      none : List (Option Bytes)).set idx (some data) = _
    rw [hthree, Nat.sub_self, replicate_zero, append_nil]
    rfl
  have hfilled : (filled pool key idx data).length = 3 := by
    rw [filled, length_set, hthree]
  simp only [assemble, write, hbucket, hfilled, and_true]
  by_cases htwo : 2 ≤ present (filled pool key idx data)
  · have htwo' : 2 ≤ occupied (filled pool key idx data) := htwo
    have herase : ∀ e : Bucket, ((prune pool).insert key e).erase key = (prune pool).erase key :=
      fun e => AList.ext (kerase_cons_eq rfl)
    rw [if_pos htwo, if_pos htwo', if_pos (by simp [hfilled])]
    refine Prod.ext ?_ (herase _).symm
    simp only [remove, AList.lookup_insert, Option.getD_some]
    rw [map_join_range hfilled]
  · have htwo' : ¬ 2 ≤ occupied (filled pool key idx data) := htwo
    rw [if_neg htwo, if_neg htwo', if_neg (by simp [hfilled])]
    rfl

theorem mem_of_bucketAt {j : ℕ} {x : α} (h : (bucketAt pool key)[j]? = some (some x)) :
    ∃ b, pool.lookup key = some b ∧ some x ∈ b := by
  have hmem := mem_of_getElem? h
  unfold bucketAt at hmem
  cases hb : pool.lookup key with
  | none => simp [hb] at hmem
  | some b =>
      rw [hb, Option.getD_some] at hmem
      exact ⟨b, rfl, by simpa using hmem⟩

theorem lookup_write {key' : SpoolKey} {idx : ℕ} {data : α}
    (h : (write pool key idx data).2.lookup key' = some b) :
    (key' = key ∧ ∀ x, some x ∈ b →
        x = data ∨ ∃ j, j ≠ idx ∧ (bucketAt (pruned pool) key)[j]? = some (some x)) ∨
      (key' ≠ key ∧ pool.lookup key' = some b) := by
  rcases Table.lookup_insert_eq_some.mp h with ⟨hkey, rfl⟩ | ⟨hne, hold⟩
  · refine Or.inl ⟨hkey, ?_⟩
    intro x hx
    have hmem : some x ∈ (bucketAt (pruned pool) key).set idx (some data) := by
      split at hx
      · simpa using hx
      · exact hx
    obtain ⟨j, hj⟩ := getElem?_of_mem hmem
    by_cases hidx : j = idx
    · subst hidx
      rw [getElem?_set_self'] at hj
      obtain ⟨_, _, hdata⟩ := Option.map_eq_some_iff.mp hj
      cases hdata
      exact Or.inl rfl
    · rw [getElem?_set_ne (Ne.symm hidx)] at hj
      exact Or.inr ⟨j, hidx, hj⟩
  · exact Or.inr ⟨hne, lookup_pruned hold⟩

theorem mem_remove {x : α} (h : some x ∈ (remove pool key).1) :
    ∃ b, pool.lookup key = some b ∧ some x ∈ b := by
  obtain ⟨i, -, hi⟩ := mem_map.mp h
  have hslot := Option.join_eq_some_iff.mp hi
  cases hb : pool.lookup key with
  | none => simp [hb] at hslot
  | some b =>
      rw [hb, Option.getD_some] at hslot
      exact ⟨b, rfl, mem_of_getElem? hslot⟩

end Spool

/-! ### The network -/

variable {C : Crypto} {ι : Type}

/-- A sent message, with what its shards are cut from. -/
inductive Message (C : Crypto) (ι : Type) where
  | handshake (answer : Bool) (pdu : Bytes)
  | data (sender : ι) (ctx : SealCtx C) (body : Bytes)

def Message.body : Message C ι → Bytes
  | .handshake _ pdu => pdu
  | .data _ _ body => body

/-- The bucket of a frame of the message that arrives from `src`. -/
def Message.spoolKey : Message C ι → SocketAddr → SpoolKey
  | .handshake answer _, src => handshakeKey answer src
  | .data _ ctx _, src => messageKey ctx src

/-- The frames the message is sent in. -/
def Message.IsFrame (rs : ReedSolomon) (A : Aead C) (i : Fin 3) : Message C ι → Bytes → Prop
  | .handshake answer pdu, frame =>
      ∃ bulk jitter, handshakeFrame rs answer pdu bulk jitter i = some frame
  | .data _ ctx body, frame =>
      ∃ shardsec bulk pay, body = coded A shardsec ctx pay ∧
        dataFrame rs A shardsec bulk ctx pay i = .ok frame

/-- Whatever frame of a message arrives, its shard goes to the bucket of the message. -/
theorem spoolKey_of_isFrame {rs : ReedSolomon} (hrs : rs.Lawful) {A : Aead C} (hA : A.Lawful)
    {i : Fin 3} {m : Message C ι} {frame : Bytes} (h : m.IsFrame rs A i frame) (src : SocketAddr) :
    SpoolKey.of src frame (V2FrameMeta.of frame) = m.spoolKey src := by
  cases m with
  | handshake answer pdu =>
      obtain ⟨bulk, jitter, hframe⟩ := h
      exact spoolKey_handshakeFrame hframe src
  | data sender ctx body =>
      obtain ⟨shardsec, bulk, pay, -, hframe⟩ := h
      obtain ⟨shard, -, hcarries⟩ := carries_dataFrame hrs hA hframe
      exact hcarries.spoolKey src

/-- What every frame of the message says of it: session hash, epoch and counter. -/
def Message.header : Message C ι → Octets 4 × ℕ × ℕ
  | .handshake answer _ => (List.Vector.replicate 4 0, 0, if answer then 1 else 0)
  | .data _ ctx _ => (ctx.sessionHash, ctx.epoch, ctx.counter)

/-- A frame of `m` from `src` has the header of one of `m'` from `src'`, and comes from the same
address if the header names no session. -/
def Message.LooksLike (m m' : Message C ι) (src src' : SocketAddr) : Prop :=
  m.header = m'.header ∧ (m.header.1 = List.Vector.replicate 4 0 → src = src')
  deriving Decidable

theorem spoolKey_eq_header (m : Message C ι) (src : SocketAddr) :
    m.spoolKey src =
      { sessionHash := m.header.1, epoch := m.header.2.1, counter := m.header.2.2
        preSessionSrc := if m.header.1 = List.Vector.replicate 4 0 then some src else none } := by
  cases m with
  | handshake answer pdu => simp [Message.spoolKey, Message.header, handshakeKey]
  | data sender ctx body => rfl

theorem looksLike_of_spoolKey {m m' : Message C ι} {src src' : SocketAddr}
    (h : m'.spoolKey src' = m.spoolKey src) : m.LooksLike m' src src' := by
  rw [spoolKey_eq_header, spoolKey_eq_header] at h
  obtain ⟨hhash, hepoch, hcounter, hsrc⟩ := SpoolKey.mk.inj h
  have hheader : m.header = m'.header := Prod.ext hhash.symm (Prod.ext hepoch.symm hcounter.symm)
  refine ⟨hheader, fun hzero => ?_⟩
  rw [← hheader, if_pos hzero, if_pos hzero] at hsrc
  exact (Option.some.inj hsrc).symm

/-- A shard in the spool, with the number of the message it is of. -/
structure Shard where
  message : ℕ
  data : Bytes
  deriving DecidableEq

/-- A receiver's spool and all who send to it. -/
structure Network (C : Crypto) (ι : Type) where
  peers : ι → Session C
  sent : List (Message C ι)
  spool : Spool Shard
  -- the arrivals, by message and address, since which no task has removed their bucket
  waiting : List (ℕ × SocketAddr)
  -- the tasks that were told to assemble and have not removed their bucket yet
  told : List SpoolKey
  -- the buckets removed and the PDUs they gave
  assembled : List (List (Option Shard) × Option Bytes)

inductive NetworkAct (C : Crypto) (ι : Type) where
  | handshake (answer : Bool) (pdu : Bytes)
  | send (i : ι) (nonce : Octets 12) (shardsec : Bool) (pay : Bytes)
  | op (i : ι) (op : SessionOp C)
  | arrive (n : ℕ) (idx : Fin 3) (src : SocketAddr)
  | remove (key : SpoolKey)

namespace Network

variable [DecidableEq ι]

def start (masterKey : ι → C.Key) (peer : ι → String) (role : ι → SessionRole) (now : ι → ℕ) :
    Network C ι where
  peers i := newWithRole (masterKey i) (peer i) (role i) (now i)
  sent := []
  spool := ∅
  waiting := []
  told := []
  assembled := []

/-- An action that is not possible changes nothing. A frame may arrive any number of times, from
any address. -/
def step (rs : ReedSolomon) (A : Aead C) (w : Network C ι) : NetworkAct C ι → Network C ι
  | .handshake answer pdu => { w with sent := w.sent ++ [.handshake answer pdu] }
  | .send i nonce shardsec pay =>
      match SealCtx.fromSession (w.peers i) nonce with
      | none => w
      | some (ctx, s) =>
          { w with
            peers := Function.update w.peers i s
            sent := w.sent ++ [.data i ctx (coded A shardsec ctx pay)] }
  | .op i op => { w with peers := Function.update w.peers i (op.run (w.peers i)) }
  | .arrive n idx src =>
      match w.sent[n]? with
      | none => w
      | some m =>
          let key := m.spoolKey src
          let shard : Shard := { message := n, data := (encode rs m.body)[idx.1]?.getD [] }
          let (told, spool) := write w.spool key idx shard
          { w with
            spool := spool
            waiting := (n, src) :: w.waiting
            told := if told then key :: w.told else w.told }
  | .remove key =>
      if key ∈ w.told then
        let (shards, spool) := remove w.spool key
        { w with
          spool := spool
          waiting := w.waiting.filter fun e => (w.sent[e.1]?).all fun m => m.spoolKey e.2 ≠ key
          told := w.told.erase key
          assembled := (shards, rejoin rs (shards.map (Option.map Shard.data))) :: w.assembled }
      else w

/-- All shards in a bucket are of one message. -/
def OneMessage (b : List (Option Shard)) : Prop :=
  ∀ x ∈ b.reduceOption, ∀ y ∈ b.reduceOption, x.message = y.message

/-- No bucket holds shards of two messages, and no PDU was put together from two. -/
def Unmixed (w : Network C ι) : Prop :=
  (∀ e ∈ w.spool.entries, OneMessage e.2) ∧ ∀ r ∈ w.assembled, OneMessage r.1

instance (b : List (Option Shard)) : Decidable (OneMessage b) :=
  inferInstanceAs (Decidable (∀ x ∈ b.reduceOption, ∀ y ∈ b.reduceOption, x.message = y.message))

instance (w : Network C ι) : Decidable (Unmixed w) :=
  inferInstanceAs (Decidable
    ((∀ e ∈ w.spool.entries, OneMessage e.2) ∧ ∀ r ∈ w.assembled, OneMessage r.1))

/-- The session hash of its frames tells the message apart from those of every other sender. -/
def SingledOut (w : Network C ι) : Message C ι → Prop
  | .handshake .. => False
  | .data i ctx _ =>
      ctx.sessionHash ≠ List.Vector.replicate 4 0 ∧
        ∀ j, j ≠ i → (w.peers j).sessionHash ≠ ctx.sessionHash.toList

/-- A frame whose session hash does not tell it apart arrives when none of another message that
looks like it still waits. -/
def OneAtATime (w : Network C ι) : NetworkAct C ι → Prop
  | .arrive n _ src =>
      ∀ m ∈ w.sent[n]?, w.SingledOut m ∨
        ∀ e ∈ w.waiting, ∀ m' ∈ w.sent[e.1]?, m.LooksLike m' src e.2 → e.1 = n
  | _ => True

instance [Fintype ι] (w : Network C ι) (m : Message C ι) : Decidable (w.SingledOut m) :=
  match m with
  | .handshake .. => inferInstanceAs (Decidable False)
  | .data .. => inferInstanceAs (Decidable (_ ∧ ∀ _, _ → _))

instance [Fintype ι] (w : Network C ι) (act : NetworkAct C ι) : Decidable (w.OneAtATime act) :=
  match act with
  | .arrive n _ src =>
      inferInstanceAs (Decidable (∀ m ∈ w.sent[n]?, w.SingledOut m ∨
        ∀ e ∈ w.waiting, ∀ m' ∈ w.sent[e.1]?, m.LooksLike m' src e.2 → e.1 = n))
  | .handshake .. => inferInstanceAs (Decidable True)
  | .send .. => inferInstanceAs (Decidable True)
  | .op .. => inferInstanceAs (Decidable True)
  | .remove _ => inferInstanceAs (Decidable True)

/-! ### The invariant -/

theorem oneMessage_of {b : List (Option Shard)} {n : ℕ} (h : ∀ x, some x ∈ b → x.message = n) :
    OneMessage b := by
  intro x hx y hy
  rw [reduceOption_mem_iff] at hx hy
  exact (h x hx).trans (h y hy).symm

theorem OneMessage.of_subset {b b' : List (Option Shard)} (h : OneMessage b)
    (hsub : ∀ x, some x ∈ b' → some x ∈ b) : OneMessage b' := by
  intro x hx y hy
  rw [reduceOption_mem_iff] at hx hy
  exact h x (reduceOption_mem_iff.mpr (hsub x hx)) y (reduceOption_mem_iff.mpr (hsub y hy))

/-- The epochs and counters one sender has used. -/
def sentBy (sent : List (Message C ι)) (i : ι) : Set (ℕ × ℕ) :=
  { e | ∃ ctx body, Message.data i ctx body ∈ sent ∧ e = (ctx.epoch, ctx.counter) }

structure Inv (w : Network C ι) : Prop where
  passed : ∀ i, Passed (w.peers i) (sentBy w.sent i)
  distinct : ∀ (n n' : ℕ) i ctx ctx' body body', w.sent[n]? = some (Message.data i ctx body) →
    w.sent[n']? = some (Message.data i ctx' body') → ctx.epoch = ctx'.epoch → ctx.counter = ctx'.counter →
      n = n'
  hashes : ∀ i ctx body, Message.data i ctx body ∈ w.sent →
    (w.peers i).sessionHash = ctx.sessionHash.toList
  tracked : ∀ key b x, w.spool.lookup key = some b → some x ∈ b →
    ∃ m src, (x.message, src) ∈ w.waiting ∧ w.sent[x.message]? = some m ∧ m.spoolKey src = key
  unmixed : Unmixed w

omit [DecidableEq ι] in
theorem inv_start (masterKey : ι → C.Key) (peer : ι → String) (role : ι → SessionRole)
    (now : ι → ℕ) : Inv (start masterKey peer role now) where
  passed i := by
    have hnone : sentBy (start masterKey peer role now).sent i = ∅ := by
      ext e
      simp [sentBy, start]
    rw [hnone]
    exact passed_newWithRole (masterKey i) (peer i) (role i) (now i)
  distinct n n' i ctx ctx' body body' h := by
    simp [start] at h
  hashes i ctx body h := absurd h not_mem_nil
  tracked key b x h := by
    rw [start, AList.lookup_empty] at h
    cases h
  unmixed := ⟨fun e he => absurd he not_mem_nil, fun r hr => absurd hr not_mem_nil⟩

variable {w : Network C ι}

omit [DecidableEq ι] in
theorem Inv.eq_of_spoolKey (h : Inv w) {n n' : ℕ} {m m' : Message C ι} (hm : w.sent[n]? = some m)
    (hm' : w.sent[n']? = some m') {src src' : SocketAddr} (hkey : m'.spoolKey src' = m.spoolKey src)
    (hout : w.SingledOut m) : n' = n := by
  cases m with
  | handshake answer pdu => exact hout.elim
  | data i ctx body =>
      have hhash := congrArg SpoolKey.sessionHash hkey
      cases m' with
      | handshake answer' pdu' => exact absurd hhash.symm hout.1
      | data i' ctx' body' =>
          -- the same hash is the same sender, and a sender repeats no epoch and counter
          have hsender : i' = i := by
            by_contra hne
            refine hout.2 i' hne ?_
            rw [h.hashes i' ctx' body' (mem_of_getElem? hm')]
            exact congrArg List.Vector.toList hhash
          subst hsender
          exact h.distinct n' n i' ctx' ctx body' body hm' hm (congrArg SpoolKey.epoch hkey)
            (congrArg SpoolKey.counter hkey)

omit [DecidableEq ι] in
theorem Inv.append (h : Inv w) {peers : ι → Session C} {m : Message C ι}
    (hpassed : ∀ i, Passed (peers i) (sentBy (w.sent ++ [m]) i))
    (hhashes : ∀ i, (peers i).sessionHash = (w.peers i).sessionHash)
    (hfresh : ∀ i ctx body, m = .data i ctx body →
      (ctx.epoch, ctx.counter) ∉ sentBy w.sent i ∧
        (w.peers i).sessionHash = ctx.sessionHash.toList) :
    Inv { w with peers := peers, sent := w.sent ++ [m] } where
  passed := hpassed
  distinct n n' i ctx ctx' body body' hn hn' hepoch hcounter := by
    have hcase : ∀ (k : ℕ) (m' : Message C ι), (w.sent ++ [m])[k]? = some m' →
        w.sent[k]? = some m' ∨ (k = w.sent.length ∧ m' = m) := by
      intro k m' hk
      rw [getElem?_append] at hk
      split at hk
      · exact Or.inl hk
      · rw [getElem?_singleton] at hk
        split at hk
        · cases hk
          exact Or.inr ⟨by omega, rfl⟩
        · cases hk
    rcases hcase n _ hn with hold | ⟨rfl, hnew⟩
    · rcases hcase n' _ hn' with hold' | ⟨rfl, hnew'⟩
      · exact h.distinct n n' i ctx ctx' body body' hold hold' hepoch hcounter
      · refine absurd ⟨ctx, body, mem_of_getElem? hold, ?_⟩ (hfresh i ctx' body' hnew'.symm).1
        rw [hepoch, hcounter]
    · rcases hcase n' _ hn' with hold' | ⟨rfl, -⟩
      · refine absurd ⟨ctx', body', mem_of_getElem? hold', ?_⟩ (hfresh i ctx body hnew.symm).1
        rw [hepoch, hcounter]
      · rfl
  hashes i ctx body hmem := by
    rw [hhashes i]
    rcases mem_append.mp hmem with hold | hnew
    · exact h.hashes i ctx body hold
    · exact (hfresh i ctx body (mem_singleton.mp hnew).symm).2
  tracked key b x hb hx := by
    obtain ⟨m', src, hwaits, hm', hkey⟩ := h.tracked key b x hb hx
    obtain ⟨hlen, -⟩ := List.getElem?_eq_some_iff.mp hm'
    exact ⟨m', src, hwaits, (getElem?_append_left hlen).trans hm', hkey⟩
  unmixed := h.unmixed

omit [DecidableEq ι] in
theorem sentBy_append (sent : List (Message C ι)) (m : Message C ι) (i : ι) :
    sentBy (sent ++ [m]) i =
      sentBy sent i ∪ { e | ∃ ctx body, m = .data i ctx body ∧ e = (ctx.epoch, ctx.counter) } := by
  ext e
  simp only [sentBy, mem_append, mem_singleton, Set.mem_ofPred_eq, Set.mem_union]
  constructor
  · rintro ⟨ctx, body, hold | hnew, he⟩
    · exact Or.inl ⟨ctx, body, hold, he⟩
    · exact Or.inr ⟨ctx, body, hnew.symm, he⟩
  · rintro (⟨ctx, body, hold, he⟩ | ⟨ctx, body, hnew, he⟩)
    · exact ⟨ctx, body, Or.inl hold, he⟩
    · exact ⟨ctx, body, Or.inr hnew.symm, he⟩

theorem Inv.handshake (h : Inv w) (rs : ReedSolomon) (A : Aead C) (answer : Bool) (pdu : Bytes) :
    Inv (w.step rs A (.handshake answer pdu)) := by
  refine h.append ?_ (fun _ => rfl) ?_
  · intro i
    have hnone : sentBy (w.sent ++ [.handshake answer pdu]) i = sentBy w.sent i := by
      rw [sentBy_append]
      simp
    rw [hnone]
    exact h.passed i
  · intro i ctx body hm
    cases hm

theorem Inv.send (h : Inv w) (rs : ReedSolomon) (A : Aead C) (i : ι) (nonce : Octets 12)
    (shardsec : Bool) (pay : Bytes) : Inv (w.step rs A (.send i nonce shardsec pay)) := by
  rw [step]
  split
  · exact h
  · rename_i ctx s hctx
    obtain ⟨hepoch, hcounter, hhash, rfl⟩ := SealCtx.fromSession_eq_some hctx
    refine h.append ?_ ?_ ?_
    · intro j
      rw [sentBy_append]
      by_cases hj : j = i
      · subst hj
        have hone : ({ e | ∃ ctx' body, Message.data j ctx (coded A shardsec ctx pay) =
            .data j ctx' body ∧ e = (ctx'.epoch, ctx'.counter) } : Set (ℕ × ℕ)) =
              {((w.peers j).epoch, (w.peers j).sealMaterial.1.counter)} := by
          ext e
          simp [← hepoch, ← hcounter]
        rw [Function.update_self, hone, Set.union_singleton]
        exact (h.passed j).seal
      · have hnone : ({ e | ∃ ctx' body, Message.data i ctx (coded A shardsec ctx pay) =
            .data j ctx' body ∧ e = (ctx'.epoch, ctx'.counter) } : Set (ℕ × ℕ)) = ∅ := by
          ext e
          simp [Ne.symm hj]
        rw [Function.update_of_ne hj, hnone, Set.union_empty]
        exact h.passed j
    · intro j
      by_cases hj : j = i
      · subst hj
        rw [Function.update_self]
        exact run_sessionHash (w.peers j) .sealMessage
      · rw [Function.update_of_ne hj]
    · intro j ctx' body hm
      cases hm
      rw [hepoch, hcounter]
      exact ⟨(h.passed i).fresh, hhash⟩

theorem Inv.op (h : Inv w) (rs : ReedSolomon) (A : Aead C) (i : ι) (op : SessionOp C) :
    Inv (w.step rs A (.op i op)) where
  passed j := by
    show Passed (Function.update w.peers i (op.run (w.peers i)) j) (sentBy w.sent j)
    by_cases hj : j = i
    · subst hj
      rw [Function.update_self]
      exact (h.passed j).run op
    · rw [Function.update_of_ne hj]
      exact h.passed j
  distinct := h.distinct
  hashes j ctx body hm := by
    rw [← h.hashes j ctx body hm]
    show (Function.update w.peers i (op.run (w.peers i)) j).sessionHash = _
    by_cases hj : j = i
    · subst hj
      rw [Function.update_self, run_sessionHash]
    · rw [Function.update_of_ne hj]
  tracked := h.tracked
  unmixed := h.unmixed

theorem Inv.arrive (h : Inv w) (rs : ReedSolomon) (A : Aead C) {n : ℕ} {idx : Fin 3}
    {src : SocketAddr} (hfree : w.OneAtATime (.arrive n idx src)) :
    Inv (w.step rs A (.arrive n idx src)) := by
  rw [step]
  split
  · exact h
  · rename_i m hm
    have hothers : ∀ (j : ℕ) (x : Shard), j ≠ idx →
        (bucketAt (pruned w.spool) (m.spoolKey src))[j]? = some (some x) → x.message = n := by
      intro j x _ hx
      obtain ⟨b, hb, hxb⟩ := mem_of_bucketAt hx
      obtain ⟨m', src', hwaits, hm', hkey⟩ := h.tracked _ b x (lookup_pruned hb) hxb
      rcases hfree m hm with hout | halone
      · exact h.eq_of_spoolKey hm hm' hkey hout
      · exact halone (x.message, src') hwaits m' hm' (looksLike_of_spoolKey hkey)
    refine { passed := h.passed, distinct := h.distinct, hashes := h.hashes, tracked := ?_
             unmixed := ⟨?_, h.unmixed.2⟩ }
    · intro key b x hb hx
      rcases lookup_write hb with ⟨rfl, hslots⟩ | ⟨-, hold⟩
      · rcases hslots x hx with rfl | ⟨j, hj, hslot⟩
        · exact ⟨m, src, mem_cons_self, hm, rfl⟩
        · rw [hothers j x hj hslot]
          exact ⟨m, src, mem_cons_self, hm, rfl⟩
      · obtain ⟨m', src', hwaits, hm', hkey⟩ := h.tracked key b x hold hx
        exact ⟨m', src', mem_cons_of_mem _ hwaits, hm', hkey⟩
    · intro e he
      rcases lookup_write (AList.mem_lookup_iff.mpr he) with ⟨-, hslots⟩ | ⟨-, hold⟩
      · refine oneMessage_of (n := n) ?_
        intro x hx
        rcases hslots x hx with rfl | ⟨j, hj, hslot⟩
        · rfl
        · exact hothers j x hj hslot
      · exact h.unmixed.1 e (AList.mem_lookup_iff.mp hold)

theorem Inv.remove (h : Inv w) (rs : ReedSolomon) (A : Aead C) (key : SpoolKey) :
    Inv (w.step rs A (.remove key)) := by
  rw [step]
  split
  · refine { passed := h.passed, distinct := h.distinct, hashes := h.hashes, tracked := ?_
             unmixed := ⟨?_, ?_⟩ }
    · intro key' b x hb hx
      obtain ⟨hne, hold⟩ := Table.lookup_erase_eq_some.mp hb
      obtain ⟨m, src, hwaits, hm, hkey⟩ := h.tracked key' b x hold hx
      refine ⟨m, src, mem_filter.mpr ⟨hwaits, ?_⟩, hm, hkey⟩
      dsimp only
      rw [hm, Option.all_some, hkey]
      exact decide_eq_true hne
    · intro e he
      have hlookup := Table.lookup_erase_eq_some.mp (AList.mem_lookup_iff.mpr he)
      exact h.unmixed.1 e (AList.mem_lookup_iff.mp hlookup.2)
    · intro r hr
      rcases mem_cons.mp hr with rfl | hold
      · cases hb : w.spool.lookup key with
        | none =>
            refine oneMessage_of (n := 0) fun x hx => ?_
            obtain ⟨b, hsome, -⟩ := mem_remove hx
            rw [hb] at hsome
            cases hsome
        | some b =>
            refine OneMessage.of_subset (h.unmixed.1 ⟨key, b⟩ (AList.mem_lookup_iff.mp hb)) ?_
            intro x hx
            obtain ⟨b', hb', hxb⟩ := mem_remove hx
            rw [hb] at hb'
            cases hb'
            exact hxb
      · exact h.unmixed.2 r hold
  · exact h

theorem Inv.step (h : Inv w) (rs : ReedSolomon) (A : Aead C) {act : NetworkAct C ι}
    (hfree : w.OneAtATime act) : Inv (w.step rs A act) := by
  cases act with
  | handshake answer pdu => exact h.handshake rs A answer pdu
  | send i nonce shardsec pay => exact h.send rs A i nonce shardsec pay
  | op i op => exact h.op rs A i op
  | arrive n idx src => exact h.arrive rs A hfree
  | remove key => exact h.remove rs A key

/-- In a run of any number of sessions and handshakes, with frames arriving in any order and tasks
interleaving, in which frames that look alike are of one message at a time, no bucket and no PDU
ever mixes two messages. -/
theorem one_message_kept (rs : ReedSolomon) (A : Aead C) (masterKey : ι → C.Key) (peer : ι → String)
    (role : ι → SessionRole) (now : ι → ℕ) {acts : List (NetworkAct C ι)}
    (h : Always (step rs A) OneAtATime (start masterKey peer role now) acts) :
    Always (step rs A) (fun w act => Unmixed (w.step rs A act)) (start masterKey peer role now) acts :=
  Always.of_invariant Inv (fun _ _ hinv hfree => hinv.step rs A hfree)
    (fun _ _ hinv hfree => (hinv.step rs A hfree).unmixed) (inv_start masterKey peer role now) h

/-- An offer and its retry from one address, each frame arriving once. The third frame of the offer
comes after its bucket was removed and waits for the first frame of the retry. -/
def retryRun : List (NetworkAct .symbolic Unit) :=
  [.handshake false [1, 2, 3, 4], .handshake false [5, 6, 7, 8],
    .arrive 0 0 localhost, .arrive 0 1 localhost, .remove (handshakeKey false localhost),
    .arrive 0 2 localhost,
    .arrive 1 0 localhost, .remove (handshakeKey false localhost)]

def retryStart : Network .symbolic Unit :=
  start (fun _ => Term.master 7) (fun _ => "peer") (fun _ => .initiator) fun _ => 0

def neighbour : SocketAddr := { localhost with port := localhost.port + 1 }

/-- Two peers offer at once, and one of them offers again when all frames of its first offer are in
and its bucket is removed. -/
def twoOffers : List (NetworkAct .symbolic Unit) :=
  [.handshake false [1, 2, 3, 4], .handshake false [5, 6, 7, 8], .handshake false [9, 9, 9, 9],
    .arrive 0 0 localhost, .arrive 1 1 neighbour, .arrive 0 2 localhost, .arrive 0 1 localhost,
    .remove (handshakeKey false localhost), .arrive 2 1 localhost, .arrive 1 0 neighbour,
    .arrive 2 0 localhost, .remove (handshakeKey false neighbour),
    .remove (handshakeKey false localhost)]

theorem twoOffers_unmixed :
    Always (step galois8 firstAead) (fun w act => Unmixed (w.step galois8 firstAead act)) retryStart
        twoOffers ∧
      (twoOffers.foldl (step galois8 firstAead) retryStart).assembled.map Prod.snd =
        [some [9, 9, 9, 9], some [5, 6, 7, 8], some [1, 2, 3, 4]] :=
  ⟨one_message_kept galois8 firstAead _ _ _ _ (by decide +kernel), by decide +kernel⟩

/-- The retry's PDU is put together from shards of both, and is neither of them. -/
theorem retry_mixed_with_leftover :
    ¬ Always (step galois8 firstAead) (fun w act => Unmixed (w.step galois8 firstAead act)) retryStart
        retryRun ∧
      (retryRun.foldl (step galois8 firstAead) retryStart).assembled.map Prod.snd =
        [some [5, 6, 5, 2], some [1, 2, 3, 4]] := by
  constructor
  · intro h
    have hretry := h.2.2.2.2.2.2.1
    exact absurd hretry (by decide +kernel)
  · decide +kernel

end Network

theorem spoolKey_of_offer :
    ∃ frame, handshakeFrame galois8 false [1, 2, 3, 4] false [] 0 = some frame ∧
      SpoolKey.of localhost frame (V2FrameMeta.of frame) = handshakeKey false localhost := by
  obtain ⟨frame, hframe⟩ :
      ∃ frame, handshakeFrame galois8 false [1, 2, 3, 4] false [] 0 = some frame := ⟨_, rfl⟩
  let offer : Message .symbolic Unit := .handshake false [1, 2, 3, 4]
  have hoffer : offer.IsFrame galois8 firstAead 0 frame := ⟨false, [], hframe⟩
  exact ⟨frame, hframe, spoolKey_of_isFrame galois8_lawful firstAead_lawful hoffer localhost⟩

end Vantablack.Receive
