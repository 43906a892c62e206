import Mathlib.Data.Set.Function
import Vantablack.Layers.Kem
import Vantablack.Lib.SortedTable

/-!
The stores of bundles of `net/dtn_reconcile.rs`, and what reconciling two of them does.
-/

namespace Vantablack.Net

open Lib Layers

structure DtnBundle where
  bundleId : Octets 16
  sequence : UInt64
  payloadHash : Octets 32
  payload : Bytes
  deriving DecidableEq

def dtnReconcileMagic : Bytes := utf8 "MREC"

namespace DtnBundle

variable (sha256 : Bytes → Octets 32)

def new (bundleId : Octets 16) (sequence : UInt64) (payload : Bytes) : DtnBundle where
  bundleId := bundleId
  sequence := sequence
  payloadHash := sha256 payload
  payload := payload

/-- What the leaf hash binds. -/
def leafMessage (b : DtnBundle) : Bytes :=
  utf8 "GGN_DTN_LEAF_V1" ++ (b.bundleId.toList ++ (toBeBytes 8 b.sequence.toNat ++
    b.payloadHash.toList))

def leafHash (b : DtnBundle) : Octets 32 := sha256 b.leafMessage

def fromSkywavePayload (bytes : Bytes) : Option DtnBundle :=
  if bytes.length < 64 ∨ bytes.take 4 ≠ dtnReconcileMagic then none
  else do
    let bundleId ← blockAt bytes 4 16
    let sequence ← sliceAt bytes 20 8
    let payloadHash ← blockAt bytes 28 32
    let payloadLen ← sliceAt bytes 60 4
    let payload ← sliceAt bytes 64 (fromBeBytes payloadLen)
    return ⟨bundleId, UInt64.ofNat (fromBeBytes sequence), payloadHash, payload⟩

end DtnBundle

/-- The order of `[u8; 16]`. -/
def idOrder (x y : Octets 16) : Prop := x.toList ≤ y.toList
  deriving Decidable

instance : Std.Total idOrder := ⟨fun x y => List.le_total x.toList y.toList⟩

instance : IsTrans (Octets 16) idOrder := ⟨fun _ _ _ h h' => List.le_trans h h'⟩

instance : Std.Antisymm idOrder :=
  ⟨fun _ _ h h' => List.Vector.toList_injective (List.le_antisymm h h')⟩

structure DtnMerkleTree where
  bundles : Table (Octets 16) DtnBundle
  keyed : ∀ id b, bundles.lookup id = some b → b.bundleId = id

namespace DtnMerkleTree

def new : DtnMerkleTree := ⟨∅, fun _ _ h => by cases h⟩

def get (t : DtnMerkleTree) (id : Octets 16) : Option DtnBundle := t.bundles.lookup id

def insert (t : DtnMerkleTree) (bundle : DtnBundle) : DtnMerkleTree where
  bundles := t.bundles.insert bundle.bundleId bundle
  keyed id b h := by
    rcases Table.lookup_insert_eq_some.mp h with ⟨rfl, rfl⟩ | ⟨-, hold⟩
    · rfl
    · exact t.keyed id b hold

def values (t : DtnMerkleTree) : List DtnBundle := (t.bundles.sortedEntries idOrder).map (·.2)

def ids (t : DtnMerkleTree) : List (Octets 16) := (t.bundles.sortedEntries idOrder).map (·.1)

variable (sha256 : Bytes → Octets 32)

/-- What the root hash binds. -/
def rootMessage (t : DtnMerkleTree) : Bytes :=
  utf8 "GGN_DTN_ROOT_V1" ++ t.values.flatMap fun b => (b.leafHash sha256).toList

def rootHash (t : DtnMerkleTree) : Octets 32 :=
  if t.values = [] then List.Vector.replicate 32 0 else sha256 (t.rootMessage sha256)

def computeMissingFrom (t : DtnMerkleTree) (remoteKnownIds : List (Octets 16)) : List DtnBundle :=
  ((t.bundles.sortedEntries idOrder).filter fun e => !remoteKnownIds.contains e.1).map (·.2)

/-- One bundle that comes in, with the number of those that were added. -/
def spliceOne (r : ℕ × DtnMerkleTree) (bundle : DtnBundle) : ℕ × DtnMerkleTree :=
  if bundle.bundleId ∈ r.2.bundles then r else (r.1 + 1, r.2.insert bundle)

def spliceIncoming (t : DtnMerkleTree) (incoming : List DtnBundle) : ℕ × DtnMerkleTree :=
  incoming.foldl spliceOne (0, t)

end DtnMerkleTree

/-- How many bundles each store got, and the stores after it. -/
def reconcileBlackoutStores (sha256 : Bytes → Octets 32) (nodeA nodeB : DtnMerkleTree) :
    (ℕ × ℕ) × DtnMerkleTree × DtnMerkleTree :=
  if nodeA.rootHash sha256 = nodeB.rootHash sha256 then ((0, 0), nodeA, nodeB)
  else
    let missingOnB := nodeA.computeMissingFrom nodeB.ids
    let missingOnA := nodeB.computeMissingFrom nodeA.ids
    let (addedToB, nodeB) := nodeB.spliceIncoming missingOnB
    let (addedToA, nodeA) := nodeA.spliceIncoming missingOnA
    ((addedToA, addedToB), nodeA, nodeB)

/-! ### What the stores hold -/

namespace DtnMerkleTree

variable {a b s t : DtnMerkleTree} {id : Octets 16}

theorem mem_ids : id ∈ t.ids ↔ (t.get id).isSome = true := by
  rw [ids, List.mem_map, Option.isSome_iff_exists]
  constructor
  · rintro ⟨⟨k, bundle⟩, hmem, rfl⟩
    exact ⟨bundle, (Table.mem_sortedEntries idOrder).mp hmem⟩
  · rintro ⟨bundle, h⟩
    exact ⟨⟨id, bundle⟩, (Table.mem_sortedEntries idOrder).mpr h, rfl⟩

theorem map_bundleId_values (t : DtnMerkleTree) : t.values.map (·.bundleId) = t.ids := by
  rw [values, ids, List.map_map]
  refine List.map_congr_left fun e he => ?_
  exact t.keyed e.1 e.2 ((Table.mem_sortedEntries idOrder).mp he)

theorem values_congr (h : ∀ id, a.get id = b.get id) : a.values = b.values := by
  rw [values, values, Table.sortedEntries_congr idOrder h]

theorem get_eq_none_of_values (h : t.values = []) (id : Octets 16) : t.get id = none := by
  have hids := t.map_bundleId_values
  rw [h] at hids
  rw [Option.eq_none_iff_forall_not_mem]
  intro bundle hbundle
  have hmem := mem_ids.mpr (Option.isSome_of_mem hbundle)
  rw [← hids] at hmem
  cases hmem

theorem get_spliceOne (r : ℕ × DtnMerkleTree) (bundle : DtnBundle) (id : Octets 16) :
    (spliceOne r bundle).2.get id =
      (r.2.get id).or (if bundle.bundleId = id then some bundle else none) := by
  rw [spliceOne]
  by_cases hid : bundle.bundleId = id
  · subst hid
    rw [if_pos rfl]
    split
    · rename_i hknown
      obtain ⟨held, hheld⟩ := Option.isSome_iff_exists.mp (AList.lookup_isSome.mpr hknown)
      have hget : r.2.get bundle.bundleId = some held := hheld
      rw [hget, Option.some_or]
    · rename_i hnew
      have hget : r.2.get bundle.bundleId = none := AList.lookup_eq_none.mpr hnew
      have hnow : (r.2.insert bundle).get bundle.bundleId = some bundle := AList.lookup_insert _
      rw [hget, hnow, Option.none_or]
  · rw [if_neg hid, Option.or_none]
    split
    · rfl
    · exact AList.lookup_insert_ne (Ne.symm hid)

theorem get_spliceIncoming (t : DtnMerkleTree) (incoming : List DtnBundle) (id : Octets 16) :
    (t.spliceIncoming incoming).2.get id =
      (t.get id).or (incoming.find? fun bundle => bundle.bundleId = id) := by
  have hfold : ∀ r : ℕ × DtnMerkleTree, (incoming.foldl spliceOne r).2.get id =
      (r.2.get id).or (incoming.find? fun bundle => bundle.bundleId = id) := by
    induction incoming with
    | nil => exact fun r => Option.or_none.symm
    | cons first incoming ih =>
        intro r
        rw [List.foldl_cons, ih, get_spliceOne, Option.or_assoc, List.find?_cons]
        congr 1
        by_cases hid : first.bundleId = id
        · rw [if_pos hid, Option.some_or, decide_eq_true hid]
        · rw [if_neg hid, Option.none_or, decide_eq_false hid]
  exact hfold (0, t)

theorem mem_computeMissingFrom {known : List (Octets 16)} {bundle : DtnBundle} :
    bundle ∈ t.computeMissingFrom known ↔
      t.get bundle.bundleId = some bundle ∧ bundle.bundleId ∉ known := by
  rw [computeMissingFrom, List.mem_map]
  constructor
  · rintro ⟨⟨k, bundle⟩, he, rfl⟩
    obtain ⟨hentry, hmissing⟩ := List.mem_filter.mp he
    have hlookup := (Table.mem_sortedEntries idOrder).mp hentry
    rw [t.keyed k bundle hlookup]
    exact ⟨hlookup, by simpa using hmissing⟩
  · rintro ⟨hlookup, hmissing⟩
    refine ⟨⟨_, bundle⟩, List.mem_filter.mpr ⟨?_, by simpa using hmissing⟩, rfl⟩
    exact (Table.mem_sortedEntries idOrder).mpr hlookup

theorem find?_computeMissingFrom (t : DtnMerkleTree) (known : List (Octets 16)) (id : Octets 16) :
    ((t.computeMissingFrom known).find? fun bundle => bundle.bundleId = id) =
      if id ∈ known then none else t.get id := by
  cases hfind : (t.computeMissingFrom known).find? fun bundle => bundle.bundleId = id with
  | some bundle =>
      have hdecide := List.find?_some (p := fun bundle : DtnBundle => decide (bundle.bundleId = id)) hfind
      have hid : bundle.bundleId = id := of_decide_eq_true hdecide
      obtain ⟨hget, hmissing⟩ := mem_computeMissingFrom.mp (List.mem_of_find?_eq_some hfind)
      rw [hid] at hget hmissing
      rw [if_neg hmissing, hget]
  | none =>
      split
      · rfl
      · rename_i hmissing
        cases hget : t.get id with
        | none => rfl
        | some bundle =>
            have hid : bundle.bundleId = id := t.keyed id bundle hget
            have hin := mem_computeMissingFrom.mpr ⟨hid.symm ▸ hget, hid.symm ▸ hmissing⟩
            exact absurd (decide_eq_true hid) (List.find?_eq_none.mp hfind bundle hin)

theorem get_splice_missing (t s : DtnMerkleTree) (id : Octets 16) :
    (t.spliceIncoming (s.computeMissingFrom t.ids)).2.get id = (t.get id).or (s.get id) := by
  rw [get_spliceIncoming, find?_computeMissingFrom]
  cases hget : t.get id with
  | some bundle => rw [Option.some_or, Option.some_or]
  | none =>
      have hmissing : id ∉ t.ids := by
        rw [mem_ids, hget]
        exact Bool.false_ne_true
      rw [if_neg hmissing]

theorem splice_missing_of_subset (h : ∀ id, (s.get id).isSome = true → (t.get id).isSome = true) :
    t.spliceIncoming (s.computeMissingFrom t.ids) = (0, t) := by
  have hnone : s.computeMissingFrom t.ids = [] := by
    rw [List.eq_nil_iff_forall_not_mem]
    intro bundle hbundle
    obtain ⟨hget, hmissing⟩ := mem_computeMissingFrom.mp hbundle
    exact hmissing (mem_ids.mpr (h _ (Option.isSome_of_mem hget)))
  rw [hnone]
  rfl

end DtnMerkleTree

/-! ### Equal roots -/

theorem map_eq_of_map_eq {α β γ : Type*} {f : α → β} {g : α → γ} {l l' : List α}
    (h : ∀ x ∈ l, ∀ y ∈ l', f x = f y → g x = g y) (heq : l.map f = l'.map f) :
    l.map g = l'.map g := by
  induction l generalizing l' with
  | nil => rw [List.map_eq_nil_iff.mp heq.symm]
  | cons x l ih =>
      cases l' with
      | nil => cases heq
      | cons y l' =>
          obtain ⟨hxy, hrest⟩ := List.cons.inj heq
          rw [List.map_cons, List.map_cons, h x List.mem_cons_self y List.mem_cons_self hxy]
          exact congrArg _ (ih (fun x' hx' y' hy' =>
            h x' (List.mem_cons_of_mem _ hx') y' (List.mem_cons_of_mem _ hy')) hrest)

theorem DtnBundle.bundleId_of_leafMessage {x y : DtnBundle} (h : x.leafMessage = y.leafMessage) :
    x.bundleId = y.bundleId := by
  rw [leafMessage, leafMessage] at h
  exact (Block.append_inj.mp (List.append_cancel_left h)).1

namespace DtnMerkleTree

variable {sha256 : Bytes → Octets 32} {a b : DtnMerkleTree}

def hashed (sha256 : Bytes → Octets 32) (t : DtnMerkleTree) : Set Bytes :=
  {m | m = t.rootMessage sha256 ∨ ∃ bundle ∈ t.values, m = bundle.leafMessage}

theorem ids_eq_of_rootHash_eq (hsha : Set.InjOn sha256 (a.hashed sha256 ∪ b.hashed sha256))
    (ha : a.values ≠ []) (hb : b.values ≠ [])
    (hroot : a.rootHash sha256 = b.rootHash sha256) : a.ids = b.ids := by
  rw [rootHash, rootHash, if_neg ha, if_neg hb] at hroot
  have hmessage := hsha (.inl (.inl rfl)) (.inr (.inl rfl)) hroot
  have hhashes : a.values.map (·.leafHash sha256) = b.values.map (·.leafHash sha256) := by
    rw [rootMessage, rootMessage] at hmessage
    apply Block.flatMap_toList_inj (n := 32) (by decide)
    rw [List.flatMap_map, List.flatMap_map]
    exact List.append_cancel_left hmessage
  rw [← map_bundleId_values, ← map_bundleId_values]
  refine map_eq_of_map_eq (fun x hx y hy hxy => ?_) hhashes
  exact DtnBundle.bundleId_of_leafMessage
    (hsha (.inl (.inr ⟨x, hx, rfl⟩)) (.inr (.inr ⟨y, hy, rfl⟩)) hxy)

end DtnMerkleTree

/-! ### Reconciling -/

/-- What a reconciliation is for. -/
structure Converges (sha256 : Bytes → Octets 32) (a b : DtnMerkleTree) : Prop where
  same : ∀ id, (reconcileBlackoutStores sha256 a b).2.1.get id =
    (reconcileBlackoutStores sha256 a b).2.2.get id
  again : (reconcileBlackoutStores sha256 (reconcileBlackoutStores sha256 a b).2.1
    (reconcileBlackoutStores sha256 a b).2.2).1 = (0, 0)
  kept : ∀ id, ((a.get id).isSome = true →
      ((reconcileBlackoutStores sha256 a b).2.1.get id).isSome = true) ∧
    ((b.get id).isSome = true → ((reconcileBlackoutStores sha256 a b).2.2.get id).isSome = true)
  payloads : a.rootHash sha256 = b.rootHash sha256 →
    ∀ id, (a.get id).map (·.payload) = (b.get id).map (·.payload)

/-- A bundle that both stores hold is the same in both, and if only one of them is empty, the roots
tell so. -/
structure Reconcilable (sha256 : Bytes → Octets 32) (a b : DtnMerkleTree) : Prop where
  agree : ∀ id x y, a.get id = some x → b.get id = some y → x = y
  apart : a.rootHash sha256 = b.rootHash sha256 → (a.values = [] ↔ b.values = [])

section

variable {sha256 : Bytes → Octets 32} {a b : DtnMerkleTree}

theorem reconcile_of_eq (h : a.rootHash sha256 = b.rootHash sha256) :
    reconcileBlackoutStores sha256 a b = ((0, 0), a, b) := if_pos h

theorem get_reconcile_of_ne (h : a.rootHash sha256 ≠ b.rootHash sha256) (id : Octets 16) :
    (reconcileBlackoutStores sha256 a b).2.1.get id = (a.get id).or (b.get id) ∧
      (reconcileBlackoutStores sha256 a b).2.2.get id = (b.get id).or (a.get id) := by
  rw [reconcileBlackoutStores, if_neg h]
  exact ⟨DtnMerkleTree.get_splice_missing a b id, DtnMerkleTree.get_splice_missing b a id⟩

theorem reconcile_of_same_ids (h : ∀ id, (a.get id).isSome = (b.get id).isSome) :
    (reconcileBlackoutStores sha256 a b).1 = (0, 0) := by
  rw [reconcileBlackoutStores]
  split
  · rfl
  · have hb := DtnMerkleTree.splice_missing_of_subset (s := a) (t := b) fun id hid => h id ▸ hid
    have ha := DtnMerkleTree.splice_missing_of_subset (s := b) (t := a) fun id hid => h id ▸ hid
    show ((a.spliceIncoming (b.computeMissingFrom a.ids)).1,
      (b.spliceIncoming (a.computeMissingFrom b.ids)).1) = (0, 0)
    rw [hb, ha]

theorem reconcile_again (sha256 : Bytes → Octets 32) (a b : DtnMerkleTree) :
    (reconcileBlackoutStores sha256 (reconcileBlackoutStores sha256 a b).2.1
      (reconcileBlackoutStores sha256 a b).2.2).1 = (0, 0) := by
  by_cases hroot : a.rootHash sha256 = b.rootHash sha256
  · rw [reconcile_of_eq hroot]
    exact congrArg Prod.fst (reconcile_of_eq hroot)
  · apply reconcile_of_same_ids
    intro id
    obtain ⟨ha, hb⟩ := get_reconcile_of_ne hroot id
    rw [ha, hb, Option.isSome_or, Option.isSome_or, Bool.or_comm]

theorem reconcile_kept (sha256 : Bytes → Octets 32) (a b : DtnMerkleTree) (id : Octets 16) :
    ((a.get id).isSome = true →
      ((reconcileBlackoutStores sha256 a b).2.1.get id).isSome = true) ∧
    ((b.get id).isSome = true →
      ((reconcileBlackoutStores sha256 a b).2.2.get id).isSome = true) := by
  by_cases hroot : a.rootHash sha256 = b.rootHash sha256
  · rw [reconcile_of_eq hroot]
    exact ⟨fun h => h, fun h => h⟩
  · obtain ⟨ha, hb⟩ := get_reconcile_of_ne hroot id
    rw [ha, hb, Option.isSome_or, Option.isSome_or]
    exact ⟨fun h => by rw [h, Bool.true_or], fun h => by rw [h, Bool.true_or]⟩

theorem Reconcilable.get_eq (h : Reconcilable sha256 a b)
    (hsha : Set.InjOn sha256 (a.hashed sha256 ∪ b.hashed sha256))
    (hroot : a.rootHash sha256 = b.rootHash sha256) (id : Octets 16) : a.get id = b.get id := by
  by_cases hempty : a.values = []
  · rw [DtnMerkleTree.get_eq_none_of_values hempty,
      DtnMerkleTree.get_eq_none_of_values ((h.apart hroot).mp hempty)]
  · have hids := DtnMerkleTree.ids_eq_of_rootHash_eq hsha hempty
      (fun hb => hempty ((h.apart hroot).mpr hb)) hroot
    have hsome : (a.get id).isSome = true ↔ (b.get id).isSome = true := by
      rw [← DtnMerkleTree.mem_ids, ← DtnMerkleTree.mem_ids, hids]
    cases ha : a.get id with
    | none =>
        cases hb : b.get id with
        | none => rfl
        | some y =>
            rw [ha, hb] at hsome
            exact absurd (hsome.mpr rfl) Bool.false_ne_true
    | some x =>
        cases hb : b.get id with
        | none =>
            rw [ha, hb] at hsome
            exact absurd (hsome.mp rfl) Bool.false_ne_true
        | some y => rw [h.agree id x y ha hb]

theorem Reconcilable.converges (h : Reconcilable sha256 a b)
    (hsha : Set.InjOn sha256 (a.hashed sha256 ∪ b.hashed sha256)) : Converges sha256 a b where
  same id := by
    by_cases hroot : a.rootHash sha256 = b.rootHash sha256
    · rw [reconcile_of_eq hroot]
      exact h.get_eq hsha hroot id
    · obtain ⟨ha, hb⟩ := get_reconcile_of_ne hroot id
      rw [ha, hb]
      cases hx : a.get id with
      | none => rw [Option.none_or, Option.or_none]
      | some x =>
          cases hy : b.get id with
          | none => rfl
          | some y => rw [Option.some_or, Option.some_or, h.agree id x y hx hy]
  again := reconcile_again sha256 a b
  kept := reconcile_kept sha256 a b
  payloads hroot id := by rw [h.get_eq hsha hroot id]

theorem Converges.reconcilable (h : Converges sha256 a b) : Reconcilable sha256 a b where
  agree id x y hx hy := by
    have hsame := h.same id
    by_cases hroot : a.rootHash sha256 = b.rootHash sha256
    · rw [reconcile_of_eq hroot] at hsame
      exact Option.some.inj ((hx.symm.trans hsame).trans hy)
    · obtain ⟨ha, hb⟩ := get_reconcile_of_ne hroot id
      rw [ha, hb, hx, hy] at hsame
      exact Option.some.inj hsame
  apart hroot := by
    have hsame := h.same
    rw [reconcile_of_eq hroot] at hsame
    rw [DtnMerkleTree.values_congr hsame]

end

/-- Two stores converge exactly if they hold the same bundle under each id that both have, and an
empty store is not taken for one that is not. -/
theorem reconcile_converges_iff (sha256 : Bytes → Octets 32) (a b : DtnMerkleTree)
    (hsha : Set.InjOn sha256 (a.hashed sha256 ∪ b.hashed sha256)) :
    Converges sha256 a b ↔ Reconcilable sha256 a b :=
  ⟨Converges.reconcilable, fun h => h.converges hsha⟩

def pingHash : Octets 32 :=
  ⟨[117, 141, 97, 242, 106, 68, 68, 131, 132, 229, 196, 70, 138, 13, 203, 122, 42, 190, 69, 96,
    103, 176, 247, 181, 5, 188, 40, 185, 65, 31, 233, 49], rfl⟩

def hereLeaf : Octets 32 :=
  ⟨[88, 195, 146, 210, 244, 209, 179, 148, 154, 142, 191, 230, 133, 99, 157, 62, 65, 94, 223, 177,
    144, 57, 109, 77, 241, 209, 28, 95, 43, 208, 190, 177], rfl⟩

def thereLeaf : Octets 32 :=
  ⟨[111, 32, 171, 121, 41, 6, 81, 62, 165, 5, 20, 77, 144, 24, 144, 239, 173, 204, 133, 137, 30,
    59, 88, 210, 233, 2, 3, 52, 200, 77, 128, 178], rfl⟩

def laterLeaf : Octets 32 :=
  ⟨[230, 122, 135, 146, 222, 228, 202, 153, 135, 212, 70, 199, 135, 240, 14, 13, 63, 202, 95, 182,
    124, 78, 250, 100, 213, 98, 196, 41, 81, 92, 224, 64], rfl⟩

/-- A bundle with the payload `ping`. -/
def pingBundle (id : UInt8) (sequence : UInt64) : DtnBundle :=
  ⟨List.Vector.replicate 16 id, sequence, pingHash, utf8 "ping"⟩

def sha256Of (message : Bytes) : Octets 32 :=
  if message = utf8 "ping" then pingHash
  else if message = (pingBundle 1 1).leafMessage then hereLeaf
  else if message = (pingBundle 144 3).leafMessage then thereLeaf
  else if message = (pingBundle 1 2).leafMessage then laterLeaf
  else if message = utf8 "GGN_DTN_ROOT_V1" ++ hereLeaf.toList then
    ⟨[41, 244, 84, 106, 90, 51, 159, 126, 202, 82, 221, 72, 68, 151, 186, 69, 115, 232, 49, 138,
      184, 39, 227, 117, 106, 172, 59, 247, 2, 42, 227, 220], rfl⟩
  else if message = utf8 "GGN_DTN_ROOT_V1" ++ thereLeaf.toList then
    ⟨[174, 44, 205, 165, 150, 143, 238, 33, 163, 154, 110, 229, 162, 240, 81, 193, 180, 140, 49,
      171, 28, 107, 125, 105, 219, 174, 224, 197, 217, 208, 99, 185], rfl⟩
  else
    ⟨[227, 205, 127, 38, 61, 164, 41, 32, 9, 189, 70, 126, 91, 201, 175, 102, 143, 229, 72, 202,
      6, 58, 187, 223, 234, 168, 111, 161, 75, 27, 146, 45], rfl⟩

def storeOf (bundle : DtnBundle) : DtnMerkleTree := DtnMerkleTree.new.insert bundle

theorem get_storeOf {bundle x : DtnBundle} {id : Octets 16} (h : (storeOf bundle).get id = some x) :
    x = bundle ∧ id = bundle.bundleId := by
  rcases Table.lookup_insert_eq_some.mp h with ⟨rfl, rfl⟩ | ⟨-, hnone⟩
  · exact ⟨rfl, rfl⟩
  · cases hnone

theorem injOn_storeOf {sha256 : Bytes → Octets 32} {x y : DtnBundle}
    (h : ∀ m ∈ [utf8 "GGN_DTN_ROOT_V1" ++ (x.leafHash sha256).toList, x.leafMessage,
        utf8 "GGN_DTN_ROOT_V1" ++ (y.leafHash sha256).toList, y.leafMessage],
      ∀ m' ∈ [utf8 "GGN_DTN_ROOT_V1" ++ (x.leafHash sha256).toList, x.leafMessage,
        utf8 "GGN_DTN_ROOT_V1" ++ (y.leafHash sha256).toList, y.leafMessage],
      sha256 m = sha256 m' → m = m') :
    Set.InjOn sha256 ((storeOf x).hashed sha256 ∪ (storeOf y).hashed sha256) := by
  have hvalues : ∀ z, (storeOf z).values = [z] := fun _ => rfl
  have hmem : ∀ m ∈ (storeOf x).hashed sha256 ∪ (storeOf y).hashed sha256,
      m ∈ [utf8 "GGN_DTN_ROOT_V1" ++ (x.leafHash sha256).toList, x.leafMessage,
        utf8 "GGN_DTN_ROOT_V1" ++ (y.leafHash sha256).toList, y.leafMessage] := by
    intro m hm
    simpa [DtnMerkleTree.hashed, DtnMerkleTree.rootMessage, hvalues, or_assoc] using hm
  exact fun m hm m' hm' heq => h m (hmem m hm) m' (hmem m' hm') heq

theorem reconcile_converges_apart :
    Converges sha256Of (storeOf (.new sha256Of (List.Vector.replicate 16 1) 1 (utf8 "ping")))
      (storeOf (.new sha256Of (List.Vector.replicate 16 144) 3 (utf8 "ping"))) := by
  refine (reconcile_converges_iff sha256Of _ _ (injOn_storeOf (by decide +kernel))).mpr ⟨?_, ?_⟩
  · intro id x y hx hy
    obtain ⟨-, hid⟩ := get_storeOf hx
    obtain ⟨-, hid'⟩ := get_storeOf hy
    exact absurd (hid.symm.trans hid') (by decide)
  · exact fun _ => iff_of_false (List.cons_ne_nil _ _) (List.cons_ne_nil _ _)

/-- A transmission with the hash of `ping` and the payload `pong`. -/
def forgedTransmission : Bytes :=
  dtnReconcileMagic ++ List.replicate 16 1 ++ toBeBytes 8 1 ++ pingHash.toList ++ toBeBytes 4 4 ++
    utf8 "pong"

/-- Two payloads of one hash, and two versions of one id, stay as they are. -/
theorem reconcile_not_converges :
    let forged : DtnBundle := { pingBundle 1 1 with payload := utf8 "pong" }
    DtnBundle.fromSkywavePayload forgedTransmission = some forged ∧
      Set.InjOn sha256Of ((storeOf (pingBundle 1 1)).hashed sha256Of ∪
        (storeOf forged).hashed sha256Of) ∧
      ¬ Converges sha256Of (storeOf (pingBundle 1 1)) (storeOf forged) ∧
      Set.InjOn sha256Of ((storeOf (pingBundle 1 1)).hashed sha256Of ∪
        (storeOf (pingBundle 1 2)).hashed sha256Of) ∧
      ¬ Converges sha256Of (storeOf (pingBundle 1 1)) (storeOf (pingBundle 1 2)) := by
  intro forged
  refine ⟨by decide +kernel, injOn_storeOf (by decide +kernel), fun h => ?_,
    injOn_storeOf (by decide +kernel), fun h => ?_⟩
  · have hagree := h.reconcilable.agree (List.Vector.replicate 16 1) (pingBundle 1 1) forged rfl rfl
    exact absurd (congrArg DtnBundle.payload hagree) (by decide +kernel)
  · have hagree := h.reconcilable.agree (List.Vector.replicate 16 1) (pingBundle 1 1)
      (pingBundle 1 2) rfl rfl
    exact absurd (congrArg DtnBundle.sequence hagree) (by decide)

end Vantablack.Net
