import Mathlib
import Vantablack.Lib.Runs

/-!
A ring of slots. Every key has one slot, several keys share it, and an item whose key is not
the slot's takes the slot over: what the slot held is gone. When the keys of a slot arrive in
increasing order, the ring treats each key as if it had a slot of its own.
-/

namespace Vantablack.Lib

/-- What a ring does with its items. `fresh` is the slot an item takes over, `feed` what it does
in a slot of its own key. -/
structure Ring (ι κ α σ β : Type*) where
  place : κ → ι
  key : α → κ
  keyOf : σ → κ
  fresh : α → σ
  feed : σ → α → σ × Option β
  keyOf_fresh : ∀ a, keyOf (fresh a) = key a
  keyOf_feed : ∀ s a, keyOf (feed s a).1 = keyOf s

namespace Ring

variable {ι κ α σ β : Type*} [LinearOrder κ]

/-- The slot of an item, after it took it over if it had to. -/
def occupied (R : Ring ι κ α σ β) (s : σ) (a : α) : σ :=
  if R.keyOf s = R.key a then s else R.fresh a

def ingest [DecidableEq ι] (R : Ring ι κ α σ β) (slots : ι → σ) (a : α) : (ι → σ) × Option β :=
  let i := R.place (R.key a)
  let r := R.feed (R.occupied (slots i) a) a
  (Function.update slots i r.1, r.2)

/-- The outputs of a run, each with the key it is for. -/
def outputs [DecidableEq ι] (R : Ring ι κ α σ β) : (ι → σ) → List α → List (κ × β)
  | _, [] => []
  | slots, a :: as =>
      ((R.ingest slots a).2.map fun b => (R.key a, b)).toList ++ R.outputs (R.ingest slots a).1 as

/-- One key with a slot of its own, which is `none` until the first item comes. -/
def serve (R : Ring ι κ α σ β) : Option σ → List α → List β
  | _, [] => []
  | s, a :: as =>
      let r := R.feed (s.getD (R.fresh a)) a
      r.2.toList ++ R.serve (some r.1) as

/-- The slot of `k`, if `k` holds it. -/
def dedicated (R : Ring ι κ α σ β) (slots : ι → σ) (k : κ) : Option σ :=
  if R.keyOf (slots (R.place k)) = k then some (slots (R.place k)) else none

/-- No item arrives after one of a larger key in the same place. -/
def InOrder (R : Ring ι κ α σ β) (as : List α) : Prop :=
  as.Pairwise fun a b => R.place (R.key a) = R.place (R.key b) → R.key a ≤ R.key b

variable (R : Ring ι κ α σ β) {slots : ι → σ} {a : α} {as : List α} {k : κ}

theorem keyOf_occupied (s : σ) (a : α) : R.keyOf (R.occupied s a) = R.key a := by
  unfold occupied
  split
  · assumption
  · exact R.keyOf_fresh a

theorem getD_dedicated (slots : ι → σ) (a : α) :
    (R.dedicated slots (R.key a)).getD (R.fresh a) =
      R.occupied (slots (R.place (R.key a))) a := by
  unfold dedicated occupied
  split <;> rfl

variable [DecidableEq ι]

theorem ingest_fst (slots : ι → σ) (a : α) :
    (R.ingest slots a).1 = Function.update slots (R.place (R.key a))
      (R.feed (R.occupied (slots (R.place (R.key a))) a) a).1 := rfl

theorem keyOf_ingest_place (slots : ι → σ) (a : α) :
    R.keyOf ((R.ingest slots a).1 (R.place (R.key a))) = R.key a := by
  rw [ingest_fst, Function.update_self, R.keyOf_feed, keyOf_occupied]

theorem ingest_of_ne {i : ι} (hi : i ≠ R.place (R.key a)) :
    (R.ingest slots a).1 i = slots i := by
  rw [ingest_fst, Function.update_of_ne hi]

theorem dedicated_ingest_self (slots : ι → σ) (a : α) :
    R.dedicated (R.ingest slots a).1 (R.key a) =
      some (R.feed (R.occupied (slots (R.place (R.key a))) a) a).1 := by
  rw [dedicated, if_pos (R.keyOf_ingest_place slots a), ingest_fst, Function.update_self]

/-- An item of another key leaves the dedicated slot of `k` alone, unless it took the slot
over from `k`. -/
theorem dedicated_ingest_of_ne (hk : R.key a ≠ k)
    (hplace : R.place (R.key a) = R.place k → R.keyOf (slots (R.place k)) ≠ k) :
    R.dedicated (R.ingest slots a).1 k = R.dedicated slots k := by
  by_cases hp : R.place (R.key a) = R.place k
  · have hnew := R.keyOf_ingest_place slots a
    rw [hp] at hnew
    rw [dedicated, dedicated, if_neg (hplace hp), if_neg]
    rw [hnew]
    exact hk
  · rw [dedicated, dedicated, R.ingest_of_ne (Ne.symm hp)]

/-- No item meets a slot of a larger key exactly when the items are in order and none of them
is below the key its slot starts with. -/
theorem always_le_iff (slots : ι → σ) (as : List α) :
    Always (fun slots a => (R.ingest slots a).1)
        (fun slots a => R.keyOf (slots (R.place (R.key a))) ≤ R.key a) slots as ↔
      (∀ a ∈ as, R.keyOf (slots (R.place (R.key a))) ≤ R.key a) ∧ R.InOrder as := by
  induction as generalizing slots with
  | nil => simp [InOrder]
  | cons a as ih =>
      rw [always_cons, ih, InOrder, InOrder, List.pairwise_cons, List.forall_mem_cons]
      constructor
      · rintro ⟨ha, has, hpair⟩
        have hlater : ∀ b ∈ as, R.place (R.key a) = R.place (R.key b) → R.key a ≤ R.key b := by
          intro b hb hp
          have hle := has b hb
          rwa [← hp, R.keyOf_ingest_place] at hle
        refine ⟨⟨ha, ?_⟩, hlater, hpair⟩
        intro b hb
        by_cases hp : R.place (R.key b) = R.place (R.key a)
        · rw [hp]
          exact ha.trans (hlater b hb hp.symm)
        · have hle := has b hb
          rwa [R.ingest_of_ne hp] at hle
      · rintro ⟨⟨ha, hslots⟩, hlater, hpair⟩
        refine ⟨ha, ?_, hpair⟩
        intro b hb
        by_cases hp : R.place (R.key b) = R.place (R.key a)
        · rw [hp, R.keyOf_ingest_place]
          exact hlater b hb hp.symm
        · rw [R.ingest_of_ne hp]
          exact hslots b hb

theorem outputs_filter (hslots : ∀ a ∈ as, R.keyOf (slots (R.place (R.key a))) ≤ R.key a)
    (horder : R.InOrder as) (k : κ) :
    (R.outputs slots as).filter (fun o => o.1 = k) =
      (R.serve (R.dedicated slots k) (as.filter fun a => R.key a = k)).map fun b => (k, b) := by
  induction as generalizing slots with
  | nil => rfl
  | cons a as ih =>
      have halways := (R.always_le_iff slots (a :: as)).mpr ⟨hslots, horder⟩
      have hrest := ((R.always_le_iff _ as).mp halways.2).1
      have hih := ih hrest horder.of_cons
      rw [outputs, List.filter_append, hih]
      by_cases hk : R.key a = k
      · subst hk
        rw [List.filter_cons_of_pos (by simp), serve, R.getD_dedicated, R.dedicated_ingest_self,
          List.map_append]
        congr 1
        unfold ingest
        cases (R.feed (R.occupied (slots (R.place (R.key a))) a) a).2 with
        | none => rfl
        | some b => simp
      · have hnone : (((R.ingest slots a).2.map fun b => (R.key a, b)).toList).filter
            (fun o => o.1 = k) = [] := by
          cases (R.ingest slots a).2 with
          | none => rfl
          | some b => simp [hk]
        rw [hnone, List.nil_append, List.filter_cons_of_neg (by simpa using hk)]
        by_cases htaken : R.place (R.key a) = R.place k ∧ R.keyOf (slots (R.place k)) = k
        · -- `a` took the slot over from `k`, so no item of `k` follows
          obtain ⟨hp, hkey⟩ := htaken
          have hlt : k < R.key a := by
            have hle := hslots a List.mem_cons_self
            rw [hp, hkey] at hle
            exact lt_of_le_of_ne hle (Ne.symm hk)
          have hgone : as.filter (fun b => R.key b = k) = [] := by
            rw [List.filter_eq_nil_iff]
            intro b hb hbk
            have hbk : R.key b = k := by simpa using hbk
            have hle := (List.pairwise_cons.mp horder).1 b hb (by rw [hbk, hp])
            rw [hbk] at hle
            exact absurd hle (not_le.mpr hlt)
          rw [hgone]
          rfl
        · rw [R.dedicated_ingest_of_ne hk]
          intro hp hkey
          exact htaken ⟨hp, hkey⟩

/-- Items in order, and a slot of its own puts out at most once for a key: so does the ring. -/
theorem nodup_outputs (hslots : ∀ a ∈ as, R.keyOf (slots (R.place (R.key a))) ≤ R.key a)
    (horder : R.InOrder as)
    (hserve : ∀ k, (R.serve (R.dedicated slots k) (as.filter fun a => R.key a = k)).length ≤ 1) :
    ((R.outputs slots as).map Prod.fst).Nodup := by
  rw [List.nodup_iff_count]
  intro k
  have hcount : ((R.outputs slots as).map Prod.fst).count k =
      ((R.outputs slots as).filter fun o => o.1 = k).length := by
    rw [List.count_eq_countP, List.countP_map, List.countP_eq_length_filter]
    rfl
  rw [hcount, R.outputs_filter hslots horder, List.length_map]
  exact hserve k

/-- What an invariant of the slots gives for each output, it gives for every output of a run, and
the key of an output is the key of an item. -/
theorem outputs_of_invariant (I : σ → Prop) (Q : β → Prop) (hslots : ∀ i, I (slots i))
    (hfresh : ∀ a ∈ as, I (R.fresh a))
    (hfeed : ∀ s a, I s → I (R.feed s a).1 ∧ ∀ b, (R.feed s a).2 = some b → Q b) :
    ∀ o ∈ R.outputs slots as, (∃ a ∈ as, R.key a = o.1) ∧ Q o.2 := by
  induction as generalizing slots with
  | nil => intro o ho; cases ho
  | cons a as ih =>
      obtain ⟨ha, hfresh⟩ := List.forall_mem_cons.mp hfresh
      have hoccupied : I (R.occupied (slots (R.place (R.key a))) a) := by
        unfold occupied
        split
        · exact hslots _
        · exact ha
      obtain ⟨hkept, hout⟩ := hfeed _ a hoccupied
      intro o ho
      rw [outputs] at ho
      rcases List.mem_append.mp ho with ho | ho
      · obtain ⟨b, hb, rfl⟩ := Option.map_eq_some_iff.mp (Option.mem_toList.mp ho)
        exact ⟨⟨a, List.mem_cons_self, rfl⟩, hout b hb⟩
      · have hnext : ∀ i, I ((R.ingest slots a).1 i) := by
          intro i
          by_cases hi : i = R.place (R.key a)
          · rw [hi, ingest_fst, Function.update_self]
            exact hkept
          · rw [R.ingest_of_ne hi]
            exact hslots i
        obtain ⟨⟨b, hb, hkey⟩, hQ⟩ := ih hnext hfresh o ho
        exact ⟨⟨b, List.mem_cons_of_mem _ hb, hkey⟩, hQ⟩

end Ring

end Vantablack.Lib
