import Mathlib.Data.List.Sort
import Vantablack.Lib.Table

/-!
Tables that are walked in the order of their keys. The walk depends on what the table holds, not on
how it came to hold it.
-/

namespace Vantablack.Lib

/-- A list that is sorted by an order that tells its entries apart is the same list in whatever
order it was given. -/
theorem insertionSort_eq_of_perm {α : Type*} {r : α → α → Prop} [DecidableRel r] [Std.Total r]
    [IsTrans α r] {l l' : List α} (h : l.Perm l')
    (hanti : ∀ a ∈ l, ∀ b ∈ l, r a b → r b a → a = b) :
    l.insertionSort r = l'.insertionSort r := by
  refine List.Perm.eq_of_pairwise ?_ (List.pairwise_insertionSort r l)
    (List.pairwise_insertionSort r l') ?_
  · intro a b ha hb
    exact hanti a ((List.mem_insertionSort r).mp ha) b (h.mem_iff.mpr ((List.mem_insertionSort r).mp hb))
  · exact ((List.perm_insertionSort r l).trans h).trans (List.perm_insertionSort r l').symm

namespace Table

variable {κ ν : Type*} [DecidableEq κ] (r : κ → κ → Prop) [DecidableRel r]

/-- The entries in the order of the keys. -/
def sortedEntries (t : Table κ ν) : List (Sigma fun _ : κ => ν) :=
  t.entries.insertionSort fun x y => r x.1 y.1

theorem mem_sortedEntries {t : Table κ ν} {k : κ} {v : ν} :
    ⟨k, v⟩ ∈ sortedEntries r t ↔ t.lookup k = some v := by
  rw [sortedEntries, List.mem_insertionSort, ← AList.mem_lookup_iff, Option.mem_def]

theorem sortedEntries_congr [Std.Total r] [IsTrans κ r] [Std.Antisymm r] {t t' : Table κ ν}
    (h : ∀ k, t.lookup k = t'.lookup k) : sortedEntries r t = sortedEntries r t' := by
  have hmem : ∀ e, e ∈ t.entries ↔ e ∈ t'.entries := by
    rintro ⟨k, v⟩
    rw [← AList.mem_lookup_iff, ← AList.mem_lookup_iff, h]
  have htotal : Std.Total fun x y : (Sigma fun _ : κ => ν) => r x.1 y.1 :=
    ⟨fun x y => Std.Total.total x.1 y.1⟩
  have htrans : IsTrans (Sigma fun _ : κ => ν) fun x y => r x.1 y.1 :=
    ⟨fun x y z => IsTrans.trans x.1 y.1 z.1⟩
  refine insertionSort_eq_of_perm
    ((List.perm_ext_iff_of_nodup t.nodupKeys.nodup t'.nodupKeys.nodup).mpr hmem) ?_
  rintro ⟨k, v⟩ hx ⟨k', v'⟩ hy hxy hyx
  have hk : k = k' := Std.Antisymm.antisymm k k' hxy hyx
  subst hk
  rw [← AList.mem_lookup_iff, Option.mem_def] at hx hy
  rw [hx] at hy
  cases hy
  rfl

end Table

end Vantablack.Lib
