import Vantablack.Vpn.NatTable

/-!
The options of a TCP header, as `clamp_mss` of `net/vpn/netstack.rs` walks over them: no-operations of
one byte, and options that give their own length. The walk of the code ends at the first MSS option.
-/

namespace Vantablack.Vpn

open Lib Layers

/-! ### The options -/

def optionLength (pkt : Bytes) (off : ℕ) : ℕ :=
  (pkt.getD (off + 1) 0).toNat

/-- An option with a length of its own that ends before `stop`. -/
def OptionFits (pkt : Bytes) (stop off : ℕ) : Prop :=
  pkt.getD off 0 ≠ 0 ∧ pkt.getD off 0 ≠ 1 ∧ 2 ≤ optionLength pkt off ∧
    off + optionLength pkt off ≤ stop

/-- The options that come one after the other from a position on, up to the end of the list or to the
first one that is malformed. -/
inductive OptionFrom (pkt : Bytes) (stop : ℕ) : ℕ → ℕ → Prop
  | here {off : ℕ} : OptionFits pkt stop off → OptionFrom pkt stop off off
  | nop {start off : ℕ} : pkt.getD start 0 = 1 → OptionFrom pkt stop (start + 1) off →
      OptionFrom pkt stop start off
  | next {start off : ℕ} : OptionFits pkt stop start →
      OptionFrom pkt stop (start + optionLength pkt start) off → OptionFrom pkt stop start off

def MssFrom (pkt : Bytes) (stop start off : ℕ) : Prop :=
  OptionFrom pkt stop start off ∧ pkt.getD off 0 = 2 ∧ optionLength pkt off = 4

section Options

variable {pkt pkt' : Bytes} {stop start off off' m : ℕ}

theorem OptionFrom.start_le (h : OptionFrom pkt stop start off) : start ≤ off := by
  induction h with
  | here _ => exact le_rfl
  | nop _ _ ih => omega
  | next _ _ ih => omega

theorem OptionFrom.fits (h : OptionFrom pkt stop start off) : OptionFits pkt stop off := by
  induction h with
  | here hfits => exact hfits
  | nop _ _ ih => exact ih
  | next _ _ ih => exact ih

theorem OptionFrom.of_nop (h : OptionFrom pkt stop start off) (hnop : pkt.getD start 0 = 1) :
    OptionFrom pkt stop (start + 1) off := by
  cases h with
  | here hfits => exact absurd hnop hfits.2.1
  | nop _ hrest => exact hrest
  | next hfits _ => exact absurd hnop hfits.2.1

theorem OptionFrom.of_ne_nop (h : OptionFrom pkt stop start off) (hnop : pkt.getD start 0 ≠ 1) :
    OptionFits pkt stop start ∧
      (off = start ∨ OptionFrom pkt stop (start + optionLength pkt start) off) := by
  cases h with
  | here hfits => exact ⟨hfits, Or.inl rfl⟩
  | nop hone _ => exact absurd hone hnop
  | next hfits hrest => exact ⟨hfits, Or.inr hrest⟩

theorem OptionFrom.add_length_le (h : OptionFrom pkt stop start off)
    (h' : OptionFrom pkt stop start off') (hlt : off < off') :
    off + optionLength pkt off ≤ off' := by
  induction h with
  | here hfits =>
      rcases (h'.of_ne_nop hfits.2.1).2 with rfl | hrest
      · exact absurd hlt (lt_irrefl _)
      · exact hrest.start_le
  | nop hone _ ih => exact ih (h'.of_nop hone) hlt
  | next hfits hrest ih =>
      rcases (h'.of_ne_nop hfits.2.1).2 with rfl | hrest'
      · have hle := hrest.start_le
        omega
      · exact ih hrest' hlt

/-! ### Changing the value of one -/

theorem head_congr (hm : m + 4 ≤ start ∨ MssFrom pkt stop start m)
    (hframe : ∀ k, start ≤ k → k ≠ m + 2 → k ≠ m + 3 → pkt'.getD k 0 = pkt.getD k 0) :
    pkt'.getD start 0 = pkt.getD start 0 ∧ optionLength pkt' start = optionLength pkt start := by
  have hs : start ≤ m ∨ m + 4 ≤ start := hm.symm.imp_left fun hmss => hmss.1.start_le
  have hlen : pkt'.getD (start + 1) 0 = pkt.getD (start + 1) 0 :=
    hframe _ (by omega) (by omega) (by omega)
  exact ⟨hframe _ (by omega) (by omega) (by omega), by rw [optionLength, hlen, optionLength]⟩

theorem OptionFrom.congr (h : OptionFrom pkt stop start off)
    (hm : m + 4 ≤ start ∨ MssFrom pkt stop start m)
    (hframe : ∀ k, start ≤ k → k ≠ m + 2 → k ≠ m + 3 → pkt'.getD k 0 = pkt.getD k 0) :
    OptionFrom pkt' stop start off := by
  induction h with
  | here hfits =>
      obtain ⟨hkind, hlen⟩ := head_congr hm hframe
      refine .here ?_
      rwa [OptionFits, hkind, hlen]
  | nop hone hrest ih =>
      obtain ⟨hkind, -⟩ := head_congr hm hframe
      refine .nop (hkind.trans hone) (ih ?_ fun k hk => hframe k (by omega))
      rcases hm with hbefore | hmss
      · exact Or.inl (by omega)
      · exact Or.inr ⟨hmss.1.of_nop hone, hmss.2⟩
  | @next start off hfits hrest ih =>
      obtain ⟨hkind, hlen⟩ := head_congr hm hframe
      have hfits' : OptionFits pkt' stop start := by
        rwa [OptionFits, hkind, hlen]
      have hm' : m + 4 ≤ start + optionLength pkt start ∨
          MssFrom pkt stop (start + optionLength pkt start) m := by
        rcases hm with hbefore | hmss
        · exact Or.inl (by omega)
        · rcases (hmss.1.of_ne_nop hfits.2.1).2 with rfl | hrest'
          · exact Or.inl (by rw [hmss.2.2])
          · exact Or.inr ⟨hrest', hmss.2⟩
      refine .next hfits' ?_
      rw [hlen]
      exact ih hm' fun k hk => hframe k (by omega)

theorem MssFrom.congr (h : MssFrom pkt stop start off)
    (hm : m + 4 ≤ start ∨ MssFrom pkt stop start m)
    (hframe : ∀ k, start ≤ k → k ≠ m + 2 → k ≠ m + 3 → pkt'.getD k 0 = pkt.getD k 0) :
    MssFrom pkt' stop start off := by
  have hoff : m + 4 ≤ off ∨ off ≤ m := by
    rcases hm with hbefore | hmss
    · exact Or.inl (hbefore.trans h.1.start_le)
    · rcases le_or_gt off m with hle | hlt
      · exact Or.inr hle
      · have hnext := hmss.1.add_length_le h.1 hlt
        rw [hmss.2.2] at hnext
        exact Or.inl hnext
  have hstart := h.1.start_le
  have hlen : pkt'.getD (off + 1) 0 = pkt.getD (off + 1) 0 :=
    hframe _ (by omega) (by omega) (by omega)
  refine ⟨h.1.congr hm hframe, ?_, ?_⟩
  · rw [hframe _ hstart (by omega) (by omega), h.2.1]
  · rw [optionLength, hlen, ← h.2.2, optionLength]

theorem mssFrom_iff (hm : m + 4 ≤ start ∨ MssFrom pkt stop start m)
    (hframe : ∀ k, start ≤ k → k ≠ m + 2 → k ≠ m + 3 → pkt'.getD k 0 = pkt.getD k 0) :
    MssFrom pkt' stop start off ↔ MssFrom pkt stop start off := by
  have hm' : m + 4 ≤ start ∨ MssFrom pkt' stop start m := by
    rcases hm with hbefore | hmss
    · exact Or.inl hbefore
    · exact Or.inr (hmss.congr (Or.inr hmss) hframe)
  exact ⟨fun h => h.congr hm' fun k hk hk2 hk3 => (hframe k hk hk2 hk3).symm,
    fun h => h.congr hm hframe⟩

end Options

/-! ### The walk of the code -/

/-- The least position with a property, or that there is none. -/
def IsFirst (P : ℕ → Prop) : Option ℕ → Prop
  | some m => P m ∧ ∀ off, P off → m ≤ off
  | none => ∀ off, ¬ P off

section Walk

variable {pkt : Bytes} {stop fuel start : ℕ}

theorem not_mssFrom_of_stop_le (h : stop ≤ start + 1) (off : ℕ) : ¬ MssFrom pkt stop start off := by
  rintro ⟨hoff, -, -⟩
  have hstart := hoff.start_le
  obtain ⟨-, -, htwo, hstop⟩ := hoff.fits
  omega

theorem mssFrom_of_nop (h : pkt.getD start 0 = 1) :
    MssFrom pkt stop start = MssFrom pkt stop (start + 1) := by
  funext off
  exact propext ⟨fun hmss => ⟨hmss.1.of_nop h, hmss.2⟩, fun hmss => ⟨.nop h hmss.1, hmss.2⟩⟩

theorem mssFrom_of_other (h : OptionFits pkt stop start)
    (hother : ¬ (pkt.getD start 0 = 2 ∧ optionLength pkt start = 4)) :
    MssFrom pkt stop start = MssFrom pkt stop (start + optionLength pkt start) := by
  funext off
  refine propext ⟨fun hmss => ?_, fun hmss => ⟨.next h hmss.1, hmss.2⟩⟩
  rcases (hmss.1.of_ne_nop h.2.1).2 with rfl | hrest
  · exact absurd hmss.2 hother
  · exact ⟨hrest, hmss.2⟩

theorem mssOption_spec (hfuel : stop ≤ start + fuel) :
    IsFirst (MssFrom pkt stop start) (mssOption pkt stop fuel start) := by
  induction fuel generalizing start with
  | zero => exact not_mssFrom_of_stop_le (by omega)
  | succ fuel ih =>
      rw [mssOption]
      split
      · rename_i hend
        exact not_mssFrom_of_stop_le hend
      · rename_i hin
        dsimp only
        split
        · -- the list has an end of its own
          rename_i hzero
          rintro off ⟨hoff, -, -⟩
          exact (hoff.of_ne_nop (by rw [hzero]; decide)).1.1 hzero
        · rename_i hkind
          split
          · rename_i hnop
            rw [mssFrom_of_nop hnop]
            exact ih (by omega)
          · rename_i hnop
            split
            · rename_i hmalformed
              rintro off ⟨hoff, -, -⟩
              obtain ⟨-, -, htwo, hstop⟩ := (hoff.of_ne_nop hnop).1
              rw [optionLength] at htwo hstop
              omega
            · rename_i hwhole
              have hfits : OptionFits pkt stop start := by
                rw [OptionFits, optionLength]
                exact ⟨hkind, hnop, by omega, by omega⟩
              split
              · rename_i hmss
                exact ⟨⟨.here hfits, hmss⟩, fun off hoff => hoff.1.start_le⟩
              · rename_i hother
                have htwo := hfits.2.2.1
                have hfuel' : stop ≤ start + optionLength pkt start + fuel := by omega
                rw [mssFrom_of_other hfits hother]
                exact ih hfuel'

end Walk

end Vantablack.Vpn
