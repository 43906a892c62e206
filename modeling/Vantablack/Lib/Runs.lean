import Mathlib.Order.Monotone.Basic

/-!
Runs of a system whose step function is partial. `step s a` is `none` when the
action `a` is not enabled in `s`. A run may be restricted to the steps that meet
a guard; with the guard `fun _ _ => True` it is an arbitrary run.
-/

namespace Vantablack.Lib

variable {σ α : Type*}

/-- Execute a list of actions, failing as soon as one of them is not enabled. -/
def exec (step : σ → α → Option σ) : σ → List α → Option σ
  | s, [] => some s
  | s, a :: as => (step s a).bind fun s' => exec step s' as

@[simp] theorem exec_cons (step : σ → α → Option σ) (s : σ) (a : α) (as : List α) :
    exec step s (a :: as) = (step s a).bind fun s' => exec step s' as := rfl

theorem exec_append (step : σ → α → Option σ) (s : σ) (as bs : List α) :
    exec step s (as ++ bs) = (exec step s as).bind fun s' => exec step s' bs := by
  induction as generalizing s with
  | nil => rfl
  | cons a as ih =>
      rw [List.cons_append, exec_cons, exec_cons, Option.bind_assoc]
      exact congrArg _ (funext fun s' => ih s')

/-- `Reaches step guard s t`: some run from `s` ends in `t`, and every step of it
meets `guard` in the state it is taken from. -/
inductive Reaches (step : σ → α → Option σ) (guard : σ → α → Prop) (s : σ) : σ → Prop
  | refl : Reaches step guard s s
  | tail {t u : σ} {a : α} (h : Reaches step guard s t) (hg : guard t a)
      (hstep : step t a = some u) : Reaches step guard s u

variable {guard : σ → α → Prop} {s : σ}

theorem Reaches.trans {step : σ → α → Option σ} {t u : σ} (h : Reaches step guard s t)
    (h' : Reaches step guard t u) : Reaches step guard s u := by
  induction h' with
  | refl => exact h
  | tail _ hg hstep ih => exact ih.tail hg hstep

variable (I : σ → Prop)

/-- An invariant established at the start and kept by every guarded step holds in
every state a guarded run reaches. -/
theorem Reaches.invariant {step : σ → α → Option σ} {t : σ} (h : Reaches step guard s t) (h0 : I s)
    (hpres : ∀ u v a, I u → guard u a → step u a = some v → I v) : I t := by
  induction h with
  | refl => exact h0
  | tail _ hg hstep ih => exact hpres _ _ _ ih hg hstep

/-- The system with every step that misses `guard` disabled. -/
def restrict (step : σ → α → Option σ) (guard : σ → α → Prop)
    [∀ s a, Decidable (guard s a)] (s : σ) (a : α) : Option σ :=
  if guard s a then step s a else none

theorem Reaches.of_exec {step : σ → α → Option σ} [∀ s a, Decidable (guard s a)] {as : List α}
    {t : σ} (h : exec (restrict step guard) s as = some t) : Reaches step guard s t := by
  induction as generalizing s with
  | nil =>
      cases h
      exact .refl
  | cons a as ih =>
      obtain ⟨u, hu, hrest⟩ := Option.bind_eq_some_iff.mp h
      rw [restrict] at hu
      split at hu
      · rename_i hg
        exact (Reaches.refl.tail hg hu).trans (ih hrest)
      · cases hu

/-- Executing a list of actions and testing the state it ends in gives a guarded run
to a state that passes the test. -/
theorem Reaches.of_exec_any (step : σ → α → Option σ) (guard : σ → α → Prop)
    [∀ s a, Decidable (guard s a)] (s : σ) (as : List α) (p : σ → Bool)
    (h : (exec (restrict step guard) s as).any p = true) :
    ∃ t, Reaches step guard s t ∧ p t = true := by
  obtain ⟨t, ht, hp⟩ := (Option.any_eq_true p _).mp h
  exact ⟨t, .of_exec ht, hp⟩

/-! ### Runs of a total step function -/

variable {step : σ → α → σ}

theorem foldl_invariant (hpres : ∀ s a, I s → I (step s a)) (hs : I s) (as : List α) :
    I (as.foldl step s) := by
  induction as generalizing s with
  | nil => exact hs
  | cons a as ih => exact ih (hpres s a hs)

/-- The states of the run without an end that takes the actions `as` from `s`. -/
def trace (step : σ → α → σ) (s : σ) (as : ℕ → α) : ℕ → σ
  | 0 => s
  | n + 1 => step (trace step s as n) (as n)

theorem trace_invariant (hpres : ∀ s a, I s → I (step s a)) (hs : I s) (as : ℕ → α) (n : ℕ) :
    I (trace step s as n) := by
  induction n with
  | zero => exact hs
  | succ n ih => exact hpres _ _ ih

/-- A number that never grows, and shrinks again and again while it is positive, gets to zero. -/
theorem exists_eq_zero_of_progress {f : ℕ → ℕ} (hmono : ∀ n, f (n + 1) ≤ f n)
    (hprogress : ∀ n, 0 < f n → ∃ m, n ≤ m ∧ f (m + 1) < f m) (n : ℕ) :
    ∃ m, n ≤ m ∧ f m = 0 := by
  induction hk : f n using Nat.strongRecOn generalizing n with
  | ind k ih =>
      by_cases hpos : 0 < f n
      · obtain ⟨m, hnm, hlt⟩ := hprogress n hpos
        have hle : f m ≤ f n := antitone_nat_of_succ_le hmono hnm
        obtain ⟨m', hm', hzero⟩ := ih _ (by omega) (m + 1) rfl
        exact ⟨m', by omega, hzero⟩
      · exact ⟨n, le_rfl, by omega⟩

/-- Every step of the run that takes the actions `as` from `s` meets `P`. -/
def Always (step : σ → α → σ) (P : σ → α → Prop) : σ → List α → Prop
  | _, [] => True
  | s, a :: as => P s a ∧ Always step P (step s a) as

instance Always.decidable (step : σ → α → σ) (P : σ → α → Prop) [∀ s a, Decidable (P s a)] :
    ∀ s as, Decidable (Always step P s as)
  | _, [] => isTrue trivial
  | s, a :: as =>
      have := Always.decidable step P (step s a) as
      inferInstanceAs (Decidable (P s a ∧ Always step P (step s a) as))

/-- Some step of the run that takes the actions `as` from `s` meets `P`. -/
def Sometime (step : σ → α → σ) (P : σ → α → Prop) : σ → List α → Prop
  | _, [] => False
  | s, a :: as => P s a ∨ Sometime step P (step s a) as

@[simp] theorem always_nil (step : σ → α → σ) (P : σ → α → Prop) (s : σ) :
    Always step P s [] := trivial

@[simp] theorem always_cons (step : σ → α → σ) (P : σ → α → Prop) (s : σ) (a : α)
    (as : List α) : Always step P s (a :: as) ↔ P s a ∧ Always step P (step s a) as := Iff.rfl

theorem always_append (step : σ → α → σ) (P : σ → α → Prop) (s : σ) (as bs : List α) :
    Always step P s (as ++ bs) ↔ Always step P s as ∧ Always step P (as.foldl step s) bs := by
  induction as generalizing s with
  | nil => simp
  | cons a as ih =>
      rw [List.cons_append, always_cons, always_cons, ih (step s a), and_assoc]
      rfl

variable {P : σ → α → Prop}

/-- Every step meets `P` exactly if `P` holds after each part of the actions of the next one. -/
theorem always_iff_forall_split {as : List α} :
    Always step P s as ↔ ∀ before a later, as = before ++ a :: later → P (before.foldl step s) a := by
  induction as generalizing s with
  | nil => simp
  | cons b as ih =>
      rw [always_cons, ih]
      constructor
      · rintro ⟨hb, has⟩ before a later heq
        cases before with
        | nil =>
            obtain ⟨rfl, -⟩ := List.cons.inj heq
            exact hb
        | cons c before =>
            obtain ⟨rfl, hrest⟩ := List.cons.inj heq
            exact has before a later hrest
      · intro h
        refine ⟨h [] b as rfl, fun before a later heq => ?_⟩
        exact h (b :: before) a later (by rw [heq, List.cons_append])

/-- A property of states holds after each part of a run exactly if it holds at the start and every
step gets to a state that has it. -/
theorem forall_before_iff_always {P : σ → Prop} {as : List α} :
    (∀ before later, as = before ++ later → P (before.foldl step s)) ↔
      P s ∧ Always step (fun t a => P (step t a)) s as := by
  rw [always_iff_forall_split]
  constructor
  · intro h
    refine ⟨h [] as rfl, fun before a later heq => ?_⟩
    have hnext := h (before ++ [a]) later (by rw [heq, List.append_assoc, List.singleton_append])
    rwa [List.foldl_append] at hnext
  · rintro ⟨hs, hsteps⟩ before later heq
    rcases before.eq_nil_or_concat with rfl | ⟨first, a, rfl⟩
    · exact hs
    · rw [List.concat_eq_append, List.foldl_append]
      exact hsteps first a later (by rw [heq, List.concat_eq_append, List.append_assoc]; rfl)

theorem Always.of_forall {as : List α} (h : ∀ s, ∀ a ∈ as, P s a) (s : σ) : Always step P s as := by
  induction as generalizing s with
  | nil => trivial
  | cons a as ih =>
      exact ⟨h s a List.mem_cons_self, ih (fun t b hb => h t b (List.mem_cons_of_mem _ hb)) _⟩

/-- What an invariant gives for each step, it gives along every run that meets the
guard the invariant needs. -/
theorem Always.of_invariant (hpres : ∀ s a, I s → guard s a → I (step s a))
    (hP : ∀ s a, I s → guard s a → P s a) {as : List α} (hs : I s) (hg : Always step guard s as) :
    Always step P s as := by
  induction as generalizing s with
  | nil => trivial
  | cons a as ih => exact ⟨hP s a hs hg.1, ih (hpres s a hs hg.1) hg.2⟩

theorem Always.invariant (hpres : ∀ s a, I s → guard s a → I (step s a)) {as : List α} (hs : I s)
    (hg : Always step guard s as) : I (as.foldl step s) := by
  induction as generalizing s with
  | nil => exact hs
  | cons a as ih => exact ih (hpres s a hs hg.1) hg.2

/-- Executing the actions under the guard, and testing the state at the end, shows that every
step met the guard. -/
theorem Always.of_exec_any (step : σ → α → σ) (guard : σ → α → Prop)
    [∀ s a, Decidable (guard s a)] (s : σ) (as : List α) (p : σ → Bool)
    (h : (exec (restrict (fun s a => some (step s a)) guard) s as).any p = true) :
    Always step guard s as ∧ p (as.foldl step s) = true := by
  induction as generalizing s with
  | nil => exact ⟨trivial, h⟩
  | cons a as ih =>
      rw [exec_cons, restrict] at h
      split at h
      · rename_i hg
        obtain ⟨hrest, hp⟩ := ih (step s a) h
        exact ⟨⟨hg, hrest⟩, hp⟩
      · cases h

variable {Q : σ → α → Prop}

theorem Always.and {as : List α} (h : Always step P s as) (h' : Always step Q s as) :
    Always step (fun s a => P s a ∧ Q s a) s as := by
  induction as generalizing s with
  | nil => trivial
  | cons a as ih => exact ⟨⟨h.1, h'.1⟩, ih h.2 h'.2⟩

theorem Always.imp (h : ∀ s a, P s a → Q s a) {as : List α} (hP : Always step P s as) :
    Always step Q s as := by
  induction as generalizing s with
  | nil => trivial
  | cons a as ih => exact ⟨h s a hP.1, ih hP.2⟩

theorem Always.congr (h : ∀ s a, P s a ↔ Q s a) (s : σ) (as : List α) :
    Always step P s as ↔ Always step Q s as := by
  induction as generalizing s with
  | nil => exact Iff.rfl
  | cons a as ih => rw [always_cons, always_cons, h s a, ih]

/-- Two conditions that an invariant makes equivalent at each step are equivalent along
every run. -/
theorem Always.congr_of_invariant (hpres : ∀ s a, I s → I (step s a))
    (h : ∀ s a, I s → (P s a ↔ Q s a)) (hs : I s) (as : List α) :
    Always step P s as ↔ Always step Q s as := by
  induction as generalizing s with
  | nil => exact Iff.rfl
  | cons a as ih => rw [always_cons, always_cons, h s a hs, ih (hpres s a hs)]

/-- The same for an invariant that only the steps that meet the first condition keep. -/
theorem Always.congr_of_kept (hpres : ∀ s a, I s → P s a → I (step s a))
    (h : ∀ s a, I s → (P s a ↔ Q s a)) (hs : I s) (as : List α) :
    Always step P s as ↔ Always step Q s as := by
  induction as generalizing s with
  | nil => exact Iff.rfl
  | cons a as ih =>
      rw [always_cons, always_cons, ← h s a hs]
      exact and_congr_right fun hP => ih (hpres s a hs hP)

/-- A property of states holds after each part of a run exactly if every step meets a condition: one
that is enough to keep an invariant with the property, and that the property needs. -/
theorem forall_before_iff_of_invariant {P : σ → Prop} (hI : ∀ s, I s → P s)
    (hkept : ∀ s a, I s → Q s a → I (step s a)) (hback : ∀ s a, I s → P (step s a) → Q s a)
    (hs : I s) (as : List α) :
    (∀ before later, as = before ++ later → P (before.foldl step s)) ↔ Always step Q s as := by
  rw [forall_before_iff_always, and_iff_right (hI s hs)]
  exact Always.congr_of_kept I (fun t a ht hP => hkept t a ht (hback t a ht hP))
    (fun t a ht => ⟨hback t a ht, fun hQ => hI _ (hkept t a ht hQ)⟩) hs as

/-- A flag that only steps of one kind raise is up at the end of a run only if it was up
at the start or such a step was taken. -/
theorem Sometime.of_raised (F : σ → Prop) (hpres : ∀ s a, I s → guard s a → I (step s a))
    (hraise : ∀ s a, I s → guard s a → F (step s a) → F s ∨ P s a) {as : List α} (hs : I s)
    (hg : Always step guard s as) (hF : F (as.foldl step s)) : F s ∨ Sometime step P s as := by
  induction as generalizing s with
  | nil => exact .inl hF
  | cons a as ih =>
      rcases ih (hpres s a hs hg.1) hg.2 hF with hstep | hlater
      · exact (hraise s a hs hg.1 hstep).imp_right .inl
      · exact .inr (.inr hlater)

end Vantablack.Lib
