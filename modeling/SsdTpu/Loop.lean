import Mathlib.Tactic

/-!
# While loops with a fallible body

`Loop.run c f n s` runs `while c: f` from `s` with at most `n` passes of the body. It is `none`
when the body fails or when the fuel runs out while the test still holds. `Loop.Head` is the
relation of the states found at the head of the loop; the rules below pass between the two:

1. an invariant of the body holds at every head state (`Head.invariant`);
2. a body that never fails and lowers a measure terminates with enough fuel (`run_total`), and more
   fuel changes nothing (`run_eq_of_measure`);
3. two loops whose bodies stay related give related results (`run_rel`).
-/

namespace Loop

variable {σ τ : Type*}

/-- `while c: f`, with at most the given number of passes. -/
def run (c : σ → Bool) (f : σ → Option σ) : ℕ → σ → Option σ
  | 0, s => if c s then none else some s
  | n + 1, s => if c s then (f s).bind (run c f n) else some s

/-- `Head c f s n t`: the loop started in `s` is at its head in state `t` after `n` passes. -/
inductive Head (c : σ → Bool) (f : σ → Option σ) (s : σ) : ℕ → σ → Prop
  | start : Head c f s 0 s
  | pass {n : ℕ} {t u : σ} : Head c f s n t → c t = true → f t = some u → Head c f s (n + 1) u

variable {c : σ → Bool} {f : σ → Option σ}

theorem run_of_not {s : σ} (h : c s = false) (n : ℕ) : run c f n s = some s := by
  cases n <;> simp [run, h]

theorem run_succ_of {s t : σ} (h : c s = true) (hf : f s = some t) (n : ℕ) :
    run c f (n + 1) s = run c f n t := by
  simp [run, h, hf]

/-! ## Head states -/

/-- A property that every pass of the body preserves holds at every head state. -/
theorem Head.invariant {P : ℕ → σ → Prop} {s : σ} (h0 : P 0 s)
    (hstep : ∀ n t u, P n t → c t = true → f t = some u → P (n + 1) u) {n : ℕ} {t : σ}
    (h : Head c f s n t) : P n t := by
  induction h with
  | start => exact h0
  | pass _ hc hf ih => exact hstep _ _ _ ih hc hf

/-- The loop is deterministic: the number of passes fixes the head state. -/
theorem Head.unique {s : σ} {n : ℕ} {t t' : σ} (h : Head c f s n t) (h' : Head c f s n t') :
    t = t' := by
  induction h generalizing t' with
  | start => cases h'; rfl
  | pass _ _ hf ih =>
    cases h' with
    | pass h1 _ hf1 =>
      rw [ih h1] at hf
      exact Option.some.inj (hf.symm.trans hf1)

theorem Head.cons {s t u : σ} {n : ℕ} (hc : c s = true) (hf : f s = some t)
    (h : Head c f t n u) : Head c f s (n + 1) u := by
  induction h with
  | start => exact .pass .start hc hf
  | pass _ hc' hf' ih => exact .pass ih hc' hf'

/-- The result of a loop is a head state at which the test fails. -/
theorem exists_head_of_run {n : ℕ} {s t : σ} (h : run c f n s = some t) :
    ∃ m, Head c f s m t ∧ c t = false := by
  induction n generalizing s with
  | zero =>
    unfold run at h
    split_ifs at h with hc
    obtain rfl := Option.some.inj h
    exact ⟨0, .start, by simpa using hc⟩
  | succ n ih =>
    unfold run at h
    split_ifs at h with hc
    · obtain ⟨u, hf, hu⟩ := Option.bind_eq_some_iff.mp h
      obtain ⟨m, hm, hct⟩ := ih hu
      exact ⟨m + 1, hm.cons hc hf, hct⟩
    · obtain rfl := Option.some.inj h
      exact ⟨0, .start, by simpa using hc⟩

theorem run_invariant {P : σ → Prop} {n : ℕ} {s t : σ} (h0 : P s)
    (hstep : ∀ t u, P t → c t = true → f t = some u → P u) (h : run c f n s = some t) :
    P t ∧ c t = false := by
  obtain ⟨m, hm, hc⟩ := exists_head_of_run h
  exact ⟨hm.invariant (P := fun _ => P) h0 (fun _ => hstep), hc⟩

/-! ## Termination -/

/-- **Total correctness.** If the body keeps `P`, does not fail on it and lowers the measure `μ`,
then `μ s` passes are enough and the result satisfies `P`. -/
theorem run_total {P : σ → Prop} (μ : σ → ℕ)
    (hstep : ∀ t, P t → c t = true → ∃ u, f t = some u ∧ P u ∧ μ u < μ t) {n : ℕ} {s : σ}
    (h0 : P s) (hn : μ s ≤ n) : ∃ t, run c f n s = some t ∧ P t ∧ c t = false := by
  induction n generalizing s with
  | zero =>
    by_cases hc : c s = true
    · obtain ⟨u, _, _, hlt⟩ := hstep s h0 hc
      omega
    · have hc : c s = false := by simpa using hc
      exact ⟨s, run_of_not hc 0, h0, hc⟩
  | succ n ih =>
    by_cases hc : c s = true
    · obtain ⟨u, hf, hu, hlt⟩ := hstep s h0 hc
      obtain ⟨t, ht, hP, hct⟩ := ih hu (by omega)
      exact ⟨t, by rw [run_succ_of hc hf, ht], hP, hct⟩
    · have hc : c s = false := by simpa using hc
      exact ⟨s, run_of_not hc _, h0, hc⟩

/-- When every pass lowers the measure, fuel above the measure makes no difference, failures
included. -/
theorem run_eq_of_measure (μ : σ → ℕ) (hstep : ∀ t u, c t = true → f t = some u → μ u < μ t)
    {n m : ℕ} {s : σ} (hn : μ s ≤ n) (hm : μ s ≤ m) : run c f n s = run c f m s := by
  induction n generalizing m s with
  | zero =>
    by_cases hc : c s = true
    · have hf : f s = none := by
        rw [Option.eq_none_iff_forall_ne_some]
        intro u hu
        have := hstep s u hc hu
        omega
      cases m <;> simp [run, hc, hf]
    · have hc : c s = false := by simpa using hc
      rw [run_of_not hc, run_of_not hc]
  | succ n ih =>
    by_cases hc : c s = true
    · cases hf : f s with
      | none => cases m <;> simp [run, hc, hf]
      | some u =>
        have hlt := hstep s u hc hf
        obtain ⟨m, rfl⟩ : ∃ k, m = k + 1 := ⟨m - 1, by omega⟩
        rw [run_succ_of hc hf, run_succ_of hc hf]
        exact ih (by omega) (by omega)
    · have hc : c s = false := by simpa using hc
      rw [run_of_not hc, run_of_not hc]

/-! ## Simulation -/

theorem rel_bind {σ' τ' : Type*} {r : σ → τ → Prop} {q : σ' → τ' → Prop} {x : Option σ}
    {y : Option τ} {g : σ → Option σ'} {g' : τ → Option τ'} (h : Option.Rel r x y)
    (hg : ∀ a b, r a b → Option.Rel q (g a) (g' b)) : Option.Rel q (x.bind g) (y.bind g') := by
  cases h with
  | none => exact .none
  | some hab => exact hg _ _ hab

theorem rel_imp {r q : σ → τ → Prop} {x : Option σ} {y : Option τ} (h : Option.Rel r x y)
    (hrq : ∀ a b, r a b → q a b) : Option.Rel q x y := by
  cases h with
  | none => exact .none
  | some hab => exact .some (hrq _ _ hab)

theorem rel_map {σ' τ' : Type*} {r : σ → τ → Prop} {q : σ' → τ' → Prop} {x : Option σ}
    {y : Option τ} {g : σ → σ'} {g' : τ → τ'} (h : Option.Rel r x y)
    (hg : ∀ a b, r a b → q (g a) (g' b)) : Option.Rel q (x.map g) (y.map g') := by
  cases h with
  | none => exact .none
  | some hab => exact .some (hg _ _ hab)

theorem rel_map_left {σ' : Type*} {r : σ → τ → Prop} {q : σ' → τ → Prop} {x : Option σ}
    {y : Option τ} {g : σ → σ'} (h : Option.Rel r x y) (hg : ∀ a b, r a b → q (g a) b) :
    Option.Rel q (x.map g) y := by
  cases h with
  | none => exact .none
  | some hab => exact .some (hg _ _ hab)

theorem map_eq_of_rel {β : Type*} {r : σ → τ → Prop} {x : Option σ} {y : Option τ} {g : σ → β}
    {g' : τ → β} (h : Option.Rel r x y) (hg : ∀ a b, r a b → g' b = g a) : y.map g' = x.map g := by
  cases h with
  | none => rfl
  | some hab => exact congrArg some (hg _ _ hab)

theorem exists_of_rel_some {r : σ → τ → Prop} {a : σ} {y : Option τ}
    (h : Option.Rel r (some a) y) : ∃ b, y = some b ∧ r a b := by
  cases h with
  | some hab => exact ⟨_, rfl, hab⟩

/-- **Simulation.** Two loops whose tests agree and whose bodies stay related, failures included,
give related results. -/
theorem run_rel {r : σ → τ → Prop} {c' : τ → Bool} {f' : τ → Option τ}
    (hc : ∀ s s', r s s' → c s = c' s')
    (hf : ∀ s s', r s s' → c s = true → Option.Rel r (f s) (f' s')) (n : ℕ) {s : σ} {s' : τ}
    (h : r s s') : Option.Rel r (run c f n s) (run c' f' n s') := by
  induction n generalizing s s' with
  | zero =>
    unfold run
    rw [← hc s s' h]
    split_ifs
    · exact .none
    · exact .some h
  | succ n ih =>
    unfold run
    rw [← hc s s' h]
    split_ifs with hcs
    · exact rel_bind (hf s s' h hcs) fun _ _ hab => ih hab
    · exact .some h

end Loop
