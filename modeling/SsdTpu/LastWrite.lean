import Mathlib.Tactic

/-!
# Loops of writes

A loop folds a step over a list of writes, and `read` observes the state at one address. When each
step either hits the address, and then sets what is read, or misses it, the last hit wins
(`read_foldl_of_last`). Loops whose steps commute can be run in either order
(`foldl_comm_of_steps`).
-/

namespace LastWrite

variable {σ β ι κ : Type*} {step : σ → ι → σ}

section Read

variable (read : σ → β) (hit : ι → Prop) (val : ι → β)

theorem read_foldl_of_not_hit (hmiss : ∀ s i, ¬ hit i → read (step s i) = read s) {writes : List ι}
    (h : ∀ i ∈ writes, ¬ hit i) (s : σ) : read (writes.foldl step s) = read s := by
  induction writes generalizing s with
  | nil => rfl
  | cons i writes ih =>
    rw [List.foldl_cons, ih fun j hj => h j (List.mem_cons_of_mem i hj)]
    exact hmiss s i (h i List.mem_cons_self)

/-- **The last write wins.** -/
theorem read_foldl_of_last (hwrite : ∀ s i, hit i → read (step s i) = val i)
    (hmiss : ∀ s i, ¬ hit i → read (step s i) = read s) {before after : List ι} {i : ι}
    (hi : hit i) (h : ∀ j ∈ after, ¬ hit j) (s : σ) :
    read ((before ++ i :: after).foldl step s) = val i := by
  rw [List.foldl_append, List.foldl_cons, read_foldl_of_not_hit read hit hmiss h, hwrite _ i hi]

/-- If some write hits, a write that hits wins. By induction on the writes, from the last one. -/
theorem read_foldl_of_hit (hwrite : ∀ s i, hit i → read (step s i) = val i)
    (hmiss : ∀ s i, ¬ hit i → read (step s i) = read s) {writes : List ι}
    (h : ∃ i ∈ writes, hit i) (s : σ) :
    ∃ i, hit i ∧ read (writes.foldl step s) = val i := by
  induction writes using List.reverseRecOn with
  | nil =>
    obtain ⟨i, hi, _⟩ := h
    cases hi
  | append_singleton writes i ih =>
    rw [List.foldl_append, List.foldl_cons, List.foldl_nil]
    by_cases hi : hit i
    · exact ⟨i, hi, hwrite _ i hi⟩
    · obtain ⟨j, hj, hhit⟩ := h
      have hmem : j ∈ writes := by
        rcases List.mem_append.mp hj with hj | hj
        · exact hj
        · exact absurd (List.mem_singleton.mp hj ▸ hhit) hi
      rw [hmiss _ i hi]
      exact ih ⟨j, hmem, hhit⟩

theorem read_foldl_eq_ite [DecidablePred hit] {x : β}
    (hstep : ∀ s i, read (step s i) = if hit i then x else read s) {writes : List ι} {p : Prop}
    [Decidable p] (hp : p ↔ ∃ i ∈ writes, hit i) (s : σ) :
    read (writes.foldl step s) = if p then x else read s := by
  have hmiss : ∀ s i, ¬ hit i → read (step s i) = read s :=
    fun s i hi => (hstep s i).trans (if_neg hi)
  split_ifs with h
  · obtain ⟨_, _, hread⟩ := read_foldl_of_hit read hit (fun _ => x)
      (fun s i hi => (hstep s i).trans (if_pos hi)) hmiss (hp.mp h) s
    exact hread
  · exact read_foldl_of_not_hit read hit hmiss (fun i hi hhit => h (hp.mpr ⟨i, hi, hhit⟩)) s

end Read

theorem foldl_step_comm {step' : σ → κ → σ} {j : κ} {writes : List ι}
    (h : ∀ s, ∀ i ∈ writes, step' (step s i) j = step (step' s j) i) (s : σ) :
    step' (writes.foldl step s) j = writes.foldl step (step' s j) := by
  induction writes generalizing s with
  | nil => rfl
  | cons i writes ih =>
    rw [List.foldl_cons, List.foldl_cons, ih (fun s k hk => h s k (List.mem_cons_of_mem i hk)),
      h s i List.mem_cons_self]

theorem foldl_comm_of_steps {step' : σ → κ → σ} {writes : List ι} {writes' : List κ}
    (h : ∀ s, ∀ i ∈ writes, ∀ j ∈ writes', step' (step s i) j = step (step' s j) i) (s : σ) :
    writes'.foldl step' (writes.foldl step s) = writes.foldl step (writes'.foldl step' s) := by
  induction writes' generalizing s with
  | nil => rfl
  | cons j writes' ih =>
    rw [List.foldl_cons, List.foldl_cons,
      foldl_step_comm fun s i hi => h s i hi j List.mem_cons_self,
      ih fun s i hi k hk => h s i hi k (List.mem_cons_of_mem j hk)]

end LastWrite
