import SsdTpu.VerifySample
import SsdTpu.ResampleChain

/-!
# The law of a sampled row

All tokens of a call of `_verify_sample_row` together, when the draft tokens are drawn from the
draft rows and the outcomes of the tests are uniform.

1. The accepted tokens, the recovery token and, after it, draws from the target's rows are the
   values of rejection with resampling along the row (`rowTokens_eq`, `rowLaw_eq`).
2. They have the law of the target rows that the call uses exactly if each position that can be
   reached meets the condition for a single one (`rowLaw_iff`).
-/

namespace SsdTpu

open Fin (tail cons)

/-- The index after `i`, but at most `K`: where the row finds the draft token of position `i` and
the target's law for it. -/
def nextIndex (K : ℕ) (i : Fin (K + 1)) : Fin (K + 1) := ⟨min (i + 1) K, by omega⟩

variable {K V : ℕ}

theorem nextIndex_castSucc (j : Fin K) : nextIndex K j.castSucc = j.succ :=
  Fin.ext (min_eq_left j.isLt)

theorem nextIndex_succ (i : Fin (K + 1)) : nextIndex (K + 1) i.succ = (nextIndex K i).succ :=
  Fin.ext (Nat.succ_min_succ _ _)

/-- The target's laws for the positions. -/
def usedRows {α : Type*} (p : Fin (K + 1) → α) (i : Fin (K + 1)) : α := p (nextIndex K i)

theorem usedRows_castSucc {α : Type*} (p : Fin (K + 1) → α) (j : Fin K) :
    usedRows p j.castSucc = p j.succ := congrArg p (nextIndex_castSucc j)

theorem usedRows_succ {α : Type*} (p : Fin (K + 2) → α) (i : Fin (K + 1)) :
    usedRows p i.succ = usedRows (tail p) i := congrArg p (nextIndex_succ i)

theorem tail_usedRows {α : Type*} (p : Fin (K + 2) → α) :
    tail (usedRows p) = usedRows (tail p) := funext (usedRows_succ p)

section Tokens

variable {F : Type*} [Field F] [LinearOrder F]

/-- The probability of the tokens `w`, given the draft tokens and the outcomes of the tests: the
accepted ones, a draw of the recovery token, and draws from the target's rows. -/
def rowTokens (samplerX : F) (p : Fin (K + 1) → Fin V → F) (q : Fin K → Fin V → F)
    (spec : Fin (K + 1) → Fin V) (u : Fin K → F) (w : Fin (K + 1) → Fin V) : F :=
  let accept := sampleAccept 0 p q spec u
  ∏ i : Fin (K + 1),
    if (i : ℕ) < accept then (if spec (nextIndex K i) = w i then 1 else 0)
    else if (i : ℕ) = accept then Resample.normalize (recoveryWeights 0 samplerX p q accept) (w i)
    else usedRows p i (w i)

variable {samplerX : F}

theorem sampleAccept_succ (guard : F) (p : Fin (K + 2) → Fin V → F) (q : Fin (K + 1) → Fin V → F)
    (spec : Fin (K + 2) → Fin V) (u : Fin (K + 1) → F) : sampleAccept guard p q spec u =
      if u 0 < acceptRatio guard (p 1) (q 0) (spec 1) then
        sampleAccept guard (tail p) (tail q) (tail spec) (tail u) + 1
      else 0 := by
  unfold sampleAccept
  rw [List.ofFn_succ]
  by_cases h : u 0 < acceptRatio guard (p 1) (q 0) (spec 1)
  · rw [if_pos h, show decide (u 0 < acceptRatio guard (p (Fin.succ 0)) (q 0) (spec (Fin.succ 0))) =
      true from decide_eq_true h]
    rfl
  · rw [if_neg h, show decide (u 0 < acceptRatio guard (p (Fin.succ 0)) (q 0) (spec (Fin.succ 0))) =
      false from decide_eq_false h]
    rfl

theorem recoveryWeights_succ (guard : F) (p : Fin (K + 2) → Fin V → F)
    (q : Fin (K + 1) → Fin V → F) (accept : ℕ) :
    recoveryWeights guard samplerX p q (accept + 1) =
      recoveryWeights guard samplerX (tail p) (tail q) accept := by
  unfold recoveryWeights
  by_cases h : accept < K
  · rw [dif_pos h, dif_pos (Nat.succ_lt_succ h)]
    rfl
  · rw [dif_neg h, dif_neg fun h' => h (Nat.lt_of_succ_lt_succ h')]
    rfl

theorem rowTokens_succ (p : Fin (K + 2) → Fin V → F) (q : Fin (K + 1) → Fin V → F)
    (spec : Fin (K + 2) → Fin V) (u : Fin (K + 1) → F) (w : Fin (K + 2) → Fin V) :
    rowTokens samplerX p q spec u w =
      if u 0 < acceptRatio 0 (p 1) (q 0) (spec 1) then
        if spec 1 = w 0 then rowTokens samplerX (tail p) (tail q) (tail spec) (tail u) (tail w)
        else 0
      else Resample.normalize (recoveryWeights 0 samplerX p q 0) (w 0) *
        ∏ i : Fin (K + 1), usedRows (tail p) i (tail w i) := by
  have hzero : nextIndex (K + 1) 0 = 1 := nextIndex_castSucc 0
  unfold rowTokens
  rw [sampleAccept_succ]
  by_cases htest : u 0 < acceptRatio 0 (p 1) (q 0) (spec 1)
  · simp only [if_pos htest]
    rw [Fin.prod_univ_succ]
    simp only [nextIndex_succ, usedRows_succ, hzero, Fin.val_zero, Fin.val_succ, Nat.succ_pos,
      if_true, add_lt_add_iff_right, add_left_inj, recoveryWeights_succ, ite_mul, one_mul, zero_mul]
    rfl
  · simp only [if_neg htest]
    rw [Fin.prod_univ_succ]
    simp only [usedRows_succ, Fin.val_zero, Fin.val_succ, Nat.not_lt_zero, if_false, if_true,
      Nat.succ_ne_zero]
    rfl

/-- The outcomes of all tests of the row, also of those it does not get to. -/
def rowTests (p : Fin (K + 1) → Fin V → F) (q : Fin K → Fin V → F) (spec : Fin (K + 1) → Fin V)
    (u : Fin K → F) (j : Fin K) : Bool :=
  decide (u j < Resample.keepProb (usedRows p) q (tail spec) j)

theorem rowTests_zero (p : Fin (K + 2) → Fin V → F) (q : Fin (K + 1) → Fin V → F)
    (spec : Fin (K + 2) → Fin V) (u : Fin (K + 1) → F) : rowTests p q spec u 0 = true ↔
      u 0 < Resample.acceptProb (p 1) (q 0) (spec 1) := by
  have hfirst : usedRows p (Fin.castSucc 0) = p 1 := usedRows_castSucc p 0
  unfold rowTests Resample.keepProb
  rw [hfirst, decide_eq_true_iff]
  rfl

theorem tail_rowTests (p : Fin (K + 2) → Fin V → F) (q : Fin (K + 1) → Fin V → F)
    (spec : Fin (K + 2) → Fin V) (u : Fin (K + 1) → F) :
    tail (rowTests p q spec u) = rowTests (tail p) (tail q) (tail spec) (tail u) := by
  funext j
  unfold rowTests Resample.keepProb
  rw [← tail_usedRows]
  rfl

end Tokens

section Exact

/-- Given the draft tokens and the outcomes of the tests, the row is a row of rejections with
resampling. -/
theorem rowTokens_eq {F : Type*} [Field F] [LinearOrder F] [IsStrictOrderedRing F] {samplerX : F}
    (p : Fin (K + 1) → stdSimplex F (Fin V)) (q : Fin K → stdSimplex F (Fin V))
    (spec : Fin (K + 1) → Fin V) (u : Fin K → F) (w : Fin (K + 1) → Fin V) :
    rowTokens samplerX (fun i => p i) (fun j => q j) spec u w =
      Resample.outcome samplerX (usedRows fun i => p i) (fun j => q j) (tail spec)
        (rowTests (fun i => p i) (fun j => q j) spec u) w := by
  induction K with
  | zero =>
    have hlast : Resample.normalize (p (Fin.last 0)) = p 0 := by
      funext t
      unfold Resample.normalize
      rw [stdSimplex.sum_eq_one, div_one]
      rfl
    unfold rowTokens
    rw [Fin.prod_univ_one]
    exact congrFun hlast _
  | succ K ih =>
    have hfirst : usedRows (fun i => ⇑(p i)) 0 = p 1 := usedRows_castSucc _ 0
    rw [rowTokens_succ, acceptRatio_zero, Resample.outcome_succ]
    refine if_congr (rowTests_zero (fun i => p i) (fun j => q j) spec u).symm
      (if_congr Iff.rfl ?_ rfl) ?_
    · rw [tail_usedRows, tail_rowTests]
      exact ih (tail p) (tail q) (tail spec) (tail u) (tail w)
    · rw [tail_usedRows, hfirst]
      have hweights : recoveryWeights 0 samplerX (fun i => ⇑(p i)) (fun j => ⇑(q j)) 0 =
          Resample.normalize (Resample.excess samplerX (p 1) (q 0)) := by
        unfold recoveryWeights
        rw [dif_pos K.succ_pos]
        exact residual_zero samplerX _ _
      rw [hweights, Resample.normalize_normalize]

variable {samplerX : ℝ} (p : Fin (K + 1) → stdSimplex ℝ (Fin V))
  (q : Fin K → stdSimplex ℝ (Fin V)) (recovery : Fin V)

/-- The law of the tokens, for draft tokens drawn from the draft rows and uniform outcomes. The
token before the draft tokens is the recovery token of the step before. -/
noncomputable def rowLaw (samplerX : ℝ) (p : Fin (K + 1) → Fin V → ℝ) (q : Fin K → Fin V → ℝ)
    (recovery : Fin V) (w : Fin (K + 1) → Fin V) : ℝ :=
  ∑ draft : Fin K → Fin V, (∏ j, q j (draft j)) *
    ∫ u in Set.univ.pi fun _ => Set.Ico (0 : ℝ) 1, rowTokens samplerX p q (cons recovery draft) u w

theorem rowLaw_eq (w : Fin (K + 1) → Fin V) :
    rowLaw samplerX (fun i => p i) (fun j => q j) recovery w =
      Resample.chainLaw samplerX (fun i => ⇑(usedRows p i)) (fun j => q j) w := by
  have hkeep (draft : Fin K → Fin V) (j : Fin K) :
      0 ≤ Resample.keepProb (fun i => ⇑(usedRows p i)) (fun j => ⇑(q j)) draft j ∧
        Resample.keepProb (fun i => ⇑(usedRows p i)) (fun j => ⇑(q j)) draft j ≤ 1 :=
    ⟨le_min zero_le_one (div_nonneg (stdSimplex.zero_le _ _) (stdSimplex.zero_le _ _)),
      min_le_left _ _⟩
  rw [← Resample.sum_outcome _ fun j => stdSimplex.sum_eq_one (q j)]
  unfold rowLaw
  refine Finset.sum_congr rfl fun draft _ => ?_
  rw [← Resample.setIntegral_tests (hkeep draft)]
  congr 2
  funext u
  exact rowTokens_eq p q (cons recovery draft) u w

/-- **The law of a sampled row.** The tokens of a call, completed from the target's rows, have the
law of the rows that the call uses exactly if the condition for a single position holds at every
position that can be reached, that is where the two laws overlap at all positions before. -/
theorem rowLaw_iff (hx : samplerX ≤ 1) :
    (∀ w, rowLaw samplerX (fun i => p i) (fun j => q j) recovery w = ∏ i, usedRows p i (w i)) ↔
      ∀ j : Fin K, (∀ i < j, ∃ t, 0 < p i.succ t ∧ 0 < q i t) →
        samplerX = 1 ∨ p j.succ = q j ∨ Resample.Proportional samplerX (p j.succ) (q j) := by
  simp only [rowLaw_eq, Resample.chainLaw_eq_iff _ _ hx, Resample.law_eq_iff _ _ hx,
    Resample.Reached, usedRows_castSucc]

theorem rowLaw_iff_fair :
    rowLaw 1 (fun _ : Fin 2 => fair) (fun _ : Fin 1 => tilted) 0 ![1, 0] =
      1 / 2 * (1 / 2) := by
  have h := (rowLaw_iff (fun _ : Fin 2 => fair) (fun _ : Fin 1 => tilted) 0 le_rfl).mpr
    (fun _ _ => .inl rfl) ![1, 0]
  rw [h, Fin.prod_univ_two]
  unfold usedRows fair
  norm_num

end Exact

end SsdTpu
