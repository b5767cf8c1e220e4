import SsdTpu.Resample
import Mathlib.MeasureTheory.Integral.Pi

/-!
# Rejection with resampling along a row

Positions that each have a law of their own, `r i`, and all but the last a law `q i` to draw from.
The draws are kept up to the first rejection, there the value is drawn again, and the values after
it are drawn from their laws `r`.

1. The law of all values satisfies a recursion over the positions (`chainLaw`), which is the
   expectation over the draws and the tests (`sum_outcome`, `setIntegral_tests`).
2. It is the product of the laws `r i` exactly if resampling is exact at each position that can be
   reached (`chainLaw_eq_iff`).
-/

namespace Resample

open Fin (tail cons)
open Matrix (vecHead)

variable {ι F : Type*} {K : ℕ}

theorem sum_tuples {α M : Type*} [Fintype α] [AddCommMonoid M] (f : (Fin (K + 1) → α) → M) :
    ∑ w, f w = ∑ t, ∑ w, f (cons t w) := by
  rw [← Fintype.sum_prod_type']
  exact (Fintype.sum_equiv (Fin.consEquiv fun _ => α) _ _ fun _ => rfl).symm

section Tests

variable [Field F]

/-- The probability of the outcomes `b` of independent tests that succeed with probabilities `a`. -/
def testProb (a : Fin K → F) (b : Fin K → Bool) : F := ∏ j, if b j then a j else 1 - a j

theorem testProb_cons (a : Fin (K + 1) → F) (b₀ : Bool) (b : Fin K → Bool) :
    testProb a (cons b₀ b) = (if b₀ then a 0 else 1 - a 0) * testProb (tail a) b := by
  unfold testProb
  rw [Fin.prod_univ_succ]
  rfl

theorem sum_testProb (a : Fin K → F) : ∑ b, testProb a b = 1 := by
  induction K with
  | zero => simp [testProb]
  | succ K ih =>
    rw [sum_tuples]
    simp only [testProb_cons, ← Finset.mul_sum, ih, mul_one, Fintype.sum_bool, if_true]
    simp

end Tests

section Chain

variable [Fintype ι] [Field F] [LinearOrder F]

/-- The law of the values. -/
def chainLaw (x : F) : {K : ℕ} → (Fin (K + 1) → ι → F) → (Fin K → ι → F) → (Fin (K + 1) → ι) → F
  | 0, r, _, w => vecHead r (vecHead w)
  | _ + 1, r, q, w =>
    vecHead q (vecHead w) * acceptProb (vecHead r) (vecHead q) (vecHead w) *
        chainLaw x (tail r) (tail q) (tail w) +
      rejectMass (vecHead r) (vecHead q) *
        normalize (excess x (vecHead r) (vecHead q)) (vecHead w) * ∏ i, tail r i (tail w i)

/-- The probability of the values, given the draws `d` and the outcomes `b` of the tests. -/
def outcome [DecidableEq ι] (x : F) : {K : ℕ} → (Fin (K + 1) → ι → F) → (Fin K → ι → F) →
    (Fin K → ι) → (Fin K → Bool) → (Fin (K + 1) → ι) → F
  | 0, r, _, _, _, w => vecHead r (vecHead w)
  | _ + 1, r, q, d, b, w =>
    if vecHead b then
      if vecHead d = vecHead w then outcome x (tail r) (tail q) (tail d) (tail b) (tail w) else 0
    else normalize (excess x (vecHead r) (vecHead q)) (vecHead w) * ∏ i, tail r i (tail w i)

/-- The probabilities with which the draws are kept. -/
def keepProb (r : Fin (K + 1) → ι → F) (q : Fin K → ι → F) (d : Fin K → ι) (j : Fin K) : F :=
  acceptProb (r j.castSucc) (q j) (d j)

variable [DecidableEq ι] {x : F}

omit [LinearOrder F] [DecidableEq ι] in
theorem sum_prod_eq_one {r : Fin K → ι → F} (hr : ∀ i, ∑ t, r i t = 1) :
    ∑ w : Fin K → ι, ∏ i, r i (w i) = 1 := by
  rw [← Fintype.piFinset_univ, ← Finset.prod_univ_sum]
  exact Finset.prod_eq_one fun i _ => hr i

theorem outcome_succ (r : Fin (K + 2) → ι → F) (q : Fin (K + 1) → ι → F)
    (d : Fin (K + 1) → ι) (b : Fin (K + 1) → Bool) (w : Fin (K + 2) → ι) :
    outcome x r q d b w =
      if b 0 then
        if d 0 = w 0 then outcome x (tail r) (tail q) (tail d) (tail b) (tail w) else 0
      else normalize (excess x (r 0) (q 0)) (w 0) * ∏ i, tail r i (tail w i) := rfl

theorem sum_testProb_outcome (r : Fin (K + 2) → ι → F) (q : Fin (K + 1) → ι → F) (t : ι)
    (d : Fin K → ι) (w : Fin (K + 2) → ι) :
    ∑ b, testProb (keepProb r q (cons t d)) b * outcome x r q (cons t d) b w =
      acceptProb (r 0) (q 0) t * (if t = w 0 then
          ∑ b, testProb (keepProb (tail r) (tail q) d) b * outcome x (tail r) (tail q) d b (tail w)
        else 0) +
        (1 - acceptProb (r 0) (q 0) t) *
          (normalize (excess x (r 0) (q 0)) (w 0) * ∏ i, tail r i (tail w i)) := by
  have haccept (b : Fin K → Bool) : outcome x r q (cons t d) (cons true b) w =
      if t = w 0 then outcome x (tail r) (tail q) d b (tail w) else 0 := rfl
  have hreject (b : Fin K → Bool) : outcome x r q (cons t d) (cons false b) w =
      normalize (excess x (r 0) (q 0)) (w 0) * ∏ i, tail r i (tail w i) := rfl
  have hprob (b₀ : Bool) (b : Fin K → Bool) :
      testProb (keepProb r q (cons t d)) (cons b₀ b) =
        (if b₀ then acceptProb (r 0) (q 0) t else 1 - acceptProb (r 0) (q 0) t) *
          testProb (keepProb (tail r) (tail q) d) b :=
    testProb_cons _ _ _
  rw [sum_tuples, Fintype.sum_bool]
  simp only [haccept, hreject, hprob, if_true, Bool.false_eq_true, if_false, mul_assoc,
    ← Finset.mul_sum, ← Finset.sum_mul, sum_testProb, one_mul]
  split_ifs <;> simp

/-- **The recursion is the expectation** over the draws and the tests. -/
theorem sum_outcome (r : Fin (K + 1) → ι → F) {q : Fin K → ι → F} (hq : ∀ j, ∑ t, q j t = 1)
    (w : Fin (K + 1) → ι) :
    ∑ d : Fin K → ι, (∏ j, q j (d j)) *
        ∑ b, testProb (keepProb r q d) b * outcome x r q d b w = chainLaw x r q w := by
  induction K with
  | zero => simp [testProb, outcome, chainLaw]
  | succ K ih =>
    have hq' : ∀ j, ∑ t, tail q j t = 1 := fun j => hq j.succ
    have hdraw (t : ι) : ∑ d : Fin K → ι, (∏ j, q j ((cons t d : Fin (K + 1) → ι) j)) *
          ∑ b, testProb (keepProb r q (cons t d)) b * outcome x r q (cons t d) b w =
        (if t = w 0 then q 0 t * acceptProb (r 0) (q 0) t *
            chainLaw x (tail r) (tail q) (tail w) else 0) +
          q 0 t * (1 - acceptProb (r 0) (q 0) t) *
            (normalize (excess x (r 0) (q 0)) (w 0) * ∏ i, tail r i (tail w i)) := by
      have hprod (d : Fin K → ι) : ∏ j, q j ((cons t d : Fin (K + 1) → ι) j) =
          q 0 t * ∏ j, tail q j (d j) := Fin.prod_univ_succ _
      simp only [hprod, sum_testProb_outcome, mul_add, Finset.sum_add_distrib]
      congr 1
      · split_ifs with ht
        · rw [← ih (tail r) hq' (tail w), Finset.mul_sum]
          refine Finset.sum_congr rfl fun d _ => ?_
          ring
        · simp only [mul_zero, Finset.sum_const_zero]
      · rw [← Finset.sum_mul, ← Finset.mul_sum, sum_prod_eq_one hq', mul_one, ← mul_assoc]
    rw [sum_tuples]
    simp only [hdraw, Finset.sum_add_distrib, ← Finset.sum_mul]
    rw [Finset.sum_ite_eq' Finset.univ (w 0), if_pos (Finset.mem_univ _)]
    rw [chainLaw, rejectMass, mul_assoc (∑ t, _)]
    rfl

end Chain

section Exact

variable [Fintype ι] [Field F] [LinearOrder F] [IsStrictOrderedRing F] {x : F}

/-- Rejection with resampling yields a value. -/
theorem sum_law (hx : x ≤ 1) (p q : stdSimplex F ι) : ∑ t, law x p q t = 1 := by
  have hkept : ∑ t, q t * acceptProb p q t = 1 - rejectMass p q := by
    unfold rejectMass
    simp only [mul_sub, mul_one, Finset.sum_sub_distrib, stdSimplex.sum_eq_one, sub_sub_cancel]
  have hredrawn : rejectMass p q * ∑ t, normalize (excess x p q) t = rejectMass p q := by
    unfold normalize
    rw [← Finset.sum_div]
    by_cases hsum : ∑ t, excess x p q t = 0
    · -- no excess, hence no rejection
      have hle : rejectMass p q ≤ 0 := by
        rw [rejectMass_eq, ← hsum]
        exact Finset.sum_le_sum fun t _ => excess_one_le p q hx t
      have hge : 0 ≤ rejectMass p q := by
        rw [rejectMass_eq]
        exact Finset.sum_nonneg fun t _ => excess_nonneg 1 p q t
      rw [le_antisymm hle hge, zero_mul]
    · rw [div_self hsum, mul_one]
  unfold law
  rw [Finset.sum_add_distrib, ← Finset.mul_sum, hkept, hredrawn, sub_add_cancel]

omit [IsStrictOrderedRing F] in
theorem chainLaw_succ (r : Fin (K + 2) → ι → F) (q : Fin (K + 1) → ι → F) (t : ι)
    (w : Fin (K + 1) → ι) : chainLaw x r q (cons t w) =
      q 0 t * acceptProb (r 0) (q 0) t * chainLaw x (tail r) (tail q) w +
        (law x (r 0) (q 0) t - q 0 t * acceptProb (r 0) (q 0) t) * ∏ i, tail r i (w i) := by
  rw [chainLaw, law, add_sub_cancel_left]
  rfl

variable (r : Fin (K + 1) → stdSimplex F ι) (q : Fin K → stdSimplex F ι)

theorem sum_chainLaw (hx : x ≤ 1) :
    ∑ w, chainLaw x (fun i => r i) (fun j => q j) w = 1 := by
  induction K with
  | zero =>
    rw [sum_tuples]
    simp [chainLaw, vecHead]
  | succ K ih =>
    have hchain := ih (tail r) (tail q)
    have hprod : ∑ w : Fin (K + 1) → ι, ∏ i, tail (fun i => ⇑(r i)) i (w i) = 1 :=
      sum_prod_eq_one fun i => stdSimplex.sum_eq_one (tail r i)
    change ∑ w, chainLaw x (tail fun i => ⇑(r i)) (tail fun j => ⇑(q j)) w = 1 at hchain
    rw [sum_tuples]
    simp only [chainLaw_succ, Finset.sum_add_distrib, ← Finset.mul_sum, hchain, hprod, mul_one]
    rw [← Finset.sum_add_distrib]
    simp only [add_sub_cancel]
    exact sum_law hx (r 0) (q 0)

/-- Position `j` can be reached: a draw can be kept at each position before it. -/
def Reached (r : Fin (K + 1) → ι → F) (q : Fin K → ι → F) (j : Fin K) : Prop :=
  ∀ i < j, ∃ t, 0 < r i.castSucc t ∧ 0 < q i t

omit [Fintype ι] [IsStrictOrderedRing F] in
theorem reached_zero (r : Fin (K + 2) → ι → F) (q : Fin (K + 1) → ι → F) : Reached r q 0 :=
  fun i hi => absurd hi (Fin.not_lt_zero i)

omit [Fintype ι] [IsStrictOrderedRing F] in
theorem reached_succ {r : Fin (K + 2) → ι → F} {q : Fin (K + 1) → ι → F} {j : Fin K} :
    Reached r q j.succ ↔ (∃ t, 0 < r 0 t ∧ 0 < q 0 t) ∧ Reached (tail r) (tail q) j := by
  constructor
  · intro h
    exact ⟨h 0 (Fin.succ_pos j), fun i hi => h i.succ (Fin.succ_lt_succ_iff.mpr hi)⟩
  · rintro ⟨h0, h⟩ i
    cases i using Fin.cases with
    | zero => exact fun _ => h0
    | succ i => exact fun hi => h i (Fin.succ_lt_succ_iff.mp hi)

theorem chainLaw_cons_eq_iff (r : Fin (K + 2) → stdSimplex F ι)
    (q : Fin (K + 1) → stdSimplex F ι) (t : ι) (w : Fin (K + 1) → ι) :
    chainLaw x (fun i => r i) (fun j => q j) (cons t w) =
        ∏ i, r i ((cons t w : Fin (K + 2) → ι) i) ↔
      min (r 0 t) (q 0 t) * chainLaw x (fun i => tail r i) (fun j => tail q j) w +
        (law x (r 0) (q 0) t - min (r 0 t) (q 0 t)) * ∏ i, tail r i (w i) =
          r 0 t * ∏ i, tail r i (w i) := by
  have hkept : q 0 t * acceptProb (r 0) (q 0) t = min (r 0 t) (q 0 t) :=
    mul_acceptProb (stdSimplex.zero_le _ _) (stdSimplex.zero_le _ _)
  have hprod : ∏ i, r i ((cons t w : Fin (K + 2) → ι) i) = r 0 t * ∏ i, tail r i (w i) :=
    Fin.prod_univ_succ _
  rw [chainLaw_succ, hkept, hprod]
  rfl

/-- A row is exact if its first position is and, in case a draw can be kept there, the others. -/
theorem chainLaw_succ_iff (hx : x ≤ 1) (r : Fin (K + 2) → stdSimplex F ι)
    (q : Fin (K + 1) → stdSimplex F ι) :
    (∀ w, chainLaw x (fun i => r i) (fun j => q j) w = ∏ i, r i (w i)) ↔
      (∀ t, law x (r 0) (q 0) t = r 0 t) ∧ ((∃ t, 0 < r 0 t ∧ 0 < q 0 t) → ∀ w,
        chainLaw x (fun i => tail r i) (fun j => tail q j) w = ∏ i, tail r i (w i)) := by
  have hcons := chainLaw_cons_eq_iff (x := x) r q
  constructor
  · intro h
    have hhead (t : ι) : law x (r 0) (q 0) t = r 0 t := by
      have hsum := Finset.sum_congr rfl fun w (_ : w ∈ Finset.univ) => (hcons t w).mp (h _)
      rw [Finset.sum_add_distrib, ← Finset.mul_sum, ← Finset.mul_sum, ← Finset.mul_sum,
        sum_chainLaw _ _ hx, sum_prod_eq_one fun i => stdSimplex.sum_eq_one (tail r i)] at hsum
      linarith
    refine ⟨hhead, fun ⟨t, hr, hq⟩ w => ?_⟩
    have hw := (hcons t w).mp (h _)
    rw [hhead] at hw
    have hpos : 0 < min (r 0 t) (q 0 t) := lt_min hr hq
    apply mul_left_cancel₀ hpos.ne'
    linarith
  · rintro ⟨hhead, htail⟩ w
    rw [← Fin.cons_self_tail w, hcons, hhead]
    by_cases hreach : ∃ t, 0 < r 0 t ∧ 0 < q 0 t
    · rw [htail hreach]
      ring
    · -- no draw is kept: the position is drawn again for certain
      have hzero : min (r 0 (w 0)) (q 0 (w 0)) = 0 := by
        apply le_antisymm _ (le_min (stdSimplex.zero_le _ _) (stdSimplex.zero_le _ _))
        by_contra hpos
        exact hreach ⟨w 0, lt_min_iff.mp (not_le.mp hpos)⟩
      rw [hzero]
      ring

/-- **A row is exact** if and only if resampling is at each position that can be reached. -/
theorem chainLaw_eq_iff (hx : x ≤ 1) :
    (∀ w, chainLaw x (fun i => r i) (fun j => q j) w = ∏ i, r i (w i)) ↔
      ∀ j, Reached (fun i => r i) (fun j => q j) j → ∀ t,
        law x (r j.castSucc) (q j) t = r j.castSucc t := by
  induction K with
  | zero => exact iff_of_true (fun w => by simp [chainLaw, vecHead]) fun j => j.elim0
  | succ K ih =>
    rw [chainLaw_succ_iff hx, ih (tail r) (tail q), Fin.forall_fin_succ]
    refine and_congr ?_ ?_
    · exact ⟨fun h _ => h, fun h => h (reached_zero _ _)⟩
    · simp only [reached_succ, and_imp]
      exact forall_comm

end Exact

section Uniform

open MeasureTheory

/-- The indicator of the outcome `b` of a test. -/
noncomputable def testIs (a : ℝ) (b : Bool) (v : ℝ) : ℝ := if decide (v < a) = b then 1 else 0

theorem testIs_eq (a : ℝ) (b : Bool) (v : ℝ) :
    testIs a b v = if v < a then (if b then 1 else 0) else (if b then 0 else 1) := by
  unfold testIs
  by_cases hv : v < a <;> cases b <;> simp [hv]

theorem setIntegral_testIs {a : ℝ} (ha : 0 ≤ a ∧ a ≤ 1) (b : Bool) :
    ∫ v in Set.Ico (0 : ℝ) 1, testIs a b v = if b then a else 1 - a := by
  simp only [testIs_eq]
  rw [setIntegral_ite_lt ha.1 ha.2]
  cases b <;> simp

theorem integrable_testIs (a : ℝ) (b : Bool) :
    Integrable (testIs a b) (volume.restrict (Set.Ico (0 : ℝ) 1)) := by
  have hmeas : Measurable (testIs a b) := by
    rw [show testIs a b = _ from funext (testIs_eq a b)]
    exact Measurable.ite measurableSet_Iio measurable_const measurable_const
  apply Integrable.of_bound hmeas.aestronglyMeasurable 1
  refine Filter.Eventually.of_forall fun v => ?_
  unfold testIs
  split_ifs <;> simp

theorem sum_prod_testIs (a u : Fin K → ℝ) (f : (Fin K → Bool) → ℝ) :
    ∑ b, (∏ j, testIs (a j) (b j) (u j)) * f b = f fun j => decide (u j < a j) := by
  have hprod (b : Fin K → Bool) : ∏ j, testIs (a j) (b j) (u j) =
      if (fun j => decide (u j < a j)) = b then 1 else 0 := by
    by_cases hb : (fun j => decide (u j < a j)) = b
    · rw [if_pos hb]
      exact Finset.prod_eq_one fun j _ => if_pos (congrFun hb j)
    · obtain ⟨j, hj⟩ := Function.ne_iff.mp hb
      rw [if_neg hb]
      exact Finset.prod_eq_zero (Finset.mem_univ j) (if_neg hj)
  simp only [hprod, ite_mul, one_mul, zero_mul]
  rw [Finset.sum_ite_eq, if_pos (Finset.mem_univ _)]

/-- Independent tests `u j < a j` of uniform draws from `[0, 1)`. -/
theorem setIntegral_tests {a : Fin K → ℝ} (ha : ∀ j, 0 ≤ a j ∧ a j ≤ 1) (f : (Fin K → Bool) → ℝ) :
    ∫ u in Set.univ.pi fun _ => Set.Ico (0 : ℝ) 1, f (fun j => decide (u j < a j)) =
      ∑ b, testProb a b * f b := by
  have hpi : volume.restrict (Set.univ.pi fun _ : Fin K => Set.Ico (0 : ℝ) 1) =
      Measure.pi fun _ => volume.restrict (Set.Ico (0 : ℝ) 1) := Measure.restrict_pi_pi _ _
  have hint (b : Fin K → Bool) : Integrable (fun u : Fin K → ℝ =>
      ∏ j, testIs (a j) (b j) (u j)) (Measure.pi fun _ => volume.restrict (Set.Ico (0 : ℝ) 1)) :=
    Integrable.fintype_prod_dep fun j => integrable_testIs (a j) (b j)
  rw [hpi]
  simp only [← sum_prod_testIs a _ f]
  rw [integral_finsetSum _ fun b _ => (hint b).mul_const (f b)]
  refine Finset.sum_congr rfl fun b _ => ?_
  rw [integral_mul_const, integral_fintype_prod_eq_prod fun j => testIs (a j) (b j)]
  simp only [setIntegral_testIs (ha _)]
  rfl

end Uniform

end Resample
