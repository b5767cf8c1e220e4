import Mathlib.Analysis.Convex.StdSimplex
import Mathlib.MeasureTheory.Integral.Bochner.Set
import Mathlib.MeasureTheory.Measure.Lebesgue.Basic
import Mathlib.Tactic

/-!
# Rejection with resampling

To draw from `p` with the help of `q`: draw `t` from `q`, keep it with probability
`min 1 (p t / q t)`, and otherwise draw again from the normalised excess of `p` over `x * q`.

The probability of a rejection is the total excess of `p` over `q` (`rejectMass_eq`), so that the
result has the law `p` when `x = 1`. For other factors `x ≤ 1` it does exactly if the two excesses
are proportional (`law_eq_iff`).
-/

namespace Resample

section Law

variable {ι F : Type*} [Field F] [LinearOrder F]

/-- The probability with which a draw is kept. -/
def acceptProb (p q : ι → F) (t : ι) : F := min 1 (p t / q t)

/-- The part of `p` above `x * q`. -/
def excess (x : F) (p q : ι → F) (t : ι) : F := max (p t - x * q t) 0

theorem excess_nonneg (x : F) (p q : ι → F) (t : ι) : 0 ≤ excess x p q t := le_max_right _ _

section Fintype

variable [Fintype ι]

/-- The probability that the draw is not kept. -/
def rejectMass (p q : ι → F) : F := ∑ t, q t * (1 - acceptProb p q t)

omit [LinearOrder F] in
/-- The law of a draw with the given weights. -/
def normalize (w : ι → F) (t : ι) : F := w t / ∑ u, w u

omit [LinearOrder F] in
theorem normalize_normalize (w : ι → F) : normalize (normalize w) = normalize w := by
  funext t
  unfold normalize
  rw [← Finset.sum_div]
  by_cases hw : ∑ u, w u = 0
  · rw [hw, div_zero, zero_div]
  · rw [div_self hw, div_one]

omit [LinearOrder F] in
theorem normalize_single [DecidableEq ι] {c : F} (hc : c ≠ 0) (a : ι) :
    normalize (Pi.single a c) = Pi.single a 1 := by
  funext t
  unfold normalize
  rw [Finset.sum_pi_single' a c, if_pos (Finset.mem_univ a)]
  by_cases h : t = a
  · subst h
    rw [Pi.single_eq_same, Pi.single_eq_same, div_self hc]
  · rw [Pi.single_eq_of_ne h, Pi.single_eq_of_ne h, zero_div]

/-- The law of the result. -/
def law (x : F) (p q : ι → F) (t : ι) : F :=
  q t * acceptProb p q t + rejectMass p q * normalize (excess x p q) t

end Fintype

omit [LinearOrder F] in
theorem single_one_inj [DecidableEq ι] {a b : ι} :
    (Pi.single a 1 : ι → F) = Pi.single b 1 ↔ a = b := by
  refine ⟨fun h => ?_, fun h => by rw [h]⟩
  by_contra hne
  have hb := congrFun h a
  rw [Pi.single_eq_same, Pi.single_eq_of_ne hne] at hb
  exact one_ne_zero hb

variable [IsStrictOrderedRing F] {x : F}

theorem mul_acceptProb {p q : ι → F} {t : ι} (hp : 0 ≤ p t) (hq : 0 ≤ q t) :
    q t * acceptProb p q t = min (p t) (q t) := by
  unfold acceptProb
  rcases hq.eq_or_lt with h | h
  · rw [← h, zero_mul, min_eq_right hp]
  · rw [mul_min_of_nonneg _ _ hq, mul_one, mul_div_cancel₀ _ h.ne', min_comm]

theorem min_add_excess (p q : ι → F) (t : ι) : min (p t) (q t) + excess 1 p q t = p t := by
  unfold excess
  rw [one_mul]
  rcases le_total (p t) (q t) with h | h
  · rw [min_eq_left h, max_eq_right (sub_nonpos.mpr h), add_zero]
  · rw [min_eq_right h, max_eq_left (sub_nonneg.mpr h), add_sub_cancel]

theorem excess_eq_zero_iff {p q : ι → F} {t : ι} : excess x p q t = 0 ↔ p t ≤ x * q t := by
  unfold excess
  rw [max_eq_right_iff, sub_nonpos]

variable [Fintype ι] (p q : stdSimplex F ι)

theorem rejectMass_eq : rejectMass p q = ∑ t, excess 1 p q t := by
  have hterm : ∀ t, q t * (1 - acceptProb p q t) = q t - p t + excess 1 p q t := by
    intro t
    have h := min_add_excess p q t
    rw [mul_sub, mul_one, mul_acceptProb (stdSimplex.zero_le p t) (stdSimplex.zero_le q t)]
    linarith
  unfold rejectMass
  simp only [hterm, Finset.sum_add_distrib, Finset.sum_sub_distrib, stdSimplex.sum_eq_one, sub_self,
    zero_add]

theorem excess_one_le (hx : x ≤ 1) (t : ι) : excess 1 p q t ≤ excess x p q t := by
  have hle : x * q t ≤ 1 * q t := mul_le_mul_of_nonneg_right hx (stdSimplex.zero_le q t)
  exact max_le_max (sub_le_sub_left hle _) le_rfl

/-- The law is `p` exactly if the two excesses are proportional. -/
theorem law_eq_iff_excess (hx : x ≤ 1) : (∀ t, law x p q t = p t) ↔
    ∀ t u, excess 1 p q u * excess x p q t = excess x p q u * excess 1 p q t := by
  have hlaw : ∀ t, law x p q t = p t ↔
      rejectMass p q * (excess x p q t / ∑ u, excess x p q u) = excess 1 p q t := by
    intro t
    have h := min_add_excess p q t
    unfold law normalize
    rw [mul_acceptProb (stdSimplex.zero_le p t) (stdSimplex.zero_le q t)]
    constructor <;> intro h' <;> linarith
  simp only [hlaw]
  constructor
  · intro h t u
    rw [← h t, ← h u]
    ring
  · intro h t
    have hsum : (∑ u, excess 1 p q u) * excess x p q t =
        (∑ u, excess x p q u) * excess 1 p q t := by
      rw [Finset.sum_mul, Finset.sum_mul]
      exact Finset.sum_congr rfl fun u _ => h t u
    rw [rejectMass_eq]
    by_cases hN : ∑ u, excess x p q u = 0
    · -- there is no excess at all, and no rejection
      have hzero : ∀ u, excess x p q u = 0 := fun u =>
        (Finset.sum_eq_zero_iff_of_nonneg fun u _ => excess_nonneg x p q u).mp hN u
          (Finset.mem_univ u)
      have hone : excess 1 p q t = 0 :=
        le_antisymm ((excess_one_le p q hx t).trans (hzero t).le) (excess_nonneg 1 p q t)
      rw [hzero t, hone, zero_div, mul_zero]
    · rw [← mul_div_assoc, hsum, mul_div_cancel_left₀ _ hN]

/-- What makes up for a factor other than 1: no excess over `x * q` where there is none over `q`,
and one ratio of `p` to `q` where there is. -/
structure Proportional (x : F) (p q : ι → F) : Prop where
  below : ∀ t, p t ≤ q t → p t ≤ x * q t
  ratio : ∀ t u, q t < p t → q u < p u → p t * q u = p u * q t

theorem excess_of_lt (hx : x ≤ 1) {t : ι} (h : q t < p t) :
    excess 1 p q t = p t - q t ∧ excess x p q t = p t - x * q t := by
  have hle : x * q t ≤ 1 * q t := mul_le_mul_of_nonneg_right hx (stdSimplex.zero_le q t)
  unfold excess
  rw [one_mul] at *
  exact ⟨max_eq_left (by linarith), max_eq_left (by linarith)⟩

theorem excess_single [DecidableEq ι] (hx0 : 0 ≤ x) {a : ι} (ha : 0 ≤ 1 - x * q a) :
    excess x (Pi.single a 1) q = Pi.single a (1 - x * q a) := by
  funext t
  unfold excess
  by_cases h : t = a
  · subst h
    rw [Pi.single_eq_same, Pi.single_eq_same, max_eq_left ha]
  · have hnn : 0 ≤ x * q t := mul_nonneg hx0 (stdSimplex.zero_le q t)
    rw [Pi.single_eq_of_ne h, Pi.single_eq_of_ne h, max_eq_right (by linarith)]

theorem exists_lt_of_ne (h : p ≠ q) : ∃ t, q t < p t := by
  by_contra hle
  push Not at hle
  apply h
  ext t
  have hsum : ∑ u, p u = ∑ u, q u := by
    rw [stdSimplex.sum_eq_one, stdSimplex.sum_eq_one]
  exact (Finset.sum_eq_sum_iff_of_le fun u _ => hle u).mp hsum t (Finset.mem_univ t)

/-- **When resampling is exact.** -/
theorem law_eq_iff (hx : x ≤ 1) :
    (∀ t, law x p q t = p t) ↔ x = 1 ∨ p = q ∨ Proportional x p q := by
  rw [law_eq_iff_excess p q hx]
  constructor
  · intro h
    by_cases hx1 : x = 1
    · exact .inl hx1
    by_cases hpq : p = q
    · exact .inr (.inl hpq)
    refine .inr (.inr ⟨fun t ht => ?_, fun t u ht hu => ?_⟩)
    · obtain ⟨s, hs⟩ := exists_lt_of_ne p q hpq
      have hzero : excess 1 p q t = 0 := excess_eq_zero_iff.mpr (by rwa [one_mul])
      have hpos : excess 1 p q s ≠ 0 := by
        rw [(excess_of_lt p q hx hs).1]
        exact (sub_pos.mpr hs).ne'
      have hts := h t s
      rw [hzero, mul_zero] at hts
      exact excess_eq_zero_iff.mp ((mul_eq_zero.mp hts).resolve_left hpos)
    · have htu := h t u
      rw [(excess_of_lt p q hx ht).1, (excess_of_lt p q hx ht).2, (excess_of_lt p q hx hu).1,
        (excess_of_lt p q hx hu).2] at htu
      have hfac : (1 - x) * (p t * q u - p u * q t) = 0 := by linear_combination -htu
      exact sub_eq_zero.mp ((mul_eq_zero.mp hfac).resolve_left (sub_ne_zero.mpr (Ne.symm hx1)))
  · rintro (rfl | rfl | hprop) t u
    · rfl
    · have hzero : ∀ v, excess 1 p p v = 0 := fun v => excess_eq_zero_iff.mpr (by rw [one_mul])
      rw [hzero, hzero, zero_mul, mul_zero]
    · have hnone : ∀ v, p v ≤ q v → excess 1 p q v = 0 ∧ excess x p q v = 0 := fun v hv =>
        ⟨excess_eq_zero_iff.mpr (by rwa [one_mul]), excess_eq_zero_iff.mpr (hprop.below v hv)⟩
      rcases le_or_gt (p t) (q t) with ht | ht
      · rw [(hnone t ht).1, (hnone t ht).2, mul_zero, mul_zero]
      rcases le_or_gt (p u) (q u) with hu | hu
      · rw [(hnone u hu).1, (hnone u hu).2, zero_mul, zero_mul]
      rw [(excess_of_lt p q hx ht).1, (excess_of_lt p q hx ht).2, (excess_of_lt p q hx hu).1,
        (excess_of_lt p q hx hu).2]
      linear_combination (x - 1) * hprop.ratio t u ht hu

end Law

section Uniform

open MeasureTheory

/-- A test `v < r` of a uniform draw from `[0, 1)` succeeds with probability `r`. -/
theorem setIntegral_ite_lt {r : ℝ} (h0 : 0 ≤ r) (h1 : r ≤ 1) (a b : ℝ) :
    ∫ v in Set.Ico (0 : ℝ) 1, (if v < r then a else b) = r * a + (1 - r) * b := by
  have hleft : Set.EqOn (fun v : ℝ => if v < r then a else b) (fun _ => a) (Set.Ico 0 r) :=
    fun v hv => if_pos hv.2
  have hright : Set.EqOn (fun v : ℝ => if v < r then a else b) (fun _ => b) (Set.Ico r 1) :=
    fun v hv => if_neg (not_lt.mpr hv.1)
  have hconst : ∀ (c l u : ℝ), IntegrableOn (fun _ : ℝ => c) (Set.Ico l u) := fun c l u =>
    integrableOn_const (by rw [Real.volume_Ico]; exact ENNReal.ofReal_ne_top)
  rw [← Set.Ico_union_Ico_eq_Ico h0 h1, setIntegral_union Set.Ico_disjoint_Ico_same
      measurableSet_Ico ((hconst a 0 r).congr_fun hleft.symm measurableSet_Ico)
      ((hconst b r 1).congr_fun hright.symm measurableSet_Ico),
    setIntegral_congr_fun measurableSet_Ico hleft, setIntegral_congr_fun measurableSet_Ico hright,
    setIntegral_const, setIntegral_const, Real.volume_real_Ico_of_le h0,
    Real.volume_real_Ico_of_le h1, smul_eq_mul, smul_eq_mul, sub_zero]

end Uniform

end Resample
