import SsdTpu.Verify
import SsdTpu.Resample

/-!
# Sampling verification

`_verify_sample_row` in exact arithmetic; `verify_sample` maps it over the batch. The rows of `p`
and `q` are the softmax of the target and the draft logits, each at its temperature. `u j` is the
outcome of `uniform(keys[j])`, `draw w` that of `categorical(keys[k + 1], log(w))`, and `guard` is
the constant `1e-12`.

1. A rejected draft token is replaced by a draw from the excess of `p` over `sampler_x * q`, while
   the test is made against `q`. The law of the token at a position is therefore the target's only
   for `sampler_x = 1` and some special rows (`positionLaw_iff`).
2. Draft token `j` is tested against target row `j + 1`, and not row `j` as in `verify_greedy`. At
   temperature zero the two agree only if the target's tokens at these rows are equal as far as the
   verification gets (`agreesWithGreedy_iff`).
-/

namespace SsdTpu

open Greedy (IsInitial)

variable {F : Type*} [Field F] [LinearOrder F] {K V : ℕ}

/-- The acceptance test's threshold. -/
def acceptRatio (guard : F) (p q : Fin V → F) (tok : Fin V) : F :=
  min 1 (p tok / max (q tok) guard)

/-- The loop of `_verify_sample_row`: accept up to the first failed test. -/
def sampleAccept (guard : F) (p : Fin (K + 1) → Fin V → F) (q : Fin K → Fin V → F)
    (spec : Fin (K + 1) → Fin V) (u : Fin K → F) : ℕ :=
  acceptLoop (List.ofFn fun j =>
    decide (u j < acceptRatio guard (p j.succ) (q j) (spec j.succ)))

def residual (guard samplerX : F) (p q : Fin V → F) (t : Fin V) : F :=
  let residual := fun t => max (p t - samplerX * q t) 0
  residual t / max (∑ t, residual t) guard

/-- What the recovery token is drawn from, before the smoothing. -/
def recoveryWeights (guard samplerX : F) (p : Fin (K + 1) → Fin V → F) (q : Fin K → Fin V → F)
    (accept : ℕ) : Fin V → F :=
  if h : accept < K then
    residual guard samplerX (p (Fin.succ ⟨accept, h⟩)) (q ⟨accept, h⟩)
  else p (Fin.last K)

def verifySampleRow (guard samplerX : F) (p : Fin (K + 1) → Fin V → F) (q : Fin K → Fin V → F)
    (spec : Fin (K + 1) → Fin V) (u : Fin K → F) (draw : (Fin V → F) → Fin V) : ℕ × Fin V :=
  let accept := sampleAccept guard p q spec u
  (accept, draw fun t => recoveryWeights guard samplerX p q accept t + guard)

theorem sampleAccept_isInitial (guard : F) (p : Fin (K + 1) → Fin V → F) (q : Fin K → Fin V → F)
    (spec : Fin (K + 1) → Fin V) (u : Fin K → F) :
    IsInitial (fun j => ∃ h : j < K, u ⟨j, h⟩ < acceptRatio guard (p (Fin.succ ⟨j, h⟩)) (q ⟨j, h⟩)
      (spec (Fin.succ ⟨j, h⟩))) K (sampleAccept guard p q spec u) := by
  apply (acceptLoop_ofFn _).congr
  intro j hj
  simp only [decide_eq_true_eq]

/-! ## The law of the token at a position -/

/-- The law of the token that the row leaves at draft position `j`, given the draft tokens and the
outcomes of the tests: the draft token if it is accepted, else a draw of the recovery token. -/
def leftToken (samplerX : F) (p : Fin (K + 1) → Fin V → F) (q : Fin K → Fin V → F)
    (spec : Fin (K + 1) → Fin V) (u : Fin K → F) (j : Fin K) (t : Fin V) : F :=
  let accept := sampleAccept 0 p q spec u
  if (j : ℕ) < accept then (if spec j.succ = t then 1 else 0)
  else Resample.normalize (recoveryWeights 0 samplerX p q accept) t

/-- The same when the draft token at `j` is drawn from `q j` and the outcome of its test is uniform,
the others being given. -/
noncomputable def positionLaw (samplerX : ℝ) (p : Fin (K + 1) → Fin V → ℝ) (q : Fin K → Fin V → ℝ)
    (spec : Fin (K + 1) → Fin V) (u : Fin K → ℝ) (j : Fin K) (t : Fin V) : ℝ :=
  ∑ tok, q j tok * ∫ v in Set.Ico (0 : ℝ) 1, leftToken samplerX p q
    (Function.update spec j.succ tok) (Function.update u j v) j t

section Law

variable {p : Fin (K + 1) → Fin V → F} {q : Fin K → Fin V → F} {spec : Fin (K + 1) → Fin V}
  {u : Fin K → F} {j : Fin K}

theorem sampleAccept_update (hearlier : ∀ i < j, u i < acceptRatio 0 (p i.succ) (q i) (spec i.succ))
    (tok : Fin V) (v : F) :
    (v < acceptRatio 0 (p j.succ) (q j) tok → (j : ℕ) < sampleAccept 0 p q
        (Function.update spec j.succ tok) (Function.update u j v)) ∧
      (¬ v < acceptRatio 0 (p j.succ) (q j) tok → sampleAccept 0 p q
        (Function.update spec j.succ tok) (Function.update u j v) = j) := by
  have hinit := sampleAccept_isInitial 0 p q (Function.update spec j.succ tok)
    (Function.update u j v)
  have hbefore : ∀ i < (j : ℕ), ∃ h : i < K, Function.update u j v ⟨i, h⟩ <
      acceptRatio 0 (p (Fin.succ ⟨i, h⟩)) (q ⟨i, h⟩)
        (Function.update spec j.succ tok (Fin.succ ⟨i, h⟩)) := by
    intro i hi
    have hne : (⟨i, hi.trans j.isLt⟩ : Fin K) ≠ j := fun h => hi.ne (congrArg Fin.val h)
    refine ⟨hi.trans j.isLt, ?_⟩
    rw [Function.update_of_ne hne, Function.update_of_ne fun h => hne (Fin.succ_injective K h)]
    exact hearlier _ hi
  have hat : Function.update u j v j < acceptRatio 0 (p j.succ) (q j)
      (Function.update spec j.succ tok j.succ) ↔ v < acceptRatio 0 (p j.succ) (q j) tok := by
    rw [Function.update_self, Function.update_self]
  constructor
  · intro hv
    apply (hinit.le_iff (j := j + 1) j.isLt).mpr
    intro i hi
    rcases Nat.lt_succ_iff_lt_or_eq.mp hi with hi | rfl
    · exact hbefore i hi
    · exact ⟨j.isLt, hat.mpr hv⟩
  · intro hv
    have hle := (hinit.le_iff j.isLt.le).mpr hbefore
    by_contra hne
    obtain ⟨_, hlt⟩ := hinit.holds j (by omega)
    exact hv (hat.mp hlt)

variable [IsStrictOrderedRing F] (samplerX : F)

omit [IsStrictOrderedRing F] in
theorem acceptRatio_zero (p q : stdSimplex F (Fin V)) (tok : Fin V) :
    acceptRatio 0 p q tok = Resample.acceptProb p q tok := by
  unfold acceptRatio
  rw [max_eq_left (stdSimplex.zero_le q tok)]
  rfl

theorem residual_zero (p q : Fin V → F) :
    residual 0 samplerX p q = Resample.normalize (Resample.excess samplerX p q) := by
  funext t
  have hsum : 0 ≤ ∑ t, Resample.excess samplerX p q t :=
    Finset.sum_nonneg fun t _ => Resample.excess_nonneg samplerX p q t
  show Resample.excess samplerX p q t / max (∑ t, Resample.excess samplerX p q t) 0 = _
  rw [max_eq_left hsum]
  rfl

theorem leftToken_update {p : Fin (K + 1) → stdSimplex F (Fin V)}
    {q : Fin K → stdSimplex F (Fin V)}
    (hearlier : ∀ i < j, u i < acceptRatio 0 (p i.succ) (q i) (spec i.succ)) (tok : Fin V) (v : F)
    (t : Fin V) :
    leftToken samplerX (fun i => p i) (fun i => q i) (Function.update spec j.succ tok)
        (Function.update u j v) j t =
      if v < Resample.acceptProb (p j.succ) (q j) tok then (if tok = t then 1 else 0)
      else Resample.normalize (Resample.excess samplerX (p j.succ) (q j)) t := by
  obtain ⟨hacc, hrej⟩ := sampleAccept_update (p := fun i => p i) (q := fun i => q i) hearlier tok v
  rw [acceptRatio_zero] at hacc hrej
  unfold leftToken
  simp only
  by_cases hv : v < Resample.acceptProb (p j.succ) (q j) tok
  · rw [if_pos (hacc hv), if_pos hv, Function.update_self]
  · rw [hrej hv, if_neg (lt_irrefl _), if_neg hv]
    unfold recoveryWeights
    rw [dif_pos j.isLt, residual_zero, Resample.normalize_normalize]

end Law

section Exact

variable {samplerX : ℝ} {p : Fin (K + 1) → stdSimplex ℝ (Fin V)}
  {q : Fin K → stdSimplex ℝ (Fin V)} {spec : Fin (K + 1) → Fin V} {u : Fin K → ℝ} {j : Fin K}

/-- The law of a position is that of rejection with resampling. -/
theorem positionLaw_eq (hearlier : ∀ i < j, u i < acceptRatio 0 (p i.succ) (q i) (spec i.succ))
    (t : Fin V) : positionLaw samplerX (fun i => p i) (fun i => q i) spec u j t =
      Resample.law samplerX (p j.succ) (q j) t := by
  have hpoint : ∀ tok, q j tok * ∫ v in Set.Ico (0 : ℝ) 1,
      (if v < Resample.acceptProb (p j.succ) (q j) tok then (if tok = t then (1 : ℝ) else 0)
        else Resample.normalize (Resample.excess samplerX (p j.succ) (q j)) t) =
      (if tok = t then q j tok * Resample.acceptProb (p j.succ) (q j) tok else 0) +
        q j tok * (1 - Resample.acceptProb (p j.succ) (q j) tok) *
          Resample.normalize (Resample.excess samplerX (p j.succ) (q j)) t := by
    intro tok
    have hnn : 0 ≤ Resample.acceptProb (p j.succ) (q j) tok :=
      le_min zero_le_one (div_nonneg (stdSimplex.zero_le _ _) (stdSimplex.zero_le _ _))
    rw [Resample.setIntegral_ite_lt hnn (min_le_left _ _)]
    split_ifs <;> ring
  unfold positionLaw Resample.law Resample.rejectMass
  simp only [leftToken_update samplerX hearlier, hpoint]
  rw [Finset.sum_add_distrib, Finset.sum_ite_eq' Finset.univ t, if_pos (Finset.mem_univ t),
    Finset.sum_mul]

/-- **The law of sampling verification.** At every draft position that is reached, for any outcome
of the positions before it, the token left has the target distribution that the row uses there
exactly if `sampler_x` is 1, the two distributions are equal, or they are proportional where the
target exceeds the draft and far enough apart elsewhere. -/
theorem positionLaw_iff (hx : samplerX ≤ 1)
    (hearlier : ∀ i < j, u i < acceptRatio 0 (p i.succ) (q i) (spec i.succ)) :
    (∀ t, positionLaw samplerX (fun i => p i) (fun i => q i) spec u j t = p j.succ t) ↔
      samplerX = 1 ∨ p j.succ = q j ∨ Resample.Proportional samplerX (p j.succ) (q j) := by
  simp only [positionLaw_eq hearlier]
  exact Resample.law_eq_iff _ _ hx

/-- The distribution on two tokens that gives token 0 with probability `a`. -/
noncomputable def twoTokens (a : ℝ) (ha : 0 ≤ a ∧ a ≤ 1) : stdSimplex ℝ (Fin 2) :=
  ⟨![a, 1 - a], fun i => by fin_cases i <;> simp [ha], by simp⟩

@[simp] theorem twoTokens_zero (a : ℝ) (ha : 0 ≤ a ∧ a ≤ 1) : twoTokens a ha 0 = a := rfl

@[simp] theorem twoTokens_one (a : ℝ) (ha : 0 ≤ a ∧ a ≤ 1) : twoTokens a ha 1 = 1 - a := rfl

noncomputable def fair : stdSimplex ℝ (Fin 2) := twoTokens (1 / 2) (by norm_num)

noncomputable def tilted : stdSimplex ℝ (Fin 2) := twoTokens (3 / 4) (by norm_num)

noncomputable def certain : stdSimplex ℝ (Fin 2) := twoTokens 1 (by norm_num)

/-- A fair target, a draft that gives token 0 with probability 3/4, and the default `sampler_x`:
token 1 is left with probability 7/16. -/
theorem positionLaw_biased :
    ¬ ∀ t, positionLaw (1 / 2) (fun _ : Fin 2 => fair) (fun _ : Fin 1 => tilted) ![0, 0] ![0] 0 t =
      fair t := by
  intro h
  have hlaw := h 1
  rw [positionLaw_eq fun i hi => absurd hi (Fin.not_lt_zero i)] at hlaw
  unfold Resample.law Resample.rejectMass Resample.normalize Resample.excess Resample.acceptProb
    fair tilted at hlaw
  norm_num [Fin.sum_univ_two, min_def, max_def] at hlaw

theorem positionLaw_iff_pure :
    positionLaw (1 / 2) (fun _ : Fin 2 => certain) (fun _ : Fin 1 => fair) ![0, 0] ![0] 0 0 =
      1 := by
  refine (positionLaw_iff (by norm_num) fun i hi => absurd hi (Fin.not_lt_zero i)).mpr
    (.inr (.inr ⟨fun t ht => ?_, fun t u ht hu => ?_⟩)) 0
  · unfold certain fair at *
    fin_cases t
    · norm_num at ht
    · norm_num
  · unfold certain fair at *
    fin_cases t
    · fin_cases u
      · rfl
      · norm_num at hu
    · norm_num at ht

end Exact

/-! ## Temperature zero -/

section Greedy

variable {R : Type*} (argmax : (Fin V → R) → Fin V) (lp : Fin (K + 1) → Fin V → R)
  (spec : Fin (K + 1) → Fin V)

/-- The row accepts as many tokens as `verify_greedy`, and its recovery token is a draw from the
point mass at the one of `verify_greedy`. -/
def AgreesWithGreedy (guard samplerX : F) (p : Fin (K + 1) → Fin V → F) (q : Fin K → Fin V → F)
    (u : Fin K → F) : Prop :=
  sampleAccept guard p q spec u =
      (verifyGreedy argmax (fun _ : Fin 1 => lp) fun _ => spec).acceptUntil 0 ∧
    Resample.normalize (recoveryWeights guard samplerX p q (sampleAccept guard p q spec u)) =
      Pi.single ((verifyGreedy argmax (fun _ : Fin 1 => lp) fun _ => spec).recoveryTokens 0) 1

variable [IsStrictOrderedRing F] {guard samplerX : F}

theorem lt_acceptRatio_single (hguard : guard ≤ 1) {u : F} (hu : 0 ≤ u ∧ u < 1) (a tok : Fin V)
    {q : stdSimplex F (Fin V)} (hq : 0 < q tok) :
    u < acceptRatio guard (Pi.single a 1) q tok ↔ tok = a := by
  unfold acceptRatio
  by_cases h : tok = a
  · subst h
    have hpos : 0 < max (q tok) guard := lt_max_of_lt_left hq
    have hle : max (q tok) guard ≤ 1 := max_le (stdSimplex.le_one q tok) hguard
    rw [Pi.single_eq_same, min_eq_left ((one_le_div hpos).mpr hle)]
    exact iff_of_true hu.2 rfl
  · rw [Pi.single_eq_of_ne h, zero_div, min_eq_right zero_le_one]
    exact iff_of_false (not_lt.mpr hu.1) h

theorem normalize_residual_single (hx : 0 ≤ samplerX ∧ samplerX < 1) (a : Fin V)
    (q : stdSimplex F (Fin V)) :
    Resample.normalize (residual guard samplerX (Pi.single a 1) q) = Pi.single a 1 := by
  have hpos : 0 < 1 - samplerX * q a := sub_pos.mpr
    ((mul_le_of_le_one_right hx.1 (stdSimplex.le_one q a)).trans_lt hx.2)
  have hresidual : residual guard samplerX (Pi.single a 1) q =
      Pi.single a ((1 - samplerX * q a) / max (1 - samplerX * q a) guard) := by
    funext t
    show Resample.excess samplerX (Pi.single a 1) q t /
      max (∑ t, Resample.excess samplerX (Pi.single a 1) q t) guard = _
    rw [Resample.excess_single q hx.1 hpos.le, Finset.sum_pi_single' a, if_pos (Finset.mem_univ a)]
    by_cases h : t = a
    · subst h
      rw [Pi.single_eq_same, Pi.single_eq_same]
    · rw [Pi.single_eq_of_ne h, Pi.single_eq_of_ne h, zero_div]
  rw [hresidual]
  exact Resample.normalize_single (div_pos hpos (lt_max_of_lt_left hpos)).ne' a

/-- The recovery token is the target's one row after the accepted tokens, or the last one. -/
theorem normalize_recoveryWeights_single (guard : F) (hx : 0 ≤ samplerX ∧ samplerX < 1)
    {p : Fin (K + 1) → Fin V → F} (hp : ∀ i, p i = Pi.single (argmax (lp i)) 1)
    (q : Fin K → stdSimplex F (Fin V)) {accept : ℕ} (i : Fin (K + 1))
    (hi : (i : ℕ) = min (accept + 1) K) :
    Resample.normalize (recoveryWeights guard samplerX p (fun j => q j) accept) =
      Pi.single (argmax (lp i)) 1 := by
  unfold recoveryWeights
  by_cases h : accept < K
  · have hrow : Fin.succ ⟨accept, h⟩ = i := Fin.ext (hi.trans (min_eq_left h)).symm
    rw [dif_pos h, hrow, hp]
    exact normalize_residual_single hx _ _
  · have hrow : Fin.last K = i := Fin.ext (hi.trans (min_eq_right (by omega))).symm
    rw [dif_neg h, hrow, hp]
    exact Resample.normalize_single one_ne_zero _

/-- Row `n` of the `K + 1` rows. -/
def rowAt (K n : ℕ) : Fin (K + 1) := ⟨n % (K + 1), Nat.mod_lt n K.succ_pos⟩

theorem rowAt_val (i : Fin (K + 1)) : rowAt K i = i := by
  ext
  exact Nat.mod_eq_of_lt i.isLt

/-- The token of the target in row `n`. -/
def targetAt (n : ℕ) : Fin V := argmax (lp (rowAt K n))

/-- The draft token at position `n`. -/
def draftAt (n : ℕ) : Fin V := spec (rowAt K (n + 1))

theorem targetAt_succ (j : Fin K) : targetAt argmax lp (j + 1) = argmax (lp j.succ) := by
  have hrow : rowAt K (j + 1) = j.succ := rowAt_val j.succ
  unfold targetAt
  rw [hrow]

theorem targetAt_castSucc (j : Fin K) : targetAt argmax lp j = argmax (lp j.castSucc) := by
  have hrow : rowAt K j = j.castSucc := rowAt_val j.castSucc
  unfold targetAt
  rw [hrow]

theorem draftAt_eq (j : Fin K) : draftAt spec j = spec j.succ := by
  have hrow : rowAt K (j + 1) = j.succ := rowAt_val j.succ
  unfold draftAt
  rw [hrow]

/-- The row compares the draft token at `j` with the target's in row `j + 1`. -/
theorem sampleAccept_isInitial_single (hguard : guard ≤ 1) {p : Fin (K + 1) → Fin V → F}
    (hp : ∀ i, p i = Pi.single (argmax (lp i)) 1) {q : Fin K → stdSimplex F (Fin V)}
    (hq : ∀ j, 0 < q j (spec j.succ)) {u : Fin K → F} (hu : ∀ j, 0 ≤ u j ∧ u j < 1) :
    IsInitial (fun j => draftAt spec j = targetAt argmax lp (j + 1)) K
      (sampleAccept guard p (fun j => q j) spec u) := by
  apply (sampleAccept_isInitial guard p (fun j => q j) spec u).congr
  intro j hj
  have hdraft := draftAt_eq spec ⟨j, hj⟩
  have hnext := targetAt_succ argmax lp ⟨j, hj⟩
  simp only at hdraft hnext
  rw [hdraft, hnext]
  constructor
  · rintro ⟨_, h⟩
    rw [hp] at h
    exact (lt_acceptRatio_single hguard (hu _) _ _ (hq _)).mp h
  · intro h
    refine ⟨hj, ?_⟩
    rw [hp]
    exact (lt_acceptRatio_single hguard (hu _) _ _ (hq _)).mpr h

theorem acceptUntil_isInitial_at :
    IsInitial (fun j => draftAt spec j = targetAt argmax lp j) K
      ((verifyGreedy argmax (fun _ : Fin 1 => lp) fun _ => spec).acceptUntil 0) := by
  apply (acceptUntil_isInitial argmax (fun _ => lp) (fun _ => spec) 0).congr
  intro j hj
  have hdraft := draftAt_eq spec ⟨j, hj⟩
  have hhere := targetAt_castSucc argmax lp ⟨j, hj⟩
  simp only at hdraft hhere
  rw [hdraft, hhere]
  constructor
  · rintro ⟨_, h⟩
    exact h
  · intro h
    exact ⟨hj, h⟩

/-- **Temperature zero.** When the target rows are point masses at their argmax, sampling
verification agrees with `verify_greedy` exactly if the target's token does not change from row `j`
to row `j + 1` for any position `j` that greedy verification reaches. -/
theorem agreesWithGreedy_iff (hguard : guard ≤ 1) (hx : 0 ≤ samplerX ∧ samplerX < 1)
    {p : Fin (K + 1) → Fin V → F} (hp : ∀ i, p i = Pi.single (argmax (lp i)) 1)
    {q : Fin K → stdSimplex F (Fin V)} (hq : ∀ j, 0 < q j (spec j.succ)) {u : Fin K → F}
    (hu : ∀ j, 0 ≤ u j ∧ u j < 1) :
    AgreesWithGreedy argmax lp spec guard samplerX p (fun j => q j) u ↔
      ∀ j : Fin K, (∀ i < j, spec i.succ = argmax (lp i.castSucc)) →
        argmax (lp j.succ) = argmax (lp j.castSucc) := by
  have hsample := sampleAccept_isInitial_single argmax lp spec hguard hp hq hu
  have hgreedy := acceptUntil_isInitial_at argmax lp spec
  have hrecovery : (verifyGreedy argmax (fun _ : Fin 1 => lp) fun _ => spec).recoveryTokens 0 =
      targetAt argmax lp
        ((verifyGreedy argmax (fun _ : Fin 1 => lp) fun _ => spec).acceptUntil 0) :=
    recoveryTokens_eq argmax (fun _ => lp) (fun _ => spec) 0 _
      (Nat.mod_eq_of_lt (Nat.lt_succ_of_le hgreedy.le))
  have hweights : Resample.normalize (recoveryWeights guard samplerX p (fun j => q j)
        (sampleAccept guard p (fun j => q j) spec u)) =
      Pi.single (targetAt argmax lp
        (min (sampleAccept guard p (fun j => q j) spec u + 1) K)) 1 :=
    normalize_recoveryWeights_single argmax lp guard hx hp q _
      (Nat.mod_eq_of_lt (Nat.lt_succ_of_le (min_le_right _ _)))
  unfold AgreesWithGreedy
  rw [hweights, hrecovery, Resample.single_one_inj, hsample.shift_iff hgreedy]
  constructor
  · intro h j hbefore
    rw [← targetAt_succ argmax lp, ← targetAt_castSucc argmax lp]
    apply h j j.isLt
    intro i hi
    have hij := hbefore ⟨i, hi.trans j.isLt⟩ hi
    rwa [← draftAt_eq spec, ← targetAt_castSucc argmax lp] at hij
  · intro h j hj hbefore
    have hnext := h ⟨j, hj⟩ fun i hi => by
      rw [← draftAt_eq spec, ← targetAt_castSucc argmax lp]
      exact hbefore i hi
    rwa [← targetAt_succ argmax lp, ← targetAt_castSucc argmax lp] at hnext

/-- A fair draft over two tokens. -/
def fairDraft : stdSimplex ℚ (Fin 2) :=
  ⟨fun _ => 1 / 2, fun _ => by norm_num, by norm_num [Fin.sum_univ_two]⟩

/-- The argmax of two logits. -/
def argmaxPair (logits : Fin 2 → ℚ) : Fin 2 := if logits 0 < logits 1 then 1 else 0

/-- The target's token is 0 in row 0 and 1 in row 1, the draft token is 0: `verify_greedy` accepts
it, the row rejects it. -/
theorem not_agreesWithGreedy :
    ¬ AgreesWithGreedy argmaxPair ![![1, 0], ![0, 1]] ![0, 0] 0 (1 / 2)
      (fun i => Pi.single (argmaxPair (![![1, 0], ![0, 1]] i)) 1) (fun _ : Fin 1 => fairDraft)
      ![0] := by
  rintro ⟨haccept, _⟩
  revert haccept
  decide +kernel

theorem agreesWithGreedy_iff_const :
    AgreesWithGreedy argmaxPair ![![1, 0], ![1, 0]] ![0, 0] 0 (1 / 2)
      (fun i => Pi.single (argmaxPair (![![1, 0], ![1, 0]] i)) 1) (fun _ : Fin 1 => fairDraft)
      ![0] := by
  refine (agreesWithGreedy_iff argmaxPair ![![1, 0], ![1, 0]] ![0, 0] zero_le_one (by norm_num)
    (fun _ => rfl) (fun j => ?_) (fun j => ?_)).mpr (by decide +kernel)
  · show (0 : ℚ) < 1 / 2
    norm_num
  · show (0 : ℚ) ≤ ![0] j ∧ ![0] j < 1
    simp

end Greedy

end SsdTpu
