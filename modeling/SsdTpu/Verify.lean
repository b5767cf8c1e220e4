import SsdTpu.Greedy

/-!
# Greedy verification

`verify_greedy` and its reference loop. An array of shape `[B, K+1, V]` is a function on `Fin`
types, so that the shapes are checked and `K` may be 0. The maximum position of a row of logits is
taken by a function `argmax`, the same for both sides; the products and sums of 0 and 1 that the
source computes in floating point are natural numbers here.

`verifyGreedy_spec` is the one fact about a row that the decoding loops use: the number of accepted
tokens is the longest initial segment of matches, and the recovery token is the target's at that
position.
-/

namespace SsdTpu

open Greedy (IsInitial)

variable {B K V : ℕ} {R α : Type*} [DecidableEq α]

/-- A batch of one has a first row. -/
instance instNeZeroOne : NeZero 1 := ⟨one_ne_zero⟩

structure VerifyResult (B K : ℕ) (α : Type*) where
  /-- The number of draft tokens accepted, `0, …, K`. -/
  acceptUntil : Fin B → ℕ
  recoveryTokens : Fin B → α
  acceptedMask : Fin B → Fin (K + 1) → Bool

/-- `zeros(..).at[:, 1:].set(positions < accept_until)`. -/
def acceptedMask (acceptUntil : Fin B → ℕ) (b : Fin B) : Fin (K + 1) → Bool :=
  Fin.cons false fun j : Fin K => decide ((j : ℕ) < acceptUntil b)

theorem acceptedMask_eq_true_iff (acceptUntil : Fin B → ℕ) (b : Fin B) (i : Fin (K + 1)) :
    acceptedMask acceptUntil b i = true ↔ 1 ≤ (i : ℕ) ∧ (i : ℕ) ≤ acceptUntil b := by
  refine Fin.cases ?_ (fun j => ?_) i
  · show (false = true) ↔ _
    simp
  · show decide ((j : ℕ) < acceptUntil b) = true ↔ _
    rw [decide_eq_true_eq, Fin.val_succ]
    omega

/-- `jnp.cumprod` of one row. -/
def cumprod (m : Fin K → ℕ) (j : Fin K) : ℕ := ∏ i, if i ≤ j then m i else 1

/-- `verify_greedy`. Index 0 of a speculation row is the prior recovery token, `1, …, K` are the
draft tokens. -/
def verifyGreedy (argmax : (Fin V → R) → α) (logitsP : Fin B → Fin (K + 1) → Fin V → R)
    (speculations : Fin B → Fin (K + 1) → α) : VerifyResult B K α :=
  let targetTokens := fun b i => argmax (logitsP b i)
  let draftTokens := fun b (j : Fin K) => speculations b j.succ
  let targetAtDraft := fun b (j : Fin K) => targetTokens b j.castSucc
  let matched := fun b j => decide (draftTokens b j = targetAtDraft b j)
  let cum := fun b => cumprod fun j => (matched b j).toNat
  let acceptUntil := fun b => ∑ j, cum b j
  let allAccepted := fun b => decide (acceptUntil b = K)
  let recoveryIfAll := fun b => targetTokens b (Fin.last K)
  -- `take_along_axis`; the index is at most `K` (`acceptUntil_le`)
  let recoveryIfPartial := fun b => targetTokens b (Fin.ofNat (K + 1) (acceptUntil b))
  { acceptUntil := acceptUntil
    recoveryTokens := fun b => if allAccepted b then recoveryIfAll b else recoveryIfPartial b
    acceptedMask := SsdTpu.acceptedMask acceptUntil }

/-- The inner loop of the reference: count matches up to the first mismatch. -/
def acceptLoop : List Bool → ℕ
  | [] => 0
  | true :: ms => acceptLoop ms + 1
  | false :: _ => 0

/-- `verify_greedy_torch`: the accepted counts and the recovery tokens. -/
def verifyGreedyTorch (argmax : (Fin V → R) → α) (logitsP : Fin B → Fin (K + 1) → Fin V → R)
    (speculations : Fin B → Fin (K + 1) → α) : (Fin B → ℕ) × (Fin B → α) :=
  let targetTokens := fun b i => argmax (logitsP b i)
  let draftTokens := fun b (j : Fin K) => speculations b j.succ
  let targetAtDraft := fun b (j : Fin K) => targetTokens b j.castSucc
  let matched := fun b j => decide (draftTokens b j = targetAtDraft b j)
  let acc := fun b => acceptLoop (List.ofFn (matched b))
  (acc, fun b =>
    if acc b = K then targetTokens b (Fin.last K) else targetTokens b (Fin.ofNat (K + 1) (acc b)))

/-! ## Counting the accepted tokens -/

theorem cumprod_zero (m : Fin (K + 1) → ℕ) : cumprod m 0 = m 0 := by
  unfold cumprod
  rw [Fin.prod_univ_succ]
  simp [Fin.succ_ne_zero]

theorem cumprod_succ (m : Fin (K + 1) → ℕ) (j : Fin K) :
    cumprod m j.succ = m 0 * cumprod (fun i => m i.succ) j := by
  unfold cumprod
  rw [Fin.prod_univ_succ]
  simp

theorem sum_cumprod (m : Fin K → Bool) :
    ∑ j, cumprod (fun i => (m i).toNat) j = acceptLoop (List.ofFn m) := by
  induction K with
  | zero => rfl
  | succ K ih =>
    rw [Fin.sum_univ_succ, cumprod_zero, List.ofFn_succ]
    simp only [cumprod_succ]
    rw [← Finset.mul_sum, ih fun i => m i.succ]
    cases m 0
    · simp [acceptLoop]
    · simp [acceptLoop, Nat.add_comm]

theorem acceptLoop_isInitial (ms : List Bool) :
    IsInitial (fun j => ms[j]? = some true) ms.length (acceptLoop ms) := by
  induction ms with
  | nil => exact ⟨le_rfl, by simp [acceptLoop], by simp⟩
  | cons m ms ih =>
    cases m with
    | false => exact ⟨Nat.zero_le _, by simp [acceptLoop], by simp [acceptLoop]⟩
    | true =>
      refine ⟨Nat.succ_le_succ ih.le, fun j hj => ?_, fun hk => ?_⟩
      · cases j with
        | zero => rfl
        | succ j => simpa using ih.holds j (Nat.lt_of_succ_lt_succ hj)
      · simpa [acceptLoop] using ih.stops (by simpa [acceptLoop] using hk)

theorem acceptLoop_ofFn (m : Fin K → Bool) :
    IsInitial (fun j => ∃ h : j < K, m ⟨j, h⟩ = true) K (acceptLoop (List.ofFn m)) := by
  have h := acceptLoop_isInitial (List.ofFn m)
  rw [List.length_ofFn] at h
  apply h.congr
  intro j hj
  simp [hj]

/-! ## One row -/

section Row

variable (argmax : (Fin V → R) → α) (logitsP : Fin B → Fin (K + 1) → Fin V → R)
  (speculations : Fin B → Fin (K + 1) → α) (b : Fin B)

/-- Draft position `j` matches: the draft token is the target's at that position. -/
def MatchedAt (j : ℕ) : Prop :=
  ∃ h : j < K, speculations b (Fin.succ ⟨j, h⟩) = argmax (logitsP b (Fin.castSucc ⟨j, h⟩))

theorem acceptUntil_eq_acceptLoop :
    (verifyGreedy argmax logitsP speculations).acceptUntil b =
      acceptLoop (List.ofFn fun j : Fin K =>
        decide (speculations b j.succ = argmax (logitsP b j.castSucc))) :=
  sum_cumprod _

theorem acceptUntil_isInitial :
    IsInitial (MatchedAt argmax logitsP speculations b) K
      ((verifyGreedy argmax logitsP speculations).acceptUntil b) := by
  rw [acceptUntil_eq_acceptLoop]
  apply (acceptLoop_ofFn _).congr
  intro j hj
  simp only [MatchedAt, decide_eq_true_eq]

theorem acceptUntil_le : (verifyGreedy argmax logitsP speculations).acceptUntil b ≤ K :=
  (acceptUntil_isInitial argmax logitsP speculations b).le

theorem recoveryTokens_eq (i : Fin (K + 1))
    (hi : (i : ℕ) = (verifyGreedy argmax logitsP speculations).acceptUntil b) :
    (verifyGreedy argmax logitsP speculations).recoveryTokens b = argmax (logitsP b i) := by
  have hof : Fin.ofNat (K + 1) ((verifyGreedy argmax logitsP speculations).acceptUntil b) = i := by
    apply Fin.ext
    rw [← hi, Fin.val_ofNat, Nat.mod_eq_of_lt i.isLt]
  show (if decide ((verifyGreedy argmax logitsP speculations).acceptUntil b = K) = true then
    argmax (logitsP b (Fin.last K)) else argmax (logitsP b (Fin.ofNat (K + 1)
      ((verifyGreedy argmax logitsP speculations).acceptUntil b)))) = _
  rw [hof]
  split_ifs with hall
  · have : i = Fin.last K := Fin.ext (hi.trans (of_decide_eq_true hall))
    rw [this]
  · rfl

/-- **One row of greedy verification**, against the tokens `t i` that the target has at each
position. -/
theorem verifyGreedy_spec {t : ℕ → α} (ht : ∀ i : Fin (K + 1), argmax (logitsP b i) = t i) :
    IsInitial (fun j => ∃ h : j < K, speculations b (Fin.succ ⟨j, h⟩) = t j) K
        ((verifyGreedy argmax logitsP speculations).acceptUntil b) ∧
      (verifyGreedy argmax logitsP speculations).recoveryTokens b =
        t ((verifyGreedy argmax logitsP speculations).acceptUntil b) := by
  have hle := acceptUntil_le argmax logitsP speculations b
  constructor
  · apply (acceptUntil_isInitial argmax logitsP speculations b).congr
    intro j hj
    simp only [MatchedAt, ht, Fin.val_castSucc]
  · rw [recoveryTokens_eq argmax logitsP speculations b
      ⟨_, Nat.lt_succ_of_le hle⟩ rfl, ht]

end Row

/-- **Greedy verification parity.** In every row the vectorised verification and the reference loop
accept the same number of draft tokens, the longest prefix that equals the target tokens at
positions `0, 1, …`, and recover with the target token at that number; the mask marks exactly the
accepted indices. -/
theorem verifyGreedy_parity (argmax : (Fin V → R) → α)
    (logitsP : Fin B → Fin (K + 1) → Fin V → R) (speculations : Fin B → Fin (K + 1) → α)
    (b : Fin B) :
    (verifyGreedy argmax logitsP speculations).acceptUntil b =
        (verifyGreedyTorch argmax logitsP speculations).1 b ∧
      (verifyGreedy argmax logitsP speculations).recoveryTokens b =
        (verifyGreedyTorch argmax logitsP speculations).2 b ∧
      (verifyGreedy argmax logitsP speculations).acceptUntil b ≤ K ∧
      (∀ j : Fin K, (j : ℕ) < (verifyGreedy argmax logitsP speculations).acceptUntil b →
        speculations b j.succ = argmax (logitsP b j.castSucc)) ∧
      (∀ j : Fin K, (j : ℕ) = (verifyGreedy argmax logitsP speculations).acceptUntil b →
        speculations b j.succ ≠ argmax (logitsP b j.castSucc)) ∧
      (∀ i : Fin (K + 1), (i : ℕ) = (verifyGreedy argmax logitsP speculations).acceptUntil b →
        (verifyGreedy argmax logitsP speculations).recoveryTokens b = argmax (logitsP b i)) ∧
      ∀ i : Fin (K + 1), (verifyGreedy argmax logitsP speculations).acceptedMask b i = true ↔
        1 ≤ (i : ℕ) ∧ (i : ℕ) ≤ (verifyGreedy argmax logitsP speculations).acceptUntil b := by
  have hinit := acceptUntil_isInitial argmax logitsP speculations b
  have hacc := acceptUntil_eq_acceptLoop argmax logitsP speculations b
  refine ⟨hacc, ?_, hinit.le, fun j hj => ?_, fun j hj heq => ?_,
    recoveryTokens_eq argmax logitsP speculations b,
    acceptedMask_eq_true_iff (verifyGreedy argmax logitsP speculations).acceptUntil b⟩
  · show (if decide ((verifyGreedy argmax logitsP speculations).acceptUntil b = K) = true
        then argmax (logitsP b (Fin.last K))
        else argmax (logitsP b (Fin.ofNat (K + 1)
          ((verifyGreedy argmax logitsP speculations).acceptUntil b)))) = _
    rw [hacc]
    simp only [decide_eq_true_eq]
    rfl
  · obtain ⟨_, h⟩ := hinit.holds j hj
    exact h
  · exact hinit.stops (hj ▸ j.isLt) (hj ▸ ⟨j.isLt, heq⟩)

end SsdTpu
