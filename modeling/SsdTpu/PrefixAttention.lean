import SsdTpu.Masks

/-!
# Attention over a growing cache

A pass over several queries under a mask against the queries one by one, each without a mask and
against the keys that are in the cache by then.

1. A softmax with masked entries is the softmax of the others (`nnSoftmax_comp`), so that masked
   keys can be dropped (`maskedDotProductAttention_drop`).
2. The masks of the branches and of the verify pass show each query a prefix of the keys
   (`buildBranchMask_shows`, `buildVerifyMask_shows`).
3. One pass is therefore the decoding of the queries one by one (`branchAttention_eq_decode`).
-/

namespace SsdTpu

variable {F : Type*} [Field F] {m n : ℕ}

/-! ## The kernel -/

/-- `PALLAS_ENABLED`. -/
def pallasEnabled : Bool := false

section Kernel

variable [LinearOrder F] {Q M D E : ℕ}

/-- `_pallas_branch_attention`: a placeholder that raises. -/
def pallasBranchAttention (_q : Fin Q → Fin D → F) (_k : Fin M → Fin D → F) (_v : Fin M → Fin E → F)
    (_mask : Fin Q → Fin M → WithBot F) : Except String (Fin Q → Fin E → Option F) :=
  .error "Pallas branch attention not yet implemented; profile first."

/-- `branch_attention`, without the warning that it logs. -/
def branchAttention (exp : F → F) (sqrt : ℕ → F) (q : Fin Q → Fin D → F) (k : Fin M → Fin D → F)
    (v : Fin M → Fin E → F) (mask : Fin Q → Fin M → WithBot F) (forcePallas : Bool) :
    Fin Q → Fin E → Option F :=
  let reference := maskedDotProductAttention exp sqrt q k v (some mask)
  if forcePallas && pallasEnabled then
    match pallasBranchAttention q k v mask with
    | .ok out => out
    | .error _ => reference
  else reference

/-- The Pallas path is never taken, and would fall back if it were. -/
theorem branchAttention_eq (exp : F → F) (sqrt : ℕ → F) (q : Fin Q → Fin D → F)
    (k : Fin M → Fin D → F) (v : Fin M → Fin E → F) (mask : Fin Q → Fin M → WithBot F)
    (forcePallas : Bool) : branchAttention exp sqrt q k v mask forcePallas =
      maskedDotProductAttention exp sqrt q k v (some mask) := by
  unfold branchAttention
  exact ite_self _

end Kernel

/-! ## Masked keys dropped -/

section Drop

variable (exp : F → F) {x : Fin m → WithBot F} {e : Fin n → Fin m}

variable (hx : ∀ j ∉ Set.range e, x j = ⊥)

include hx

omit [Field F] in
theorem sup_comp_of_bot [LinearOrder F] : Finset.univ.sup (x ∘ e) = Finset.univ.sup x := by
  apply le_antisymm
  · exact Finset.sup_le fun j _ => Finset.le_sup (f := x) (Finset.mem_univ (e j))
  · refine Finset.sup_le fun j _ => ?_
    by_cases hj : j ∈ Set.range e
    · obtain ⟨i, rfl⟩ := hj
      exact Finset.le_sup (f := x ∘ e) (Finset.mem_univ i)
    · rw [hx j hj]
      exact bot_le

variable (he : Function.Injective e)

include he

theorem sum_unnormalized_comp (max : F) :
    ∑ j, unnormalized exp (x ∘ e) max j = ∑ j, unnormalized exp x max j := by
  apply Fintype.sum_of_injective e he
  · intro j hj
    exact unnormalized_of_bot exp max (hx j hj)
  · intro j
    rfl

theorem nnSoftmax_comp [LinearOrder F] : nnSoftmax exp (x ∘ e) = nnSoftmax exp x ∘ e := by
  unfold nnSoftmax
  rw [sup_comp_of_bot hx]
  cases Finset.univ.sup x with
  | bot => rfl
  | coe max =>
    funext j
    show some (unnormalized exp (x ∘ e) max j / ∑ i, unnormalized exp (x ∘ e) max i) = _
    rw [sum_unnormalized_comp exp hx he]
    rfl

end Drop

section Attention

variable [LinearOrder F] {Q M N D E : ℕ} (exp : F → F) (sqrt : ℕ → F)

/-- **Masked keys can be dropped**: a row that sees exactly the keys in the range of `e`, with no
penalty, is the attention of its query alone to these keys, without a mask. -/
theorem maskedDotProductAttention_drop (q : Fin Q → Fin D → F) (k : Fin M → Fin D → F)
    (v : Fin M → Fin E → F) {mask : Fin Q → Fin M → WithBot F} {i : Fin Q} {e : Fin N → Fin M}
    (hN : 0 < N) (he : Function.Injective e) (hzero : ∀ j, mask i (e j) = 0)
    (hbot : ∀ j ∉ Set.range e, mask i j = ⊥) :
    maskedDotProductAttention exp sqrt q k v (some mask) i =
      maskedDotProductAttention exp sqrt (fun _ : Fin 1 => q i) (k ∘ e) (v ∘ e) none 0 := by
  have hx : ∀ j ∉ Set.range e, attentionScores sqrt q k (some mask) i j = ⊥ :=
    fun j hj => (attentionScores_eq_bot sqrt q k mask i j).mpr (hbot j hj)
  have hscores : attentionScores sqrt (fun _ : Fin 1 => q i) (k ∘ e) none 0 =
      attentionScores sqrt q k (some mask) i ∘ e := by
    funext j
    unfold attentionScores
    simp only [Function.comp_apply, hzero, add_zero]
  have hne : attentionScores sqrt q k (some mask) i (e ⟨0, hN⟩) ≠ ⊥ := by
    rw [ne_eq, attentionScores_eq_bot, hzero]
    exact WithBot.coe_ne_bot
  obtain ⟨max, hmax⟩ := exists_nnSoftmax_eq exp ⟨e ⟨0, hN⟩, hne⟩
  have hcomp := nnSoftmax_comp exp hx he
  rw [hmax, ← hscores] at hcomp
  rw [maskedDotProductAttention_eq exp sqrt v hmax,
    maskedDotProductAttention_eq exp sqrt (v ∘ e) hcomp]
  funext f
  congr 1
  symm
  apply Fintype.sum_of_injective e he
  · intro j hj
    rw [unnormalized_of_bot exp max (hx j hj), zero_div, zero_mul]
  · intro j
    rfl

end Attention

/-! ## Passes over several queries -/

/-- The first keys, or values, of a cache. -/
def firstKeys {α : Type*} {M N : ℕ} (h : N ≤ M) (k : Fin M → α) : Fin N → α := k ∘ Fin.castLE h

section Passes

variable [LinearOrder F] {D E trunkLen branchLen batch numBranches : ℕ} (exp : F → F)
  (sqrt : ℕ → F)

/-- The attention of one query to the keys and values in a cache, as a decoding step has it. -/
def decodeAttention {M : ℕ} (q : Fin D → F) (k : Fin M → Fin D → F) (v : Fin M → Fin E → F) :
    Fin E → Option F :=
  maskedDotProductAttention exp sqrt (fun _ : Fin 1 => q) k v none 0

theorem not_mem_range_castLE {M N : ℕ} {h : N ≤ M} {c : Fin M} :
    c ∉ Set.range (Fin.castLE h) ↔ N ≤ (c : ℕ) := by
  rw [Fin.range_castLE]
  simp only [Set.mem_ofPred_eq, not_lt]

theorem maskedDotProductAttention_firstKeys {Q M N : ℕ} (hN : 0 < N) (h : N ≤ M)
    (q : Fin Q → Fin D → F) (k : Fin M → Fin D → F) (v : Fin M → Fin E → F)
    {mask : Fin Q → Fin M → WithBot F} {i : Fin Q}
    (hmask : ∀ c, mask i c = if (c : ℕ) < N then 0 else ⊥) :
    maskedDotProductAttention exp sqrt q k v (some mask) i =
      decodeAttention exp sqrt (q i) (firstKeys h k) (firstKeys h v) := by
  apply maskedDotProductAttention_drop exp sqrt q k v hN (Fin.castLE_injective h)
  · intro j
    rw [hmask]
    exact if_pos j.isLt
  · intro c hc
    rw [hmask, if_neg (not_lt.mpr (not_mem_range_castLE.mp hc))]

omit [LinearOrder F] in
theorem buildBranchMask_shows (b : Fin (batch * numBranches)) (q c : Fin (trunkLen + branchLen)) :
    buildBranchMask batch numBranches trunkLen branchLen b q c =
      if (c : ℕ) < max trunkLen (q + 1) then (0 : WithBot F) else ⊥ := by
  rw [buildBranchMask_apply]
  refine if_congr ?_ rfl rfl
  unfold Visible
  omega

omit [LinearOrder F] in
theorem buildVerifyMask_shows (i : Fin branchLen) (c : Fin (trunkLen + branchLen)) :
    buildVerifyMask trunkLen branchLen i c =
      if (c : ℕ) < trunkLen + i + 1 then (0 : WithBot F) else ⊥ := by
  rw [buildVerifyMask_apply]
  refine if_congr ?_ rfl rfl
  unfold Visible
  omega

/-- **One pass decodes all positions**: under the branch mask the query at position `i` of a branch,
and under the verify mask query `i`, get what decoding it alone would, with the trunk and the branch
up to it in the cache. The trunk's own queries see all of the trunk, also what is after them. -/
theorem branchAttention_eq_decode (k : Fin (trunkLen + branchLen) → Fin D → F)
    (v : Fin (trunkLen + branchLen) → Fin E → F) (forcePallas : Bool) :
    (∀ (b : Fin (batch * numBranches)) (q : Fin (trunkLen + branchLen) → Fin D → F)
        (i : Fin branchLen),
      branchAttention exp sqrt q k v (buildBranchMask batch numBranches trunkLen branchLen b)
          forcePallas (Fin.natAdd trunkLen i) =
        decodeAttention exp sqrt (q (Fin.natAdd trunkLen i))
          (firstKeys (Nat.add_le_add_left i.isLt trunkLen) k)
          (firstKeys (Nat.add_le_add_left i.isLt trunkLen) v)) ∧
    (∀ (q : Fin branchLen → Fin D → F) (i : Fin branchLen),
      branchAttention exp sqrt q k v (buildVerifyMask trunkLen branchLen) forcePallas i =
        decodeAttention exp sqrt (q i) (firstKeys (Nat.add_le_add_left i.isLt trunkLen) k)
          (firstKeys (Nat.add_le_add_left i.isLt trunkLen) v)) ∧
    ∀ (b : Fin (batch * numBranches)) (q : Fin (trunkLen + branchLen) → Fin D → F)
        (i : Fin trunkLen),
      branchAttention exp sqrt q k v (buildBranchMask batch numBranches trunkLen branchLen b)
          forcePallas (Fin.castAdd branchLen i) =
        decodeAttention exp sqrt (q (Fin.castAdd branchLen i))
          (firstKeys (Nat.le_add_right trunkLen branchLen) k)
          (firstKeys (Nat.le_add_right trunkLen branchLen) v) := by
  simp only [branchAttention_eq]
  refine ⟨fun b q i => ?_, fun q i => ?_, fun b q i => ?_⟩
  · apply maskedDotProductAttention_firstKeys exp sqrt (Nat.succ_pos _)
    intro c
    rw [buildBranchMask_shows, Fin.val_natAdd, max_eq_right (by omega)]
    rfl
  · apply maskedDotProductAttention_firstKeys exp sqrt (Nat.succ_pos _)
    exact buildVerifyMask_shows i
  · apply maskedDotProductAttention_firstKeys exp sqrt (Nat.zero_lt_of_lt i.isLt)
    intro c
    rw [buildBranchMask_shows, Fin.val_castAdd, max_eq_left i.isLt]

end Passes

end SsdTpu
