import SsdTpu.LastWrite
import Mathlib.Algebra.Order.Field.Basic
import Mathlib.Algebra.Order.Monoid.WithTop

/-!
# Attention masks

The entries of a mask are `0` and `-inf`, which is `⊥`.

1. Each step of the loops sets the slice of one row, so that an entry is read off the writes that
   hit it (`buildBranchMask_apply`, `buildVerifyMask_apply`).
2. The attention of a row that sees a key is an average over the keys it sees (`Normalises`).
3. Every query sees itself, hence this holds for the two masks (`masks_context`).
-/

namespace SsdTpu

variable {α F : Type*} {m n : ℕ}

/-- `row.at[lo:hi].set(x)`. -/
def setSlice (row : Fin n → α) (lo hi : ℕ) (x : α) : Fin n → α := fun c =>
  if lo ≤ (c : ℕ) ∧ (c : ℕ) < hi then x else row c

/-- A mask of queries against keys for every branch. -/
abbrev BranchMask (F : Type*) (rows total : ℕ) := Fin rows → Fin total → Fin total → WithBot F

/-- The body of the loop over the branches: the trunk is visible to all queries, and the branch
portion is causal. -/
def maskBranch [Zero F] (trunkLen branchLen : ℕ) (mask : BranchMask F m (trunkLen + branchLen))
    (b : Fin m) : BranchMask F m (trunkLen + branchLen) :=
  let mask := Function.update mask b fun q => setSlice (mask b q) 0 trunkLen 0
  (List.finRange branchLen).foldl
    (fun mask i =>
      let qIdx := Fin.natAdd trunkLen i
      Function.update mask b (Function.update (mask b) qIdx
        (setSlice (mask b qIdx) trunkLen (trunkLen + i + 1) 0)))
    mask

def buildBranchMask [Zero F] (batch numBranches trunkLen branchLen : ℕ) :
    BranchMask F (batch * numBranches) (trunkLen + branchLen) :=
  (List.finRange (batch * numBranches)).foldl (maskBranch trunkLen branchLen) fun _ _ _ => ⊥

def buildVerifyMask [Zero F] (seqLen queryLen : ℕ) :
    Fin queryLen → Fin (seqLen + queryLen) → WithBot F :=
  let mask := fun _ => setSlice (fun _ => ⊥) 0 seqLen 0
  (List.finRange queryLen).foldl
    (fun mask i => Function.update mask i (setSlice (mask i) seqLen (seqLen + i + 1) 0)) mask

section Attention

variable {Q M D E : ℕ}

/-- The exponentials of `jax.nn.softmax`, where that of `-inf` is zero. -/
def unnormalized [Field F] (exp : F → F) (x : Fin m → WithBot F) (max : F) (j : Fin m) : F :=
  match x j with
  | ⊥ => 0
  | (y : F) => exp (y - max)

/-- `jax.nn.softmax` of a row with masked entries. A row of `-inf` alone has the maximum `-inf`, and
all its entries become `nan`, which is `none`. -/
def nnSoftmax [Field F] [LinearOrder F] (exp : F → F) (x : Fin m → WithBot F) :
    Fin m → Option F :=
  match Finset.univ.sup x with
  | ⊥ => fun _ => none
  | (max : F) => fun j => some (unnormalized exp x max j / ∑ i, unnormalized exp x max i)

/-- The `scores` under the additive mask. -/
def attentionScores [Field F] (sqrt : ℕ → F) (q : Fin Q → Fin D → F) (k : Fin M → Fin D → F)
    (mask : Option (Fin Q → Fin M → WithBot F)) : Fin Q → Fin M → WithBot F :=
  let scores := fun i j => (((∑ d, q i d * k j d) / sqrt D : F) : WithBot F)
  match mask with
  | none => scores
  | some mask => fun i j => scores i j + mask i j

/-- `masked_dot_product_attention` on the last two axes. A weight that is `nan` makes the sum
`nan`. -/
def maskedDotProductAttention [Field F] [LinearOrder F] (exp : F → F) (sqrt : ℕ → F)
    (q : Fin Q → Fin D → F) (k : Fin M → Fin D → F) (v : Fin M → Fin E → F)
    (mask : Option (Fin Q → Fin M → WithBot F)) : Fin Q → Fin E → Option F := fun i e =>
  let weights := nnSoftmax exp (attentionScores sqrt q k mask i)
  if h : ∀ j, (weights j).isSome then some (∑ j, (weights j).get (h j) * v j e) else none

end Attention

/-! ## The loops -/

theorem update_setSlice (mask : Fin m → Fin n → α) (i q : Fin m) (lo hi : ℕ) (x : α) (c : Fin n) :
    Function.update mask i (setSlice (mask i) lo hi x) q c =
      if q = i ∧ lo ≤ (c : ℕ) ∧ (c : ℕ) < hi then x else mask q c := by
  by_cases hq : q = i
  · rw [hq, Function.update_self]
    unfold setSlice
    simp only [true_and]
  · rw [Function.update_of_ne hq, if_neg fun h => hq h.1]

theorem update_update_setSlice {k : ℕ} (mask : Fin m → Fin k → Fin n → α) (b b' : Fin m)
    (r q : Fin k) (lo hi : ℕ) (x : α) (c : Fin n) :
    Function.update mask b (Function.update (mask b) r (setSlice (mask b r) lo hi x)) b' q c =
      if b' = b ∧ q = r ∧ lo ≤ (c : ℕ) ∧ (c : ℕ) < hi then x else mask b' q c := by
  by_cases hb : b' = b
  · rw [hb, Function.update_self, update_setSlice]
    simp only [true_and]
  · rw [Function.update_of_ne hb, if_neg fun h => hb h.1]

/-- Key `c` is meant for query `q`: it is in the trunk, or on the branch and not after `q`. -/
def Visible (trunkLen q c : ℕ) : Prop := c < trunkLen ∨ trunkLen ≤ c ∧ c ≤ q

instance (trunkLen q c : ℕ) : Decidable (Visible trunkLen q c) :=
  inferInstanceAs (Decidable (_ ∨ _ ∧ _))

section Loops

variable [Zero F] {trunkLen branchLen : ℕ}

theorem exists_branchRow {q c : Fin (trunkLen + branchLen)} :
    (∃ i ∈ List.finRange branchLen, q = Fin.natAdd trunkLen i ∧ trunkLen ≤ (c : ℕ) ∧
      (c : ℕ) < trunkLen + i + 1) ↔ trunkLen ≤ (c : ℕ) ∧ (c : ℕ) ≤ q := by
  constructor
  · rintro ⟨i, _, rfl, hle, hlt⟩
    exact ⟨hle, Nat.le_of_lt_succ hlt⟩
  · rintro ⟨hle, hcq⟩
    have hq := q.isLt
    refine ⟨⟨(q : ℕ) - trunkLen, by omega⟩, List.mem_finRange _, Fin.ext ?_, hle, ?_⟩
    · show (q : ℕ) = trunkLen + ((q : ℕ) - trunkLen)
      omega
    · show (c : ℕ) < trunkLen + ((q : ℕ) - trunkLen) + 1
      omega

/-- A step of the outer loop opens the trunk and the causal part of one branch. -/
theorem maskBranch_apply (mask : BranchMask F m (trunkLen + branchLen)) (b b' : Fin m)
    (q c : Fin (trunkLen + branchLen)) :
    maskBranch trunkLen branchLen mask b b' q c =
      if b' = b ∧ Visible trunkLen q c then 0 else mask b' q c := by
  have htrunk : Function.update mask b (fun q => setSlice (mask b q) 0 trunkLen 0) b' q c =
      if b' = b ∧ (c : ℕ) < trunkLen then 0 else mask b' q c := by
    by_cases hb : b' = b
    · rw [hb, Function.update_self]
      unfold setSlice
      simp only [true_and, Nat.zero_le]
    · rw [Function.update_of_ne hb, if_neg fun h => hb h.1]
  have hcausal : b' = b ∧ trunkLen ≤ (c : ℕ) ∧ (c : ℕ) ≤ q ↔ ∃ i ∈ List.finRange branchLen,
      b' = b ∧ q = Fin.natAdd trunkLen i ∧ trunkLen ≤ (c : ℕ) ∧ (c : ℕ) < trunkLen + i + 1 := by
    rw [← exists_branchRow]
    constructor
    · rintro ⟨hb, i, hi, hrow⟩
      exact ⟨i, hi, hb, hrow⟩
    · rintro ⟨i, hi, hb, hrow⟩
      exact ⟨hb, i, hi, hrow⟩
  unfold maskBranch
  refine (LastWrite.read_foldl_eq_ite (fun mask : BranchMask F m _ => mask b' q c) _
    (fun mask i => update_update_setSlice mask b b' (Fin.natAdd trunkLen i) q trunkLen
      (trunkLen + i + 1) 0 c) hcausal _).trans ?_
  rw [htrunk, ← ite_or]
  refine if_congr ?_ rfl rfl
  rw [← and_or_left, or_comm]
  rfl

theorem buildBranchMask_apply (batch numBranches : ℕ) (b : Fin (batch * numBranches))
    (q c : Fin (trunkLen + branchLen)) :
    buildBranchMask batch numBranches trunkLen branchLen b q c =
      if Visible trunkLen q c then (0 : WithBot F) else ⊥ := by
  unfold buildBranchMask
  exact LastWrite.read_foldl_eq_ite (fun mask : BranchMask F _ _ => mask b q c) _
    (fun mask i => maskBranch_apply mask i b q c)
    ⟨fun h => ⟨b, List.mem_finRange b, rfl, h⟩, fun ⟨_, _, _, h⟩ => h⟩ _

theorem buildBranchMask_eq_zero {batch numBranches : ℕ} (b : Fin (batch * numBranches))
    (q c : Fin (trunkLen + branchLen)) :
    buildBranchMask batch numBranches trunkLen branchLen b q c = (0 : WithBot F) ↔
      Visible trunkLen q c := by
  rw [buildBranchMask_apply]
  split_ifs with hvis
  · exact iff_of_true rfl hvis
  · exact iff_of_false WithBot.coe_ne_bot.symm hvis

theorem buildVerifyMask_apply (i : Fin branchLen) (c : Fin (trunkLen + branchLen)) :
    buildVerifyMask trunkLen branchLen i c =
      if Visible trunkLen (trunkLen + i) c then (0 : WithBot F) else ⊥ := by
  have hcausal : trunkLen ≤ (c : ℕ) ∧ (c : ℕ) ≤ trunkLen + i ↔ ∃ j ∈ List.finRange branchLen,
      i = j ∧ trunkLen ≤ (c : ℕ) ∧ (c : ℕ) < trunkLen + j + 1 :=
    ⟨fun h => ⟨i, List.mem_finRange i, rfl, h.1, Nat.lt_succ_of_le h.2⟩,
      fun ⟨_, _, hij, hle, hlt⟩ => hij ▸ ⟨hle, Nat.le_of_lt_succ hlt⟩⟩
  unfold buildVerifyMask
  refine (LastWrite.read_foldl_eq_ite
    (fun mask : Fin branchLen → Fin (trunkLen + branchLen) → WithBot F => mask i c) _
    (fun mask j => update_setSlice mask j i trunkLen (trunkLen + j + 1) 0 c) hcausal _).trans ?_
  unfold setSlice
  rw [← ite_or]
  refine if_congr ?_ rfl rfl
  unfold Visible
  omega

theorem buildBranchMask_diag {batch numBranches : ℕ} (b : Fin (batch * numBranches))
    (q : Fin (trunkLen + branchLen)) :
    buildBranchMask batch numBranches trunkLen branchLen b q q ≠ (⊥ : WithBot F) := by
  have hvis : Visible trunkLen q q := by
    unfold Visible
    omega
  rw [buildBranchMask_apply, if_pos hvis]
  exact WithBot.coe_ne_bot

theorem buildVerifyMask_diag (i : Fin branchLen) :
    buildVerifyMask trunkLen branchLen i (Fin.natAdd trunkLen i) ≠ (⊥ : WithBot F) := by
  have hvis : Visible trunkLen (trunkLen + i) (Fin.natAdd trunkLen i : ℕ) :=
    Or.inr ⟨Nat.le_add_right _ _, le_refl _⟩
  rw [buildVerifyMask_apply, if_pos hvis]
  exact WithBot.coe_ne_bot

end Loops

/-! ## The attention -/

section Attention

variable [Field F] {Q M D E : ℕ} (exp : F → F) (sqrt : ℕ → F)

theorem attentionScores_eq_bot (q : Fin Q → Fin D → F) (k : Fin M → Fin D → F)
    (mask : Fin Q → Fin M → WithBot F) (i : Fin Q) (j : Fin M) :
    attentionScores sqrt q k (some mask) i j = ⊥ ↔ mask i j = ⊥ := by
  unfold attentionScores
  simp only [WithBot.add_eq_bot, WithBot.coe_ne_bot, false_or]

variable {x : Fin m → WithBot F}

theorem unnormalized_of_bot (max : F) {j : Fin m} (hj : x j = ⊥) :
    unnormalized exp x max j = 0 := by
  unfold unnormalized
  rw [hj]

variable [LinearOrder F]

theorem exists_nnSoftmax_eq (h : ∃ j, x j ≠ ⊥) :
    ∃ max, nnSoftmax exp x =
      fun j => some (unnormalized exp x max j / ∑ i, unnormalized exp x max i) := by
  obtain ⟨j, hj⟩ := h
  unfold nnSoftmax
  cases hmax : Finset.univ.sup x with
  | bot => exact absurd (le_bot_iff.mp (hmax ▸ Finset.le_sup (Finset.mem_univ j))) hj
  | coe max => exact ⟨max, rfl⟩

theorem maskedDotProductAttention_eq {q : Fin Q → Fin D → F} {k : Fin M → Fin D → F}
    (v : Fin M → Fin E → F) {mask : Option (Fin Q → Fin M → WithBot F)} {i : Fin Q}
    {w : Fin M → F} (h : nnSoftmax exp (attentionScores sqrt q k mask i) = fun j => some (w j)) :
    maskedDotProductAttention exp sqrt q k v mask i = fun e => some (∑ j, w j * v j e) := by
  funext e
  unfold maskedDotProductAttention
  simp only [h, Option.isSome_some, implies_true, dite_true, Option.get_some]

/-- The attention of a row is an average over the keys that the mask shows, with weights that are
positive and sum to `1`. -/
def Normalises (mask : Fin Q → Fin M → WithBot F) (i : Fin Q) : Prop :=
  ∀ (D E : ℕ) (q : Fin Q → Fin D → F) (k : Fin M → Fin D → F) (v : Fin M → Fin E → F),
    ∃ w : Fin M → F, (∀ j, mask i j ≠ ⊥ → 0 < w j) ∧ (∀ j, mask i j = ⊥ → w j = 0) ∧
      ∑ j, w j = 1 ∧
      maskedDotProductAttention exp sqrt q k v (some mask) i = fun e => some (∑ j, w j * v j e)

variable {exp} (hexp : ∀ y, 0 < exp y)

include hexp

theorem unnormalized_pos (max : F) {j : Fin m} (hj : x j ≠ ⊥) : 0 < unnormalized exp x max j := by
  unfold unnormalized
  cases h : x j with
  | bot => exact absurd h hj
  | coe y => exact hexp (y - max)

variable [IsStrictOrderedRing F]

theorem sum_unnormalized_pos (max : F) (h : ∃ j, x j ≠ ⊥) :
    0 < ∑ j, unnormalized exp x max j := by
  obtain ⟨j, hj⟩ := h
  refine Finset.sum_pos' (fun i _ => ?_) ⟨j, Finset.mem_univ j, unnormalized_pos hexp max hj⟩
  by_cases hi : x i = ⊥
  · exact (unnormalized_of_bot exp max hi).ge
  · exact (unnormalized_pos hexp max hi).le

theorem normalises_of_ne_bot {mask : Fin Q → Fin M → WithBot F} {i : Fin Q}
    (h : ∃ j, mask i j ≠ ⊥) : Normalises exp sqrt mask i := by
  intro D E q k v
  have hx : ∃ j, attentionScores sqrt q k (some mask) i j ≠ ⊥ := by
    simpa only [ne_eq, attentionScores_eq_bot] using h
  obtain ⟨max, hmax⟩ := exists_nnSoftmax_eq exp hx
  have hpos := sum_unnormalized_pos hexp max hx
  refine ⟨_, fun j hj => ?_, fun j hj => ?_, ?_, maskedDotProductAttention_eq exp sqrt v hmax⟩
  · refine div_pos (unnormalized_pos hexp max ?_) hpos
    rwa [ne_eq, attentionScores_eq_bot]
  · rw [unnormalized_of_bot exp max ((attentionScores_eq_bot sqrt q k mask i j).mpr hj), zero_div]
  · rw [← Finset.sum_div, div_self hpos.ne']

end Attention

/-! ## The context -/

section Context

variable [Field F] [LinearOrder F] (batch numBranches trunkLen branchLen : ℕ)

variable [IsStrictOrderedRing F]

/-- **The masks admit the intended context**: the trunk and the part of the branch up to the query,
in both masks alike. Every query sees itself, so that the softmax of the attention is an average
over a non-empty set of keys. -/
theorem masks_context :
    (∀ (b : Fin (batch * numBranches)) (q c : Fin (trunkLen + branchLen)),
      (buildBranchMask batch numBranches trunkLen branchLen b q c = (0 : WithBot F) ↔
        (c : ℕ) < trunkLen ∨ trunkLen ≤ (c : ℕ) ∧ (c : ℕ) ≤ q) ∧
      (¬ ((c : ℕ) < trunkLen ∨ trunkLen ≤ (c : ℕ) ∧ (c : ℕ) ≤ q) →
        buildBranchMask batch numBranches trunkLen branchLen b q c = (⊥ : WithBot F))) ∧
    (∀ (b : Fin (batch * numBranches)) (i : Fin branchLen),
      (buildVerifyMask trunkLen branchLen i : Fin (trunkLen + branchLen) → WithBot F) =
        buildBranchMask batch numBranches trunkLen branchLen b (Fin.natAdd trunkLen i)) ∧
    (∀ (b : Fin (batch * numBranches)) (q : Fin (trunkLen + branchLen)),
      ∃ c, buildBranchMask batch numBranches trunkLen branchLen b q c ≠ (⊥ : WithBot F)) ∧
    (∀ i : Fin branchLen, ∃ c, buildVerifyMask trunkLen branchLen i c ≠ (⊥ : WithBot F)) ∧
    ∀ (exp : F → F) (sqrt : ℕ → F), (∀ y, 0 < exp y) →
      (∀ b q, Normalises exp sqrt (buildBranchMask batch numBranches trunkLen branchLen b) q) ∧
      ∀ i, Normalises exp sqrt (buildVerifyMask trunkLen branchLen) i := by
  refine ⟨fun b q c => ?_, fun b i => ?_, fun b q => ⟨q, buildBranchMask_diag b q⟩,
    fun i => ⟨_, buildVerifyMask_diag i⟩, fun exp sqrt hexp => ⟨fun b q => ?_, fun i => ?_⟩⟩
  · exact ⟨buildBranchMask_eq_zero b q c,
      fun hvis => (buildBranchMask_apply batch numBranches b q c).trans (if_neg hvis)⟩
  · funext c
    rw [buildVerifyMask_apply, buildBranchMask_apply]
    rfl
  · exact normalises_of_ne_bot sqrt hexp ⟨q, buildBranchMask_diag b q⟩
  · exact normalises_of_ne_bot sqrt hexp ⟨_, buildVerifyMask_diag i⟩

theorem masks_context_rat : buildBranchMask 1 1 1 2 0 2 1 = (0 : WithBot ℚ) ∧
    buildBranchMask 1 1 1 2 0 1 2 = (⊥ : WithBot ℚ) ∧
    Normalises (fun y : ℚ => 1 + |y|) (fun _ => 1) (buildVerifyMask 1 2) 0 := by
  have h := masks_context (F := ℚ) 1 1 1 2
  exact ⟨(h.1 0 2 1).1.mpr (by decide), (h.1 0 1 2).2 (by decide),
    (h.2.2.2.2 _ _ fun y => add_pos_of_pos_of_nonneg one_pos (abs_nonneg y)).2 0⟩

end Context

end SsdTpu
