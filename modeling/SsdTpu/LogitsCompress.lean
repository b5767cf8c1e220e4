import Mathlib.Algebra.Order.Field.Rat
import SsdTpu.LastWrite

/-!
# Compressed draft logits

`compress_greedy_logits` keeps the probability of each spec token, and `decompress_greedy_logits`
writes its logarithm back into rows of `-1e9`. Tokens of a vocabulary of `V` are elements of
`Fin V`; the exponential and the logarithm are functions `exp` and `log`.

The index of the scatter is a slice, an integer and an index array: it addresses the places
`(r, i, spec[b, i])` for all rows `r` and `b`, so that every row gets the tokens of all rows
(`scatterSet_of_mem`). The round trip keeps the rows apart only if all rows agree (`roundTrip_iff`).
-/

namespace SsdTpu

variable {α F : Type*} [Field F] {B K V : ℕ}

/-- `jax_nn_softmax` of one row. -/
def jaxNnSoftmax [LinearOrder F] (exp : F → F) (x : Fin V → F) (v : Fin V) : F :=
  let max := Finset.univ.sup' ⟨v, Finset.mem_univ v⟩ x
  let e := fun t => exp (x t - max)
  e v / ∑ t, e t

/-- The probabilities of the spec tokens. -/
def compressGreedyLogits (softmax : (Fin V → F) → Fin V → F)
    (draftLogits : Fin B → Fin K → Fin V → F) (specTokens : Fin B → Fin K → Fin V) :
    Fin B → Fin K → F :=
  let probs := fun b i => softmax (draftLogits b i)
  fun b i => probs b i (specTokens b i)

/-- `logits.at[:, i, tok].set(vals)`: the place `(r, i, tok[b])` is set to `vals[b]` for every `r`
and `b`. Two updates of one place come in no specified order; `order` is one. -/
def scatterSet (order : Equiv.Perm (Fin B × Fin B)) (logits : Fin B → Fin K → Fin V → α)
    (i : Fin K) (tok : Fin B → Fin V) (vals : Fin B → α) : Fin B → Fin K → Fin V → α :=
  ((List.finRange B ×ˢ List.finRange B).map order).foldl
    (fun logits u r j v => if r = u.1 ∧ j = i ∧ v = tok u.2 then vals u.2 else logits r j v) logits

def decompressGreedyLogits (log : F → F) (order : Fin K → Equiv.Perm (Fin B × Fin B))
    (tokenProbs : Fin B → Fin K → F) (specTokens : Fin B → Fin K → Fin V) :
    Fin B → Fin K → Fin V → F :=
  (List.finRange K).foldl
    (fun logits i => scatterSet (order i) logits i (fun b => specTokens b i)
      fun b => log (tokenProbs b i + 1e-12))
    fun _ _ _ => -1e9

/-! ## What the scatter writes -/

section Scatter

variable (order : Equiv.Perm (Fin B × Fin B)) (logits : Fin B → Fin K → Fin V → α) (i : Fin K)
  (tok : Fin B → Fin V) (vals : Fin B → α)

theorem scatterSet_of_ne {r : Fin B} {j : Fin K} {v : Fin V} (h : j ≠ i ∨ ∀ b, tok b ≠ v) :
    scatterSet order logits i tok vals r j v = logits r j v :=
  LastWrite.read_foldl_of_not_hit (fun logits : Fin B → Fin K → Fin V → α => logits r j v)
    (fun u => r = u.1 ∧ j = i ∧ v = tok u.2) (fun _ _ hu => if_neg hu)
    (fun u _ hu => h.elim (fun hj => hj hu.2.1) fun ht => ht u.2 hu.2.2.symm) logits

theorem mem_updates (u : Fin B × Fin B) :
    u ∈ (List.finRange B ×ˢ List.finRange B).map order := by
  refine List.mem_map.mpr ⟨order.symm u, ?_, Equiv.apply_symm_apply order u⟩
  exact List.mem_product.mpr ⟨List.mem_finRange _, List.mem_finRange _⟩

/-- Where some row has the token, every row gets the value of such a row. -/
theorem scatterSet_of_mem (r b : Fin B) :
    ∃ b', tok b' = tok b ∧ scatterSet order logits i tok vals r i (tok b) = vals b' := by
  have hhit : ∃ u : Fin B × Fin B, (r = u.1 ∧ i = i ∧ tok b = tok u.2) ∧
      scatterSet order logits i tok vals r i (tok b) = vals u.2 :=
    LastWrite.read_foldl_of_hit (fun logits : Fin B → Fin K → Fin V → α => logits r i (tok b))
      (fun u : Fin B × Fin B => r = u.1 ∧ i = i ∧ tok b = tok u.2) (fun u => vals u.2)
      (fun _ _ hu => if_pos hu) (fun _ _ hu => if_neg hu)
      ⟨(r, b), mem_updates order (r, b), rfl, rfl, rfl⟩ logits
  obtain ⟨u, ⟨-, -, htok⟩, hread⟩ := hhit
  exact ⟨u.2, htok.symm, hread⟩

theorem exists_order (r b : Fin B) : ∃ order : Equiv.Perm (Fin B × Fin B),
    ∀ (logits : Fin B → Fin K → Fin V → α) (i : Fin K) (tok : Fin B → Fin V) (vals : Fin B → α),
      scatterSet order logits i tok vals r i (tok b) = vals b := by
  have hne : List.finRange B ×ˢ List.finRange B ≠ [] :=
    List.ne_nil_of_mem (List.mem_product.mpr ⟨List.mem_finRange r, List.mem_finRange b⟩)
  obtain ⟨updates, last, hsplit⟩ : ∃ updates last,
      List.finRange B ×ˢ List.finRange B = updates ++ [last] :=
    ⟨_, _, (List.dropLast_append_getLast hne).symm⟩
  refine ⟨Equiv.swap last (r, b), fun logits i tok vals => ?_⟩
  unfold scatterSet
  rw [hsplit, List.map_append, List.map_cons, List.map_nil, Equiv.swap_apply_left]
  exact LastWrite.read_foldl_of_last
    (fun logits : Fin B → Fin K → Fin V → α => logits r i (tok b))
    (fun u : Fin B × Fin B => r = u.1 ∧ i = i ∧ tok b = tok u.2) (fun u => vals u.2)
    (fun _ _ hu => if_pos hu) (fun _ _ hu => if_neg hu) ⟨rfl, rfl, rfl⟩ (by simp) logits

end Scatter

/-! ## The round trip -/

section RoundTrip

variable (softmax : (Fin V → F) → Fin V → F) (log : F → F)
  (draftLogits : Fin B → Fin K → Fin V → F) (specTokens : Fin B → Fin K → Fin V)

/-- The value that row `b` carries at position `i`. -/
def tokenLogProb (b : Fin B) (i : Fin K) : F :=
  log (softmax (draftLogits b i) (specTokens b i) + 1e-12)

/-- `decompress_greedy_logits(compress_greedy_logits(logits, spec), spec, V)`. -/
def roundTrip (order : Fin K → Equiv.Perm (Fin B × Fin B)) : Fin B → Fin K → Fin V → F :=
  decompressGreedyLogits log order (compressGreedyLogits softmax draftLogits specTokens) specTokens

theorem roundTrip_eq (order : Fin K → Equiv.Perm (Fin B × Fin B)) (i : Fin K) :
    ∃ logits : Fin B → Fin K → Fin V → F, (∀ r v, logits r i v = -1e9) ∧
      ∀ r v, roundTrip softmax log draftLogits specTokens order r i v =
        scatterSet (order i) logits i (fun b => specTokens b i)
          (fun b => tokenLogProb softmax log draftLogits specTokens b i) r i v := by
  obtain ⟨before, after, hsplit⟩ := List.append_of_mem (List.mem_finRange i)
  have hnodup := List.nodup_finRange K
  rw [hsplit, List.nodup_append, List.nodup_cons] at hnodup
  obtain ⟨-, ⟨hafter, -⟩, hbefore⟩ := hnodup
  set step := fun (logits : Fin B → Fin K → Fin V → F) j =>
    scatterSet (order j) logits j (fun b => specTokens b j)
      fun b => tokenLogProb softmax log draftLogits specTokens b j with hstep
  have hother : ∀ (writes : List (Fin K)) (logits : Fin B → Fin K → Fin V → F) (r : Fin B)
      (v : Fin V), i ∉ writes → writes.foldl step logits r i v = logits r i v := by
    intro writes logits r v hi
    exact LastWrite.read_foldl_of_not_hit
      (fun logits : Fin B → Fin K → Fin V → F => logits r i v) (fun j => j = i)
      (fun logits j hj => scatterSet_of_ne _ logits j _ _ (.inl (Ne.symm hj)))
      (fun j hj heq => hi (heq ▸ hj)) logits
  refine ⟨before.foldl step fun _ _ _ => -1e9, fun r v => ?_, fun r v => ?_⟩
  · exact hother before _ r v fun hi => hbefore i hi i List.mem_cons_self rfl
  · show (List.finRange K).foldl step (fun _ _ _ => -1e9) r i v = _
    rw [hsplit, List.foldl_append, List.foldl_cons, hother after _ r v hafter]

/-- **The round trip.** Whatever the order of the updates, row `r` of the result holds the value of
its own token and `-1e9` elsewhere, for every row, and the spec token is then the only maximum where
its value is above `-1e9`, if and only if at every position any two rows have the same token with
the same value, or different tokens with the value `-1e9`. -/
theorem roundTrip_iff [LinearOrder F] :
    (∀ order r i, (∀ v, roundTrip softmax log draftLogits specTokens order r i v =
          if v = specTokens r i then tokenLogProb softmax log draftLogits specTokens r i
          else -1e9) ∧
        (-1e9 < tokenLogProb softmax log draftLogits specTokens r i → ∀ v ≠ specTokens r i,
          roundTrip softmax log draftLogits specTokens order r i v <
            roundTrip softmax log draftLogits specTokens order r i (specTokens r i))) ↔
      ∀ i r b, tokenLogProb softmax log draftLogits specTokens b i =
        if specTokens b i = specTokens r i then
          tokenLogProb softmax log draftLogits specTokens r i
        else -1e9 := by
  constructor
  · intro h i r b
    obtain ⟨order, horder⟩ := exists_order r b
    obtain ⟨logits, -, heq⟩ :=
      roundTrip_eq softmax log draftLogits specTokens (fun _ => order) i
    rw [← (h (fun _ => order) r i).1 (specTokens b i), heq]
    exact (horder logits i (fun b => specTokens b i)
      fun b => tokenLogProb softmax log draftLogits specTokens b i).symm
  · intro h order r i
    obtain ⟨logits, hinit, heq⟩ := roundTrip_eq softmax log draftLogits specTokens order i
    have hrow : ∀ v, roundTrip softmax log draftLogits specTokens order r i v =
        if v = specTokens r i then tokenLogProb softmax log draftLogits specTokens r i
        else -1e9 := by
      intro v
      rw [heq]
      by_cases hv : ∃ b, specTokens b i = v
      · obtain ⟨b, rfl⟩ := hv
        obtain ⟨b', htok, hval⟩ := scatterSet_of_mem (order i) logits i (fun b => specTokens b i)
          (fun b => tokenLogProb softmax log draftLogits specTokens b i) r b
        rw [hval, h i r b', htok]
      · rw [scatterSet_of_ne _ _ _ _ _ (.inr fun b hb => hv ⟨b, hb⟩), hinit, if_neg]
        exact fun hvr => hv ⟨r, hvr.symm⟩
    refine ⟨hrow, fun hpos v hv => ?_⟩
    rw [hrow v, hrow (specTokens r i), if_neg hv, if_pos rfl]
    exact hpos

end RoundTrip

/-- Two rows with the tokens 0 and 1 of a vocabulary of two: row 0 gets a value at token 1 too. -/
theorem roundTrip_bleeds :
    let exp : ℚ → ℚ := fun x => if x = 0 then 1 else 1 / 2
    let log : ℚ → ℚ := fun x => x - 1
    let draftLogits : Fin 2 → Fin 1 → Fin 2 → ℚ := ![![![0, -1]], ![![-1, 0]]]
    let specTokens : Fin 2 → Fin 1 → Fin 2 := ![![0], ![1]]
    specTokens 0 0 ≠ 1 ∧
      roundTrip (jaxNnSoftmax exp) log draftLogits specTokens (fun _ => 1) 0 0 1 ≠ -1e9 := by
  decide +kernel

end SsdTpu
