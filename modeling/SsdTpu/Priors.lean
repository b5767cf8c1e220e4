import SsdTpu.Config
import Mathlib.Data.List.Sort

/-!
# Branch and instance priors

The two sources of candidates of the draft worker: the recovery tokens with the largest logits
(`top_f_recovery_tokens`) and the spans of the prompt with the highest salience. Scores are
rationals, and the mean by which windows are ranked is a parameter. Both sorts are stable, as
`lax.top_k` and `list.sort` are.
-/

namespace SsdTpu

/-! ## Recovery tokens -/

/-- `top_f_recovery_tokens` of one row: `top_k` raises when there are fewer than `fanOut` logits. -/
def topFRecoveryTokens {R : Type*} [LinearOrder R] {V : ℕ} (glueLogits : Fin V → R)
    (fanOut : ℕ) : Option (List Token) :=
  if V < fanOut then none
  else some ((((List.finRange V).insertionSort fun i j => glueLogits j ≤ glueLogits i).take
    fanOut).map fun i : Fin V => (i.val : Token))

theorem topFRecoveryTokens_of_const {R : Type*} [LinearOrder R] {V fanOut : ℕ} (x : R)
    (h : fanOut ≤ V) : topFRecoveryTokens (fun _ : Fin V => x) fanOut =
      some ((List.range fanOut).map fun f : ℕ => (f : Token)) := by
  unfold topFRecoveryTokens
  rw [if_neg (not_lt.mpr h)]
  have hsort : (List.finRange V).insertionSort (fun _ _ => x ≤ x) = List.finRange V :=
    List.Pairwise.insertionSort_eq (List.pairwise_of_forall fun _ _ => le_rfl)
  rw [hsort]
  congr 1
  apply List.ext_getElem (by simp [h])
  intro i _ _
  simp

/-! ## Spans of the prompt -/

structure ContextSpan where
  start : ℕ
  stop : ℕ
  score : ℚ
  tokens : List Token

/-- `score_token_salience` without attention weights: tokens divisible by 7 score higher. -/
def scoreTokenSalience (contextTokens : List Token) : List ℚ :=
  contextTokens.map fun tok => if tok % 7 = 0 then 1 else 1 / 10

/-- The window of the context that starts at `start`. -/
def spanAt (windowMean : List ℚ → ℚ) (contextTokens : List Token) (salience : List ℚ)
    (spanLength start : ℕ) : ContextSpan where
  start := start
  stop := start + spanLength
  score := windowMean ((salience.drop start).take spanLength)
  tokens := (contextTokens.drop start).take spanLength

/-- `find_high_salience_spans`. A context shorter than a span is a span itself. -/
def findHighSalienceSpans (windowMean : List ℚ → ℚ) (contextTokens : List Token)
    (salience : List ℚ) (spanLength : ℕ) (maxSpans : ℕ := 8) : List ContextSpan :=
  let n := contextTokens.length
  if n < spanLength then
    [{ start := 0, stop := n, score := salience.max?.getD 0, tokens := contextTokens }]
  else
    let spans := (List.range (n - spanLength + 1)).map
      (spanAt windowMean contextTokens salience spanLength)
    (spans.insertionSort fun s s' => s'.score ≤ s.score).take maxSpans

/-- `spans_to_speculation_tokens`: the best span, cut or padded with its last token. An empty span
has no last token. -/
def spansToSpeculationTokens (spans : List ContextSpan) (k : ℕ) : Option (List Token) :=
  match spans with
  | [] => some (List.replicate k 0)
  | s :: _ =>
    if k ≤ s.tokens.length then some (s.tokens.take k)
    else s.tokens.getLast?.map fun last =>
      s.tokens ++ List.replicate (k - s.tokens.length) last

theorem length_spansToSpeculationTokens {spans : List ContextSpan} {k : ℕ} {spec : List Token}
    (h : spansToSpeculationTokens spans k = some spec) : spec.length = k := by
  unfold spansToSpeculationTokens at h
  cases spans with
  | nil =>
    obtain rfl := Option.some.inj h
    exact List.length_replicate
  | cons s _ =>
    simp only at h
    split_ifs at h with hk
    · obtain rfl := Option.some.inj h
      rw [List.length_take, min_eq_left hk]
    · obtain ⟨last, _, rfl⟩ := Option.map_eq_some_iff.mp h
      rw [List.length_append, List.length_replicate]
      omega

theorem length_tokens_of_mem {windowMean : List ℚ → ℚ} {contextTokens : List Token}
    {salience : List ℚ} {k maxSpans : ℕ} (hk : k ≤ contextTokens.length) {s : ContextSpan}
    (hs : s ∈ findHighSalienceSpans windowMean contextTokens salience k maxSpans) :
    s.tokens.length = k := by
  unfold findHighSalienceSpans at hs
  simp only [if_neg (not_lt.mpr hk)] at hs
  have hmem := (List.mem_insertionSort _).mp (List.mem_of_mem_take hs)
  obtain ⟨start, hstart, rfl⟩ := List.mem_map.mp hmem
  rw [List.mem_range] at hstart
  show ((contextTokens.drop start).take k).length = k
  rw [List.length_take, List.length_drop]
  omega

/-- What the draft worker speculates from the prompt. -/
def promptDraft (windowMean : List ℚ → ℚ) (contextTokens : List Token) (k : ℕ) :
    Option (List Token) :=
  spansToSpeculationTokens
    (findHighSalienceSpans windowMean contextTokens (scoreTokenSalience contextTokens) k) k

theorem promptDraft_isSome (windowMean : List ℚ → ℚ) {contextTokens : List Token}
    (h : contextTokens ≠ []) (k : ℕ) : (promptDraft windowMean contextTokens k).isSome := by
  unfold promptDraft
  by_cases hk : k ≤ contextTokens.length
  · cases hs : findHighSalienceSpans windowMean contextTokens (scoreTokenSalience contextTokens)
        k with
    | nil => rfl
    | cons s spans =>
      have hlen : s.tokens.length = k :=
        length_tokens_of_mem hk (by rw [hs]; exact List.mem_cons_self)
      unfold spansToSpeculationTokens
      simp [hlen]
  · unfold findHighSalienceSpans spansToSpeculationTokens
    simp [not_le.mp hk, hk, h]

end SsdTpu
