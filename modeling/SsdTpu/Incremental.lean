import SsdTpu.Autoregressive
import SsdTpu.GemmaAdapter

/-!
# Decoding with a cache

Over a causal language model the cache of the Gemma adapter is a list of tokens, so that what a
decode step computes is the model on that list and one more token.

1. `_run_ar` keeps the cache at the sequence without its last token, whatever was in it before: each
   token enters once, and the output is the one computed from scratch (`runAr_gemma`).
2. `draft_speculate` feeds the token of its prefill back before it collects any: it returns the
   tokens and the rows after the first one (`draftSpeculate_eq`). They are the greedy continuation
   of the prefix exactly when they do not change along it (`greedyDraft_iff`).
-/

namespace SsdTpu

namespace GemmaAdapter

variable {R : Type*} [LinearOrder R] {V : ℕ} (m : GemmaAdapter R V)

/-! ## Decode steps -/

theorem decode_nextToken (self : Past) (tok : Token) :
    (m.decode self tok).1.nextToken = m.next (context self ++ [tok]) := rfl

theorem decode_past (self : Past) (tok : Token) :
    (m.decode self tok).2 = some (context self ++ [tok]) := rfl

theorem getLast?_decode (self : Past) (tok : Token) :
    (m.decode self tok).1.logits.getLast? = some (m.lm (context self ++ [tok])) := rfl

/-! ## The autoregressive loop -/

theorem decodesGreedily : DecodesGreedily m.adapter m.next fun past ctx => past = some ctx where
  generateAr := rfl
  prefill _ _ _ hp := ⟨m.getLast?_prefill none hp, rfl⟩
  decode past ctx tok _ _ h := by
    subst h
    exact ⟨m.decode_nextToken (some ctx) tok, m.decode_past (some ctx) tok⟩

variable {m}

/-- At the head of the loop the cache holds the sequence without its last token. -/
theorem past_of_greedily {prompt : List Token} {n : ℕ} {s : Decoding Past}
    (h : Greedily m.next (fun past ctx => past = some ctx) prompt n s) :
    s.target = some (prompt ++ s.seq.completionTokenIds.dropLast) := by
  obtain ⟨ctx, hctx, hpast⟩ := h.knows
  have hne : s.seq.completionTokenIds ≠ [] := by
    intro hnil
    have := h.length_eq
    rw [hnil] at this
    cases this
  have hids : s.seq.tokenIds = prompt ++ s.seq.completionTokenIds := by
    unfold Sequence.tokenIds
    rw [h.prompt_eq]
  rw [hpast, ← List.dropLast_append_of_ne_nil hne, ← hids, hctx, List.dropLast_concat]

/-- **Incremental decoding equals recomputation.** From any earlier cache `_run_ar` returns exactly
`M` tokens, each the model's choice after the prompt and the tokens before it; and after any number
of passes the cache holds the prompt and all the tokens but the last. -/
theorem runAr_gemma (m : GemmaAdapter R V) (cfg : SSDConfig) (seq : Sequence)
    (hp : seq.promptTokenIds ≠ []) (hc : seq.completionTokenIds = []) (past : Past)
    (metrics : RunMetrics) {M fuel : ℕ} (hM : 1 ≤ M) (hfuel : M ≤ fuel) :
    ∃ s, runAr cfg m.adapter M fuel seq past metrics = some s ∧
      s.seq.completionTokenIds.length = M ∧
      (∀ i (h : i < s.seq.completionTokenIds.length), s.seq.completionTokenIds[i] =
        argmaxToken (m.lm (seq.promptTokenIds ++ s.seq.completionTokenIds.take i))) ∧
      ∃ s₀, arStart cfg m.adapter seq past metrics = some s₀ ∧
        ∀ n s', Loop.Head (Decoding.unfinished M) (arStep cfg m.adapter) s₀ n s' →
          s'.seq.completionTokenIds.length = n + 1 ∧
          s'.target = some (seq.promptTokenIds ++ s'.seq.completionTokenIds.dropLast) := by
  obtain ⟨s, n, hs, h, hn⟩ :=
    runAr_greedily cfg metrics m.decodesGreedily hp hc (by omega : (M : ℤ).toNat ≤ fuel)
  obtain ⟨s₀, hstart, h₀⟩ := greedily_arStart cfg metrics m.decodesGreedily hp hc
  refine ⟨s, hs, ?_, Greedy.follows_iff_getElem.mp h.follows, s₀, hstart, fun n s' hs' => ?_⟩
  · rw [h.length_eq, hn]
    omega
  · have h' := Greedily.head cfg m.decodesGreedily h₀ hs'
    exact ⟨h'.length_eq, past_of_greedily h'⟩

/-- Three tokens after a prompt of one, on a cache left behind by another request. -/
theorem runAr_gemma_lengthModel :
    ∃ s, runAr {} lengthModel.adapter (3 : ℕ) 3 { seqId := 0, promptTokenIds := [0] }
        (some [7, 7]) {} = some s ∧
      s.seq.completionTokenIds.length = 3 := by
  obtain ⟨s, hs, hlen, _⟩ := runAr_gemma lengthModel {} { seqId := 0, promptTokenIds := [0] }
    (by simp) rfl (some [7, 7]) {} (M := 3) (by decide) le_rfl
  exact ⟨s, hs, hlen⟩

/-! ## The draft loop -/

theorem draftLoop_eq (m : GemmaAdapter R V) (n : ℕ) (ctx : List Token) (tok : Token)
    (spec : List Token) (rows : List (Fin V → R)) :
    m.draftLoop n (some ctx) tok spec rows =
      some (spec ++ Greedy.extend m.next (ctx ++ [tok]) n,
        rows ++ (List.range n).map fun j =>
          m.lm (ctx ++ [tok] ++ Greedy.extend m.next (ctx ++ [tok]) j)) := by
  induction n generalizing ctx tok spec rows with
  | zero => simp [draftLoop, Greedy.extend]
  | succ n ih =>
    have hpast : context (some ctx) = ctx := rfl
    unfold draftLoop
    simp only
    rw [m.getLast?_decode, m.decode_past, m.decode_nextToken, hpast]
    simp only
    rw [ih, List.range_succ_eq_map, List.map_cons, List.map_map]
    congr 2
    · rw [List.append_assoc]
      rfl
    · have hrow : ∀ j, m.lm (ctx ++ [tok] ++ Greedy.extend m.next (ctx ++ [tok]) (j + 1)) =
          m.lm (ctx ++ [tok] ++ [m.next (ctx ++ [tok])] ++
            Greedy.extend m.next (ctx ++ [tok] ++ [m.next (ctx ++ [tok])]) j) := by
        intro j
        rw [Greedy.extend, List.append_assoc (ctx ++ [tok]) [_], List.singleton_append]
      rw [List.append_assoc, List.singleton_append]
      congr 2
      · rw [Greedy.extend, List.append_nil]
      · exact List.map_congr_left fun j _ => (hrow j).symm

/-- `draft_speculate` returns the greedy continuation after its first token, with the rows after
that token, and the adapter as it was. -/
theorem draftSpeculate_eq (m : GemmaAdapter R V) (self : Past) {prefixTokens : List Token}
    (hp : prefixTokens ≠ []) {k : ℕ} (hk : 1 ≤ k) :
    m.draftSpeculate self prefixTokens k =
      some (((Greedy.extend m.next prefixTokens (k + 1)).tail, (List.range k).map fun j =>
        m.lm (prefixTokens ++ Greedy.extend m.next prefixTokens (j + 1))), self) := by
  obtain ⟨logits, hlogits, harg⟩ := Option.map_eq_some_iff.mp (m.getLast?_prefill none hp)
  have hloop : m.draftLoop k (m.prefill none prefixTokens).2 (argmaxToken logits) [] [] =
      some ((Greedy.extend m.next prefixTokens (k + 1)).tail, (List.range k).map fun j =>
        m.lm (prefixTokens ++ Greedy.extend m.next prefixTokens (j + 1))) := by
    show m.draftLoop k (some ([] ++ prefixTokens)) (argmaxToken logits) [] [] = _
    rw [harg, List.nil_append, draftLoop_eq]
    simp only [Greedy.extend, List.nil_append, List.append_assoc, List.singleton_append,
      List.tail_cons]
  have hrows : ((List.range k).map fun j =>
      m.lm (prefixTokens ++ Greedy.extend m.next prefixTokens (j + 1))).isEmpty = false := by
    rw [List.isEmpty_eq_false_iff_exists_mem]
    exact ⟨_, List.mem_map_of_mem (List.mem_range.mpr hk)⟩
  unfold draftSpeculate
  simp only [hlogits, hloop, Option.bind_some, hrows, Bool.false_eq_true, if_false]

/-- The meaning of a draft: the greedy continuation of the prefix by `k` tokens, and the rows they
were chosen from. -/
structure GreedyDraft (m : GemmaAdapter R V) (prefixTokens : List Token) (k : ℕ)
    (spec : List Token) (rows : List (Fin V → R)) : Prop where
  length_spec : spec.length = k
  token : ∀ j (h : j < spec.length), spec[j] = m.next (prefixTokens ++ spec.take j)
  length_rows : rows.length = k
  row : ∀ j (h : j < rows.length), rows[j] = m.lm (prefixTokens ++ spec.take j)

/-- **The draft is the greedy continuation** exactly when the rows do not change along it: the model
gives the same logits after the prefix and after each of the first `k` tokens. -/
theorem greedyDraft_iff (m : GemmaAdapter R V) (self : Past) {prefixTokens : List Token}
    (hp : prefixTokens ≠ []) {k : ℕ} (hk : 1 ≤ k) :
    ∃ spec rows, m.draftSpeculate self prefixTokens k = some ((spec, rows), self) ∧
      (GreedyDraft m prefixTokens k spec rows ↔
        ∀ j < k, m.lm (prefixTokens ++ Greedy.extend m.next prefixTokens (j + 1)) =
          m.lm (prefixTokens ++ Greedy.extend m.next prefixTokens j)) := by
  refine ⟨_, _, m.draftSpeculate_eq self hp hk, fun h j hj => ?_, fun h => ?_⟩
  · have hspec : (Greedy.extend m.next prefixTokens (k + 1)).tail =
        Greedy.extend m.next prefixTokens k := by
      have hfollows := Greedy.follows_iff_getElem.mpr h.token
      rw [hfollows.eq_extend, h.length_spec]
    have hrow := h.row j (by simpa using hj)
    rw [hspec, Greedy.take_extend _ hj.le] at hrow
    simpa using hrow
  · -- equal rows choose equal tokens, so that the shift by one does not show
    have hspec : (Greedy.extend m.next prefixTokens (k + 1)).tail =
        Greedy.extend m.next prefixTokens k := by
      apply List.ext_getElem
      · simp
      · intro j hj hj'
        rw [Greedy.length_extend] at hj'
        rw [List.getElem_tail, Greedy.getElem_extend, Greedy.getElem_extend]
        exact congrArg argmaxToken (h j hj')
    rw [hspec]
    refine ⟨Greedy.length_extend _ _, fun j hj => ?_, by simp, fun j hj => ?_⟩
    · rw [Greedy.length_extend] at hj
      rw [Greedy.getElem_extend, Greedy.take_extend _ hj.le]
    · have hjk : j < k := by simpa using hj
      rw [List.getElem_map, List.getElem_range, Greedy.take_extend _ hjk.le]
      exact h j hjk

/-- The draft of one token after `[0]` is the second one, 2, and not the first, 1. -/
theorem greedyDraft_lengthModel :
    ∃ spec rows, lengthModel.draftSpeculate none [0] 1 = some ((spec, rows), none) ∧
      ¬ GreedyDraft lengthModel [0] 1 spec rows := by
  refine ⟨_, _, rfl, fun h => ?_⟩
  have htoken := h.token 0 (by decide)
  revert htoken
  decide

theorem greedyDraft_iff_const :
    ∃ spec rows, (⟨fun _ v => if v = 1 then 1 else 0⟩ : GemmaAdapter ℕ 2).draftSpeculate (some [7])
        [0] 3 = some ((spec, rows), some [7]) ∧
      GreedyDraft (⟨fun _ v => if v = 1 then 1 else 0⟩ : GemmaAdapter ℕ 2) [0] 3 spec rows := by
  have hp : ([0] : List Token) ≠ [] := List.cons_ne_nil _ _
  obtain ⟨spec, rows, h, hiff⟩ := greedyDraft_iff
    (⟨fun _ v => if v = 1 then 1 else 0⟩ : GemmaAdapter ℕ 2) (some [7]) hp (by decide : 1 ≤ 3)
  exact ⟨spec, rows, h, hiff.mpr fun _ _ => rfl⟩

end GemmaAdapter

end SsdTpu
