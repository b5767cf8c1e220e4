import SsdTpu.Engine
import SsdTpu.Greedy

/-!
# Autoregressive decoding

`_run_ar` on any target that decodes greedily. `Knows t ctx` says that the state `t` of the target
stands for the tokens `ctx`; `DecodesGreedily` is what the loop needs of a prefill and of a decode
step, and `Greedily` what then holds at the head of the loop: the output is a greedy continuation of
the prompt, and the target knows all of it but the last token.
-/

namespace SsdTpu

variable {τ R : Type*} [LinearOrder R] {V : ℕ}

/-- A prefill chooses the next token after the prompt, and a decode step the next one after the
tokens that the state stands for and the token given. -/
structure DecodesGreedily (target : DecodeModelAdapter τ R V) (next : List Token → Token)
    (Knows : τ → List Token → Prop) : Prop where
  generateAr : target.generateAr = none
  prefill : ∀ t prompt pages, prompt ≠ [] →
    ((target.prefill (target.allocateKv t) prompt pages).1.getLast?).map argmaxToken =
        some (next prompt) ∧
      Knows (target.prefill (target.allocateKv t) prompt pages).2 prompt
  decode : ∀ t ctx tok position pages, Knows t ctx →
    (target.decode t tok position pages).1.nextToken = next (ctx ++ [tok]) ∧
      Knows (target.decode t tok position pages).2 (ctx ++ [tok])

/-- What holds at the head of the autoregressive loop after `n` passes. -/
structure Greedily (next : List Token → Token) (Knows : τ → List Token → Prop)
    (prompt : List Token) (n : ℕ) (s : Decoding τ) : Prop where
  follows : Greedy.Follows next prompt s.seq.completionTokenIds
  prompt_eq : s.seq.promptTokenIds = prompt
  knows : ∃ ctx, s.seq.tokenIds = ctx ++ [s.token] ∧ Knows s.target ctx
  length_eq : s.seq.completionTokenIds.length = n + 1

variable {target : DecodeModelAdapter τ R V} {next : List Token → Token}
  {Knows : τ → List Token → Prop} (cfg : SSDConfig) {prompt : List Token} {seq : Sequence} {t : τ}
  (metrics : RunMetrics) {maxNewTokens : ℤ} {fuel : ℕ}

theorem greedily_arStart (ht : DecodesGreedily target next Knows) (hp : seq.promptTokenIds ≠ [])
    (hc : seq.completionTokenIds = []) :
    ∃ s, arStart cfg target seq t metrics = some s ∧
      Greedily next Knows seq.promptTokenIds 0 s := by
  obtain ⟨htok, hknows⟩ := ht.prefill t seq.promptTokenIds (pageTable cfg) hp
  obtain ⟨logits, hlogits, harg⟩ := Option.map_eq_some_iff.mp htok
  have hids : seq.tokenIds = seq.promptTokenIds := by
    unfold Sequence.tokenIds
    rw [hc, List.append_nil]
  have hcomp : (seq.appendToken (next seq.promptTokenIds)).completionTokenIds =
      [next seq.promptTokenIds] := by
    show seq.completionTokenIds ++ [_] = _
    rw [hc]
    rfl
  unfold arStart prefillFirst
  simp only [hlogits, Option.map_some, harg]
  refine ⟨_, rfl, ?_, rfl, ⟨seq.promptTokenIds, ?_, hknows⟩, ?_⟩
  · show Greedy.Follows next _ (seq.appendToken (next seq.promptTokenIds)).completionTokenIds
    rw [hcomp]
    exact Greedy.follows_singleton
  · show (seq.appendToken (next seq.promptTokenIds)).tokenIds = _
    unfold Sequence.appendToken
    rw [Sequence.appendTokens_tokenIds, hids]
  · show (seq.appendToken (next seq.promptTokenIds)).completionTokenIds.length = _
    rw [hcomp]
    rfl

/-- The step lemma: the token of the variables enters the state of the target, and the next one
after it enters the output. -/
theorem Greedily.arStep {n : ℕ} {s : Decoding τ} (ht : DecodesGreedily target next Knows)
    (h : Greedily next Knows prompt n s) :
    ∃ s', arStep cfg target s = some s' ∧ Greedily next Knows prompt (n + 1) s' ∧
      s'.seq.completionTokenIds = s.seq.completionTokenIds ++ [s'.token] := by
  obtain ⟨ctx, hctx, hknows⟩ := h.knows
  obtain ⟨htok, hknows'⟩ := ht.decode s.target ctx s.token s.seq.numTokens (pageTable cfg) hknows
  rw [← hctx] at htok hknows'
  refine ⟨_, rfl, ⟨?_, h.prompt_eq, ⟨s.seq.tokenIds, Sequence.appendTokens_tokenIds _ _, hknows'⟩,
    ?_⟩, rfl⟩
  · show Greedy.Follows next _ (s.seq.completionTokenIds ++ [_])
    rw [htok]
    apply Greedy.follows_append.mpr
    refine ⟨h.follows, ?_⟩
    rw [← h.prompt_eq]
    exact Greedy.follows_singleton
  · show (s.seq.completionTokenIds ++ [_]).length = _
    rw [List.length_append, List.length_singleton, h.length_eq]

theorem Greedily.head {s₀ s : Decoding τ} {n : ℕ} (ht : DecodesGreedily target next Knows)
    (h₀ : Greedily next Knows prompt 0 s₀)
    (h : Loop.Head (Decoding.unfinished maxNewTokens) (SsdTpu.arStep cfg target) s₀ n s) :
    Greedily next Knows prompt n s := by
  refine h.invariant (P := fun n s => Greedily next Knows prompt n s) h₀ fun n s s' hs _ hstep => ?_
  obtain ⟨u, hu, h', _⟩ := hs.arStep cfg ht
  obtain rfl := Option.some.inj (hu.symm.trans hstep)
  exact h'

/-- **Autoregressive decoding** fills the budget exactly, apart from the first token, which is
always there. -/
theorem runAr_greedily (ht : DecodesGreedily target next Knows) (hp : seq.promptTokenIds ≠ [])
    (hc : seq.completionTokenIds = []) (hfuel : maxNewTokens.toNat ≤ fuel) :
    ∃ s n, runAr cfg target maxNewTokens fuel seq t metrics = some s ∧
      Greedily next Knows seq.promptTokenIds n s ∧ n + 1 = max 1 maxNewTokens.toNat := by
  obtain ⟨s₀, hstart, h₀⟩ := greedily_arStart cfg metrics ht hp hc
  obtain ⟨s, hs, ⟨n, h, hn⟩, hcs⟩ := Loop.run_total (c := Decoding.unfinished maxNewTokens)
    (P := fun s => ∃ n, Greedily next Knows seq.promptTokenIds n s ∧
      n + 1 ≤ max 1 maxNewTokens.toNat)
    (fun s => s.room maxNewTokens)
    (fun s ⟨n, h, _⟩ hcs => by
      obtain ⟨s', hs', h', hcomp⟩ := h.arStep cfg ht
      have hlt := Sequence.not_isFinished_none.mp hcs
      rw [h.length_eq] at hlt
      exact ⟨s', hs', ⟨n + 1, h', by omega⟩, Decoding.room_lt hcomp (by simp) hcs⟩)
    ⟨0, h₀, le_max_left _ _⟩ (Decoding.room_le hfuel)
  refine ⟨s, n, ?_, h, ?_⟩
  · unfold runAr
    rw [ht.generateAr]
    show (arStart cfg target seq t metrics).bind _ = _
    rw [hstart]
    exact hs
  · have hfull : maxNewTokens ≤ s.seq.completionTokenIds.length := by
      apply Sequence.isFinished_none.mp
      simpa [Decoding.unfinished] using hcs
    rw [h.length_eq] at hfull
    omega

end SsdTpu
