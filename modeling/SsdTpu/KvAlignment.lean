import SsdTpu.Engine
import SsdTpu.GemmaAdapter

/-!
# The cache of a stateful target

`prefill` puts the prompt into the cache, and each round commits the tokens it appended. The first
token, appended before the loop, is committed by nobody: the cache holds the prompt and the
completion without its first token (`Behind`). Since the verified tokens start with the last one of
the sequence, the target then sees that token twice and the first one never.

The two agree only while all tokens of the completion are equal (`Behind.aligned_iff`), and this
decides exactly when a run is aligned (`alignedRun_iff`).
-/

namespace SsdTpu

open GemmaAdapter (Past context lengthModel)

variable {ω R R' : Type*} [LinearOrder R] {V V' : ℕ}

/-- What the target has seen, with the first verified token, is the sequence. -/
def Aligned (s : Decoding Past) : Prop := context s.target ++ [s.token] = s.seq.tokenIds

/-- The property of a run of a speculative loop with states `σ`: every verification is aligned, and
every completion at the head of the loop is the model's greedy continuation of the prompt. -/
def AlignedRun {σ : Type*} (m : GemmaAdapter R V) (prompt : List Token) (maxNewTokens : ℤ)
    (vars : σ → Decoding Past) (start : Option σ) (step : σ → Option σ) : Prop :=
  ∀ s₀ n s, start = some s₀ →
    Loop.Head (fun s => (vars s).unfinished maxNewTokens) step s₀ n s →
      ((vars s).unfinished maxNewTokens = true → Aligned (vars s)) ∧
        Greedy.Follows m.next prompt (vars s).seq.completionTokenIds

/-- Whenever the ideal decoder starts a round, its tokens so far are all equal. -/
def ConstantRounds (next : List Token → Token) (prompt : List Token)
    (draft : ℕ → List Token → List Token) (maxNewTokens : ℤ) : Prop :=
  ∀ i, ((Greedy.decode next prompt draft i).length : ℤ) < maxNewTokens →
    ∀ t ∈ Greedy.decode next prompt draft i, t = next prompt

/-! ## One round -/

/-- The variables of a loop on the prompt `prompt` whose completion is `t :: ts`: the cache lacks
`t`. -/
structure Behind (prompt : List Token) (t : Token) (ts : List Token) (s : Decoding Past) :
    Prop where
  prompt_eq : s.seq.promptTokenIds = prompt
  completion_eq : s.seq.completionTokenIds = t :: ts
  token_eq : s.token = (t :: ts).getLast (List.cons_ne_nil _ _)
  context_eq : context s.target = prompt ++ ts

/-- A list shifted by one place, with its last entry repeated, is the list itself only if all
entries are equal. -/
theorem append_getLast_eq_cons_iff {α : Type*} (t : α) (ts : List α) :
    ts ++ [(t :: ts).getLast (List.cons_ne_nil _ _)] = t :: ts ↔ ∀ u ∈ t :: ts, u = t := by
  induction ts with
  | nil => simp
  | cons u us ih =>
    rw [List.cons_append, List.cons.injEq, List.getLast_cons (List.cons_ne_nil _ _)]
    constructor
    · rintro ⟨rfl, h⟩
      intro v hv
      rcases List.mem_cons.mp hv with rfl | hv
      · rfl
      · exact ih.mp h v hv
    · intro h
      have hu : u = t := h u (by simp)
      subst hu
      exact ⟨rfl, ih.mpr fun v hv => h v (List.mem_cons_of_mem _ hv)⟩

theorem Behind.aligned_iff {prompt ts : List Token} {t : Token} {s : Decoding Past}
    (h : Behind prompt t ts s) : Aligned s ↔ ∀ u ∈ s.seq.completionTokenIds, u = t := by
  unfold Aligned Sequence.tokenIds
  rw [h.prompt_eq, h.completion_eq, h.token_eq, h.context_eq, List.append_assoc,
    List.append_cancel_left_eq, append_getLast_eq_cons_iff]

section Round

variable (m : GemmaAdapter R V) (cfg : SSDConfig) {prompt : List Token} {s : Decoding Past}

/-- The verified logits are those after the cache and the tokens up to each position. -/
theorem gemma_verify (self : Past) (tok : Token) (spec : List Token) (positions pages : List ℕ)
    (i : Fin (spec.length + 1)) :
    argmaxToken ((m.adapter.verify self (tok :: spec) positions pages).1 0 i) =
      m.next (context self ++ tok :: spec.take i) := rfl

/-- The step lemma: a round appends to the completion exactly what it commits. -/
theorem Behind.verifyRound {t : Token} {ts : List Token} (h : Behind prompt t ts s)
    (spec : List Token) (cacheHit : Bool) :
    ∃ us, Behind prompt t (ts ++ us) (verifyRound cfg m.adapter spec cacheHit s).2 ∧
      us = Greedy.round m.next (context s.target ++ [s.token]) spec := by
  obtain ⟨hlen, htok, hseq⟩ := verifyRound_spec cfg m.adapter spec cacheHit s
    (gemma_verify m s.target s.token spec _ _)
  have hcommit : spec.take (SsdTpu.verifyRound cfg m.adapter spec cacheHit s).1 ++
      [(SsdTpu.verifyRound cfg m.adapter spec cacheHit s).2.token] =
        Greedy.round m.next (context s.target ++ [s.token]) spec := by
    rw [hlen, htok]
    unfold Greedy.round
    rw [List.append_assoc, List.singleton_append]
  refine ⟨_, ⟨?_, ?_, ?_, ?_⟩, rfl⟩
  · rw [hseq]
    exact h.prompt_eq
  · rw [hseq, Sequence.appendTokens_completion, h.completion_eq, List.cons_append]
  · rw [← hcommit]
    simp
  · show context (m.commitTokens s.target (spec.take (SsdTpu.verifyRound cfg m.adapter spec
      cacheHit s).1 ++ [(SsdTpu.verifyRound cfg m.adapter spec cacheHit s).2.token])) = _
    rw [GemmaAdapter.context_commitTokens, hcommit, h.context_eq, List.append_assoc]

/-- An aligned round is a round of the ideal decoder. -/
theorem Behind.verifyRound_of_aligned {draft : ℕ → List Token → List Token} {t : Token}
    {ts : List Token} {i : ℕ} (h : Behind prompt t ts s)
    (hdec : s.seq.completionTokenIds = Greedy.decode m.next prompt draft i) (ha : Aligned s)
    {spec : List Token} (hspec : spec = draft i s.seq.tokenIds) (cacheHit : Bool) :
    ∃ us, Behind prompt t (ts ++ us) (SsdTpu.verifyRound cfg m.adapter spec cacheHit s).2 ∧
      (SsdTpu.verifyRound cfg m.adapter spec cacheHit s).2.seq.completionTokenIds =
        Greedy.decode m.next prompt draft (i + 1) := by
  obtain ⟨us, hus, rfl⟩ := h.verifyRound m cfg spec cacheHit
  refine ⟨_, hus, ?_⟩
  have hids : s.seq.tokenIds = prompt ++ Greedy.decode m.next prompt draft i := by
    unfold Sequence.tokenIds
    rw [h.prompt_eq, hdec]
  rw [hus.completion_eq, Greedy.decode, ← hids, ← hdec, ← hspec, h.completion_eq, ha,
    List.cons_append]

end Round

/-! ## Runs -/

section Runs

variable (m : GemmaAdapter R V) {cfg : SSDConfig} {prompt : List Token} {maxNewTokens : ℤ}
  {draft : ℕ → List Token → List Token} {σ : Type*} {vars : σ → Decoding Past} {s₀ : σ}
  {step : σ → Option σ}

/-- The loop has followed the ideal decoder for `n` rounds. -/
structure Tracked (m : GemmaAdapter R V) (prompt : List Token)
    (draft : ℕ → List Token → List Token) (n : ℕ) (s : Decoding Past) : Prop where
  behind : ∃ ts, Behind prompt (m.next prompt) ts s
  decode_eq : s.seq.completionTokenIds = Greedy.decode m.next prompt draft n

variable {m}

theorem Tracked.unfinished_iff {n : ℕ} {s : Decoding Past} (h : Tracked m prompt draft n s) :
    s.unfinished maxNewTokens = true ↔
      ((Greedy.decode m.next prompt draft n).length : ℤ) < maxNewTokens := by
  rw [← h.decode_eq]
  exact Sequence.not_isFinished_none

theorem Tracked.aligned_iff {n : ℕ} {s : Decoding Past} (h : Tracked m prompt draft n s) :
    Aligned s ↔ ∀ t ∈ Greedy.decode m.next prompt draft n, t = m.next prompt := by
  obtain ⟨ts, hts⟩ := h.behind
  rw [hts.aligned_iff, h.decode_eq]

theorem Tracked.verifyRound {n : ℕ} {s : Decoding Past} (h : Tracked m prompt draft n s)
    (ha : Aligned s) (cacheHit : Bool) : Tracked m prompt draft (n + 1)
      (verifyRound cfg m.adapter (draft n s.seq.tokenIds) cacheHit s).2 := by
  obtain ⟨ts, hts⟩ := h.behind
  obtain ⟨us, hus, hdec⟩ := hts.verifyRound_of_aligned m cfg h.decode_eq ha rfl cacheHit
  exact ⟨⟨_, hus⟩, hdec⟩

theorem Tracked.aligned_of_constantRounds {n : ℕ} {s : Decoding Past}
    (h : Tracked m prompt draft n s) (hconst : ConstantRounds m.next prompt draft maxNewTokens)
    (hu : s.unfinished maxNewTokens = true) : Aligned s := by
  apply h.aligned_iff.mpr
  apply hconst n
  exact h.unfinished_iff.mp hu

section Passes

-- the `n`-th pass verifies the `n`-th draft; `I` is what the loop keeps besides its variables
variable {I : ℕ → σ → Prop} (hI : I 0 s₀) (htracked : Tracked m prompt draft 0 (vars s₀))
  (hstep : ∀ n s, I n s → (vars s).unfinished maxNewTokens = true →
    ∃ s' cacheHit, step s = some s' ∧ I (n + 1) s' ∧ vars s' =
      (verifyRound cfg m.adapter (draft n (vars s).seq.tokenIds) cacheHit (vars s)).2)

include hI htracked hstep in
theorem exists_head_of_alignedRun (hrun : AlignedRun m prompt maxNewTokens vars (some s₀) step)
    {i : ℕ} (hlt : ((Greedy.decode m.next prompt draft i).length : ℤ) < maxNewTokens) :
    ∃ s, Loop.Head (fun s => (vars s).unfinished maxNewTokens) step s₀ i s ∧ I i s ∧
      Tracked m prompt draft i (vars s) := by
  induction i with
  | zero => exact ⟨s₀, .start, hI, htracked⟩
  | succ i ih =>
    have hmono : (Greedy.decode m.next prompt draft i).length <
        (Greedy.decode m.next prompt draft (i + 1)).length :=
      Greedy.length_decode_strictMono prompt draft (Nat.lt_succ_self i)
    obtain ⟨s, hs, hIs, hts⟩ := ih (by omega)
    have hu : (vars s).unfinished maxNewTokens = true := hts.unfinished_iff.mpr (by omega)
    obtain ⟨s', cacheHit, hs', hI', hvars⟩ := hstep i s hIs hu
    refine ⟨s', .pass hs hu hs', hI', ?_⟩
    rw [hvars]
    exact hts.verifyRound ((hrun s₀ i s rfl hs).1 hu) cacheHit

include hI htracked hstep in
/-- When the decoder starts its rounds with equal tokens, every head state is one of its rounds. -/
theorem tracked_of_constantRounds (hconst : ConstantRounds m.next prompt draft maxNewTokens)
    {n : ℕ} {s : σ} (hs : Loop.Head (fun s => (vars s).unfinished maxNewTokens) step s₀ n s) :
    I n s ∧ Tracked m prompt draft n (vars s) := by
  apply hs.invariant (P := fun n s => I n s ∧ Tracked m prompt draft n (vars s))
  · exact ⟨hI, htracked⟩
  · rintro n t u ⟨hIt, htt⟩ hu hf
    obtain ⟨s', cacheHit, hs', hI', hvars⟩ := hstep n t hIt hu
    obtain rfl := Option.some.inj (hf.symm.trans hs')
    rw [hvars]
    exact ⟨hI', htt.verifyRound (htt.aligned_of_constantRounds hconst hu) cacheHit⟩

end Passes

/-- **When a run is aligned.** For a loop whose `n`-th pass verifies the `n`-th draft: every
verification is aligned, and every completion the greedy one, exactly when the ideal decoder on the
same drafts starts its rounds with equal tokens only. -/
theorem alignedRun_iff (cfg : SSDConfig) (I : ℕ → σ → Prop) (hI : I 0 s₀)
    (h0 : Behind prompt (m.next prompt) [] (vars s₀))
    (hstep : ∀ n s, I n s → (vars s).unfinished maxNewTokens = true →
      ∃ s' cacheHit, step s = some s' ∧ I (n + 1) s' ∧ vars s' =
        (verifyRound cfg m.adapter (draft n (vars s).seq.tokenIds) cacheHit (vars s)).2) :
    AlignedRun m prompt maxNewTokens vars (some s₀) step ↔
      ConstantRounds m.next prompt draft maxNewTokens := by
  have htracked : Tracked m prompt draft 0 (vars s₀) := ⟨⟨[], h0⟩, h0.completion_eq⟩
  constructor
  · intro hrun i hlt
    obtain ⟨s, hs, _, hts⟩ := exists_head_of_alignedRun hI htracked hstep hrun hlt
    have hu : (vars s).unfinished maxNewTokens = true := hts.unfinished_iff.mpr hlt
    exact hts.aligned_iff.mp ((hrun s₀ i s rfl hs).1 hu)
  · intro hconst s₁ n s hs₁ hs
    obtain rfl := Option.some.inj hs₁
    obtain ⟨_, hts⟩ := tracked_of_constantRounds hI htracked hstep hconst hs
    refine ⟨hts.aligned_of_constantRounds hconst, ?_⟩
    rw [hts.decode_eq]
    exact Greedy.follows_decode prompt draft n

variable (m)

theorem gemma_specStart (cfg : SSDConfig) {seq : Sequence} (hp : seq.promptTokenIds ≠ [])
    (hc : seq.completionTokenIds = []) (t : Past) (metrics : RunMetrics) :
    ∃ s, specStart cfg m.adapter seq t metrics = some s ∧
      Behind seq.promptTokenIds (m.next seq.promptTokenIds) [] s := by
  obtain ⟨logits, hl, harg⟩ := Option.map_eq_some_iff.mp (m.getLast?_prefill none hp)
  have hpre : prefillFirst cfg m.adapter t seq.promptTokenIds =
      some (m.next seq.promptTokenIds, some seq.promptTokenIds) := by
    show ((m.prefill none seq.promptTokenIds).1.getLast?.map fun logits =>
      (argmaxToken logits, some ([] ++ seq.promptTokenIds))) = _
    rw [hl, Option.map_some, harg]
    rfl
  unfold specStart
  rw [hpre]
  refine ⟨_, rfl, rfl, ?_, rfl, ?_⟩
  · show seq.completionTokenIds ++ [m.next seq.promptTokenIds] = _
    rw [hc]
    rfl
  · show seq.promptTokenIds = _
    rw [List.append_nil]

/-- **Alignment of the cache.** For every language model, prompt, budget and sequence of proposals,
the runs of `_run_sd` and `_run_ssd` are aligned exactly when the ideal decoder on these proposals
starts each round with equal tokens only. -/
theorem kvAlignment_iff (cfg : SSDConfig) (seq : Sequence) (hp : seq.promptTokenIds ≠ [])
    (hc : seq.completionTokenIds = []) (t : Past) (metrics : RunMetrics) (maxNewTokens : ℤ)
    (drafts : ℕ → Draft cfg.speculateK)
    (responses : ℕ → DraftResponse 1 cfg.speculateK V' R') :
    (AlignedRun m seq.promptTokenIds maxNewTokens SdState.toDecoding
        (sdStart cfg m.adapter seq t 0 metrics) (sdStep cfg m.adapter (scriptedDraft drafts)) ↔
      ConstantRounds m.next seq.promptTokenIds (fun n _ => List.ofFn (drafts n)) maxNewTokens) ∧
    (AlignedRun m seq.promptTokenIds maxNewTokens SsdState.toDecoding
        (ssdStart cfg m.adapter (scriptedServe responses) seq t 0 metrics)
        (ssdStep cfg m.adapter (scriptedServe responses) maxNewTokens) ↔
      ConstantRounds m.next seq.promptTokenIds
        (fun n _ => List.ofFn ((responses n).specTokens 0)) maxNewTokens) := by
  obtain ⟨s₀, hstart, h0⟩ := gemma_specStart m cfg hp hc t metrics
  constructor
  · unfold sdStart
    rw [hstart]
    refine alignedRun_iff cfg (fun n s => s.draft = n) rfl h0 fun n s hn _ => ?_
    refine ⟨_, false, rfl, ?_, ?_⟩
    · rw [← hn]
    · rw [← hn]
  · unfold ssdStart
    rw [hstart]
    -- before the last round the pending response is the one of the next round
    refine alignedRun_iff cfg (fun n s => s.unfinished maxNewTokens = true →
      s.draftResp = responses n ∧ s.worker = n + 1) (fun _ => ⟨rfl, rfl⟩) h0 fun n s hn hu => ?_
    obtain ⟨hresp, hw⟩ := hn hu
    unfold ssdStep
    simp only
    split_ifs with hu'
    · refine ⟨_, (responses n).cacheHit 0, rfl, fun _ => ⟨?_, ?_⟩, ?_⟩
      · rw [hw]
      · rw [hw]
      · rw [hresp]
    · refine ⟨_, (responses n).cacheHit 0, rfl, fun hu'' => absurd hu'' hu', ?_⟩
      rw [hresp]

end Runs

/-- Prompt `[0]`, drafts of one wrong token, budget 3: the second verification sees `[0, 2, 2]` in
place of `[0, 1, 2]`. -/
theorem kvAlignment_lengthModel :
    ¬ AlignedRun lengthModel [0] 3 SdState.toDecoding
      (sdStart { speculateK := 1 } lengthModel.adapter { seqId := 0, promptTokenIds := [0] } none
        0 {})
      (sdStep { speculateK := 1 } lengthModel.adapter (scriptedDraft fun _ => ![0])) := by
  intro h
  have halign := (h _ 1 _ rfl (.pass .start rfl rfl)).1 rfl
  revert halign
  unfold Aligned
  decide

theorem kvAlignment_iff_lengthModel :
    AlignedRun lengthModel [0] 2 SdState.toDecoding
      (sdStart { speculateK := 1 } lengthModel.adapter { seqId := 0, promptTokenIds := [0] } none
        0 {})
      (sdStep { speculateK := 1 } lengthModel.adapter (scriptedDraft fun _ => ![0])) := by
  refine (kvAlignment_iff lengthModel { speculateK := 1 } { seqId := 0, promptTokenIds := [0] }
    (by simp) rfl none {} 2 (fun _ => ![0])
    (fun _ => (⟨fun _ => false, fun _ => ![0], fun _ _ _ => 0⟩ : DraftResponse 1 1 3 ℕ))).1.mpr
    fun i hi t ht => ?_
  have hi : ((Greedy.decode lengthModel.next [0] (fun _ _ => List.ofFn ![0]) i).length : ℤ) < 2 :=
    hi
  have hlt : i < (Greedy.decode lengthModel.next [0] (fun _ _ => List.ofFn ![0]) i).length :=
    Greedy.lt_length_decode _ _ _
  obtain rfl : i = 0 := by omega
  exact List.mem_singleton.mp ht

end SsdTpu
