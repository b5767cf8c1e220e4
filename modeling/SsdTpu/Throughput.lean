import SsdTpu.Generate
import SsdTpu.ToyModel

/-!
# Throughput accounting

`total_tokens` grows by the accepted tokens of every recorded step, and a recorded step counts just
the tokens that it appended. But the first token of a prompt is appended after the prefill, where no
step is recorded; only `generate_ar` records all of its tokens. So the total is short of the
outputs by one token for each prompt, except in AR mode on a target with `generate_ar`
(`generate_recorded`), and it is exact there or when there are no prompts (`throughput_iff`).
-/

namespace SsdTpu

variable {τ δ ω R R' : Type*} [LinearOrder R] {V V' k : ℕ} {cfg : SSDConfig}
  {target : DecodeModelAdapter τ R V} {maxNewTokens : ℤ} {fuel : ℕ} {seq : Sequence} {t : τ}
  {metrics : RunMetrics}

/-- Since the decode loop was entered on `seq` with `metrics`, the total has grown by the tokens
appended, less the `missing` ones. -/
def Recorded (seq : Sequence) (metrics : RunMetrics) (missing : ℕ) (s : Decoding τ) : Prop :=
  s.metrics.totalTokens + missing + seq.completionTokenIds.length =
    metrics.totalTokens + s.seq.completionTokenIds.length

/-! ## Steps -/

omit [LinearOrder R] in
theorem Recorded.step {missing : ℕ} {s s' : Decoding τ} (h : Recorded seq metrics missing s)
    {tokens : List Token} {m : StepMetrics}
    (hseq : s'.seq.completionTokenIds = s.seq.completionTokenIds ++ tokens)
    (hm : s'.metrics = s.metrics.recordStep m) (hn : m.acceptedTokens = tokens.length) :
    Recorded seq metrics missing s' := by
  unfold Recorded at h ⊢
  rw [hseq, hm, RunMetrics.recordStep_totalTokens, hn, List.length_append]
  omega

omit [LinearOrder R] in
theorem recorded_first {s : Decoding τ} {tok : Token}
    (hseq : s.seq.completionTokenIds = seq.completionTokenIds ++ [tok])
    (hm : s.metrics = metrics) : Recorded seq metrics 1 s := by
  unfold Recorded
  rw [hseq, hm, List.length_append, List.length_singleton]
  omega

theorem recorded_arStart {s : Decoding τ} (h : arStart cfg target seq t metrics = some s) :
    Recorded seq metrics 1 s := by
  obtain ⟨p, _, rfl⟩ := Option.map_eq_some_iff.mp h
  exact recorded_first rfl rfl

theorem recorded_specStart {s : Decoding τ} (h : specStart cfg target seq t metrics = some s) :
    Recorded seq metrics 1 s := by
  obtain ⟨p, _, rfl⟩ := Option.map_eq_some_iff.mp h
  exact recorded_first rfl rfl

omit [LinearOrder R] in
theorem Recorded.arStep {missing : ℕ} {s s' : Decoding τ} (h : Recorded seq metrics missing s)
    (hs : arStep cfg target s = some s') : Recorded seq metrics missing s' := by
  obtain rfl := Option.some.inj hs
  exact h.step rfl rfl rfl

theorem Recorded.verifyRound {missing : ℕ} {s : Decoding τ} (h : Recorded seq metrics missing s)
    (spec : List Token) (cacheHit : Bool) :
    Recorded seq metrics missing (verifyRound cfg target spec cacheHit s).2 := by
  refine h.step (congrArg Sequence.completionTokenIds (verifyRound_seq ..)) rfl ?_
  rw [List.length_append, List.length_singleton]
  rfl

/-! ## Decode loops -/

/-- `generate_ar` records all its tokens, the loop all but the first. -/
theorem recorded_runAr {s : Decoding τ}
    (h : runAr cfg target maxNewTokens fuel seq t metrics = some s) :
    Recorded seq metrics (if target.generateAr.isSome then 0 else 1) s := by
  unfold runAr at h
  cases hg : target.generateAr with
  | some genAr =>
    rw [hg] at h
    obtain ⟨r, _, rfl⟩ := Option.map_eq_some_iff.mp h
    have h₀ : Recorded seq metrics 0
        { target := r.2, seq := seq, token := 0, metrics := metrics } := rfl
    refine h₀.step ?_ rfl rfl
    show (r.1.foldl Sequence.appendToken seq).completionTokenIds = _
    rw [foldl_appendToken]
    rfl
  | none =>
    rw [hg] at h
    obtain ⟨s₀, h₀, hrun⟩ := Option.bind_eq_some_iff.mp h
    exact (Loop.run_invariant (recorded_arStart h₀) (fun _ _ hs _ hf => hs.arStep hf) hrun).1

theorem recorded_runSd {draftSpeculate : δ → List Token → ℕ → Option (List Token × δ)} {d : δ}
    {s : SdState τ δ}
    (h : runSd cfg target draftSpeculate maxNewTokens fuel seq t d metrics = some s) :
    Recorded seq metrics 1 s.toDecoding :=
  runSd_invariant (fun _ hs => recorded_specStart hs)
    (fun spec cacheHit _ hs => hs.verifyRound spec cacheHit) h

theorem recorded_runSsd {serve : Serve ω k V' R'} {w : ω} {s : SsdState τ ω k V' R'}
    (h : runSsd cfg target serve maxNewTokens fuel seq t w metrics = some s) :
    Recorded seq metrics 1 s.toDecoding :=
  runSsd_invariant (fun _ hs => recorded_specStart hs)
    (fun spec cacheHit _ hs => hs.verifyRound spec cacheHit) h

namespace LLMEngine

open ToyModelAdapter (alternating)

variable [LinearOrder R'] [Zero R'] {draft : DraftModel R' V'} {sampling : SamplingParams}
  {e : LLMEngine τ cfg.speculateK V' R'} {g g' : Generation τ cfg.speculateK V' R'}

/-- The decode loop of the mode is a call of `generate_ar`. -/
def Delegates (cfg : SSDConfig) (target : DecodeModelAdapter τ R V) : Prop :=
  cfg.mode = .ar ∧ target.generateAr.isSome

omit [LinearOrder R] in
instance : Decidable (Delegates cfg target) := inferInstanceAs (Decidable (_ ∧ _))

/-- The tokens of a completion that are not recorded. -/
def unrecorded (cfg : SSDConfig) (target : DecodeModelAdapter τ R V) : ℕ :=
  if Delegates cfg target then 0 else 1

theorem recorded_runMode {w w' : Option (DraftWorker cfg.speculateK V' R')} {s : Decoding τ}
    (h : runMode cfg target draft sampling w seq t metrics = some (s, w')) :
    Recorded seq metrics (unrecorded cfg target) s := by
  have hspec (hm : cfg.mode ≠ .ar) : unrecorded cfg target = 1 := if_neg fun hd => hm hd.1
  rcases runMode_cases h with ⟨hm, _, hs⟩ | ⟨hm, _, s', rfl, hs⟩ | ⟨hm, w₀, _, s', rfl, _, hs⟩
  · have hu : unrecorded cfg target = if target.generateAr.isSome then 0 else 1 := by
      simp [unrecorded, Delegates, hm]
    rw [hu]
    exact recorded_runAr hs
  · rw [hspec (by simp [hm])]
    exact recorded_runSd hs
  · rw [hspec (by rcases hm with hm | hm <;> simp [hm])]
    exact recorded_runSsd hs

/-! ## A call of `generate` -/

theorem servePrompt_recorded {prompt : List Token}
    (h : servePrompt cfg target draft sampling g prompt = some g') :
    g'.metrics.totalTokens + unrecorded cfg target + (g.outputs.map List.length).sum =
      g.metrics.totalTokens + (g'.outputs.map List.length).sum := by
  obtain ⟨a, s, w, ha, hrun, _, _, _, hout, hmet⟩ := servePrompt_cases h
  have hrec := recorded_runMode hrun
  unfold Recorded at hrec
  have hnew : (a.1.scheduler.seqs a.2).completionTokenIds = [] :=
    (admission_of_admitPrompt ha).seq.completion
  rw [hnew, List.length_nil] at hrec
  rw [hout, hmet, List.map_append, List.sum_append, List.map_singleton, List.sum_singleton]
  omega

theorem generateLoop_recorded {prompts : List (List Token)}
    (h : generateLoop cfg target draft sampling prompts g = some g') :
    g'.metrics.totalTokens + prompts.length * unrecorded cfg target +
        (g.outputs.map List.length).sum =
      g.metrics.totalTokens + (g'.outputs.map List.length).sum := by
  induction prompts generalizing g with
  | nil =>
    obtain rfl := Option.some.inj h
    simp
  | cons prompt prompts ih =>
    obtain ⟨g₁, h₁, h₂⟩ := Option.bind_eq_some_iff.mp h
    have hfirst := servePrompt_recorded h₁
    have hrest := ih h₂
    rw [List.length_cons, Nat.succ_mul]
    omega

theorem generate_recorded {prompts : List (List Token)}
    (h : generate cfg target draft sampling e prompts = some g) :
    g.metrics.totalTokens + prompts.length * unrecorded cfg target =
      (g.outputs.map List.length).sum := by
  have hloop := generateLoop_recorded h
  simpa using hloop

/-- **Throughput accounting.** For a call that returns, in any mode and on any target: the total is
the number of tokens in the outputs exactly when there are no prompts or the tokens come from
`generate_ar`. -/
theorem throughput_iff {prompts : List (List Token)}
    (h : generate cfg target draft sampling e prompts = some g) :
    g.metrics.totalTokens = (g.outputs.map List.length).sum ↔
      prompts = [] ∨ cfg.mode = .ar ∧ target.generateAr.isSome := by
  have hrec := generate_recorded h
  have hzero : prompts.length * unrecorded cfg target = 0 ↔
      prompts = [] ∨ Delegates cfg target := by
    rw [Nat.mul_eq_zero, List.length_eq_zero_iff]
    simp [unrecorded]
  constructor
  · intro heq
    exact hzero.mp (by omega)
  · intro hw
    have := hzero.mpr hw
    omega

/-- One prompt in AR mode on the toy model: a token is returned, and none counted. -/
theorem throughput_one_prompt :
    ∃ e g, init { numBlocks := 4 } () = some e ∧
      generate { numBlocks := 4 } alternating.adapter alternating.draftSpeculate
        { maxNewTokens := 1 } e [[1]] = some g ∧
      g.metrics.totalTokens ≠ (g.outputs.map List.length).sum := by
  refine ⟨_, _, rfl, rfl, ?_⟩
  show 0 ≠ 1
  decide

theorem throughput_iff_delegating :
    let target : DecodeModelAdapter Unit ℚ 3 :=
      { alternating.adapter with
        generateAr := some fun t prompt maxNewTokens =>
          some (List.iterate alternating.T (alternating.next prompt) maxNewTokens.toNat, t) }
    ∃ e g, init { numBlocks := 4 } () = some e ∧
      generate { numBlocks := 4 } target alternating.draftSpeculate { maxNewTokens := 3 } e
        [[1], [2, 4]] = some g ∧
      g.metrics.totalTokens = (g.outputs.map List.length).sum := by
  intro target
  have hg : generate { numBlocks := 4 } target alternating.draftSpeculate { maxNewTokens := 3 }
      { scheduler := .init { numBlocks := 4 }, target := (), draftWorker := none }
      [[1], [2, 4]] = some _ := rfl
  exact ⟨_, _, rfl, hg, (throughput_iff hg).mpr (.inr ⟨rfl, rfl⟩)⟩

end LLMEngine

end SsdTpu
