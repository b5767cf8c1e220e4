import SsdTpu.KvAlignment
import SsdTpu.Incremental
import SsdTpu.Drafting
import SsdTpu.Rounds

/-!
# Serving on a Gemma target

What `generate` returns on a stateful target, as a function of the language model, the draft model
and the prompt.

1. The speculative loops compute a decoder of their own (`laggingDecode`): in each round the model
   continues the prompt and the completion without its first token and with its last one twice.
   What it returns depends on the draft.
2. `Lags` ties the variables of a loop to that decoder (`Lags.verifyRound`), and the loops stop at
   its first completion that fills the budget (`runMode_gemma`).
3. Hence the outputs of a call depend neither on earlier calls nor on the other prompts
   (`generate_gemma`).
-/

namespace SsdTpu

open GemmaAdapter (Past context lengthModel)
open DraftWorker (propose handle)

variable {R R' : Type*} [LinearOrder R] {V V' : ℕ}

/-! ## The decoder -/

/-- Speculative decoding as the loops do it on a Gemma target, with the drafts that `propose` makes
after a completion. -/
def laggingDecode (next : List Token → Token) (prompt : List Token)
    (propose : List Token → Option (List Token)) : ℕ → Option (List Token)
  | 0 => some [next prompt]
  | n + 1 => (laggingDecode next prompt propose n).bind fun completion =>
    (propose completion).map fun spec => completion ++
      Greedy.round next (prompt ++ completion.tail ++ completion.getLast?.toList) spec

-- the parity of the ones so far: the draft decides the fourth token
example : laggingDecode (fun ctx => (ctx.count 1 % 2 : ℕ)) [1] (fun _ => some [0]) 2 =
    some [1, 0, 0, 1] := by decide

example : laggingDecode (fun ctx => (ctx.count 1 % 2 : ℕ)) [1] (fun _ => some [1]) 2 =
    some [1, 0, 1, 0] := by decide

/-- The first value of a sequence of completions that fills the budget. -/
def FirstFull (run : ℕ → Option (List Token)) (maxNewTokens : ℤ) (output : List Token) : Prop :=
  ∃ n, run n = some output ∧ maxNewTokens ≤ output.length ∧
    ∀ i < n, ∀ c, run i = some c → (c.length : ℤ) < maxNewTokens

theorem FirstFull.unique {run : ℕ → Option (List Token)} {maxNewTokens : ℤ}
    {output output' : List Token} (h : FirstFull run maxNewTokens output)
    (h' : FirstFull run maxNewTokens output') : output = output' := by
  obtain ⟨n, hn, hfull, hbefore⟩ := h
  obtain ⟨n', hn', hfull', hbefore'⟩ := h'
  rcases lt_trichotomy n n' with hlt | rfl | hlt
  · exact absurd (hbefore' n hlt output hn) (not_lt.mpr hfull)
  · exact Option.some.inj (hn.symm.trans hn')
  · exact absurd (hbefore n' hlt output' hn') (not_lt.mpr hfull')

/-! ## The loops -/

section Loops

variable {m : GemmaAdapter R V} {cfg : SSDConfig} {prompt : List Token}
  {proposals : List Token → Option (List Token)} {maxNewTokens : ℤ} {n : ℕ} {s : Decoding Past}

/-- The variables of a loop after `n` rounds. -/
structure Lags (m : GemmaAdapter R V) (prompt : List Token)
    (proposals : List Token → Option (List Token)) (maxNewTokens : ℤ) (n : ℕ) (s : Decoding Past) :
    Prop where
  behind : ∃ t ts, Behind prompt t ts s
  decode_eq : laggingDecode m.next prompt proposals n = some s.seq.completionTokenIds
  unfinished : ∀ i < n, ∀ c, laggingDecode m.next prompt proposals i = some c →
    (c.length : ℤ) < maxNewTokens

theorem Lags.verifyRound (h : Lags m prompt proposals maxNewTokens n s)
    (hu : s.unfinished maxNewTokens = true) {spec : List Token}
    (hspec : proposals s.seq.completionTokenIds = some spec) (cacheHit : Bool) :
    Lags m prompt proposals maxNewTokens (n + 1)
      (verifyRound cfg m.adapter spec cacheHit s).2 := by
  obtain ⟨t, ts, hbehind⟩ := h.behind
  obtain ⟨us, hus, rfl⟩ := hbehind.verifyRound m cfg spec cacheHit
  refine ⟨⟨t, _, hus⟩, ?_, fun i hi c hc => ?_⟩
  · rw [laggingDecode, h.decode_eq, Option.bind_some, hspec, Option.map_some, hus.completion_eq,
      hbehind.completion_eq, hbehind.context_eq, hbehind.token_eq,
      List.getLast?_eq_getLast_of_ne_nil (List.cons_ne_nil _ _)]
    rfl
  · rcases Nat.lt_succ_iff_lt_or_eq.mp hi with hi | rfl
    · exact h.unfinished i hi c hc
    · obtain rfl := Option.some.inj (h.decode_eq.symm.trans hc)
      exact Sequence.not_isFinished_none.mp hu

theorem Lags.firstFull (h : Lags m prompt proposals maxNewTokens n s)
    (hu : s.unfinished maxNewTokens = false) :
    FirstFull (laggingDecode m.next prompt proposals) maxNewTokens s.seq.completionTokenIds := by
  refine ⟨n, h.decode_eq, ?_, h.unfinished⟩
  rw [← Sequence.isFinished_none]
  unfold Decoding.unfinished at hu
  simpa using hu

variable {seq : Sequence} {past : Past} {metrics : RunMetrics} {fuel : ℕ}

theorem ne_nil_of_prefillFirst {p : Token × Past}
    (h : prefillFirst cfg m.adapter past prompt = some p) : prompt ≠ [] := by
  rintro rfl
  cases h

theorem lags_specStart (hnew : seq.completionTokenIds = []) {s : Decoding Past}
    (h : specStart cfg m.adapter seq past metrics = some s) :
    Lags m seq.promptTokenIds proposals maxNewTokens 0 s := by
  obtain ⟨_, hfirst, _⟩ := Option.map_eq_some_iff.mp h
  obtain ⟨s', hs', hbehind⟩ :=
    gemma_specStart m cfg (ne_nil_of_prefillFirst hfirst) hnew past metrics
  obtain rfl := Option.some.inj (hs'.symm.trans h)
  exact ⟨⟨_, _, hbehind⟩, congrArg some hbehind.completion_eq.symm, by simp⟩

theorem runAr_extend (hnew : seq.completionTokenIds = []) (hfuel : maxNewTokens.toNat ≤ fuel)
    {s : Decoding Past} (h : runAr cfg m.adapter maxNewTokens fuel seq past metrics = some s) :
    s.seq.completionTokenIds =
      Greedy.extend m.next seq.promptTokenIds (max 1 maxNewTokens.toNat) := by
  obtain ⟨s₀, h₀, _⟩ := Option.bind_eq_some_iff.mp h
  obtain ⟨_, hfirst, _⟩ := Option.map_eq_some_iff.mp h₀
  obtain ⟨s', n, hs', hg, hn⟩ := runAr_greedily cfg metrics m.decodesGreedily
    (ne_nil_of_prefillFirst hfirst) hnew hfuel
  obtain rfl := Option.some.inj (hs'.symm.trans h)
  rw [hg.follows.eq_extend, hg.length_eq, hn]

end Loops

/-! ## Calls of `generate` -/

/-- What a prompt is answered with: in AR mode the greedy continuation of the model, else what the
decoder makes of the drafts. -/
def GemmaOutput (m : GemmaAdapter R V) (cfg : SSDConfig) (draft : DraftModel R' V')
    (maxNewTokens : ℤ) (prompt output : List Token) : Prop :=
  match cfg.mode with
  | .ar => output = Greedy.extend m.next prompt (max 1 maxNewTokens.toNat)
  | _ => FirstFull (laggingDecode m.next prompt (draftFor cfg draft prompt)) maxNewTokens output

theorem gemmaOutput_ar {m : GemmaAdapter R V} {cfg : SSDConfig} {draft : DraftModel R' V'}
    {maxNewTokens : ℤ} {prompt output : List Token} (hm : cfg.mode = .ar) :
    GemmaOutput m cfg draft maxNewTokens prompt output ↔
      output = Greedy.extend m.next prompt (max 1 maxNewTokens.toNat) := by
  unfold GemmaOutput
  rw [hm]

theorem gemmaOutput_speculative {m : GemmaAdapter R V} {cfg : SSDConfig} {draft : DraftModel R' V'}
    {maxNewTokens : ℤ} {prompt output : List Token} (hm : cfg.mode ≠ .ar) :
    GemmaOutput m cfg draft maxNewTokens prompt output ↔
      FirstFull (laggingDecode m.next prompt (draftFor cfg draft prompt)) maxNewTokens output := by
  unfold GemmaOutput
  cases hmode : cfg.mode with
  | ar => exact absurd hmode hm
  | sd => rfl
  | ssd => rfl
  | instanceSsd => rfl

theorem GemmaOutput.unique {m : GemmaAdapter R V} {cfg : SSDConfig} {draft : DraftModel R' V'}
    {maxNewTokens : ℤ} {prompt output output' : List Token}
    (h : GemmaOutput m cfg draft maxNewTokens prompt output)
    (h' : GemmaOutput m cfg draft maxNewTokens prompt output') : output = output' := by
  by_cases hm : cfg.mode = .ar
  · rw [(gemmaOutput_ar hm).mp h, (gemmaOutput_ar hm).mp h']
  · exact ((gemmaOutput_speculative hm).mp h).unique ((gemmaOutput_speculative hm).mp h')

namespace LLMEngine

variable [LinearOrder R'] [Zero R'] {m : GemmaAdapter R V} {cfg : SSDConfig}
  {draft : DraftModel R' V'} {sampling : SamplingParams} {prompt : List Token} {t : Past}
  {e : LLMEngine Past cfg.speculateK V' R'} {g g' : Generation Past cfg.speculateK V' R'}

theorem runMode_gemma (hw : ∀ w, e.draftWorker = some w → WorkerInv cfg draft e.scheduler w)
    {a : LLMEngine Past cfg.speculateK V' R' × ℕ} (ha : admitPrompt cfg e prompt = some a)
    {metrics : RunMetrics} {w : Option (DraftWorker cfg.speculateK V' R')} {s : Decoding Past}
    (hrun : runMode cfg m.adapter draft sampling a.1.draftWorker (a.1.scheduler.seqs a.2) t
      metrics = some (s, w)) :
    GemmaOutput m cfg draft sampling.maxNewTokens prompt s.seq.completionTokenIds := by
  have hadm := admission_of_admitPrompt ha
  have hprompt : (a.1.scheduler.seqs a.2).promptTokenIds = prompt := hadm.seq.prompt
  have hspeculative (hm : cfg.mode ≠ .ar) :
      GemmaOutput m cfg draft sampling.maxNewTokens prompt s.seq.completionTokenIds := by
    obtain ⟨n, hlags, hu⟩ := runMode_drafted
      (P := Lags m prompt (draftFor cfg draft prompt) sampling.maxNewTokens) hm hw ha
      (fun n s spec cacheHit _ hlags hu hspec => hlags.verifyRound hu hspec cacheHit)
      (fun s hs => hprompt ▸ lags_specStart hadm.seq.completion hs) hrun
    rw [gemmaOutput_speculative hm]
    exact hlags.firstFull hu
  rcases runMode_cases hrun with ⟨hm, _, hs⟩ | ⟨hm, _⟩ | ⟨hm, _⟩
  · rw [gemmaOutput_ar hm, ← hprompt]
    exact runAr_extend hadm.seq.completion le_rfl hs
  · exact hspeculative (by simp [hm])
  · exact hspeculative (by rcases hm with hm | hm <;> simp [hm])

theorem generateLoop_gemma {prompts : List (List Token)}
    (hw : ∀ w, g.engine.draftWorker = some w → WorkerInv cfg draft g.engine.scheduler w)
    (h : generateLoop cfg m.adapter draft sampling prompts g = some g') :
    ∃ outputs, g'.outputs = g.outputs ++ outputs ∧
      List.Forall₂ (GemmaOutput m cfg draft sampling.maxNewTokens) prompts outputs := by
  induction prompts generalizing g with
  | nil =>
    obtain rfl := Option.some.inj h
    exact ⟨[], (List.append_nil _).symm, .nil⟩
  | cons prompt prompts ih =>
    obtain ⟨g₁, h₁, h₂⟩ := Option.bind_eq_some_iff.mp h
    obtain ⟨a, s, w, ha, hrun, _, _, _, hout, _⟩ := servePrompt_cases h₁
    obtain ⟨outputs, hout', hall⟩ := ih (workerInv_of_servePrompt hw h₁) h₂
    refine ⟨s.seq.completionTokenIds :: outputs, ?_, .cons (runMode_gemma hw ha hrun) hall⟩
    rw [hout', hout, List.append_assoc, List.singleton_append]

/-- **Serving on a Gemma target.** Whatever was served before, a call that returns answers each
prompt with the one output that the model, the draft model and the configuration fix for it. -/
theorem generate_gemma {prompts : List (List Token)} (he : Reachable cfg m.adapter draft t e)
    (h : generate cfg m.adapter draft sampling e prompts = some g) :
    List.Forall₂ (GemmaOutput m cfg draft sampling.maxNewTokens) prompts g.outputs ∧
      ∀ {t' : Past} {e' : LLMEngine Past cfg.speculateK V' R'}
        {g' : Generation Past cfg.speculateK V' R'}, Reachable cfg m.adapter draft t' e' →
        generate cfg m.adapter draft sampling e' prompts = some g' → g'.outputs = g.outputs := by
  have houtputs {t : Past} {e : LLMEngine Past cfg.speculateK V' R'}
      {g : Generation Past cfg.speculateK V' R'} (he : Reachable cfg m.adapter draft t e)
      (h : generate cfg m.adapter draft sampling e prompts = some g) :
      List.Forall₂ (GemmaOutput m cfg draft sampling.maxNewTokens) prompts g.outputs := by
    obtain ⟨outputs, hout, hall⟩ := generateLoop_gemma he.workerInv h
    rwa [hout, List.nil_append]
  have hunique : Relator.RightUnique (GemmaOutput m cfg draft sampling.maxNewTokens) :=
    fun _ _ _ => GemmaOutput.unique
  exact ⟨houtputs he h, fun he' h' =>
    List.right_unique_forall₂' hunique (houtputs he' h') (houtputs he h)⟩

theorem generate_gemma_lengthModel :
    ∃ (e : LLMEngine Past 1 3 ℕ) (g : Generation Past 1 3 ℕ),
      generate lengthConfig lengthModel.adapter (fun _ k => some (List.replicate k 0, []))
        { maxNewTokens := 3 } e [[1]] = some g ∧
      List.Forall₂ (GemmaOutput lengthModel lengthConfig
        (fun _ k => some (List.replicate k 0, []) : DraftModel ℕ 3) 3) [[1]] g.outputs := by
  obtain ⟨e, g, he, hg, _⟩ := lengthModel_call
  exact ⟨e, g, hg, (generate_gemma (.init he) hg).1⟩

end LLMEngine

end SsdTpu
