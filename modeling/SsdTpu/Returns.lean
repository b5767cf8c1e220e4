import SsdTpu.ToyServing

/-!
# When a call returns

`generate` raises where one of its prompts does. On toy models this is decided by the prompt and the
configuration alone, not by the pool of blocks, the cache or what was served before.

1. `_run_ssd` ends exactly if the worker can answer (`runSsd_isSome_iff`), the other loops always
   do, on a prompt that is not empty (`runMode_isSome`).
2. A prompt is served exactly if it can also be admitted and there is a worker where one is needed
   (`servePrompt_isSome_iff`).
3. So a call returns exactly if no prompt is empty, the blocks are not empty, and the worker is
   there and can rebuild its cache (`generate_isSome_iff`).
-/

namespace SsdTpu

open DraftWorker (propose)
open ToyModelAdapter (draftAfter alternating)

variable {R R' : Type*} [LinearOrder R] [Zero R] [One R] [Add R] [Mul R] [Div R] [LinearOrder R']
  [Zero R'] [One R'] [Add R'] [Mul R'] [Div R'] {H H' V V' : ℕ} [NeZero H] [NeZero H']

namespace LLMEngine

variable {m : ToyModelAdapter R H V} {d : ToyModelAdapter R' H' V'} {cfg : SSDConfig}
  {sampling : SamplingParams} {prompt : List Token} {prompts : List (List Token)}
  {e : LLMEngine Unit cfg.speculateK V' R'} {g g' : Generation Unit cfg.speculateK V' R'}

theorem exists_propose (hm : cfg.mode = .ssd ∨ cfg.mode = .instanceSsd) (hk : 1 ≤ cfg.speculateK)
    (hp : prompt ≠ []) (tok : Token) :
    ∃ spec, propose cfg d.draftSpeculate (contextOf cfg prompt) tok = some spec ∧
      ∀ ctx, List.ofFn spec = draftAfter (proposalFor cfg d prompt) (ctx ++ [tok]) := by
  obtain ⟨spec, hspec⟩ : ∃ spec, propose cfg d.draftSpeculate (contextOf cfg prompt) tok =
      some spec := by
    rcases hm with hm | hm
    · obtain ⟨spec, hspec, _⟩ : ∃ spec, _ ∧ ∀ ctx, _ := propose_ssd cfg (d := d) hm hk tok
      exact ⟨spec, hspec⟩
    · obtain ⟨spec, hspec, _⟩ := propose_instance cfg (d := d) hm hp tok
      exact ⟨spec, hspec⟩
  refine ⟨spec, hspec, fun ctx => ?_⟩
  rw [ToyModelAdapter.draftAfter_concat, ofFn_of_propose hm hp hspec]

/-- The logits of an empty prompt have no last row. -/
theorem ne_nil_of_runMode {w w' : Option (DraftWorker cfg.speculateK V' R')} {seq : Sequence}
    {metrics : RunMetrics} {s : Decoding Unit}
    (h : runMode cfg m.adapter d.draftSpeculate sampling w seq () metrics = some (s, w')) :
    seq.promptTokenIds ≠ [] := by
  have hstart {s : Decoding Unit} (h : specStart cfg m.adapter seq () metrics = some s) :
      seq.promptTokenIds ≠ [] := by
    intro hnil
    obtain ⟨_, hfirst, _⟩ := Option.map_eq_some_iff.mp h
    rw [hnil] at hfirst
    cases hfirst
  rcases runMode_cases h with ⟨_, _, hs⟩ | ⟨_, _, _, _, hs⟩ | ⟨_, _, _, _, _, _, hs⟩
  · obtain ⟨_, h₀, _⟩ := Option.bind_eq_some_iff.mp hs
    intro hnil
    obtain ⟨_, hfirst, _⟩ := Option.map_eq_some_iff.mp h₀
    rw [hnil] at hfirst
    cases hfirst
  · obtain ⟨_, h₀, _⟩ := Option.bind_eq_some_iff.mp hs
    obtain ⟨_, h₁, _⟩ := Option.map_eq_some_iff.mp h₀
    exact hstart h₁
  · obtain ⟨_, h₀, _⟩ := Option.bind_eq_some_iff.mp hs
    obtain ⟨_, h₁, _⟩ := Option.bind_eq_some_iff.mp h₀
    exact hstart h₁

/-- A worker answers the requests for a prompt exactly if the configuration is servable; the loop
then ends. -/
theorem runSsd_isSome_iff (hm : cfg.mode = .ssd ∨ cfg.mode = .instanceSsd)
    (hk : 1 ≤ cfg.speculateK) {scheduler : Scheduler} {r : ℕ} (hr : r < scheduler.nextId)
    {w : DraftWorker cfg.speculateK V' R'} (hw : Serving cfg d.draftSpeculate scheduler r w)
    (hid : (scheduler.seqs r).seqId = r) (hp : (scheduler.seqs r).promptTokenIds ≠ [])
    (hnew : (scheduler.seqs r).completionTokenIds = []) (maxNewTokens : ℤ) (metrics : RunMetrics) :
    (runSsd cfg m.adapter (DraftWorker.handle cfg d.draftSpeculate) maxNewTokens maxNewTokens.toNat
      (scheduler.seqs r) () w metrics).isSome ↔ cfg.Servable V' := by
  have hdraft := exists_propose (d := d) hm hk hp
  constructor
  · intro h
    obtain ⟨s, hs⟩ := Option.isSome_iff_exists.mp h
    obtain ⟨s₀, hs₀, _⟩ := Option.bind_eq_some_iff.mp hs
    obtain ⟨s₁, hs₁, hfirst⟩ := Option.bind_eq_some_iff.mp hs₀
    obtain ⟨x, hx, _⟩ := Option.map_eq_some_iff.mp hfirst
    rw [(specStart_sameRequest hs₁).seqId, hid] at hx
    apply (hw.isSome_handle_iff (propose_isSome cfg _ hdraft) 0 s₁.token).mp
    rw [hx]
    rfl
  · intro hs
    have hserve : Answers
        (fun _ => draftAfter (proposalFor cfg d (scheduler.seqs r).promptTokenIds))
        (DraftWorker.handle cfg d.draftSpeculate) (scheduler.seqs r).seqId
        fun _ => Serving cfg d.draftSpeculate scheduler r := by
      rw [hid]
      exact answers_of_servable cfg _ hdraft hs hr rfl
    obtain ⟨s, _, hrun, _⟩ := runSsd_toy m cfg metrics _ _ _ hserve hp hnew hw
      (le_refl maxNewTokens.toNat)
    rw [hrun]
    rfl

theorem runSd_isSome (hk : 1 ≤ cfg.speculateK) {seq : Sequence} (hp : seq.promptTokenIds ≠ [])
    (hnew : seq.completionTokenIds = []) (maxNewTokens : ℤ) (metrics : RunMetrics) :
    (runSd cfg m.adapter (fun (_ : Unit) tokens k => (d.draftSpeculate tokens k).map
      fun r => (r.1, ())) maxNewTokens maxNewTokens.toNat seq () () metrics).isSome := by
  have hdraft (tokens : List Token) (hne : tokens ≠ []) :
      (d.draftSpeculate tokens cfg.speculateK).map (fun r => (r.1, ())) =
        some (draftAfter (fun t => List.iterate d.T (d.T t) cfg.speculateK) tokens, ()) := by
    obtain ⟨ctx, t, rfl⟩ := (List.eq_nil_or_concat' tokens).resolve_left hne
    obtain ⟨r, hr, hfst⟩ := Option.map_eq_some_iff.mp (d.draftSpeculate_eq hk ctx t)
    rw [hr, Option.map_some, hfst, ToyModelAdapter.draftAfter_concat]
  obtain ⟨s, _, hs, _⟩ := runSd_toy m cfg metrics
    (fun _ => draftAfter fun t => List.iterate d.T (d.T t) cfg.speculateK)
    (fun (_ : Unit) tokens k => (d.draftSpeculate tokens k).map fun r => (r.1, ()))
    (fun _ _ => True) (fun _ _ tokens _ hne => ⟨(), hdraft tokens hne, trivial⟩) hp hnew trivial
    (le_refl maxNewTokens.toNat)
  rw [hs]
  rfl

theorem runMode_isSome (hk : cfg.mode ≠ .ar → 1 ≤ cfg.speculateK)
    (h : EngineInv cfg d.draftSpeculate g.engine)
    {a : LLMEngine Unit cfg.speculateK V' R' × ℕ} (ha : admitPrompt cfg g.engine prompt = some a)
    (hp : prompt ≠ [])
    (hworker : cfg.mode = .ssd ∨ cfg.mode = .instanceSsd →
      (cfg.tpuRole = .both ∨ cfg.tpuRole = .draft) ∧ cfg.Servable V') :
    (runMode cfg m.adapter d.draftSpeculate sampling a.1.draftWorker (a.1.scheduler.seqs a.2)
      a.1.target g.metrics).isSome := by
  have hadm := admission_of_admitPrompt ha
  have hp' : (a.1.scheduler.seqs a.2).promptTokenIds ≠ [] := by rwa [hadm.seq.prompt]
  by_cases hm : cfg.mode = .ssd ∨ cfg.mode = .instanceSsd
  · have har : cfg.mode ≠ .ar := by rcases hm with hm | hm <;> simp [hm]
    obtain ⟨hrole, hs⟩ := hworker hm
    obtain ⟨w, hw⟩ := Option.isSome_iff_exists.mp
      (hadm.draftWorker_isSome.trans (h.loaded.mpr ⟨⟨hrole, har⟩, hm⟩))
    rw [runMode_ssd hm, hw, Option.bind_some, Option.isSome_map]
    exact (runSsd_isSome_iff hm (hk har) hadm.ref_lt (serving_of_admitPrompt h.worker ha hw)
      (hadm.seq.seqId.trans hadm.ref.symm) hp' hadm.seq.completion _ _).mpr hs
  · unfold runMode
    cases hmode : cfg.mode with
    | ar =>
      obtain ⟨s, hs, _⟩ := runAr_toy m cfg g.metrics hp' hadm.seq.completion
        (le_refl sampling.maxNewTokens.toNat)
      exact Option.isSome_map.trans (congrArg Option.isSome hs)
    | sd =>
      exact Option.isSome_map.trans
        (runSd_isSome (hk (by simp [hmode])) hp' hadm.seq.completion _ _)
    | ssd => exact absurd (.inl hmode) hm
    | instanceSsd => exact absurd (.inr hmode) hm

/-- A prompt that was served had blocks to be served in and, in the SSD modes, a worker that
answered. -/
theorem servable_of_servePrompt (hk : cfg.mode ≠ .ar → 1 ≤ cfg.speculateK)
    (h : EngineInv cfg d.draftSpeculate g.engine)
    (hs : servePrompt cfg m.adapter d.draftSpeculate sampling g prompt = some g') :
    prompt ≠ [] ∧ 1 ≤ cfg.blockSize ∧ (cfg.mode = .ssd ∨ cfg.mode = .instanceSsd →
      (cfg.tpuRole = .both ∨ cfg.tpuRole = .draft) ∧ cfg.Servable V') := by
  obtain ⟨a, s, w, ha, hrun, -⟩ := servePrompt_cases hs
  have hadm := admission_of_admitPrompt ha
  have hprompt : (a.1.scheduler.seqs a.2).promptTokenIds = prompt := hadm.seq.prompt
  have hp : (a.1.scheduler.seqs a.2).promptTokenIds ≠ [] := ne_nil_of_runMode hrun
  have hsize := blockSize_pos_of_admitPrompt h.idle ha
  rw [h.blockSize] at hsize
  refine ⟨hprompt ▸ hp, by omega, fun hm => ?_⟩
  have har : cfg.mode ≠ .ar := by rcases hm with hm | hm <;> simp [hm]
  rw [runMode_ssd hm] at hrun
  obtain ⟨w₀, hw₀, hmap⟩ := Option.bind_eq_some_iff.mp hrun
  obtain ⟨s', hs', _⟩ := Option.map_eq_some_iff.mp hmap
  have hworker : g.engine.draftWorker.isSome := by
    rw [← hadm.draftWorker_isSome, hw₀]
    rfl
  refine ⟨(h.loaded.mp hworker).1.1, ?_⟩
  apply (runSsd_isSome_iff (m := m) hm (hk har) hadm.ref_lt
    (serving_of_admitPrompt h.worker ha hw₀) (hadm.seq.seqId.trans hadm.ref.symm) hp
    hadm.seq.completion sampling.maxNewTokens g.metrics).mp
  rw [hs']
  rfl

theorem servePrompt_isSome_iff (hk : cfg.mode ≠ .ar → 1 ≤ cfg.speculateK)
    (hfan : cfg.mode = .sd → cfg.fanOutList ≠ []) (h : EngineInv cfg d.draftSpeculate g.engine) :
    (servePrompt cfg m.adapter d.draftSpeculate sampling g prompt).isSome ↔
      prompt ≠ [] ∧ 1 ≤ cfg.blockSize ∧ (cfg.mode = .ssd ∨ cfg.mode = .instanceSsd →
        (cfg.tpuRole = .both ∨ cfg.tpuRole = .draft) ∧ cfg.Servable V') := by
  constructor
  · intro hsome
    obtain ⟨g', hs⟩ := Option.isSome_iff_exists.mp hsome
    exact servable_of_servePrompt hk h hs
  · rintro ⟨hp, hb, hworker⟩
    have hmq : cfg.mode ≠ .ar → cfg.mqLen.isSome := by
      intro har
      cases hmode : cfg.mode with
      | ar => exact absurd hmode har
      | sd => exact SSDConfig.mqLen_isSome (hfan hmode)
      | ssd => exact (hworker (.inl hmode)).2.mqLen_isSome
      | instanceSsd => exact (hworker (.inr hmode)).2.mqLen_isSome
    have hsize : g.engine.scheduler.pageManager.blockSize ≠ 0 := by
      rw [h.blockSize]
      omega
    obtain ⟨a, ha⟩ := Option.isSome_iff_exists.mp (admitPrompt_isSome hmq hsize prompt)
    unfold servePrompt
    rw [ha, Option.bind_some, Option.isSome_map]
    exact runMode_isSome hk h ha hp hworker

theorem generateLoop_isSome_iff (hk : cfg.mode ≠ .ar → 1 ≤ cfg.speculateK)
    (hfan : cfg.mode = .sd → cfg.fanOutList ≠ []) (h : EngineInv cfg d.draftSpeculate g.engine) :
    (generateLoop cfg m.adapter d.draftSpeculate sampling prompts g).isSome ↔
      ∀ prompt ∈ prompts, prompt ≠ [] ∧ 1 ≤ cfg.blockSize ∧
        (cfg.mode = .ssd ∨ cfg.mode = .instanceSsd →
          (cfg.tpuRole = .both ∨ cfg.tpuRole = .draft) ∧ cfg.Servable V') := by
  induction prompts generalizing g with
  | nil => simp [generateLoop]
  | cons prompt prompts ih =>
    have hfirst : (servePrompt cfg m.adapter d.draftSpeculate sampling g prompt).isSome ↔ _ :=
      servePrompt_isSome_iff hk hfan h
    rw [List.forall_mem_cons, ← hfirst]
    unfold generateLoop
    cases hserve : servePrompt cfg m.adapter d.draftSpeculate sampling g prompt with
    | none => simp
    | some g₁ =>
      rw [Option.bind_some, ih (h.servePrompt hserve)]
      exact (and_iff_right rfl).symm

/-- **When a call returns.** On toy models, with a positive number of draft tokens and, in SD mode,
a fan-out list that is not empty: whatever was served before and however full the pool is, a call
returns if and only if no prompt is empty and, where there is a prompt at all, the block size is
positive and, in the SSD modes, the role loads a draft model and the configuration is servable. -/
theorem generate_isSome_iff (hk : cfg.mode ≠ .ar → 1 ≤ cfg.speculateK)
    (hfan : cfg.mode = .sd → cfg.fanOutList ≠ [])
    (he : Reachable cfg m.adapter d.draftSpeculate () e) :
    (generate cfg m.adapter d.draftSpeculate sampling e prompts).isSome ↔
      ∀ prompt ∈ prompts, prompt ≠ [] ∧ 1 ≤ cfg.blockSize ∧
        (cfg.mode = .ssd ∨ cfg.mode = .instanceSsd →
          (cfg.tpuRole = .both ∨ cfg.tpuRole = .draft) ∧ cfg.Servable V') :=
  generateLoop_isSome_iff hk hfan he.engineInv

theorem generate_isSome_iff_alternating :
    ∃ e : LLMEngine Unit 1 3 ℚ, init perfectConfig () = some e ∧
      (generate perfectConfig alternating.adapter alternating.draftSpeculate { maxNewTokens := 4 } e
        [[1], [0, 2]]).isSome ∧
      ¬ (generate perfectConfig alternating.adapter alternating.draftSpeculate
        { maxNewTokens := 4 } e [[1], []]).isSome := by
  obtain ⟨e, _, he, _⟩ := perfect_call
  have hiff (prompts : List (List Token)) : (generate perfectConfig alternating.adapter
      alternating.draftSpeculate { maxNewTokens := 4 } e prompts).isSome ↔ _ :=
    generate_isSome_iff (by decide) (by decide) (.init he)
  have hs : perfectConfig.Servable 3 := ⟨2, rfl, by decide, by decide⟩
  refine ⟨e, he, (hiff _).mpr ?_, fun h => ?_⟩
  · rw [List.forall_mem_cons, List.forall_mem_singleton]
    exact ⟨⟨by decide, by decide, fun _ => ⟨.inl rfl, hs⟩⟩,
      by decide, by decide, fun _ => ⟨.inl rfl, hs⟩⟩
  · exact ((hiff _).mp h [] (by decide)).1 rfl

end LLMEngine

end SsdTpu
