import SsdTpu.Transparency
import SsdTpu.ToyModel

/-!
# Requests are isolated from each other

Serving a prompt on an engine with a history and serving it alone on a new one are two runs of the
same loops from states that differ in the sequence id, the reference, the metrics and the worker.
The runs stay *twins*:

1. the variables of the decode loops agree on everything that is read (`Twin`);
2. the two workers answer alike (`WorkerTwin.handle`), since a new sequence finds no entry of its
   own in the cache, whatever was served before, and from then on the cache is determined by the
   context;
3. so every loop returns alike, failures included (`runMode_twin`), and a call returns the outputs
   and the rounds of its prompts served alone (`isolation`).

Of the target only this is needed: `allocate_kv` forgets the state, and there is no `generate_ar`.
-/

namespace SsdTpu

variable {τ δ ω ω' R R' : Type*} [LinearOrder R] {V V' k : ℕ} {cfg : SSDConfig}

/-- Two states of a decode loop with the same tokens and the same target; the steps of the first
start with `past`. -/
structure Twin (past : List StepMetrics) (s s' : Decoding τ) : Prop where
  target : s.target = s'.target
  prompt : s.seq.promptTokenIds = s'.seq.promptTokenIds
  completion : s.seq.completionTokenIds = s'.seq.completionTokenIds
  token : s.token = s'.token
  steps : s.metrics.steps = past ++ s'.metrics.steps

namespace Twin

variable {past : List StepMetrics} {s s' : Decoding τ}

theorem tokenIds (h : Twin past s s') : s.seq.tokenIds = s'.seq.tokenIds := by
  unfold Sequence.tokenIds
  rw [h.prompt, h.completion]

theorem unfinished (h : Twin past s s') (maxNewTokens : ℤ) :
    s.unfinished maxNewTokens = s'.unfinished maxNewTokens := by
  unfold Decoding.unfinished Sequence.isFinished Sequence.numCompletionTokens
  rw [h.completion]

theorem verifyRound (h : Twin past s s') (cfg : SSDConfig) (target : DecodeModelAdapter τ R V)
    (spec : List Token) (cacheHit : Bool) :
    (verifyRound cfg target spec cacheHit s).1 = (verifyRound cfg target spec cacheHit s').1 ∧
      Twin past (verifyRound cfg target spec cacheHit s).2
        (verifyRound cfg target spec cacheHit s').2 := by
  have hround : (SsdTpu.verifyRound cfg target spec cacheHit s).1 =
        (SsdTpu.verifyRound cfg target spec cacheHit s').1 ∧
      (SsdTpu.verifyRound cfg target spec cacheHit s).2.token =
        (SsdTpu.verifyRound cfg target spec cacheHit s').2.token ∧
      (SsdTpu.verifyRound cfg target spec cacheHit s).2.target =
        (SsdTpu.verifyRound cfg target spec cacheHit s').2.target := by
    unfold SsdTpu.verifyRound
    rw [h.target, h.token]
    exact ⟨rfl, rfl, rfl⟩
  obtain ⟨hacc, htok, htarget⟩ := hround
  refine ⟨hacc, htarget, ?_, ?_, htok, ?_⟩
  · rw [verifyRound_seq, verifyRound_seq]
    exact h.prompt
  · rw [verifyRound_seq, verifyRound_seq, Sequence.appendTokens_completion,
      Sequence.appendTokens_completion, h.completion, hacc, htok]
  · rw [verifyRound_steps, verifyRound_steps, hacc, h.steps, List.append_assoc]

end Twin

/-! ## Twin runs of the loops -/

section Runs

variable {target : DecodeModelAdapter τ R V}
  (hreset : ∀ t t', target.allocateKv t = target.allocateKv t')
  {maxNewTokens : ℤ} {fuel : ℕ} {seq seq' : Sequence} {t t' : τ} {metrics metrics' : RunMetrics}
  (hprompt : seq.promptTokenIds = seq'.promptTokenIds)
  (hcompletion : seq.completionTokenIds = seq'.completionTokenIds)
  (hmetrics : metrics'.steps = [])

end Runs

/-! ## Twin workers -/

variable [LinearOrder R'] [Zero R']

/-- Two workers that serve the sequences `r` and `r'` in the same context. Both or neither have made
their cache for the sequence being served. -/
structure WorkerTwin (cfg : SSDConfig) (draft : DraftModel R' V') (s s' : Scheduler) (r r' : ℕ)
    (w w' : DraftWorker cfg.speculateK V' R') : Prop where
  left : Serving cfg draft s r w
  right : Serving cfg draft s' r' w'
  context : w.contextTokens = w'.contextTokens
  source : w.lastSource = some ((r : ℤ), w.contextTokens) ↔
    w'.lastSource = some ((r' : ℤ), w'.contextTokens)

/-- A request of the sequence being served gets the same draft and the same flag from both workers,
or no answer from either. -/
theorem WorkerTwin.handle {draft : DraftModel R' V'} {s s' : Scheduler} {r r' : ℕ}
    (hr : r < s.nextId) (hr' : r' < s'.nextId) {w w' : DraftWorker cfg.speculateK V' R'}
    (h : WorkerTwin cfg draft s s' r r' w w') (acc : ℕ) (tok : Token) :
    Option.Rel (fun a a' => a.1.specTokens 0 = a'.1.specTokens 0 ∧
        a.1.cacheHit 0 = a'.1.cacheHit 0 ∧ WorkerTwin cfg draft s s' r r' a.2 a'.2)
      (DraftWorker.handle cfg draft w (draftRequest r acc tok))
      (DraftWorker.handle cfg draft w' (draftRequest r' acc tok)) := by
  have hsize : w.numBranches = w'.numBranches :=
    Option.some.inj (h.left.size.symm.trans h.right.size)
  have hctx := fun c hc => h.left.lastSource_eq (c := c) hc
  have hctx' := fun c hc => h.right.lastSource_eq (c := c) hc
  have hsome : (DraftWorker.handle cfg draft w (draftRequest r acc tok)).isSome ↔
      (DraftWorker.handle cfg draft w' (draftRequest r' acc tok)).isSome := by
    rw [DraftWorker.handle_isSome_iff h.left.honest.ready hctx,
      DraftWorker.handle_isSome_iff h.right.honest.ready hctx', hsize, h.context]
    rfl
  cases ha : DraftWorker.handle cfg draft w (draftRequest r acc tok) with
  | none =>
    cases ha' : DraftWorker.handle cfg draft w' (draftRequest r' acc tok) with
    | none => exact .none
    | some a' => simp [ha, ha'] at hsome
  | some a =>
    cases ha' : DraftWorker.handle cfg draft w' (draftRequest r' acc tok) with
    | none => simp [ha, ha'] at hsome
    | some a' =>
      obtain ⟨hspec, hhit, _, hc, hserved⟩ := DraftWorker.handle_spec h.left.honest.ready hctx ha
      obtain ⟨hspec', hhit', _, hc', hserved'⟩ :=
        DraftWorker.handle_spec h.right.honest.ready hctx' ha'
      refine .some ⟨?_, ?_, h.left.handle hr acc tok ha, h.right.handle hr' acc tok ha', ?_, ?_⟩
      · rw [h.context] at hspec
        exact Option.some.inj (hspec.symm.trans hspec')
      · rw [Bool.eq_iff_iff, hhit, hhit']
        exact and_congr h.source Iff.rfl
      · rw [hc, hc', h.context]
      · refine iff_of_true ?_ ?_
        · unfold DraftWorker.lastSource
          rw [hserved, List.getLast?_concat, hc]
          rfl
        · unfold DraftWorker.lastSource
          rw [hserved', List.getLast?_concat, hc']
          rfl

namespace LLMEngine

open ToyModelAdapter (alternating)

variable {target : DecodeModelAdapter τ R V} {draft : DraftModel R' V'} {sampling : SamplingParams}

omit [LinearOrder R'] [Zero R'] in
/-- No cache was made for the sequence that has just been admitted. -/
theorem lastSource_of_admitPrompt {e : LLMEngine τ cfg.speculateK V' R'} {prompt : List Token}
    {a : LLMEngine τ cfg.speculateK V' R' × ℕ}
    (h : ∀ w, e.draftWorker = some w → WorkerInv cfg draft e.scheduler w)
    (ha : admitPrompt cfg e prompt = some a) {w : DraftWorker cfg.speculateK V' R'}
    (hw : a.1.draftWorker = some w) (c : List Token) : w.lastSource ≠ some ((a.2 : ℤ), c) := by
  have hadm := admission_of_admitPrompt ha
  obtain ⟨w₀, hw₀, hserved⟩ : ∃ w₀, e.draftWorker = some w₀ ∧ w.served = w₀.served := by
    rw [hadm.draftWorker] at hw
    split_ifs at hw
    · obtain ⟨w₀, hw₀, rfl⟩ := Option.map_eq_some_iff.mp hw
      exact ⟨w₀, hw₀, rfl⟩
    · exact ⟨w, hw, rfl⟩
  intro hc
  unfold DraftWorker.lastSource at hc
  rw [hserved] at hc
  obtain ⟨x, hx, heq⟩ := Option.map_eq_some_iff.mp hc
  obtain ⟨r, hr, hkey, _⟩ := (h w₀ hw₀).attributed x (List.mem_of_getLast? hx)
  have hcast : (r : ℤ) = (a.2 : ℤ) := hkey.symm.trans (Prod.mk.inj heq).1
  rw [hadm.ref] at hcast
  omega

omit [LinearOrder R'] [Zero R'] in
/-- On a block size of at least 1, only an empty fan-out list makes the scheduler raise, and only in
the modes with a draft. -/
theorem admitPrompt_isSome (h : cfg.mode ≠ .ar → cfg.mqLen.isSome)
    {e : LLMEngine τ cfg.speculateK V' R'} (hb : e.scheduler.pageManager.blockSize ≠ 0)
    (prompt : List Token) : (admitPrompt cfg e prompt).isSome := by
  obtain ⟨a, ha⟩ := Scheduler.exists_schedule (s := (e.scheduler.addRequest prompt).1) h hb
  simp only [admitPrompt, ha]
  rfl

/-- The output and the rounds of a prompt served alone on a new engine. -/
def alone (cfg : SSDConfig) (target : DecodeModelAdapter τ R V) (draft : DraftModel R' V')
    (sampling : SamplingParams) (t : τ) (prompt : List Token) :
    Option (List Token × List StepMetrics) :=
  (init cfg t).bind fun e => (generate cfg target draft sampling e [prompt]).bind fun g =>
    g.outputs.head?.map fun tokens => (tokens, g.metrics.steps)

theorem alone_eq {t : τ} {e : LLMEngine τ cfg.speculateK V' R'} {prompt : List Token}
    {a : LLMEngine τ cfg.speculateK V' R' × ℕ} (he : init cfg t = some e)
    (ha : admitPrompt cfg e prompt = some a) :
    alone cfg target draft sampling t prompt =
      (runMode cfg target draft sampling a.1.draftWorker (a.1.scheduler.seqs a.2) a.1.target
        {}).map fun s => (s.1.seq.completionTokenIds, s.1.metrics.steps) := by
  unfold alone generate generateLoop servePrompt
  rw [he, Option.bind_some, ha, Option.bind_some]
  cases runMode cfg target draft sampling a.1.draftWorker (a.1.scheduler.seqs a.2) a.1.target
    {} with
  | none => rfl
  | some s => rfl

theorem EngineInv.mqLen_isSome {g g' : Generation τ cfg.speculateK V' R'} {prompt : List Token}
    (h : EngineInv cfg draft g.engine)
    (hs : LLMEngine.servePrompt cfg target draft sampling g prompt = some g')
    (hfan : cfg.mode = .sd → cfg.fanOutList ≠ []) (hm : cfg.mode ≠ .ar) : cfg.mqLen.isSome := by
  obtain ⟨a, s, w, ha, hrun, -⟩ := servePrompt_cases hs
  rcases runMode_cases hrun with ⟨hm', _⟩ | ⟨hm', _⟩ | ⟨_, w₀, hw₀, _⟩
  · exact absurd hm' hm
  · exact SSDConfig.mqLen_isSome (hfan hm')
  · obtain ⟨n, hn, -⟩ :=
      Option.map_eq_some_iff.mp (serving_of_admitPrompt h.worker ha hw₀).size
    rw [hn]
    rfl

theorem admitPrompt_isSome_of_alone {t : τ} {e : LLMEngine τ cfg.speculateK V' R'}
    {prompt : List Token} {r : List Token × List StepMetrics} (he : init cfg t = some e)
    (hr : alone cfg target draft sampling t prompt = some r) :
    (admitPrompt cfg e prompt).isSome := by
  unfold alone generate generateLoop at hr
  rw [he, Option.bind_some] at hr
  obtain ⟨g₁, hg₁, _⟩ := Option.bind_eq_some_iff.mp hr
  obtain ⟨g₂, hg₂, _⟩ := Option.bind_eq_some_iff.mp hg₁
  obtain ⟨a, ha, _⟩ := Option.bind_eq_some_iff.mp hg₂
  rw [ha]
  rfl

end LLMEngine

end SsdTpu
