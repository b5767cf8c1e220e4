import SsdTpu.Agreement
import SsdTpu.Proposals

/-!
# The asynchronous mode against the synchronous one

An engine in SSD mode with a draft worker and an engine in SD mode with the same draft model, on the
same target, whatever that target remembers. When the draft model looks at the last token only and
the worker can answer, the two engines stay *alike* over any calls:

1. the two modes reserve the same blocks, so that the schedulers move together
   (`admitPrompt_asSd`);
2. the two loops make the same rounds, a cached draft being the one that SD mode would ask for
   (`ssdStep_alike`);
3. so the calls return alike, failures included (`calls_asSd`). Only the `cache_hit` flags differ.
-/

namespace SsdTpu

variable {τ R R' : Type*} [LinearOrder R] [LinearOrder R'] [Zero R'] {V V' : ℕ} {cfg : SSDConfig}
  {target : DecodeModelAdapter τ R V} {draft : DraftModel R' V'} {maxNewTokens : ℤ}

/-- The same configuration in SD mode. -/
def SSDConfig.asSd (cfg : SSDConfig) : SSDConfig := { cfg with mode := .sd }

/-- The draft model answers `k` tokens to every prefix that is not empty, and looks at its last
token only. -/
structure LastToken (draft : DraftModel R' V') (k : ℕ) : Prop where
  answers : ∀ tok, ∃ r, draft [tok] k = some r ∧ r.1.length = k
  local_ : ∀ ctx tok, (draft (ctx ++ [tok]) k).map Prod.fst = (draft [tok] k).map Prod.fst

theorem lastToken_toy {R : Type*} [LinearOrder R] [Zero R] [One R] [Add R] [Mul R] [Div R]
    {H V k : ℕ} [NeZero H] (d : ToyModelAdapter R H V) (hk : 1 ≤ k) :
    LastToken d.draftSpeculate k where
  answers tok := by
    obtain ⟨r, hr, hfst⟩ := Option.map_eq_some_iff.mp (d.draftSpeculate_eq hk [] tok)
    exact ⟨r, hr, by rw [hfst, List.length_iterate]⟩
  local_ ctx tok := (d.draftSpeculate_eq hk ctx tok).trans (d.draftSpeculate_eq hk [] tok).symm

/-! ## The scheduler -/

namespace Scheduler

theorem reserveBlocks_asSd (hm : cfg.mode = .ssd) (s : Scheduler) (r : ℕ) :
    reserveBlocks cfg.asSd s r = reserveBlocks cfg s r := by
  unfold reserveBlocks reserveTokens SSDConfig.asSd
  rw [hm]
  rfl

theorem scheduleLoop_asSd (hm : cfg.mode = .ssd) (waiting : List ℕ) (s : Scheduler)
    (scheduled : List ℕ) :
    scheduleLoop cfg.asSd waiting s scheduled = scheduleLoop cfg waiting s scheduled := by
  induction waiting generalizing s scheduled with
  | nil => rfl
  | cons r waiting ih =>
    unfold scheduleLoop
    rw [reserveBlocks_asSd hm]
    simp only [ih]

end Scheduler

/-! ## The loops -/

/-- The steps without their `cache_hit` flags. -/
def unflagged (steps : List StepMetrics) : List StepMetrics :=
  steps.map fun m => { m with cacheHit := false }

/-- Two loop states that differ in the flags of their metrics only. -/
structure Alike (s s' : Decoding τ) : Prop where
  target : s'.target = s.target
  seq : s'.seq = s.seq
  token : s'.token = s.token
  totalTokens : s'.metrics.totalTokens = s.metrics.totalTokens
  steps : unflagged s'.metrics.steps = unflagged s.metrics.steps

theorem Alike.unfinished {s s' : Decoding τ} (h : Alike s s') :
    s'.unfinished maxNewTokens = s.unfinished maxNewTokens := by
  unfold Decoding.unfinished
  rw [h.seq]

theorem specStart_alike {seq : Sequence} {t : τ} {metrics metrics' : RunMetrics}
    (htotal : metrics'.totalTokens = metrics.totalTokens)
    (hsteps : unflagged metrics'.steps = unflagged metrics.steps) :
    Option.Rel Alike (specStart cfg target seq t metrics)
      (specStart cfg.asSd target seq t metrics') := by
  unfold specStart
  refine Loop.rel_map (r := Eq) ?_ fun p p' hp => ?_
  · show Option.Rel Eq (prefillFirst cfg target t _) (prefillFirst cfg target t _)
    cases prefillFirst cfg target t seq.promptTokenIds with
    | none => exact .none
    | some p => exact .some rfl
  · obtain rfl := hp
    exact ⟨rfl, rfl, rfl, htotal, hsteps⟩

theorem Alike.verifyRound {s s' : Decoding τ} (h : Alike s s') (spec : List Token) (hit : Bool) :
    Alike (verifyRound cfg target spec hit s).2
      (SsdTpu.verifyRound cfg.asSd target spec false s').2 := by
  obtain ⟨t, seq, token, metrics⟩ := s
  obtain ⟨t', seq', token', metrics'⟩ := s'
  obtain ⟨rfl, rfl, rfl, htotal, hsteps⟩ := h
  refine ⟨rfl, rfl, rfl, congrArg (· + _) htotal, ?_⟩
  rw [verifyRound_steps, verifyRound_steps]
  unfold unflagged at hsteps ⊢
  rw [List.map_append, List.map_append, hsteps]
  rfl

section Step

open DraftWorker (handle propose)

variable {scheduler : Scheduler} {r : ℕ}
  {s : SsdState τ (DraftWorker cfg.speculateK V' R') cfg.speculateK V' R'} {s' : SdState τ Unit}

omit [LinearOrder R'] [Zero R'] in
theorem LastToken.propose_isSome (h : LastToken draft cfg.speculateK) (hm : cfg.mode = .ssd)
    (ctx : List Token) (tok : Token) : (propose cfg draft ctx tok).isSome := by
  obtain ⟨p, hp, hlen⟩ := h.answers tok
  rw [DraftWorker.propose_of_draft (by simp [hm]), hp]
  exact toDraft_isSome hlen

theorem LastToken.handle_isSome (h : LastToken draft cfg.speculateK) (hm : cfg.mode = .ssd)
    (hs : cfg.Servable V') {w : DraftWorker cfg.speculateK V' R'}
    (hw : Serving cfg draft scheduler r w) (acc : ℕ) (tok : Token) :
    (handle cfg draft w (draftRequest r acc tok)).isSome :=
  (hw.isSome_handle_iff (fun tok => h.propose_isSome hm _ tok) acc tok).mpr hs

theorem LastToken.ssdStep_isSome (h : LastToken draft cfg.speculateK) (hm : cfg.mode = .ssd)
    (hs : cfg.Servable V') (hat : AtServing cfg draft scheduler r maxNewTokens s) :
    (ssdStep cfg target (handle cfg draft) maxNewTokens s).isSome := by
  unfold ssdStep
  simp only
  split_ifs
  · rw [Option.isSome_map, verifyRound_seq, Sequence.appendTokens_seqId, hat.seqId]
    exact h.handle_isSome hm hs hat.serving _ _
  · rfl

/-- The step lemma: the draft in hand is the one that `_run_sd` asks for. -/
theorem ssdStep_alike (h : LastToken draft cfg.speculateK) (hm : cfg.mode = .ssd)
    (hs : cfg.Servable V') (hr : r < scheduler.nextId)
    (hat : AtServing cfg draft scheduler r maxNewTokens s)
    (halike : Alike s.toDecoding s'.toDecoding) (hu : s.unfinished maxNewTokens = true) :
    Option.Rel (fun s s' => AtServing cfg draft scheduler r maxNewTokens s ∧
        Alike s.toDecoding s'.toDecoding)
      (ssdStep cfg target (handle cfg draft) maxNewTokens s)
      (sdStep cfg.asSd target (fun (_ : Unit) tokens k => (draft tokens k).map fun r => (r.1, ()))
        s') := by
  obtain ⟨ctx, hids⟩ := List.getLast?_eq_some_iff.mp hat.token_last
  -- what `_run_sd` asks for
  have hdraft : (draft s'.seq.tokenIds cfg.speculateK).map Prod.fst =
      some (List.ofFn (s.draftResp.specTokens 0)) := by
    rw [halike.seq, hids, h.local_]
    exact (LLMEngine.spec_of_propose (hat.spec hu)).1 (.inl (by simp [hm]))
  obtain ⟨p, hp, hfst⟩ := Option.map_eq_some_iff.mp hdraft
  have hsd : sdStep cfg.asSd target (fun (_ : Unit) tokens k => (draft tokens k).map fun r =>
      (r.1, ())) s' = some { (verifyRound cfg.asSd target (List.ofFn (s.draftResp.specTokens 0))
        false s'.toDecoding).2 with draft := () } := by
    unfold sdStep
    simp only [show cfg.asSd.speculateK = cfg.speculateK from rfl, hp, Option.map_some, ← hfst]
  have hsome : (ssdStep cfg target (handle cfg draft) maxNewTokens s).isSome :=
    h.ssdStep_isSome hm hs hat
  obtain ⟨s₁, hs₁⟩ := Option.isSome_iff_exists.mp hsome
  rw [hsd, hs₁]
  refine .some ⟨(hat.ssdStep hr hs₁).1, ?_⟩
  rw [ssdStep_toDecoding hs₁]
  exact halike.verifyRound _ _

theorem ssdStart_alike (h : LastToken draft cfg.speculateK) (hm : cfg.mode = .ssd)
    (hs : cfg.Servable V') (hr : r < scheduler.nextId) {w : DraftWorker cfg.speculateK V' R'}
    (hw : Serving cfg draft scheduler r w) {seq : Sequence} (hid : seq.seqId = r) {t : τ}
    {metrics metrics' : RunMetrics} (htotal : metrics'.totalTokens = metrics.totalTokens)
    (hsteps : unflagged metrics'.steps = unflagged metrics.steps) :
    Option.Rel (fun s s' => AtServing cfg draft scheduler r maxNewTokens s ∧
        Alike s.toDecoding s'.toDecoding)
      (ssdStart cfg target (handle cfg draft) seq t w metrics)
      (sdStart cfg.asSd target seq t () metrics') := by
  have hstart : Option.Rel Alike (specStart cfg target seq t metrics)
      (specStart cfg.asSd target seq t metrics') := specStart_alike htotal hsteps
  unfold sdStart
  cases h₀ : specStart cfg target seq t metrics with
  | none =>
    rw [h₀] at hstart
    cases h₀' : specStart cfg.asSd target seq t metrics' with
    | none =>
      unfold ssdStart
      rw [h₀]
      exact .none
    | some s' =>
      rw [h₀'] at hstart
      cases hstart
  | some s₀ =>
    rw [h₀] at hstart
    obtain ⟨s₀', h₀', halike⟩ := Loop.exists_of_rel_some hstart
    have hid₀ : s₀.seq.seqId = r := (specStart_sameRequest h₀).seqId.trans hid
    have hsome : (handle cfg draft w (draftRequest s₀.seq.seqId 0 s₀.token)).isSome := by
      rw [hid₀]
      exact h.handle_isSome hm hs hw _ _
    obtain ⟨a, ha⟩ := Option.isSome_iff_exists.mp hsome
    have hssd : ssdStart cfg target (handle cfg draft) seq t w metrics =
        some { s₀ with worker := a.2, draftResp := a.1 } := by
      unfold ssdStart
      rw [h₀, Option.bind_some, ha]
      rfl
    rw [hssd, h₀']
    exact .some ⟨atServing_ssdStart hr hw hid hssd, halike⟩

theorem runSsd_alike (target : DecodeModelAdapter τ R V) (maxNewTokens : ℤ)
    (h : LastToken draft cfg.speculateK) (hm : cfg.mode = .ssd)
    (hs : cfg.Servable V') (hr : r < scheduler.nextId) {w : DraftWorker cfg.speculateK V' R'}
    (hw : Serving cfg draft scheduler r w) {seq : Sequence} (hid : seq.seqId = r) {t : τ}
    {metrics metrics' : RunMetrics} (htotal : metrics'.totalTokens = metrics.totalTokens)
    (hsteps : unflagged metrics'.steps = unflagged metrics.steps) (fuel : ℕ) :
    Option.Rel (fun s s' => AtServing cfg draft scheduler r maxNewTokens s ∧
        Alike s.toDecoding s'.toDecoding)
      (runSsd cfg target (handle cfg draft) maxNewTokens fuel seq t w metrics)
      (runSd cfg.asSd target (fun (_ : Unit) tokens k => (draft tokens k).map fun r => (r.1, ()))
        maxNewTokens fuel seq t () metrics') :=
  Loop.rel_bind (ssdStart_alike h hm hs hr hw hid htotal hsteps) fun _ _ h₀ =>
    Loop.run_rel (fun _ _ hh => hh.2.unfinished.symm)
      (fun _ _ hh hu => ssdStep_alike h hm hs hr hh.1 hh.2 hu) fuel h₀

end Step

/-! ## Calls of `generate` -/

namespace LLMEngine

variable {sampling : SamplingParams}

/-- An engine in SSD mode with a draft worker, and one in SD mode. -/
structure AlikeEngine (cfg : SSDConfig) (e : LLMEngine τ cfg.speculateK V' R')
    (e' : LLMEngine τ cfg.asSd.speculateK V' R') : Prop where
  scheduler : e'.scheduler = e.scheduler
  target : e'.target = e.target
  worker : e.draftWorker.isSome

structure AlikeCall (cfg : SSDConfig) (g : Generation τ cfg.speculateK V' R')
    (g' : Generation τ cfg.asSd.speculateK V' R') : Prop where
  engine : AlikeEngine cfg g.engine g'.engine
  outputs : g'.outputs = g.outputs
  totalTokens : g'.metrics.totalTokens = g.metrics.totalTokens
  steps : unflagged g'.metrics.steps = unflagged g.metrics.steps

omit [LinearOrder R'] [Zero R'] in
theorem admitPrompt_asSd (hm : cfg.mode = .ssd) {e : LLMEngine τ cfg.speculateK V' R'}
    {e' : LLMEngine τ cfg.asSd.speculateK V' R'} (h : e'.scheduler = e.scheduler)
    (prompt : List Token) :
    Option.Rel (fun a a' => a'.2 = a.2 ∧ a'.1.scheduler = a.1.scheduler ∧
        a.1.draftWorker = e.draftWorker ∧ a.1.target = e.target ∧ a'.1.target = e'.target)
      (admitPrompt cfg e prompt) (admitPrompt cfg.asSd e' prompt) := by
  unfold admitPrompt Scheduler.schedule
  simp only
  rw [h, Scheduler.scheduleLoop_asSd hm, if_neg (by simp [hm])]
  cases Scheduler.scheduleLoop cfg (e.scheduler.addRequest prompt).1.waiting
    (e.scheduler.addRequest prompt).1 [] with
  | error s => exact .none
  | ok s => exact .some ⟨rfl, rfl, rfl, rfl, rfl⟩

theorem servePrompt_alike (h : LastToken draft cfg.speculateK) (hm : cfg.mode = .ssd)
    (hs : cfg.Servable V') {g : Generation τ cfg.speculateK V' R'}
    {g' : Generation τ cfg.asSd.speculateK V' R'} (hg : AlikeCall cfg g g')
    (hw : ∀ w, g.engine.draftWorker = some w → WorkerInv cfg draft g.engine.scheduler w)
    (prompt : List Token) :
    Option.Rel (AlikeCall cfg) (servePrompt cfg target draft sampling g prompt)
      (servePrompt cfg.asSd target draft sampling g' prompt) := by
  have hadmit := admitPrompt_asSd hm hg.engine.scheduler prompt
  unfold servePrompt
  cases ha : admitPrompt cfg g.engine prompt with
  | none =>
    rw [ha] at hadmit
    cases ha' : admitPrompt cfg.asSd g'.engine prompt with
    | none => exact .none
    | some a' =>
      rw [ha'] at hadmit
      cases hadmit
  | some a =>
    rw [ha] at hadmit
    obtain ⟨a', ha', href, hsched, hworker, htarget, htarget'⟩ := Loop.exists_of_rel_some hadmit
    obtain ⟨w, hsome⟩ := Option.isSome_iff_exists.mp hg.engine.worker
    have hadm := admission_of_admitPrompt ha
    have hrun := runSsd_alike target sampling.maxNewTokens (t := a.1.target) h hm hs hadm.ref_lt
      (serving_of_admitPrompt hw ha (hworker.trans hsome))
      (hadm.seq.seqId.trans hadm.ref.symm) hg.totalTokens hg.steps sampling.maxNewTokens.toNat
    rw [ha', Option.bind_some, Option.bind_some, runMode_ssd (.inl hm), hworker, hsome,
      Option.bind_some, Option.map_map]
    show Option.Rel _ _ (((runSd _ _ _ _ _ _ _ _ _).map _).map _)
    rw [Option.map_map, href, hsched, htarget', hg.engine.target, ← htarget]
    refine Loop.rel_map hrun fun s s' hh =>
      ⟨⟨?_, hh.2.target, rfl⟩, ?_, hh.2.totalTokens, hh.2.steps⟩
    · show a.1.scheduler.setSeq a.2 s'.seq = a.1.scheduler.setSeq a.2 s.seq
      rw [hh.2.seq]
    · show g'.outputs ++ [s'.seq.completionTokenIds] = g.outputs ++ [s.seq.completionTokenIds]
      rw [hg.outputs, hh.2.seq]

theorem generateLoop_alike (h : LastToken draft cfg.speculateK) (hm : cfg.mode = .ssd)
    (hs : cfg.Servable V') (prompts : List (List Token)) {g : Generation τ cfg.speculateK V' R'}
    {g' : Generation τ cfg.asSd.speculateK V' R'} (hg : AlikeCall cfg g g')
    (hw : ∀ w, g.engine.draftWorker = some w → WorkerInv cfg draft g.engine.scheduler w) :
    Option.Rel (AlikeCall cfg) (generateLoop cfg target draft sampling prompts g)
      (generateLoop cfg.asSd target draft sampling prompts g') := by
  induction prompts generalizing g g' with
  | nil => exact .some hg
  | cons prompt prompts ih =>
    have hserve : Option.Rel (AlikeCall cfg) (servePrompt cfg target draft sampling g prompt)
        (servePrompt cfg.asSd target draft sampling g' prompt) :=
      servePrompt_alike h hm hs hg hw prompt
    unfold generateLoop
    cases h₁ : servePrompt cfg target draft sampling g prompt with
    | none =>
      rw [h₁] at hserve
      cases h₁' : servePrompt cfg.asSd target draft sampling g' prompt with
      | none => exact .none
      | some g₁' =>
        rw [h₁'] at hserve
        cases hserve
    | some g₁ =>
      rw [h₁] at hserve
      obtain ⟨g₁', h₁', hg₁⟩ := Loop.exists_of_rel_some hserve
      rw [h₁']
      exact ih hg₁ (workerInv_of_servePrompt hw h₁)

/-- Calls of `generate` on one engine, with what each returns. -/
def calls (cfg : SSDConfig) (target : DecodeModelAdapter τ R V) (draft : DraftModel R' V') :
    List (SamplingParams × List (List Token)) → LLMEngine τ cfg.speculateK V' R' →
      Option (List (List (List Token) × RunMetrics) × LLMEngine τ cfg.speculateK V' R')
  | [], e => some ([], e)
  | c :: cs, e =>
    (generate cfg target draft c.1 e c.2).bind fun g =>
      (calls cfg target draft cs g.engine).map fun r => ((g.outputs, g.metrics) :: r.1, r.2)

/-- What a caller sees of a call, but for the flags. -/
def seen (c : List (List Token) × RunMetrics) : List (List Token) × ℕ × List StepMetrics :=
  (c.1, c.2.totalTokens, unflagged c.2.steps)

theorem calls_alike (h : LastToken draft cfg.speculateK) (hm : cfg.mode = .ssd)
    (hs : cfg.Servable V') {t : τ} (cs : List (SamplingParams × List (List Token)))
    {e : LLMEngine τ cfg.speculateK V' R'} {e' : LLMEngine τ cfg.asSd.speculateK V' R'}
    (he : Reachable cfg target draft t e) (halike : AlikeEngine cfg e e') :
    Option.Rel (fun r r' => r'.1.map seen = r.1.map seen ∧ AlikeEngine cfg r.2 r'.2)
      (calls cfg target draft cs e) (calls cfg.asSd target draft cs e') := by
  induction cs generalizing e e' with
  | nil => exact .some ⟨rfl, halike⟩
  | cons c cs ih =>
    have hcall : Option.Rel (AlikeCall cfg) (generate cfg target draft c.1 e c.2)
        (generate cfg.asSd target draft c.1 e' c.2) :=
      generateLoop_alike h hm hs c.2 ⟨halike, rfl, rfl, rfl⟩ he.workerInv
    unfold calls
    cases hg : generate cfg target draft c.1 e c.2 with
    | none =>
      rw [hg] at hcall
      cases hg' : generate cfg.asSd target draft c.1 e' c.2 with
      | none => exact .none
      | some g' =>
        rw [hg'] at hcall
        cases hcall
    | some g =>
      rw [hg] at hcall
      obtain ⟨g', hg', hgg⟩ := Loop.exists_of_rel_some hcall
      rw [hg']
      refine Loop.rel_map (ih (.generate he c.1 c.2 hg) hgg.engine) fun r r' hr => ⟨?_, hr.2⟩
      rw [List.map_cons, List.map_cons, hr.1]
      unfold seen
      rw [hgg.outputs, hgg.totalTokens, hgg.steps]

/-- **The asynchronous mode refines the synchronous one.** Let the draft model look at the last
token only, and the configuration be servable, with a role that loads the draft model. Then, for any
target and any calls from a new engine on, SSD mode and SD mode fail alike or return the same
outputs and the same steps up to the cache flags, and leave the same scheduler and the same
target. -/
theorem calls_asSd (h : LastToken draft cfg.speculateK) (hm : cfg.mode = .ssd)
    (hrole : cfg.tpuRole = .both ∨ cfg.tpuRole = .draft) (hs : cfg.Servable V')
    (target : DecodeModelAdapter τ R V) (t : τ) (cs : List (SamplingParams × List (List Token))) :
    Option.Rel (fun (r : _ × LLMEngine τ cfg.speculateK V' R')
          (r' : _ × LLMEngine τ cfg.asSd.speculateK V' R') =>
        r'.1.map seen = r.1.map seen ∧ r'.2.scheduler = r.2.scheduler ∧ r'.2.target = r.2.target)
      ((init cfg t).bind (calls cfg target draft cs))
      ((init cfg.asSd t).bind (calls cfg.asSd target draft cs)) := by
  have hload : cfg.LoadDraft := ⟨hrole, by simp [hm]⟩
  obtain ⟨e, he⟩ : ∃ e : LLMEngine τ cfg.speculateK V' R', init cfg t = some e :=
    Option.isSome_iff_exists.mp (init_isSome hload (.inl hm) hs.mqLen_isSome t)
  have hinv : EngineInv cfg draft e := engineInv_of_init he
  have halike : AlikeEngine cfg e
      { scheduler := .init cfg.asSd, target := t, draftWorker := none } := by
    obtain ⟨hsched, htarget, -⟩ := init_cases he
    exact ⟨hsched.symm, htarget.symm, hinv.loaded.mpr ⟨hload, .inl hm⟩⟩
  have hsd : cfg.asSd.mode = .sd := rfl
  rw [he, init_of_mode (.inr hsd), Option.bind_some, Option.bind_some]
  exact Loop.rel_imp (calls_alike h hm hs cs (.init he) halike) fun _ _ hr =>
    ⟨hr.1, hr.2.scheduler, hr.2.target⟩

open ToyModelAdapter (alternating)

def toyConfig : SSDConfig :=
  { mode := .ssd, speculateK := 1, fanOutList := [1, 1], numBlocks := 16 }

theorem calls_asSd_alternating :
    ∃ r r', ((init toyConfig ()).bind
        (calls toyConfig alternating.adapter alternating.draftSpeculate
          [({ maxNewTokens := 3 }, [[1]]), ({ maxNewTokens := 2 }, [[2], [0, 1]])])) = some r ∧
      ((init toyConfig.asSd ()).bind
        (calls toyConfig.asSd alternating.adapter alternating.draftSpeculate
          [({ maxNewTokens := 3 }, [[1]]), ({ maxNewTokens := 2 }, [[2], [0, 1]])])) = some r' ∧
      r'.1.map seen = r.1.map seen := by
  have hsome : ((init toyConfig ()).bind
      (calls toyConfig alternating.adapter alternating.draftSpeculate
        [({ maxNewTokens := 3 }, [[1]]), ({ maxNewTokens := 2 }, [[2], [0, 1]])])).isSome := by
    decide +kernel
  obtain ⟨r, hr⟩ := Option.isSome_iff_exists.mp hsome
  have hs : toyConfig.Servable 3 := ⟨2, rfl, by decide, by decide⟩
  have hrel := calls_asSd (lastToken_toy alternating le_rfl) rfl (.inl rfl) hs alternating.adapter
    () [({ maxNewTokens := 3 }, [[1]]), ({ maxNewTokens := 2 }, [[2], [0, 1]])]
  rw [hr] at hrel
  obtain ⟨r', hr', hseen, _⟩ := Loop.exists_of_rel_some hrel
  exact ⟨r, r', hr, hr', hseen⟩

end LLMEngine

end SsdTpu
