import SsdTpu.Generate
import SsdTpu.GemmaAdapter

/-!
# Cache hits change nothing

Every draft that the worker has served, over any calls of `generate`, is the one its miss path would
have made for that request (`cache_transparency`).

1. The cache was made by the last request served, for its sequence id and its context
   (`Honest.ready`), so that a hit answers with a draft for the same sequence and context.
2. A served request names its sequence, and its context is the prompt of that sequence in INSTANCE
   mode and empty otherwise (`Attributed`); a new sequence has a new id, so that no entry made for
   an earlier prompt has its key.
-/

namespace SsdTpu

variable {τ R R' : Type*} [LinearOrder R] [LinearOrder R'] [Zero R'] {V V' : ℕ} {cfg : SSDConfig}

/-- The context in which the requests of a prompt are served. -/
def contextOf (cfg : SSDConfig) (prompt : List Token) : List Token :=
  if cfg.mode = .instanceSsd then prompt else []

namespace DraftWorker

variable {draft : DraftModel R' V'} {w w' : DraftWorker cfg.speculateK V' R'}

/-- The sequence id and the context of the last request served. -/
def lastSource {K : ℕ} (w : DraftWorker K V' R') : Option (ℤ × List Token) :=
  w.served.getLast?.map fun s => (s.key 0, s.context)

/-- A request served after the requests `before`: its draft is that of the miss path, and a hit
comes from the request just before it, for the same sequence and context. -/
structure Faithful (cfg : SSDConfig) (draft : DraftModel R' V')
    (before : List (Served cfg.speculateK)) (s : Served cfg.speculateK) : Prop where
  spec : propose cfg draft s.context (s.key 2) = some s.spec
  source : s.hit = true → ∃ s', before.getLast? = some s' ∧ s'.key 0 = s.key 0 ∧
    s'.context = s.context

structure Honest (cfg : SSDConfig) (draft : DraftModel R' V')
    (w : DraftWorker cfg.speculateK V' R') : Prop where
  ready : Ready cfg draft w w.lastSource
  faithful : ∀ before s after, w.served = before ++ s :: after → Faithful cfg draft before s

omit [LinearOrder R'] in
theorem honest_start (h : start cfg = some w) : Honest cfg draft w := by
  have hready : Ready cfg draft w none := start_ready h
  obtain ⟨n, _, rfl⟩ := Option.map_eq_some_iff.mp h
  exact ⟨hready, fun before s after hs => by simp at hs⟩

omit [LinearOrder R'] [Zero R'] in
theorem Honest.setContext (h : Honest cfg draft w) (tokens : List Token) :
    Honest cfg draft (w.setContext tokens) :=
  ⟨⟨h.ready.fits, h.ready.cache⟩, h.faithful⟩

theorem Honest.handle {req : DraftRequest 1} {resp : DraftResponse 1 cfg.speculateK V' R'}
    (h : Honest cfg draft w)
    (hctx : ∀ c, w.lastSource = some (req.cacheKeys 0 0, c) → c = w.contextTokens)
    (hh : DraftWorker.handle cfg draft w req = some (resp, w')) :
    Honest cfg draft w' ∧ w'.contextTokens = w.contextTokens ∧
      ∃ s, w'.served = w.served ++ [s] ∧ s.key = req.cacheKeys 0 ∧ s.context = w.contextTokens := by
  obtain ⟨hspec, hhit, hready, hcontext, hserved⟩ := handle_spec h.ready hctx hh
  refine ⟨⟨?_, fun before s after hs => ?_⟩, hcontext, _, hserved, rfl, rfl⟩
  · unfold lastSource
    rw [hserved, List.getLast?_concat]
    exact hready
  · rw [hserved] at hs
    rcases List.eq_nil_or_concat' after with rfl | ⟨after, x, rfl⟩
    · -- the request served now
      obtain ⟨rfl, hlast⟩ := List.append_inj' hs rfl
      obtain rfl := List.singleton_inj.mp hlast
      refine ⟨hspec, fun hs' => ?_⟩
      obtain ⟨s', hs', heq⟩ := Option.map_eq_some_iff.mp (hhit.mp hs').1
      obtain ⟨hkey, hcontext'⟩ := Prod.mk.inj heq
      exact ⟨s', hs', hkey, hcontext'⟩
    · rw [← List.cons_append, ← List.append_assoc] at hs
      obtain ⟨hs, _⟩ := List.append_inj' hs rfl
      exact h.faithful before s after hs

end DraftWorker

open DraftWorker (Honest Faithful propose)

/-- Every served request names a sequence and was served in the context of its prompt. -/
def Attributed (cfg : SSDConfig) (s : Scheduler) (served : List (Served cfg.speculateK)) : Prop :=
  ∀ x ∈ served, ∃ r : ℕ, r < s.nextId ∧ x.key 0 = r ∧
    x.context = contextOf cfg (s.seqs r).promptTokenIds

/-- The draft worker of an engine between two requests. -/
structure WorkerInv (cfg : SSDConfig) (draft : DraftModel R' V') (s : Scheduler)
    (w : DraftWorker cfg.speculateK V' R') : Prop where
  honest : Honest cfg draft w
  attributed : Attributed cfg s w.served
  context : cfg.mode ≠ .instanceSsd → w.contextTokens = []
  size : cfg.mqLen.map (· * 4) = some w.numBranches

theorem Attributed.of_prompts {s s' : Scheduler} {served : List (Served cfg.speculateK)}
    (h : Attributed cfg s served) (hnext : s.nextId ≤ s'.nextId)
    (hprompt : ∀ r < s.nextId, (s'.seqs r).promptTokenIds = (s.seqs r).promptTokenIds) :
    Attributed cfg s' served := by
  intro x hx
  obtain ⟨r, hr, hkey, hctx⟩ := h x hx
  refine ⟨r, lt_of_lt_of_le hr hnext, hkey, ?_⟩
  rw [hprompt r hr]
  exact hctx

/-- The worker while it serves the sequence `r`. -/
structure Serving (cfg : SSDConfig) (draft : DraftModel R' V') (s : Scheduler) (r : ℕ)
    (w : DraftWorker cfg.speculateK V' R') : Prop where
  honest : Honest cfg draft w
  attributed : Attributed cfg s w.served
  context : w.contextTokens = contextOf cfg (s.seqs r).promptTokenIds
  size : cfg.mqLen.map (· * 4) = some w.numBranches

omit [LinearOrder R'] [Zero R'] in
/-- A cache made for the sequence being served was made with its prompt. -/
theorem Serving.lastSource_eq {draft : DraftModel R' V'} {s : Scheduler} {r : ℕ}
    {w : DraftWorker cfg.speculateK V' R'} (h : Serving cfg draft s r w) {c : List Token}
    (hc : w.lastSource = some ((r : ℤ), c)) : c = w.contextTokens := by
  obtain ⟨x, hx, heq⟩ := Option.map_eq_some_iff.mp hc
  obtain ⟨hkey, rfl⟩ := Prod.mk.inj heq
  obtain ⟨r', _, hkey', hctx⟩ := h.attributed x (List.mem_of_getLast? hx)
  have hr' : r' = r := by
    have hcast : (r' : ℤ) = r := hkey'.symm.trans hkey
    exact_mod_cast hcast
  rw [hctx, hr', h.context]

/-- A request of the sequence being served: its response is the draft of the miss path, and it hits
when the last request was of the same sequence and its key is a branch. -/
theorem Serving.handle_spec {draft : DraftModel R' V'} {s : Scheduler} {r : ℕ}
    {w w' : DraftWorker cfg.speculateK V' R'} (hr : r < s.nextId) (h : Serving cfg draft s r w)
    {acc : ℕ} {tok : Token} {resp : DraftResponse 1 cfg.speculateK V' R'}
    (ha : DraftWorker.handle cfg draft w (draftRequest r acc tok) = some (resp, w')) :
    Serving cfg draft s r w' ∧ w'.lastSource = some ((r : ℤ), w'.contextTokens) ∧
      propose cfg draft w'.contextTokens tok = some (resp.specTokens 0) ∧
      (resp.cacheHit 0 = true ↔ w.lastSource = some ((r : ℤ), w.contextTokens) ∧
        DraftWorker.IsBranch cfg acc tok) := by
  have hctx : ∀ c, w.lastSource = some ((draftRequest r acc tok).cacheKeys 0 0, c) →
      c = w.contextTokens := fun c hc => h.lastSource_eq hc
  obtain ⟨hspec, hhit, _⟩ := DraftWorker.handle_spec h.honest.ready hctx ha
  obtain ⟨hh, hcontext, x, hserved, hkey, hx⟩ := h.honest.handle hctx ha
  have hsize := DraftWorker.numBranches_of_handle ha
  have hkey0 : x.key 0 = r := congrFun hkey 0
  refine ⟨⟨hh, fun y hy => ?_, hcontext.trans h.context, by rw [hsize]; exact h.size⟩, ?_, ?_, hhit⟩
  · rw [hserved] at hy
    rcases List.mem_append.mp hy with hy | hy
    · exact h.attributed y hy
    · obtain rfl := List.mem_singleton.mp hy
      exact ⟨r, hr, hkey0, hx.trans h.context⟩
  · unfold DraftWorker.lastSource
    rw [hserved, List.getLast?_concat, Option.map_some, hkey0, hx, hcontext]
  · rw [hcontext]
    exact hspec

theorem Serving.handle {draft : DraftModel R' V'} {s : Scheduler} {r : ℕ}
    {w : DraftWorker cfg.speculateK V' R'} (hr : r < s.nextId) (h : Serving cfg draft s r w)
    (acc : ℕ) (tok : Token)
    {a : DraftResponse 1 cfg.speculateK V' R' × DraftWorker cfg.speculateK V' R'}
    (ha : DraftWorker.handle cfg draft w (draftRequest r acc tok) = some a) :
    Serving cfg draft s r a.2 := by
  obtain ⟨resp, w'⟩ := a
  exact (h.handle_spec hr ha).1

namespace LLMEngine

open GemmaAdapter (lengthModel)

variable {target : DecodeModelAdapter τ R V} {draft : DraftModel R' V'} {sampling : SamplingParams}
  {e : LLMEngine τ cfg.speculateK V' R'}

omit [LinearOrder R'] [Zero R'] in
theorem serving_of_admitPrompt {prompt : List Token} {a : LLMEngine τ cfg.speculateK V' R' × ℕ}
    (h : ∀ w, e.draftWorker = some w → WorkerInv cfg draft e.scheduler w)
    (ha : admitPrompt cfg e prompt = some a) {w : DraftWorker cfg.speculateK V' R'}
    (hw : a.1.draftWorker = some w) : Serving cfg draft a.1.scheduler a.2 w := by
  have hadm := admission_of_admitPrompt ha
  have hprompt : (a.1.scheduler.seqs a.2).promptTokenIds = prompt := hadm.seq.prompt
  have hold : ∀ {served : List (Served cfg.speculateK)}, Attributed cfg e.scheduler served →
      Attributed cfg a.1.scheduler served := by
    intro served hs
    refine hs.of_prompts ?_ fun r hr => ?_
    · rw [hadm.admits.nextId]
      exact Nat.le_succ _
    · rw [(hadm.admits.tokens r).prompt]
      exact congrArg Sequence.promptTokenIds (Scheduler.setSeq_of_ne e.scheduler _ hr.ne)
  rw [hadm.draftWorker] at hw
  split_ifs at hw with hm
  · obtain ⟨w₀, hw₀, rfl⟩ := Option.map_eq_some_iff.mp hw
    have hinv := h w₀ hw₀
    refine ⟨hinv.honest.setContext prompt, hold hinv.attributed, ?_, hinv.size⟩
    rw [hprompt]
    unfold contextOf
    rw [if_pos hm]
    rfl
  · have hinv := h w hw
    refine ⟨hinv.honest, hold hinv.attributed, ?_, hinv.size⟩
    unfold contextOf
    rw [if_neg hm]
    exact hinv.context hm

theorem serving_of_runMode {s : Scheduler} {r : ℕ} {seq : Sequence} {t : τ} {metrics : RunMetrics}
    {w w' : Option (DraftWorker cfg.speculateK V' R')} {d : Decoding τ} (hr : r < s.nextId)
    (hid : seq.seqId = r) (h : ∀ x, w = some x → Serving cfg draft s r x)
    (hrun : runMode cfg target draft sampling w seq t metrics = some (d, w')) :
    ∀ x, w' = some x → Serving cfg draft s r x := by
  rcases runMode_cases hrun with ⟨_, rfl, _⟩ | ⟨_, rfl, _⟩ | ⟨_, w₀, hw₀, s', _, rfl, hs'⟩
  · exact h
  · exact h
  · rintro x hx
    obtain rfl := Option.some.inj hx
    refine runSsd_worker (P := Serving cfg draft s r) (h w₀ hw₀) (fun w acc tok a hw ha => ?_) hs'
    rw [hid] at ha
    exact hw.handle hr acc tok ha

omit [LinearOrder R'] [Zero R'] in
theorem Serving.workerInv {s : Scheduler} {r : ℕ} {w : DraftWorker cfg.speculateK V' R'}
    (h : Serving cfg draft s r w) : WorkerInv cfg draft s w := by
  refine ⟨h.honest, h.attributed, fun hm => ?_, h.size⟩
  rw [h.context]
  unfold contextOf
  rw [if_neg hm]

theorem workerInv_of_servePrompt {g g' : Generation τ cfg.speculateK V' R'} {prompt : List Token}
    (h : ∀ w, g.engine.draftWorker = some w → WorkerInv cfg draft g.engine.scheduler w)
    (hs : servePrompt cfg target draft sampling g prompt = some g') :
    ∀ w, g'.engine.draftWorker = some w → WorkerInv cfg draft g'.engine.scheduler w := by
  intro w hw
  obtain ⟨a, s, w', ha, hrun, hsch, _, hworker, _⟩ := servePrompt_cases hs
  have hadm := admission_of_admitPrompt ha
  have hserv := serving_of_runMode hadm.ref_lt (hadm.seq.seqId.trans hadm.ref.symm)
    (fun x hx => serving_of_admitPrompt h ha hx) hrun w (hworker ▸ hw)
  have hinv := Serving.workerInv hserv
  rw [hsch]
  refine ⟨hinv.honest, hinv.attributed.of_prompts le_rfl fun q _ => ?_, hinv.context, hinv.size⟩
  by_cases hq : q = a.2
  · subst hq
    rw [Scheduler.setSeq_self]
    exact (runMode_sameRequest hrun).prompt
  · rw [Scheduler.setSeq_of_ne _ _ hq]

omit [LinearOrder R'] in
theorem workerInv_of_init {t : τ} (h : init cfg t = some e) {w : DraftWorker cfg.speculateK V' R'}
    (hw : e.draftWorker = some w) : WorkerInv cfg draft e.scheduler w ∧ w.served = [] := by
  rcases init_cases h with ⟨-, -, ⟨-, -, w₀, hw₀, heq⟩ | ⟨-, hnone⟩⟩
  · obtain rfl := Option.some.inj (heq.symm.trans hw)
    have hh : Honest cfg draft w₀ := DraftWorker.honest_start hw₀
    obtain ⟨n, hn, rfl⟩ := Option.map_eq_some_iff.mp hw₀
    exact ⟨⟨hh, fun x hx => by simp at hx, fun _ => rfl, by rw [hn]; rfl⟩, rfl⟩
  · cases hnone.symm.trans hw

/-- An engine has a worker exactly if it was made with one, and on a block size of 0 it runs
nothing. -/
structure EngineInv (cfg : SSDConfig) (draft : DraftModel R' V')
    (e : LLMEngine τ cfg.speculateK V' R') : Prop where
  worker : ∀ w, e.draftWorker = some w → WorkerInv cfg draft e.scheduler w
  loaded : e.draftWorker.isSome ↔ cfg.LoadDraft ∧ (cfg.mode = .ssd ∨ cfg.mode = .instanceSsd)
  blockSize : e.scheduler.pageManager.blockSize = cfg.blockSize
  idle : e.scheduler.pageManager.blockSize = 0 → e.scheduler.running = []

omit [LinearOrder R'] in
theorem engineInv_of_init {t : τ} (h : init cfg t = some e) : EngineInv cfg draft e := by
  obtain ⟨hs, -, hw⟩ := init_cases h
  refine ⟨fun w hw => (workerInv_of_init h hw).1, ?_, by rw [hs]; rfl,
    by rw [hs]; exact fun _ => rfl⟩
  rcases hw with ⟨hload, hm, w, -, hw⟩ | ⟨hnot, hw⟩
  · rw [hw]
    exact iff_of_true rfl ⟨hload, hm⟩
  · rw [hw]
    exact iff_of_false Bool.false_ne_true hnot

omit [LinearOrder R'] [Zero R'] in
theorem EngineInv.admitPrompt {prompt : List Token} {a : LLMEngine τ cfg.speculateK V' R' × ℕ}
    (h : EngineInv cfg draft e) (ha : admitPrompt cfg e prompt = some a) (t : τ) :
    EngineInv cfg draft { a.1 with target := t } := by
  have hadm := admission_of_admitPrompt ha
  refine ⟨fun w hw => Serving.workerInv (serving_of_admitPrompt h.worker ha hw), ?_,
    hadm.admits.blockSize.trans h.blockSize, fun hb => ?_⟩
  · rw [← h.loaded]
    exact Bool.eq_iff_iff.mp hadm.draftWorker_isSome
  · exact absurd (hadm.admits.blockSize.symm.trans hb) (blockSize_pos_of_admitPrompt h.idle ha)

theorem EngineInv.servePrompt {g g' : Generation τ cfg.speculateK V' R'} {prompt : List Token}
    (h : EngineInv cfg draft g.engine)
    (hs : servePrompt cfg target draft sampling g prompt = some g') :
    EngineInv cfg draft g'.engine := by
  obtain ⟨a, s, w, ha, hrun, hsch, _, hworker, _⟩ := servePrompt_cases hs
  have hadm := h.admitPrompt ha a.1.target
  refine ⟨workerInv_of_servePrompt h.worker hs, ?_, by rw [hsch]; exact hadm.blockSize,
    by rw [hsch]; exact hadm.idle⟩
  rw [hworker, runMode_draftWorker hrun]
  exact hadm.loaded

theorem Reachable.engineInv {t : τ} (h : Reachable cfg target draft t e) : EngineInv cfg draft e :=
  h.invariant (P := EngineInv cfg draft) (fun _ he => engineInv_of_init he)
    (fun _ _ _ _ he ha => he.admitPrompt ha _) (fun _ _ _ _ hg hs => hg.servePrompt hs)

theorem Reachable.workerInv {t : τ} (h : Reachable cfg target draft t e) :
    ∀ w, e.draftWorker = some w → WorkerInv cfg draft e.scheduler w := h.engineInv.worker

omit [LinearOrder R'] [Zero R'] in
theorem spec_of_propose {ctx : List Token} {r : Token} {spec : Draft cfg.speculateK}
    (h : propose cfg draft ctx r = some spec) :
    (cfg.mode ≠ .instanceSsd ∨ ctx = [] →
      (draft [r] cfg.speculateK).map Prod.fst = some (List.ofFn spec)) ∧
    (cfg.mode = .instanceSsd ∧ ctx ≠ [] →
      promptDraft cfg.windowMean ctx cfg.speculateK = some (List.ofFn spec)) := by
  refine ⟨fun hd => ?_, fun hi => ?_⟩
  · rw [DraftWorker.propose_of_draft (by tauto)] at h
    obtain ⟨l, hl, hspec⟩ := Option.bind_eq_some_iff.mp h
    rwa [ofFn_of_toDraft hspec]
  · rw [DraftWorker.propose_of_span hi] at h
    obtain ⟨l, hl, hspec⟩ := Option.bind_eq_some_iff.mp h
    rwa [ofFn_of_toDraft hspec]

/-- **Cache-hit transparency.** Each request ever served, hit or miss, belongs to a sequence `r` and
was answered with the draft of the miss path: `draft_speculate([recovery], k)` in SSD mode, the span
copied from the prompt of `r` in INSTANCE mode. A hit was made while serving the request just before
it, for the same sequence and in the same context. -/
theorem cache_transparency {t : τ} (he : Reachable cfg target draft t e)
    {w : DraftWorker cfg.speculateK V' R'} (hw : e.draftWorker = some w)
    {before after : List (Served cfg.speculateK)} {s : Served cfg.speculateK}
    (hs : w.served = before ++ s :: after) :
    ∃ r : ℕ, r < e.scheduler.nextId ∧ s.key 0 = r ∧
      (cfg.mode = .ssd ∨ (e.scheduler.seqs r).promptTokenIds = [] →
        (draft [s.key 2] cfg.speculateK).map Prod.fst = some (List.ofFn s.spec)) ∧
      (cfg.mode = .instanceSsd ∧ (e.scheduler.seqs r).promptTokenIds ≠ [] →
        promptDraft cfg.windowMean (e.scheduler.seqs r).promptTokenIds cfg.speculateK =
          some (List.ofFn s.spec)) ∧
      (s.hit = true → ∃ s', before.getLast? = some s' ∧ s'.key 0 = r ∧
        s'.context = s.context) := by
  have hinv := he.workerInv w hw
  have hf := hinv.honest.faithful before s after hs
  obtain ⟨r, hr, hkey, hctx⟩ := hinv.attributed s (by rw [hs]; simp)
  obtain ⟨hdraft, hspan⟩ := spec_of_propose hf.spec
  refine ⟨r, hr, hkey, fun hd => hdraft ?_, fun hi => ?_, fun hhit => ?_⟩
  · rcases hd with hm | hp
    · exact .inl (by rw [hm]; decide)
    · refine .inr ?_
      rw [hctx, hp]
      unfold contextOf
      split_ifs <;> rfl
  · have hctx' : s.context = (e.scheduler.seqs r).promptTokenIds := by
      rw [hctx]
      unfold contextOf
      rw [if_pos hi.1]
    rw [← hctx']
    exact hspan ⟨hi.1, by rw [hctx']; exact hi.2⟩
  · obtain ⟨s', hs', hkey', hctx'⟩ := hf.source hhit
    exact ⟨s', hs', hkey'.trans hkey, hctx'⟩

/-- A run whose second request hits the cache made while the first one was served. -/
theorem cache_transparency_hit :
    ∃ (e : LLMEngine GemmaAdapter.Past 1 3 ℕ) (w : DraftWorker 1 3 ℕ) (s₀ s : Served 1),
      Reachable { mode := .ssd, speculateK := 1, fanOutList := [3, 3], numBlocks := 8 }
        lengthModel.adapter (fun _ k => some (List.replicate k 0, [])) none e ∧
      e.draftWorker = some w ∧ w.served = [s₀, s] ∧ s.hit = true ∧
      ∃ r : ℕ, s.key 0 = (r : ℤ) ∧ s₀.key 0 = (r : ℤ) ∧ List.ofFn s.spec = [0] := by
  have hrun : ((init { mode := .ssd, speculateK := 1, fanOutList := [3, 3], numBlocks := 8 } none :
      Option (LLMEngine GemmaAdapter.Past 1 3 ℕ)).bind fun e =>
        (generate { mode := .ssd, speculateK := 1, fanOutList := [3, 3], numBlocks := 8 }
          lengthModel.adapter (fun _ k => some (List.replicate k 0, [])) { maxNewTokens := 3 } e
          [[1]]).bind fun g => g.engine.draftWorker.map fun w => w.served.map fun s => s.hit) =
        some [false, true] := by decide +kernel
  obtain ⟨e, he, hrun⟩ := Option.bind_eq_some_iff.mp hrun
  obtain ⟨g, hg, hrun⟩ := Option.bind_eq_some_iff.mp hrun
  obtain ⟨w, hw, hhits⟩ := Option.map_eq_some_iff.mp hrun
  obtain ⟨s₀, _, hserved, _, hmap⟩ := List.map_eq_cons_iff.mp hhits
  obtain ⟨s, _, rfl, hs, hnil⟩ := List.map_eq_cons_iff.mp hmap
  obtain rfl := List.map_eq_nil_iff.mp hnil
  have hreach := Reachable.generate (.init he) _ _ hg
  obtain ⟨r, _, hkey, hspec, _, hhit⟩ :=
    cache_transparency hreach hw (show w.served = [s₀] ++ s :: [] from hserved)
  obtain ⟨s', hs', hkey', _⟩ := hhit hs
  obtain rfl := Option.some.inj hs'
  exact ⟨_, w, s₀, s, hreach, hw, hserved, hs, r, hkey, hkey',
    (Option.some.inj (hspec (.inl rfl))).symm⟩

end LLMEngine

end SsdTpu
