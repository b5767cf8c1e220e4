import SsdTpu.Admission
import SsdTpu.Engine

/-!
# Serving requests

`LLMEngine.generate` serves its prompts one after the other: add the request, schedule, run the
decode loop of the mode on the new sequence. The engine keeps its scheduler, the state of its target
and its draft worker from one call to the next. An exception, which ends the call, is `none`.
-/

namespace SsdTpu

variable {τ R R' : Type*} [LinearOrder R] [LinearOrder R'] [Zero R'] {V V' : ℕ}

structure LLMEngine (τ : Type*) (k V' : ℕ) (R' : Type*) where
  scheduler : Scheduler
  target : τ
  draftWorker : Option (DraftWorker k V' R')

/-- The variables of the loop over the prompts. -/
structure Generation (τ : Type*) (k V' : ℕ) (R' : Type*) where
  engine : LLMEngine τ k V' R'
  outputs : List (List Token) := []
  metrics : RunMetrics := {}

namespace LLMEngine

/-- A new engine on a target in state `t`. Only the SSD modes start a draft worker, and only with a
draft model. -/
def init (cfg : SSDConfig) (t : τ) : Option (LLMEngine τ cfg.speculateK V' R') :=
  if cfg.LoadDraft ∧ (cfg.mode = .ssd ∨ cfg.mode = .instanceSsd) then
    (DraftWorker.start cfg).map fun w =>
      { scheduler := .init cfg, target := t, draftWorker := some w }
  else some { scheduler := .init cfg, target := t, draftWorker := none }

/-- What precedes the decode loop: `add_request`, `schedule` and, in INSTANCE mode, `set_context`.
Returns the reference of the new sequence. -/
def admitPrompt (cfg : SSDConfig) (e : LLMEngine τ cfg.speculateK V' R') (prompt : List Token) :
    Option (LLMEngine τ cfg.speculateK V' R' × ℕ) :=
  let a := e.scheduler.addRequest prompt
  (a.1.schedule cfg).toOption.map fun s =>
    ({ e with
        scheduler := s.1
        draftWorker :=
          if cfg.mode = .instanceSsd then e.draftWorker.map fun w => w.setContext prompt
          else e.draftWorker },
      a.2)

variable (cfg : SSDConfig) (target : DecodeModelAdapter τ R V) (draft : DraftModel R' V')
  (sampling : SamplingParams)

/-- The decode loop of the mode, with the draft worker it leaves. Without a worker `_run_ssd` fails
its assertion. -/
def runMode (w : Option (DraftWorker cfg.speculateK V' R')) (seq : Sequence) (t : τ)
    (metrics : RunMetrics) :
    Option (Decoding τ × Option (DraftWorker cfg.speculateK V' R')) :=
  let maxNewTokens := sampling.maxNewTokens
  match cfg.mode with
  | .ar =>
    (runAr cfg target maxNewTokens maxNewTokens.toNat seq t metrics).map fun s => (s, w)
  | .sd =>
    (runSd cfg target (fun (_ : Unit) tokens k => (draft tokens k).map fun r => (r.1, ()))
      maxNewTokens maxNewTokens.toNat seq t () metrics).map fun s => (s.toDecoding, w)
  | .ssd | .instanceSsd =>
    w.bind fun w =>
      (runSsd cfg target (DraftWorker.handle cfg draft) maxNewTokens maxNewTokens.toNat seq t w
        metrics).map fun s => (s.toDecoding, some s.worker)

/-- One pass of the loop over the prompts. The sequence object the decode loop worked on is written
back. -/
def servePrompt (g : Generation τ cfg.speculateK V' R') (prompt : List Token) :
    Option (Generation τ cfg.speculateK V' R') :=
  (admitPrompt cfg g.engine prompt).bind fun a =>
    (runMode cfg target draft sampling a.1.draftWorker (a.1.scheduler.seqs a.2) a.1.target
      g.metrics).map fun s =>
        { engine :=
            { scheduler := a.1.scheduler.setSeq a.2 s.1.seq
              target := s.1.target
              draftWorker := s.2 }
          outputs := g.outputs ++ [s.1.seq.completionTokenIds]
          metrics := s.1.metrics }

def generateLoop : List (List Token) → Generation τ cfg.speculateK V' R' →
    Option (Generation τ cfg.speculateK V' R')
  | [], g => some g
  | prompt :: prompts, g =>
    (servePrompt cfg target draft sampling g prompt).bind (generateLoop prompts)

/-- `generate`: the outputs and metrics, with the engine afterwards. -/
def generate (e : LLMEngine τ cfg.speculateK V' R') (prompts : List (List Token)) :
    Option (Generation τ cfg.speculateK V' R') :=
  generateLoop cfg target draft sampling prompts { engine := e }

/-- The engines that a new one becomes by calls of `generate`: calls that return, and calls that
raise at a prompt whose prefill has no last logits, that is, at an empty one. What a call leaves
that raises elsewhere, in `schedule`, the draft, the worker or a callback, is not among them. -/
inductive Reachable (t : τ) : LLMEngine τ cfg.speculateK V' R' → Prop
  | init {e : LLMEngine τ cfg.speculateK V' R'} (h : init cfg t = some e) : Reachable t e
  | generate {e : LLMEngine τ cfg.speculateK V' R'} {g : Generation τ cfg.speculateK V' R'}
    (h : Reachable t e) (sampling : SamplingParams) (prompts : List (List Token))
    (hg : generate cfg target draft sampling e prompts = some g) : Reachable t g.engine
  | raised {e : LLMEngine τ cfg.speculateK V' R'} {a : LLMEngine τ cfg.speculateK V' R' × ℕ}
    {prompt : List Token} (h : Reachable t e) (ha : admitPrompt cfg e prompt = some a)
    (hp : prefillFirst cfg target a.1.target prompt = none) :
    Reachable t { a.1 with
      target := (target.prefill (target.allocateKv a.1.target) prompt (pageTable cfg)).2 }

variable {cfg target draft sampling}

/-- The admission of a prompt: the next reference, a scheduling pass, and in INSTANCE mode a new
context. -/
structure Admission (cfg : SSDConfig) (e : LLMEngine τ cfg.speculateK V' R') (prompt : List Token)
    (a : LLMEngine τ cfg.speculateK V' R' × ℕ) : Prop where
  ref : a.2 = e.scheduler.nextId
  admits : Scheduler.Admits (e.scheduler.waiting ++ [e.scheduler.nextId])
    (e.scheduler.addRequest prompt).1 a.1.scheduler
  seq : Sequence.SameTokens { seqId := e.scheduler.nextId, promptTokenIds := prompt }
    (a.1.scheduler.seqs a.2)
  target : a.1.target = e.target
  draftWorker : a.1.draftWorker =
    if cfg.mode = .instanceSsd then e.draftWorker.map fun w => w.setContext prompt
    else e.draftWorker

omit [LinearOrder R'] in
theorem init_cases {t : τ} {e : LLMEngine τ cfg.speculateK V' R'} (h : init cfg t = some e) :
    e.scheduler = .init cfg ∧ e.target = t ∧
      ((cfg.LoadDraft ∧ (cfg.mode = .ssd ∨ cfg.mode = .instanceSsd) ∧
          ∃ w, DraftWorker.start cfg = some w ∧ e.draftWorker = some w) ∨
        ¬ (cfg.LoadDraft ∧ (cfg.mode = .ssd ∨ cfg.mode = .instanceSsd)) ∧
          e.draftWorker = none) := by
  unfold init at h
  split_ifs at h with hw
  · obtain ⟨w, hstart, rfl⟩ := Option.map_eq_some_iff.mp h
    exact ⟨rfl, rfl, .inl ⟨hw.1, hw.2, w, hstart, rfl⟩⟩
  · obtain rfl := Option.some.inj h
    exact ⟨rfl, rfl, .inr ⟨hw, rfl⟩⟩

omit [LinearOrder R'] in
theorem init_of_mode (hm : cfg.mode = .ar ∨ cfg.mode = .sd) (t : τ) :
    init cfg t = some ({ scheduler := .init cfg, target := t, draftWorker := none } :
      LLMEngine τ cfg.speculateK V' R') := by
  unfold init
  rw [if_neg]
  rintro ⟨-, hm' | hm'⟩ <;> rcases hm with hm | hm <;> rw [hm] at hm' <;> cases hm'

omit [LinearOrder R'] in
theorem init_isSome (hload : cfg.LoadDraft) (hm : cfg.mode = .ssd ∨ cfg.mode = .instanceSsd)
    (hmq : cfg.mqLen.isSome) (t : τ) :
    (init cfg t : Option (LLMEngine τ cfg.speculateK V' R')).isSome := by
  unfold init DraftWorker.start
  rw [if_pos ⟨hload, hm⟩, Option.isSome_map, Option.isSome_map]
  exact hmq

omit [LinearOrder R'] [Zero R'] in
theorem admission_of_admitPrompt {e : LLMEngine τ cfg.speculateK V' R'} {prompt : List Token}
    {a : LLMEngine τ cfg.speculateK V' R' × ℕ} (h : admitPrompt cfg e prompt = some a) :
    Admission cfg e prompt a := by
  obtain ⟨s, hs, rfl⟩ := Option.map_eq_some_iff.mp h
  have hadm := Scheduler.admits_scheduleLoop (toOption_eq_some.mp hs)
  refine ⟨rfl, hadm, ?_, rfl, rfl⟩
  have hseq := hadm.tokens e.scheduler.nextId
  have hnew : (e.scheduler.addRequest prompt).1.seqs e.scheduler.nextId =
      { seqId := e.scheduler.nextId, promptTokenIds := prompt } :=
    Scheduler.setSeq_self _ _ _
  rwa [hnew] at hseq

theorem runMode_ssd (hm : cfg.mode = .ssd ∨ cfg.mode = .instanceSsd)
    (w : Option (DraftWorker cfg.speculateK V' R')) (seq : Sequence) (t : τ)
    (metrics : RunMetrics) :
    runMode cfg target draft sampling w seq t metrics = w.bind fun w =>
      (runSsd cfg target (DraftWorker.handle cfg draft) sampling.maxNewTokens
        sampling.maxNewTokens.toNat seq t w metrics).map fun s =>
          (s.toDecoding, some s.worker) := by
  unfold runMode
  rcases hm with hm | hm <;> rw [hm]

/-- The decode loop that ran, and the draft worker it left. -/
theorem runMode_cases {w w' : Option (DraftWorker cfg.speculateK V' R')} {seq : Sequence}
    {t : τ} {metrics : RunMetrics} {s : Decoding τ}
    (h : runMode cfg target draft sampling w seq t metrics = some (s, w')) :
    (cfg.mode = .ar ∧ w' = w ∧
      runAr cfg target sampling.maxNewTokens sampling.maxNewTokens.toNat seq t metrics = some s) ∨
    (cfg.mode = .sd ∧ w' = w ∧ ∃ s' : SdState τ Unit, s = s'.toDecoding ∧
      runSd cfg target (fun (_ : Unit) tokens k => (draft tokens k).map fun r => (r.1, ()))
        sampling.maxNewTokens sampling.maxNewTokens.toNat seq t () metrics = some s') ∨
    ((cfg.mode = .ssd ∨ cfg.mode = .instanceSsd) ∧ ∃ w₀, w = some w₀ ∧
      ∃ s' : SsdState τ (DraftWorker cfg.speculateK V' R') cfg.speculateK V' R',
        s = s'.toDecoding ∧ w' = some s'.worker ∧
        runSsd cfg target (DraftWorker.handle cfg draft) sampling.maxNewTokens
          sampling.maxNewTokens.toNat seq t w₀ metrics = some s') := by
  have hssd (hm : cfg.mode = .ssd ∨ cfg.mode = .instanceSsd) : ∃ w₀, w = some w₀ ∧
      ∃ s' : SsdState τ (DraftWorker cfg.speculateK V' R') cfg.speculateK V' R',
        s = s'.toDecoding ∧ w' = some s'.worker ∧
        runSsd cfg target (DraftWorker.handle cfg draft) sampling.maxNewTokens
          sampling.maxNewTokens.toNat seq t w₀ metrics = some s' := by
    rw [runMode_ssd hm] at h
    obtain ⟨w₀, hw₀, hmap⟩ := Option.bind_eq_some_iff.mp h
    obtain ⟨s', hs', heq⟩ := Option.map_eq_some_iff.mp hmap
    obtain ⟨rfl, rfl⟩ := Prod.mk.inj heq
    exact ⟨w₀, hw₀, s', rfl, rfl, hs'⟩
  cases hm : cfg.mode with
  | ar =>
    unfold runMode at h
    simp only [hm] at h
    obtain ⟨s', hs', heq⟩ := Option.map_eq_some_iff.mp h
    obtain ⟨rfl, rfl⟩ := Prod.mk.inj heq
    exact .inl ⟨rfl, rfl, hs'⟩
  | sd =>
    unfold runMode at h
    simp only [hm] at h
    obtain ⟨s', hs', heq⟩ := Option.map_eq_some_iff.mp h
    obtain ⟨rfl, rfl⟩ := Prod.mk.inj heq
    exact .inr (.inl ⟨rfl, rfl, s', rfl, hs'⟩)
  | ssd => exact .inr (.inr ⟨.inl rfl, hssd (.inl hm)⟩)
  | instanceSsd => exact .inr (.inr ⟨.inr rfl, hssd (.inr hm)⟩)

theorem runMode_draftWorker {w w' : Option (DraftWorker cfg.speculateK V' R')} {seq : Sequence}
    {t : τ} {metrics : RunMetrics} {s : Decoding τ}
    (h : runMode cfg target draft sampling w seq t metrics = some (s, w')) :
    w'.isSome = w.isSome := by
  rcases runMode_cases h with ⟨_, rfl, _⟩ | ⟨_, rfl, _⟩ | ⟨_, w₀, rfl, s', _, rfl, _⟩
  · rfl
  · rfl
  · rfl

theorem runMode_sameRequest {w w' : Option (DraftWorker cfg.speculateK V' R')} {seq : Sequence}
    {t : τ} {metrics : RunMetrics} {s : Decoding τ}
    (h : runMode cfg target draft sampling w seq t metrics = some (s, w')) :
    Sequence.SameRequest seq s.seq := by
  rcases runMode_cases h with ⟨_, _, hs⟩ | ⟨_, _, s', rfl, hs⟩ | ⟨_, w₀, _, s', rfl, _, hs⟩
  · exact runAr_sameRequest hs
  · exact runSd_sameRequest hs
  · exact runSsd_sameRequest hs

omit [LinearOrder R'] [Zero R'] in
theorem Admission.ref_lt {e : LLMEngine τ cfg.speculateK V' R'} {prompt : List Token}
    {a : LLMEngine τ cfg.speculateK V' R' × ℕ} (h : Admission cfg e prompt a) :
    a.2 < a.1.scheduler.nextId := by
  rw [h.admits.nextId, h.ref]
  exact Nat.lt_succ_self _

omit [LinearOrder R'] [Zero R'] in
theorem Admission.draftWorker_isSome {e : LLMEngine τ cfg.speculateK V' R'} {prompt : List Token}
    {a : LLMEngine τ cfg.speculateK V' R' × ℕ} (h : Admission cfg e prompt a) :
    a.1.draftWorker.isSome = e.draftWorker.isSome := by
  rw [h.draftWorker]
  split_ifs
  · exact Option.isSome_map
  · rfl

/-- A served prompt: an admission, a decode loop, and the engine put together from what they
left. -/
theorem servePrompt_cases {g g' : Generation τ cfg.speculateK V' R'} {prompt : List Token}
    (h : servePrompt cfg target draft sampling g prompt = some g') :
    ∃ a s w, admitPrompt cfg g.engine prompt = some a ∧
      runMode cfg target draft sampling a.1.draftWorker (a.1.scheduler.seqs a.2) a.1.target
        g.metrics = some (s, w) ∧
      g'.engine.scheduler = a.1.scheduler.setSeq a.2 s.seq ∧ g'.engine.target = s.target ∧
      g'.engine.draftWorker = w ∧ g'.outputs = g.outputs ++ [s.seq.completionTokenIds] ∧
      g'.metrics = s.metrics := by
  obtain ⟨a, ha, hrun⟩ := Option.bind_eq_some_iff.mp h
  obtain ⟨⟨s, w⟩, hs, rfl⟩ := Option.map_eq_some_iff.mp hrun
  exact ⟨a, s, w, ha, hs, rfl, rfl, rfl, rfl, rfl⟩

theorem generateLoop_invariant {P : Generation τ cfg.speculateK V' R' → Prop}
    (hstep : ∀ g prompt g', P g → servePrompt cfg target draft sampling g prompt = some g' → P g')
    {prompts : List (List Token)} {g g' : Generation τ cfg.speculateK V' R'} (h0 : P g)
    (h : generateLoop cfg target draft sampling prompts g = some g') : P g' := by
  induction prompts generalizing g with
  | nil =>
    obtain rfl := Option.some.inj h
    exact h0
  | cons prompt prompts ih =>
    obtain ⟨g₁, h₁, h₂⟩ := Option.bind_eq_some_iff.mp h
    exact ih (hstep g prompt g₁ h0 h₁) h₂

/-- An engine property that a new engine has, and that admissions and decode loops keep, holds of
every reachable engine. -/
theorem Reachable.invariant {P : LLMEngine τ cfg.speculateK V' R' → Prop} {t : τ}
    (hinit : ∀ e, LLMEngine.init cfg t = some e → P e)
    (hadmitted : ∀ e prompt a t', P e → admitPrompt cfg e prompt = some a →
      P { a.1 with target := t' })
    (hserve : ∀ sampling g prompt g', P g.engine →
      servePrompt cfg target draft sampling g prompt = some g' → P g'.engine)
    {e : LLMEngine τ cfg.speculateK V' R'} (h : Reachable cfg target draft t e) : P e := by
  induction h with
  | init h => exact hinit _ h
  | generate _ sampling prompts hg ih =>
    exact generateLoop_invariant (P := fun g => P g.engine) (hserve sampling) ih hg
  | raised _ ha _ ih => exact hadmitted _ _ _ _ ih ha

/-! ## The block size -/

omit [LinearOrder R'] [Zero R'] in
/-- The first admission of an engine divides by the block size. -/
theorem blockSize_pos_of_admitPrompt {e : LLMEngine τ cfg.speculateK V' R'} {prompt : List Token}
    {a : LLMEngine τ cfg.speculateK V' R' × ℕ}
    (hidle : e.scheduler.pageManager.blockSize = 0 → e.scheduler.running = [])
    (h : admitPrompt cfg e prompt = some a) : e.scheduler.pageManager.blockSize ≠ 0 := by
  intro hb
  obtain ⟨s, hs, -⟩ := Option.map_eq_some_iff.mp h
  have hne : (e.scheduler.addRequest prompt).1.waiting ≠ [] :=
    List.append_ne_nil_of_right_ne_nil _ (List.cons_ne_nil _ _)
  have hrun : (e.scheduler.addRequest prompt).1.running = [] := hidle hb
  exact Scheduler.schedule_pos hne (by rw [hrun]; decide) (toOption_eq_some.mp hs) hb

end LLMEngine

end SsdTpu
