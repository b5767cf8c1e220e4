import SsdTpu.Isolation
import SsdTpu.Proposals
import SsdTpu.Throughput

/-!
# The rounds of a call

A speculative decode loop appends a first token and then, round by round, the accepted tokens of a
draft and a recovery token. A `Transcript` is such a list of rounds, as far as the loop test lets it
grow; how long a completion is, how many rounds it takes and how many requests the worker serves is
a matter of transcripts alone (`Transcript.bounds`).

1. `Logged` ties the variables of a loop to the rounds so far, for any target and any drafts
   (`Logged.verifyRound`).
2. The draft of a round was in the cache exactly when the round before it ended in a branch
   (`Hits`): the first request of a prompt always misses.
3. A call of `generate` is one transcript for each prompt (`generate_callLog`).
-/

namespace SsdTpu

/-- One pass of a speculative loop. -/
structure Round where
  accepted : List Token
  recovery : Token
  /-- Whether the draft was served from the cache. -/
  cacheHit : Bool
  deriving DecidableEq, Repr

def Round.tokens (r : Round) : List Token := r.accepted ++ [r.recovery]

/-- The step that is recorded for the round. -/
def Round.metrics (r : Round) : StepMetrics :=
  { cacheHit := r.cacheHit, acceptedTokens := r.accepted.length + 1 }

/-- The token of the prefill and the tokens of the rounds. -/
def completionOf (first : Token) (rounds : List Round) : List Token :=
  first :: rounds.flatMap Round.tokens

/-- The rounds of one prompt: a round accepts at most `k` draft tokens, it starts within the budget,
and after the last one the budget is used up. -/
structure Transcript (k : ℕ) (maxNewTokens : ℤ) (first : Token) (rounds : List Round) : Prop where
  accepted_le : ∀ r ∈ rounds, r.accepted.length ≤ k
  starts : ∀ before r after, rounds = before ++ r :: after →
    ((completionOf first before).length : ℤ) < maxNewTokens
  ends : maxNewTokens ≤ (completionOf first rounds).length

theorem completionOf_concat (first : Token) (rounds : List Round) (r : Round) :
    completionOf first (rounds ++ [r]) = completionOf first rounds ++ r.tokens := by
  simp [completionOf]

variable {τ ω R R' : Type*} [LinearOrder R] {V V' k : ℕ} {cfg : SSDConfig}
  {target : DecodeModelAdapter τ R V} {maxNewTokens : ℤ} {fuel : ℕ} {seq : Sequence} {t : τ}
  {metrics : RunMetrics} {first : Token} {rounds : List Round}

/-- What `verifyRound` makes of a draft. -/
def roundOf (cfg : SSDConfig) (target : DecodeModelAdapter τ R V) (spec : List Token)
    (cacheHit : Bool) (s : Decoding τ) : Round :=
  let r := verifyRound cfg target spec cacheHit s
  { accepted := spec.take r.1, recovery := r.2.token, cacheHit := cacheHit }

/-- The variables of a loop that has been entered with `metrics` on a new sequence, after some
rounds, each with a draft of at most `k` tokens. -/
structure Logged (k : ℕ) (maxNewTokens : ℤ) (metrics : RunMetrics) (first : Token)
    (rounds : List Round) (s : Decoding τ) : Prop where
  completion : s.seq.completionTokenIds = completionOf first rounds
  steps : s.metrics.steps = metrics.steps ++ rounds.map Round.metrics
  accepted_le : ∀ r ∈ rounds, r.accepted.length ≤ k
  starts : ∀ before r after, rounds = before ++ r :: after →
    ((completionOf first before).length : ℤ) < maxNewTokens

theorem logged_specStart {s : Decoding τ} (hnew : seq.completionTokenIds = [])
    (h : specStart cfg target seq t metrics = some s) :
    Logged k maxNewTokens metrics s.token [] s := by
  obtain ⟨p, _, rfl⟩ := Option.map_eq_some_iff.mp h
  refine ⟨?_, by simp, by simp, by simp⟩
  show seq.completionTokenIds ++ [p.1] = _
  rw [hnew]
  rfl

theorem verifyRound_fst_le (spec : List Token) (cacheHit : Bool) (s : Decoding τ) :
    (verifyRound cfg target spec cacheHit s).1 ≤ spec.length :=
  acceptUntil_le argmaxToken (target.verify s.target (s.token :: spec)
    (List.range (cfg.speculateK + 1)) (pageTable cfg)).1 (fun _ => (s.token :: spec).get) 0

theorem length_roundOf_accepted (spec : List Token) (cacheHit : Bool) (s : Decoding τ) :
    (roundOf cfg target spec cacheHit s).accepted.length =
      (verifyRound cfg target spec cacheHit s).1 := by
  show (spec.take _).length = _
  rw [List.length_take, min_eq_left (verifyRound_fst_le spec cacheHit s)]

/-- The step lemma: a pass of the loop is one more round. -/
theorem Logged.verifyRound {s : Decoding τ} (h : Logged k maxNewTokens metrics first rounds s)
    (hu : s.unfinished maxNewTokens = true) (cfg : SSDConfig) (target : DecodeModelAdapter τ R V)
    (spec : List Token) (hspec : spec.length ≤ k) (cacheHit : Bool) :
    Logged k maxNewTokens metrics first (rounds ++ [roundOf cfg target spec cacheHit s])
      (verifyRound cfg target spec cacheHit s).2 where
  completion := by
    rw [verifyRound_seq, completionOf_concat, ← h.completion]
    rfl
  steps := by
    rw [verifyRound_steps, h.steps, List.map_append, List.append_assoc]
    rfl
  accepted_le r hr := by
    rcases List.mem_append.mp hr with hr | hr
    · exact h.accepted_le r hr
    · obtain rfl := List.mem_singleton.mp hr
      rw [length_roundOf_accepted]
      exact (verifyRound_fst_le spec cacheHit s).trans hspec
  starts before r after hs := by
    rcases List.eq_nil_or_concat' after with rfl | ⟨after, x, rfl⟩
    · obtain ⟨rfl, _⟩ := List.append_inj' hs rfl
      rw [← h.completion]
      exact Sequence.not_isFinished_none.mp hu
    · rw [← List.cons_append, ← List.append_assoc] at hs
      exact h.starts before r after (List.append_inj' hs rfl).1

theorem Logged.transcript {s : Decoding τ} (h : Logged k maxNewTokens metrics first rounds s)
    (hu : s.unfinished maxNewTokens = false) : Transcript k maxNewTokens first rounds where
  accepted_le := h.accepted_le
  starts := h.starts
  ends := by
    rw [← h.completion, ← Sequence.isFinished_none]
    unfold Decoding.unfinished at hu
    simpa using hu

theorem runSd_logged {draft : DraftModel R' V'} {s : SdState τ Unit}
    (hdraft : ∀ tokens r, draft tokens cfg.speculateK = some r → r.1.length ≤ cfg.speculateK)
    (hnew : seq.completionTokenIds = [])
    (h : runSd cfg target (fun (_ : Unit) tokens k => (draft tokens k).map fun r => (r.1, ()))
      maxNewTokens fuel seq t () metrics = some s) :
    ∃ first rounds, Logged cfg.speculateK maxNewTokens metrics first rounds s.toDecoding ∧
      Transcript cfg.speculateK maxNewTokens first rounds := by
  obtain ⟨s₀, h₀, hrun⟩ := Option.bind_eq_some_iff.mp h
  obtain ⟨s₁, h₁, rfl⟩ := Option.map_eq_some_iff.mp h₀
  have hinv := Loop.run_invariant
    (P := fun s => ∃ rounds, Logged cfg.speculateK maxNewTokens metrics s₁.token rounds
      s.toDecoding) ⟨[], logged_specStart hnew h₁⟩ (fun s s' hs hc hf => ?_) hrun
  · obtain ⟨⟨rounds, hs⟩, hu⟩ := hinv
    exact ⟨_, rounds, hs, hs.transcript hu⟩
  · obtain ⟨rounds, hs⟩ := hs
    obtain ⟨r, hr, rfl⟩ := Option.map_eq_some_iff.mp hf
    obtain ⟨r', hr', rfl⟩ := Option.map_eq_some_iff.mp hr
    exact ⟨_, hs.verifyRound hc cfg target r'.1 (hdraft _ _ hr') false⟩

/-! ## Cache hits -/

/-- The draft of a round was cached exactly when the last round before it, if there is one, ended in
a branch. -/
def FromBranch (cfg : SSDConfig) (before : List Round) (cacheHit : Bool) : Prop :=
  cacheHit = true ↔ ∃ r, before.getLast? = some r ∧
    DraftWorker.IsBranch cfg r.accepted.length r.recovery

def Hits (cfg : SSDConfig) (rounds : List Round) : Prop :=
  ∀ before r after, rounds = before ++ r :: after → FromBranch cfg before r.cacheHit

theorem Hits.concat {r : Round} (h : Hits cfg rounds) (hr : FromBranch cfg rounds r.cacheHit) :
    Hits cfg (rounds ++ [r]) := by
  intro before q after hs
  rcases List.eq_nil_or_concat' after with rfl | ⟨after, x, rfl⟩
  · obtain ⟨rfl, hq⟩ := List.append_inj' hs rfl
    obtain rfl := List.singleton_inj.mp hq
    exact hr
  · rw [← List.cons_append, ← List.append_assoc] at hs
    exact h before q after (List.append_inj' hs rfl).1

section Ssd

open DraftWorker (handle)

variable [LinearOrder R'] [Zero R'] {draft : DraftModel R' V'} {scheduler : Scheduler} {r : ℕ}
  {w : DraftWorker cfg.speculateK V' R'}
  {s s' : SsdState τ (DraftWorker cfg.speculateK V' R') cfg.speculateK V' R'}

/-- The variables of `_run_ssd` while it serves the sequence `r`, entered with the worker `w`. Every
round but the first has been preceded by one request, and there was one before the loop. -/
structure SsdLogged (cfg : SSDConfig) (draft : DraftModel R' V') (scheduler : Scheduler) (r : ℕ)
    (w : DraftWorker cfg.speculateK V' R') (maxNewTokens : ℤ) (metrics : RunMetrics)
    (first : Token) (rounds : List Round)
    (s : SsdState τ (DraftWorker cfg.speculateK V' R') cfg.speculateK V' R') : Prop where
  logged : Logged cfg.speculateK maxNewTokens metrics first rounds s.toDecoding
  serving : AtServing cfg draft scheduler r maxNewTokens s
  hits : Hits cfg rounds
  next : s.unfinished maxNewTokens = true →
    FromBranch cfg rounds (s.draftResp.cacheHit 0) ∧
      s.worker.served.length = w.served.length + rounds.length + 1
  served : s.unfinished maxNewTokens = false →
    s.worker.served.length = w.served.length + max 1 rounds.length

theorem served_length_of_handle {w' : DraftWorker cfg.speculateK V' R'} {req : DraftRequest 1}
    {resp : DraftResponse 1 cfg.speculateK V' R'}
    (h : handle cfg draft w req = some (resp, w')) :
    w'.served.length = w.served.length + 1 := by
  obtain ⟨_, ⟨cache, _, rfl⟩, _⟩ := DraftWorker.handle_cases h
  simp

theorem ssdLogged_ssdStart (hr : r < scheduler.nextId)
    (hw : Serving cfg draft scheduler r w) (hfresh : w.lastSource ≠ some ((r : ℤ), w.contextTokens))
    (hid : seq.seqId = r) (hnew : seq.completionTokenIds = [])
    (h : ssdStart cfg target (handle cfg draft) seq t w metrics = some s) :
    SsdLogged cfg draft scheduler r w maxNewTokens metrics s.token [] s := by
  have hat : AtServing cfg draft scheduler r maxNewTokens s := atServing_ssdStart hr hw hid h
  obtain ⟨s₁, h₁, h₂⟩ := Option.bind_eq_some_iff.mp h
  obtain ⟨⟨resp, w'⟩, hh, rfl⟩ := Option.map_eq_some_iff.mp h₂
  have hserved := served_length_of_handle hh
  refine ⟨logged_specStart hnew h₁, hat, by simp [Hits], fun _ => ⟨?_, hserved⟩, fun _ => hserved⟩
  obtain ⟨p, _, rfl⟩ := Option.map_eq_some_iff.mp h₁
  have hid' : (({ seq with recoveryToken := p.1 } : Sequence).appendToken p.1).seqId = r := hid
  rw [hid'] at hh
  obtain ⟨_, _, _, hhit⟩ := hw.handle_spec hr hh
  exact iff_of_false (fun hc => hfresh (hhit.mp hc).1) (by simp)

theorem SsdLogged.ssdStep (hr : r < scheduler.nextId)
    (h : SsdLogged cfg draft scheduler r w maxNewTokens metrics first rounds s)
    (hu : s.unfinished maxNewTokens = true)
    (hs : SsdTpu.ssdStep cfg target (handle cfg draft) maxNewTokens s = some s') :
    SsdLogged cfg draft scheduler r w maxNewTokens metrics first
      (rounds ++ [roundOf cfg target (List.ofFn (s.draftResp.specTokens 0))
        (s.draftResp.cacheHit 0) s.toDecoding]) s' := by
  obtain ⟨hat, hhit⟩ := h.serving.ssdStep hr hs
  obtain ⟨hbranch, hserved⟩ := h.next hu
  have hvars := ssdStep_toDecoding hs
  have hlog := h.logged.verifyRound hu cfg target (List.ofFn (s.draftResp.specTokens 0)) (by simp)
    (s.draftResp.cacheHit 0)
  rw [← hvars] at hlog
  have hcount : s'.worker.served.length =
      s.worker.served.length + if s'.unfinished maxNewTokens then 1 else 0 := by
    unfold SsdTpu.ssdStep at hs
    simp only at hs
    split_ifs at hs with hu'
    · obtain ⟨a, ha, rfl⟩ := Option.map_eq_some_iff.mp hs
      rw [served_length_of_handle ha]
      exact congrArg (s.worker.served.length + ·) (if_pos hu').symm
    · obtain rfl := Option.some.inj hs
      exact ((congrArg (s.worker.served.length + ·) (if_neg hu')).trans (Nat.add_zero _)).symm
  refine ⟨hlog, hat, h.hits.concat hbranch, fun hu' => ⟨?_, ?_⟩, fun hu' => ?_⟩
  · have htok : (verifyRound cfg target (List.ofFn (s.draftResp.specTokens 0))
        (s.draftResp.cacheHit 0) s.toDecoding).2.token = s'.token :=
      (congrArg Decoding.token hvars).symm
    refine (hhit hu').trans ?_
    rw [List.getLast?_concat, ← length_roundOf_accepted, ← htok]
    constructor
    · intro hb
      exact ⟨_, rfl, hb⟩
    · rintro ⟨q, hq, hb⟩
      obtain rfl := Option.some.inj hq
      exact hb
  · rw [hcount, if_pos hu', hserved, List.length_append, List.length_singleton]
    omega
  · rw [hcount, if_neg (by simp [hu']), hserved, List.length_append, List.length_singleton]
    omega

theorem runSsd_logged (hr : r < scheduler.nextId) (hw : Serving cfg draft scheduler r w)
    (hfresh : w.lastSource ≠ some ((r : ℤ), w.contextTokens)) (hid : seq.seqId = r)
    (hnew : seq.completionTokenIds = [])
    (h : runSsd cfg target (handle cfg draft) maxNewTokens fuel seq t w metrics = some s) :
    ∃ first rounds, SsdLogged cfg draft scheduler r w maxNewTokens metrics first rounds s ∧
      Transcript cfg.speculateK maxNewTokens first rounds ∧
      s.worker.served.length = w.served.length + max 1 rounds.length := by
  obtain ⟨s₀, h₀, hrun⟩ := Option.bind_eq_some_iff.mp h
  have hinv := Loop.run_invariant
    (P := fun s => ∃ rounds, SsdLogged cfg draft scheduler r w maxNewTokens metrics s₀.token rounds
      s) ⟨[], ssdLogged_ssdStart hr hw hfresh hid hnew h₀⟩ (fun s s' hs hc hf => ?_) hrun
  · obtain ⟨⟨rounds, hs⟩, hu⟩ := hinv
    exact ⟨_, rounds, hs, hs.logged.transcript hu, hs.served hu⟩
  · obtain ⟨rounds, hs⟩ := hs
    exact ⟨_, hs.ssdStep hr hc hf⟩

end Ssd

/-! ## Counters -/

/-- The counters of cache hits and misses are those of the steps. -/
structure Counted (m : RunMetrics) : Prop where
  hits : m.cacheHits = m.steps.countP (·.cacheHit)
  misses : m.cacheMisses = m.steps.countP (!·.cacheHit)

theorem Counted.recordStep {m : RunMetrics} (h : Counted m) (step : StepMetrics) :
    Counted (m.recordStep step) := by
  obtain ⟨hhits, hmisses⟩ := h
  constructor
  · show (if step.cacheHit then m.cacheHits + 1 else m.cacheHits) = _
    rw [RunMetrics.recordStep_steps, List.countP_append, List.countP_singleton, ← hhits]
    split_ifs <;> rfl
  · show (if step.cacheHit then m.cacheMisses else m.cacheMisses + 1) = _
    rw [RunMetrics.recordStep_steps, List.countP_append, List.countP_singleton, ← hmisses]
    cases step.cacheHit <;> rfl

theorem Counted.specStart {s : Decoding τ} (h : Counted metrics)
    (hs : specStart cfg target seq t metrics = some s) : Counted s.metrics := by
  obtain ⟨p, _, rfl⟩ := Option.map_eq_some_iff.mp hs
  exact h

namespace LLMEngine

variable [LinearOrder R'] [Zero R'] {draft : DraftModel R' V'} {sampling : SamplingParams}

theorem counted_runMode (hm : cfg.mode ≠ .ar) {w w' : Option (DraftWorker cfg.speculateK V' R')}
    {s : Decoding τ} (h : Counted metrics)
    (hrun : runMode cfg target draft sampling w seq t metrics = some (s, w')) :
    Counted s.metrics := by
  rcases runMode_cases hrun with ⟨hm', _⟩ | ⟨_, _, s', rfl, hs⟩ | ⟨_, w₀, _, s', rfl, _, hs⟩
  · exact absurd hm' hm
  · exact runSd_invariant (P := fun s => Counted s.metrics) (fun _ => h.specStart)
      (fun _ _ _ hs => hs.recordStep _) hs
  · exact runSsd_invariant (P := fun s => Counted s.metrics) (fun _ => h.specStart)
      (fun _ _ _ hs => hs.recordStep _) hs

/-! ## Calls of `generate` -/

/-- The number of requests that the worker has answered, if there is one. -/
def requests {k : ℕ} (e : LLMEngine τ k V' R') : ℕ :=
  (e.draftWorker.map fun w => w.served.length).getD 0

/-- The rounds of each prompt served so far, with its first token. `before` is how many requests the
worker had answered when the call was made. -/
structure CallLog (cfg : SSDConfig) (maxNewTokens : ℤ) (before : ℕ)
    (runs : List (Token × List Round)) (g : Generation τ cfg.speculateK V' R') : Prop where
  outputs : g.outputs = runs.map fun p => completionOf p.1 p.2
  steps : g.metrics.steps = runs.flatMap fun p => p.2.map Round.metrics
  counted : Counted g.metrics
  transcripts : ∀ p ∈ runs, Transcript cfg.speculateK maxNewTokens p.1 p.2
  hits : cfg.mode ≠ .sd → ∀ p ∈ runs, Hits cfg p.2
  served : cfg.mode ≠ .sd →
    requests g.engine = before + (runs.map fun p => max 1 p.2.length).sum

variable {e : LLMEngine τ cfg.speculateK V' R'} {g g' : Generation τ cfg.speculateK V' R'}
  {runs : List (Token × List Round)} {prompt : List Token}

theorem runMode_logged (hm : cfg.mode ≠ .ar)
    (hdraft : cfg.mode = .sd → ∀ tokens r, draft tokens cfg.speculateK = some r →
      r.1.length ≤ cfg.speculateK)
    (hw : ∀ w, e.draftWorker = some w → WorkerInv cfg draft e.scheduler w)
    {a : LLMEngine τ cfg.speculateK V' R' × ℕ} (ha : admitPrompt cfg e prompt = some a)
    {w : Option (DraftWorker cfg.speculateK V' R')} {s : Decoding τ}
    (hrun : runMode cfg target draft sampling a.1.draftWorker (a.1.scheduler.seqs a.2) t metrics =
      some (s, w)) :
    ∃ first rounds, Logged cfg.speculateK sampling.maxNewTokens metrics first rounds s ∧
      Transcript cfg.speculateK sampling.maxNewTokens first rounds ∧
      (cfg.mode ≠ .sd → Hits cfg rounds ∧
        (w.map fun w => w.served.length).getD 0 = requests e + max 1 rounds.length) := by
  have hadm := admission_of_admitPrompt ha
  rcases runMode_cases hrun with ⟨hm', _⟩ | ⟨hm', rfl, s', rfl, hs⟩ | ⟨_, w₀, hw₀, s', rfl, rfl, hs⟩
  · exact absurd hm' hm
  · obtain ⟨first, rounds, hlog, htr⟩ := runSd_logged (hdraft hm') hadm.seq.completion hs
    exact ⟨first, rounds, hlog, htr, fun hne => absurd hm' hne⟩
  · obtain ⟨first, rounds, hlog, htr, hserved⟩ := runSsd_logged hadm.ref_lt
      (serving_of_admitPrompt hw ha hw₀) (lastSource_of_admitPrompt hw ha hw₀ _)
      (hadm.seq.seqId.trans hadm.ref.symm) hadm.seq.completion hs
    refine ⟨first, rounds, hlog.logged, htr, fun _ => ⟨hlog.hits, ?_⟩⟩
    rw [Option.map_some, Option.getD_some, hserved]
    -- a new context does not touch the requests
    have hreq : requests e = w₀.served.length := by
      have hcongr : a.1.draftWorker.map (fun w => w.served.length) =
          e.draftWorker.map fun w => w.served.length := by
        rw [hadm.draftWorker]
        split_ifs
        · rw [Option.map_map]
          rfl
        · rfl
      unfold requests
      rw [← hcongr, hw₀]
      rfl
    rw [hreq]

theorem CallLog.servePrompt {n : ℕ} (hm : cfg.mode ≠ .ar)
    (hdraft : cfg.mode = .sd → ∀ tokens r, draft tokens cfg.speculateK = some r →
      r.1.length ≤ cfg.speculateK)
    (hw : ∀ w, g.engine.draftWorker = some w → WorkerInv cfg draft g.engine.scheduler w)
    (h : CallLog cfg sampling.maxNewTokens n runs g)
    (hs : servePrompt cfg target draft sampling g prompt = some g') :
    ∃ p, CallLog cfg sampling.maxNewTokens n (runs ++ [p]) g' := by
  obtain ⟨a, s, w, ha, hrun, -, -, hworker, hout, hmet⟩ := servePrompt_cases hs
  obtain ⟨first, rounds, hlog, htr, hssd⟩ := runMode_logged hm hdraft hw ha hrun
  refine ⟨(first, rounds), ?_, ?_, ?_, ?_, fun hne => ?_, fun hne => ?_⟩
  · rw [hout, h.outputs, hlog.completion, List.map_append]
    rfl
  · rw [hmet, hlog.steps, h.steps, List.flatMap_append, List.flatMap_singleton]
  · rw [hmet]
    exact counted_runMode hm h.counted hrun
  · rw [List.forall_mem_append, List.forall_mem_singleton]
    exact ⟨h.transcripts, htr⟩
  · rw [List.forall_mem_append, List.forall_mem_singleton]
    exact ⟨h.hits hne, (hssd hne).1⟩
  · unfold requests
    rw [hworker, (hssd hne).2, h.served hne, List.map_append, List.sum_append, List.map_singleton,
      List.sum_singleton, Nat.add_assoc]

theorem CallLog.generateLoop {n : ℕ} {prompts : List (List Token)} (hm : cfg.mode ≠ .ar)
    (hdraft : cfg.mode = .sd → ∀ tokens r, draft tokens cfg.speculateK = some r →
      r.1.length ≤ cfg.speculateK)
    (hw : ∀ w, g.engine.draftWorker = some w → WorkerInv cfg draft g.engine.scheduler w)
    (h : CallLog cfg sampling.maxNewTokens n runs g)
    (hs : generateLoop cfg target draft sampling prompts g = some g') :
    ∃ more, more.length = prompts.length ∧
      CallLog cfg sampling.maxNewTokens n (runs ++ more) g' := by
  induction prompts generalizing g runs with
  | nil =>
    obtain rfl := Option.some.inj hs
    exact ⟨[], rfl, by rwa [List.append_nil]⟩
  | cons prompt prompts ih =>
    obtain ⟨g₁, h₁, h₂⟩ := Option.bind_eq_some_iff.mp hs
    obtain ⟨p, hp⟩ := h.servePrompt hm hdraft hw h₁
    obtain ⟨more, hlen, hmore⟩ := ih (workerInv_of_servePrompt hw h₁) hp h₂
    refine ⟨p :: more, congrArg (· + 1) hlen, ?_⟩
    rwa [List.append_assoc, List.singleton_append] at hmore

theorem generate_callLog {prompts : List (List Token)} (hm : cfg.mode ≠ .ar)
    (hdraft : cfg.mode = .sd → ∀ tokens r, draft tokens cfg.speculateK = some r →
      r.1.length ≤ cfg.speculateK)
    (he : Reachable cfg target draft t e)
    (h : generate cfg target draft sampling e prompts = some g) :
    ∃ runs, runs.length = prompts.length ∧
      CallLog cfg sampling.maxNewTokens (requests e) runs g := by
  have h₀ : CallLog cfg sampling.maxNewTokens (requests e) [] { engine := e } :=
    ⟨rfl, rfl, ⟨rfl, rfl⟩, by simp, by simp, fun _ => rfl⟩
  exact h₀.generateLoop hm hdraft he.workerInv h

open GemmaAdapter (lengthModel)

def lengthConfig : SSDConfig :=
  { mode := .ssd, speculateK := 1, fanOutList := [3, 3], numBlocks := 8 }

theorem lengthModel_call :
    ∃ (e : LLMEngine GemmaAdapter.Past 1 3 ℕ) (g : Generation GemmaAdapter.Past 1 3 ℕ),
      init lengthConfig none = some e ∧
      generate lengthConfig lengthModel.adapter (fun _ k => some (List.replicate k 0, []))
        { maxNewTokens := 3 } e [[1]] = some g ∧ g.metrics.cacheHits = 1 := by
  have hrun : ((init lengthConfig none : Option (LLMEngine GemmaAdapter.Past 1 3 ℕ)).bind fun e =>
      (generate lengthConfig lengthModel.adapter (fun _ k => some (List.replicate k 0, []))
        { maxNewTokens := 3 } e [[1]]).map fun g => g.metrics.cacheHits) = some 1 := by
    decide +kernel
  obtain ⟨e, he, hrun⟩ := Option.bind_eq_some_iff.mp hrun
  obtain ⟨g, hg, hhits⟩ := Option.map_eq_some_iff.mp hrun
  exact ⟨e, g, he, hg, hhits⟩

/-- **When the cache is hit.** A call in an SSD mode is, prompt by prompt, a first token and rounds,
which are recorded as its steps. The first request of a prompt misses; the request after a round
hits exactly if the round's accepted length and recovery token are a branch that `_rebuild_cache`
makes. The counters of the metrics add up these hits and misses. -/
theorem generate_hits {prompts : List (List Token)}
    (hm : cfg.mode = .ssd ∨ cfg.mode = .instanceSsd)
    (he : Reachable cfg target draft t e)
    (h : generate cfg target draft sampling e prompts = some g) :
    ∃ runs : List (Token × List Round), runs.length = prompts.length ∧
      g.outputs = runs.map (fun p => completionOf p.1 p.2) ∧
      g.metrics.steps = runs.flatMap (fun p => p.2.map Round.metrics) ∧
      (∀ p ∈ runs, ∀ before r after, p.2 = before ++ r :: after →
        (r.cacheHit = true ↔ ∃ q, before.getLast? = some q ∧
          DraftWorker.IsBranch cfg q.accepted.length q.recovery)) ∧
      g.metrics.cacheHits = (runs.map fun p => p.2.countP (·.cacheHit)).sum ∧
      g.metrics.cacheHits + g.metrics.cacheMisses = g.metrics.steps.length := by
  have har : cfg.mode ≠ .ar := by rcases hm with hm | hm <;> simp [hm]
  have hsd : cfg.mode ≠ .sd := by rcases hm with hm | hm <;> simp [hm]
  obtain ⟨runs, hlen, hlog⟩ := generate_callLog har (fun h => absurd h hsd) he h
  refine ⟨runs, hlen, hlog.outputs, hlog.steps, hlog.hits hsd, ?_, ?_⟩
  · rw [hlog.counted.hits, hlog.steps, List.countP_flatMap]
    simp [Function.comp_def, List.countP_map, Round.metrics]
  · rw [hlog.counted.hits, hlog.counted.misses]
    have := List.length_eq_countP_add_countP (·.cacheHit) (l := g.metrics.steps)
    simpa using this.symm

theorem generate_hits_lengthModel :
    ∃ (e : LLMEngine GemmaAdapter.Past 1 3 ℕ) (g : Generation GemmaAdapter.Past 1 3 ℕ)
      (runs : List (Token × List Round)),
      generate lengthConfig lengthModel.adapter (fun _ k => some (List.replicate k 0, []))
        { maxNewTokens := 3 } e [[1]] = some g ∧
      g.metrics.cacheHits = 1 ∧ runs.length = 1 ∧
      (runs.map fun p => p.2.countP (·.cacheHit)).sum = 1 := by
  obtain ⟨e, g, he, hg, hhits⟩ := lengthModel_call
  obtain ⟨runs, hlen, _, _, _, hcount, _⟩ := generate_hits (.inl rfl) (.init he) hg
  exact ⟨e, g, runs, hg, hhits, hlen, hcount.symm.trans hhits⟩

end LLMEngine

end SsdTpu
