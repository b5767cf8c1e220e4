import SsdTpu.Proposals

/-!
# What the rounds draft

In a speculative mode the draft of a round is a function of the configuration, the draft model, the
prompt and the completion so far (`draftFor`), also where it comes from the cache. What a round on
such a draft keeps is therefore kept by whole runs, on any target and in any of these modes
(`runMode_drafted`).
-/

namespace SsdTpu

open DraftWorker (propose handle)

variable {τ R R' : Type*} [LinearOrder R] {V V' : ℕ} {cfg : SSDConfig}
  {target : DecodeModelAdapter τ R V} {draft : DraftModel R' V'} {prompt : List Token}

/-- The draft for the round after a completion: in SD mode the draft model's for all tokens, else
the worker's for the last one. -/
def draftFor (cfg : SSDConfig) (draft : DraftModel R' V') (prompt completion : List Token) :
    Option (List Token) :=
  match cfg.mode with
  | .sd => (draft (prompt ++ completion) cfg.speculateK).map Prod.fst
  | _ => completion.getLast?.bind fun last =>
    (propose cfg draft (contextOf cfg prompt) last).map List.ofFn

theorem draftFor_sd (hm : cfg.mode = .sd) (completion : List Token) :
    draftFor cfg draft prompt completion =
      (draft (prompt ++ completion) cfg.speculateK).map Prod.fst := by
  unfold draftFor
  rw [hm]

theorem draftFor_ssd (hm : cfg.mode = .ssd ∨ cfg.mode = .instanceSsd) (completion : List Token) :
    draftFor cfg draft prompt completion = completion.getLast?.bind fun last =>
      (propose cfg draft (contextOf cfg prompt) last).map List.ofFn := by
  unfold draftFor
  rcases hm with hm | hm <;> rw [hm]

/-- The variables of a speculative loop on a prompt: the recovery token is the last token. -/
structure Drafting (prompt : List Token) (s : Decoding τ) : Prop where
  prompt_eq : s.seq.promptTokenIds = prompt
  token_last : s.seq.completionTokenIds.getLast? = some s.token

variable {seq : Sequence} {t : τ} {metrics : RunMetrics} {s : Decoding τ}

theorem drafting_specStart (h : specStart cfg target seq t metrics = some s) :
    Drafting seq.promptTokenIds s := by
  obtain ⟨p, _, rfl⟩ := Option.map_eq_some_iff.mp h
  refine ⟨rfl, ?_⟩
  show (seq.completionTokenIds ++ [p.1]).getLast? = some p.1
  exact List.getLast?_concat

theorem Drafting.verifyRound (h : Drafting prompt s) (cfg : SSDConfig)
    (target : DecodeModelAdapter τ R V) (spec : List Token) (cacheHit : Bool) :
    Drafting prompt (verifyRound cfg target spec cacheHit s).2 := by
  constructor
  · rw [verifyRound_seq]
    exact h.prompt_eq
  · rw [verifyRound_seq, Sequence.appendTokens_completion, ← List.append_assoc,
      List.getLast?_concat]

/-! ## Runs -/

section Runs

variable {P : ℕ → Decoding τ → Prop} {maxNewTokens : ℤ} {fuel : ℕ}
  (hround : ∀ n s spec cacheHit, Drafting prompt s → P n s → s.unfinished maxNewTokens = true →
    draftFor cfg draft prompt s.seq.completionTokenIds = some spec →
    P (n + 1) (verifyRound cfg target spec cacheHit s).2)

include hround

theorem runSd_drafted (hm : cfg.mode = .sd) (hprompt : seq.promptTokenIds = prompt)
    (hstart : ∀ s, specStart cfg target seq t metrics = some s → P 0 s) {s : SdState τ Unit}
    (h : runSd cfg target (fun (_ : Unit) tokens k => (draft tokens k).map fun r => (r.1, ()))
      maxNewTokens fuel seq t () metrics = some s) :
    ∃ n, P n s.toDecoding ∧ s.unfinished maxNewTokens = false := by
  obtain ⟨s₀, h₀, hrun⟩ := Option.bind_eq_some_iff.mp h
  obtain ⟨s₁, h₁, rfl⟩ := Option.map_eq_some_iff.mp h₀
  obtain ⟨n, hs, hu⟩ := Loop.exists_head_of_run hrun
  refine ⟨n, And.right (hs.invariant
    (P := fun n s => Drafting prompt s.toDecoding ∧ P n s.toDecoding)
    ⟨hprompt ▸ drafting_specStart h₁, hstart _ h₁⟩ ?_), hu⟩
  rintro n s s' ⟨hd, hp⟩ hu hstep
  obtain ⟨r, hr, rfl⟩ := Option.map_eq_some_iff.mp hstep
  obtain ⟨r', hr', rfl⟩ := Option.map_eq_some_iff.mp hr
  refine ⟨hd.verifyRound cfg target _ _, hround n _ _ _ hd hp hu ?_⟩
  rw [draftFor_sd hm, ← hd.prompt_eq]
  show (draft s.seq.tokenIds _).map Prod.fst = _
  rw [hr', Option.map_some]

variable [LinearOrder R'] [Zero R'] {scheduler : Scheduler} {r : ℕ}
  {w : DraftWorker cfg.speculateK V' R'}

theorem runSsd_drafted (hm : cfg.mode = .ssd ∨ cfg.mode = .instanceSsd)
    (hr : r < scheduler.nextId) (hw : Serving cfg draft scheduler r w) (hid : seq.seqId = r)
    (href : (scheduler.seqs r).promptTokenIds = prompt) (hprompt : seq.promptTokenIds = prompt)
    (hstart : ∀ s, specStart cfg target seq t metrics = some s → P 0 s)
    {s : SsdState τ (DraftWorker cfg.speculateK V' R') cfg.speculateK V' R'}
    (h : runSsd cfg target (handle cfg draft) maxNewTokens fuel seq t w metrics = some s) :
    ∃ n, P n s.toDecoding ∧ s.unfinished maxNewTokens = false := by
  obtain ⟨s₀, h₀, hrun⟩ := Option.bind_eq_some_iff.mp h
  have hat₀ : AtServing cfg draft scheduler r maxNewTokens s₀ := atServing_ssdStart hr hw hid h₀
  obtain ⟨s₁, h₁, h₂⟩ := Option.bind_eq_some_iff.mp h₀
  obtain ⟨a, _, rfl⟩ := Option.map_eq_some_iff.mp h₂
  obtain ⟨n, hs, hu⟩ := Loop.exists_head_of_run hrun
  refine ⟨n, And.right (And.right (hs.invariant
    (P := fun n s => AtServing cfg draft scheduler r maxNewTokens s ∧
      Drafting prompt s.toDecoding ∧ P n s.toDecoding)
    ⟨hat₀, hprompt ▸ drafting_specStart h₁, hstart _ h₁⟩ ?_)), hu⟩
  rintro n s s' ⟨hat, hd, hp⟩ hu hstep
  -- the draft in hand is the one for the last token
  have hspec := hat.spec hu
  rw [hat.serving.context, href] at hspec
  rw [ssdStep_toDecoding hstep]
  refine ⟨(hat.ssdStep hr hstep).1, hd.verifyRound cfg target _ _, hround n _ _ _ hd hp hu ?_⟩
  rw [draftFor_ssd hm, hd.token_last, Option.bind_some, hspec, Option.map_some]

end Runs

namespace LLMEngine

variable [LinearOrder R'] [Zero R'] {P : ℕ → Decoding τ → Prop} {sampling : SamplingParams}
  {e : LLMEngine τ cfg.speculateK V' R'}

/-- **Runs on drafts.** What a round on the draft for the completion keeps holds at the end of the
decode loop of a prompt, after the number of its rounds. -/
theorem runMode_drafted (hm : cfg.mode ≠ .ar)
    (hw : ∀ w, e.draftWorker = some w → WorkerInv cfg draft e.scheduler w)
    {a : LLMEngine τ cfg.speculateK V' R' × ℕ} (ha : admitPrompt cfg e prompt = some a)
    (hround : ∀ n s spec cacheHit, Drafting prompt s → P n s →
      s.unfinished sampling.maxNewTokens = true →
      draftFor cfg draft prompt s.seq.completionTokenIds = some spec →
      P (n + 1) (verifyRound cfg target spec cacheHit s).2)
    (hstart : ∀ s, specStart cfg target (a.1.scheduler.seqs a.2) t metrics = some s → P 0 s)
    {w : Option (DraftWorker cfg.speculateK V' R')} {s : Decoding τ}
    (hrun : runMode cfg target draft sampling a.1.draftWorker (a.1.scheduler.seqs a.2) t metrics =
      some (s, w)) :
    ∃ n, P n s ∧ s.unfinished sampling.maxNewTokens = false := by
  have hadm := admission_of_admitPrompt ha
  have hprompt : (a.1.scheduler.seqs a.2).promptTokenIds = prompt := hadm.seq.prompt
  rcases runMode_cases hrun with ⟨hm', _⟩ | ⟨hm', _, s', rfl, hs⟩ | ⟨hm', w₀, hw₀, s', rfl, _, hs⟩
  · exact absurd hm' hm
  · exact runSd_drafted hround hm' hprompt hstart hs
  · exact runSsd_drafted hround hm' hadm.ref_lt (serving_of_admitPrompt hw ha hw₀)
      (hadm.seq.seqId.trans hadm.ref.symm) hprompt hprompt hstart hs

end LLMEngine

end SsdTpu
