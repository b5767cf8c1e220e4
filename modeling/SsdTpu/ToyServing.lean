import SsdTpu.Agreement
import SsdTpu.Drafting
import SsdTpu.Prediction
import Mathlib.Algebra.Order.Floor.Div

/-!
# Serving on a toy target

What a call of `generate` returns and records on toy models. A round goes as far as its draft stays
on the trajectory of the target, so that the two weight matrices and the last token of a prompt
decide how many rounds there are and how many tokens each of them adds.

1. `advance` is the number of tokens of a round, and `ToyRun` what is returned and recorded for a
   prompt. `Advances` ties the variables of a loop to it (`Advances.verifyRound`).
2. A call is one `ToyRun` for each prompt, whatever was served before (`generate_toy`).
3. No draft token is rejected in a call exactly if the draft model agrees with the target at the
   places where it drafts; the rounds are then as few as they can be (`generate_full_iff`).
-/

namespace SsdTpu

open DraftWorker (propose)
open LLMEngine (promptSpan propose_ssd propose_instance)
open ToyModelAdapter (alternating)

variable {R R' : Type*} [LinearOrder R] [Zero R] [One R] [Add R] [Mul R] [Div R] [LinearOrder R']
  [Zero R'] [One R'] [Add R'] [Mul R'] [Div R'] {H H' V V' k : ℕ} [NeZero H] [NeZero H']

/-! ## Rounds on the trajectory -/

namespace ToyModelAdapter

/-- The number of tokens that the `i`-th round adds. -/
def advance (m : ToyModelAdapter R H V) (last : Token) (proposal : Token → List Token) (i : ℕ) :
    ℕ :=
  let t := m.T^[m.roundEnd last proposal i] last
  m.agreeLen t (proposal t) + 1

/-- A draft that looks at the last token, as a function of all. -/
def draftAfter (proposal : Token → List Token) (tokens : List Token) : List Token :=
  (tokens.getLast?.map proposal).getD []

theorem draftAfter_concat (proposal : Token → List Token) (ctx : List Token) (t : Token) :
    draftAfter proposal (ctx ++ [t]) = proposal t := by
  unfold draftAfter
  rw [List.getLast?_concat]
  rfl

variable {m : ToyModelAdapter R H V} {last : Token} {proposal : Token → List Token}

theorem roundEnd_succ (i : ℕ) :
    m.roundEnd last proposal (i + 1) = m.roundEnd last proposal i + m.advance last proposal i :=
  rfl

theorem length_decode_draftAfter {prompt : List Token} (hp : prompt ≠ []) (i : ℕ) :
    (Greedy.decode m.next prompt (fun _ => draftAfter proposal) i).length =
      m.roundEnd (prompt.getLast hp) proposal i := by
  have h : (Greedy.decode m.next (prompt.dropLast ++ [prompt.getLast hp])
      (fun _ => draftAfter proposal) i).length = m.roundEnd (prompt.getLast hp) proposal i :=
    length_decode (fun _ => draftAfter_concat proposal) _ _ i
  rwa [List.dropLast_append_getLast] at h

/-- What is returned and recorded for a prompt: the rounds up to the first that fills the budget. -/
def ToyRun (m : ToyModelAdapter R H V) (proposal : Token → List Token) (maxNewTokens : ℤ)
    (prompt output : List Token) (accepted : List ℕ) : Prop :=
  ∃ (hp : prompt ≠ []) (n : ℕ), StopsAt (m.roundEnd (prompt.getLast hp) proposal) maxNewTokens n ∧
    output = Greedy.extend m.next prompt (m.roundEnd (prompt.getLast hp) proposal n) ∧
    accepted = (List.range n).map (m.advance (prompt.getLast hp) proposal)

theorem roundEnd_eq_sum (n : ℕ) : m.roundEnd last proposal n =
    1 + ((List.range n).map (m.advance last proposal)).sum := by
  induction n with
  | zero => rfl
  | succ n ih =>
    rw [roundEnd_succ, ih, List.range_succ, List.map_append, List.sum_append, Nat.add_assoc]
    rfl

theorem ToyRun.length_output {maxNewTokens : ℤ} {prompt output : List Token} {accepted : List ℕ}
    (h : ToyRun m proposal maxNewTokens prompt output accepted) :
    output.length = 1 + accepted.sum := by
  obtain ⟨hp, n, -, rfl, rfl⟩ := h
  rw [Greedy.length_extend, roundEnd_eq_sum]

end ToyModelAdapter

open ToyModelAdapter (ToyRun draftAfter)

/-! ## The loops -/

section Loops

variable {m : ToyModelAdapter R H V} {cfg : SSDConfig} {prompt : List Token} {hp : prompt ≠ []}
  {proposal : Token → List Token} {maxNewTokens : ℤ} {metrics : RunMetrics} {i : ℕ}
  {s : Decoding Unit}

/-- The variables of a loop that has been entered with `metrics`, after `i` rounds. -/
structure Advances (m : ToyModelAdapter R H V) (hp : prompt ≠ []) (proposal : Token → List Token)
    (maxNewTokens : ℤ) (metrics : RunMetrics) (i : ℕ) (s : Decoding Unit) : Prop where
  round : AtRound m prompt (fun _ => draftAfter proposal) maxNewTokens s i
  steps : ∃ more, s.metrics.steps = metrics.steps ++ more ∧
    more.map (·.acceptedTokens) = (List.range i).map (m.advance (prompt.getLast hp) proposal)

/-- The token in hand is where the rounds have got to on the trajectory. -/
theorem Advances.token_eq (h : Advances m hp proposal maxNewTokens metrics i s) :
    s.token = m.T^[m.roundEnd (prompt.getLast hp) proposal i] (prompt.getLast hp) := by
  rw [ToyModelAdapter.token_eq_of_decoded hp h.round.1, ToyModelAdapter.length_decode_draftAfter hp]

theorem Advances.verifyRound (h : Advances m hp proposal maxNewTokens metrics i s)
    (hu : s.unfinished maxNewTokens = true) {spec : List Token} (hspec : spec = proposal s.token)
    (cacheHit : Bool) :
    Advances m hp proposal maxNewTokens metrics (i + 1)
      (verifyRound cfg m.adapter spec cacheHit s).2 := by
  obtain ⟨ctx, hctx⟩ := h.round.1.token_last
  have hdraft : spec = draftAfter proposal s.seq.tokenIds := by
    rw [hctx, ToyModelAdapter.draftAfter_concat, hspec]
  refine ⟨h.round.verifyRound hu hdraft cacheHit, ?_⟩
  obtain ⟨more, hsteps, hmore⟩ := h.steps
  obtain ⟨hacc, _, _⟩ := verifyRound_spec cfg m.adapter spec cacheHit s
    fun i => toy_verify m ctx s.token spec _ _ i
  have hadvance : (spec.take (SsdTpu.verifyRound cfg m.adapter spec cacheHit s).1).length + 1 =
      m.advance (prompt.getLast hp) proposal i := by
    rw [List.length_take, hacc, min_eq_left (Greedy.acceptLen_le _ _),
      ToyModelAdapter.acceptLen_eq_agreeLen, hspec, h.token_eq]
    rfl
  refine ⟨more ++ [{ cacheHit, acceptedTokens := m.advance (prompt.getLast hp) proposal i }], ?_,
    ?_⟩
  · rw [verifyRound_steps, hsteps, hadvance, List.append_assoc]
  · rw [List.map_append, hmore, List.range_succ, List.map_append]
    rfl

theorem Advances.toyRun (h : Advances m hp proposal maxNewTokens metrics i s)
    (hu : s.unfinished maxNewTokens = false) :
    ∃ more, s.metrics.steps = metrics.steps ++ more ∧
      ToyRun m proposal maxNewTokens prompt s.seq.completionTokenIds
        (more.map (·.acceptedTokens)) := by
  obtain ⟨more, hsteps, hmore⟩ := h.steps
  have hstops := h.round.stopsAt hu
  simp only [ToyModelAdapter.length_decode_draftAfter hp] at hstops
  refine ⟨more, hsteps, hp, i, hstops, ?_, hmore⟩
  have hfollows : Greedy.Follows m.next prompt
      (Greedy.decode m.next prompt (fun _ => draftAfter proposal) i) := Greedy.follows_decode _ _ _
  rw [h.round.1.completion_eq, hfollows.eq_extend, ToyModelAdapter.length_decode_draftAfter hp]

variable {seq : Sequence} {fuel : ℕ}

theorem advances_specStart (hnew : seq.completionTokenIds = [])
    (h : specStart cfg m.adapter seq () metrics = some s) :
    ∃ hp : seq.promptTokenIds ≠ [], Advances m hp proposal maxNewTokens metrics 0 s := by
  obtain ⟨_, hfirst, hs⟩ := Option.map_eq_some_iff.mp h
  have hp : seq.promptTokenIds ≠ [] := by
    intro hnil
    rw [hnil] at hfirst
    cases hfirst
  obtain ⟨s', hs', hdecoded, _⟩ : ∃ s', specStart cfg m.adapter seq () metrics = some s' ∧
      Decoded m.next seq.promptTokenIds (fun _ => draftAfter proposal) 0 s' ∧
      s'.seq.seqId = seq.seqId := decoded_specStart hp hnew
  obtain rfl := Option.some.inj (hs'.symm.trans h)
  refine ⟨hp, ⟨hdecoded, by simp⟩, [], ?_, rfl⟩
  rw [← hs, List.append_nil]

variable {d : ToyModelAdapter R' H' V'}

/-- What is drafted after a token, while a prompt is served: the draft model's continuation, or the
span of the prompt. -/
def proposalFor (cfg : SSDConfig) (d : ToyModelAdapter R' H' V') (prompt : List Token)
    (t : Token) : List Token :=
  match cfg.mode with
  | .instanceSsd => promptSpan cfg prompt
  | _ => List.iterate d.T (d.T t) cfg.speculateK

theorem fst_of_draftSpeculate {ctx : List Token} {t : Token}
    {r : List Token × List (Fin V' → R')} (h : d.draftSpeculate (ctx ++ [t]) k = some r) :
    1 ≤ k ∧ r.1 = List.iterate d.T (d.T t) k := by
  have hk : 1 ≤ k := by
    by_contra hk
    unfold ToyModelAdapter.draftSpeculate at h
    rw [if_pos (by omega)] at h
    cases h
  have heq := d.draftSpeculate_eq hk ctx t
  rw [h] at heq
  exact ⟨hk, Option.some.inj heq⟩

theorem ofFn_of_propose (hm : cfg.mode = .ssd ∨ cfg.mode = .instanceSsd) (hp : prompt ≠ [])
    {t : Token} {spec : Draft cfg.speculateK}
    (h : propose cfg d.draftSpeculate (contextOf cfg prompt) t = some spec) :
    List.ofFn spec = proposalFor cfg d prompt t := by
  unfold proposalFor
  rcases hm with hm | hm <;> rw [hm]
  · have hk : 1 ≤ cfg.speculateK := by
      rw [DraftWorker.propose_of_draft (by simp [hm])] at h
      obtain ⟨_, hr, _⟩ := Option.bind_eq_some_iff.mp h
      obtain ⟨_, hr, _⟩ := Option.map_eq_some_iff.mp hr
      rw [← List.nil_append [t]] at hr
      exact (fst_of_draftSpeculate hr).1
    obtain ⟨spec', hspec', hofFn⟩ : ∃ spec', propose cfg d.draftSpeculate (contextOf cfg prompt) t =
        some spec' ∧ ∀ ctx, List.ofFn spec' = _ := propose_ssd cfg hm hk t
    obtain rfl := Option.some.inj (hspec'.symm.trans h)
    rw [hofFn [], ToyModelAdapter.next_concat]
  · obtain ⟨spec', hspec', hofFn⟩ := propose_instance cfg (d := d) hm hp t
    obtain rfl := Option.some.inj (hspec'.symm.trans h)
    exact hofFn []

theorem proposalFor_of_draftFor (hm : cfg.mode ≠ .ar) (hp : prompt ≠ []) (h : Drafting prompt s)
    {spec : List Token}
    (hspec : draftFor cfg d.draftSpeculate prompt s.seq.completionTokenIds = some spec) :
    spec = proposalFor cfg d prompt s.token := by
  obtain ⟨completion, hlast⟩ := List.getLast?_eq_some_iff.mp h.token_last
  have hsd (hm : cfg.mode = .sd) : spec = proposalFor cfg d prompt s.token := by
    rw [draftFor_sd hm, hlast, ← List.append_assoc] at hspec
    obtain ⟨r, hr, rfl⟩ := Option.map_eq_some_iff.mp hspec
    unfold proposalFor
    rw [hm]
    exact (fst_of_draftSpeculate hr).2
  have hssd (hm : cfg.mode = .ssd ∨ cfg.mode = .instanceSsd) :
      spec = proposalFor cfg d prompt s.token := by
    rw [draftFor_ssd hm, h.token_last, Option.bind_some] at hspec
    obtain ⟨r, hr, rfl⟩ := Option.map_eq_some_iff.mp hspec
    exact ofFn_of_propose hm hp hr
  cases hmode : cfg.mode with
  | ar => exact absurd hmode hm
  | sd => exact hsd hmode
  | ssd => exact hssd (.inl hmode)
  | instanceSsd => exact hssd (.inr hmode)

end Loops

/-! ## Calls of `generate` -/

namespace LLMEngine

variable {m : ToyModelAdapter R H V} {d : ToyModelAdapter R' H' V'} {cfg : SSDConfig}
  {sampling : SamplingParams} {prompt : List Token} {prompts : List (List Token)}
  {e : LLMEngine Unit cfg.speculateK V' R'} {g g' : Generation Unit cfg.speculateK V' R'}

theorem runMode_toyRun (hm : cfg.mode ≠ .ar)
    (hw : ∀ w, e.draftWorker = some w → WorkerInv cfg d.draftSpeculate e.scheduler w)
    {a : LLMEngine Unit cfg.speculateK V' R' × ℕ} (ha : admitPrompt cfg e prompt = some a)
    {metrics : RunMetrics} {w : Option (DraftWorker cfg.speculateK V' R')} {s : Decoding Unit}
    (hrun : runMode cfg m.adapter d.draftSpeculate sampling a.1.draftWorker
      (a.1.scheduler.seqs a.2) () metrics = some (s, w)) :
    ∃ more, s.metrics.steps = metrics.steps ++ more ∧
      ToyRun m (proposalFor cfg d prompt) sampling.maxNewTokens prompt s.seq.completionTokenIds
        (more.map (·.acceptedTokens)) := by
  have hadm := admission_of_admitPrompt ha
  have hprompt : (a.1.scheduler.seqs a.2).promptTokenIds = prompt := hadm.seq.prompt
  obtain ⟨n, ⟨hp, hadv⟩, hu⟩ := runMode_drafted
    (P := fun n s => ∃ hp : prompt ≠ [], Advances m hp (proposalFor cfg d prompt)
      sampling.maxNewTokens metrics n s) hm hw ha
    (fun n s spec cacheHit hd ⟨hp, hadv⟩ hu hspec =>
      ⟨hp, hadv.verifyRound hu (proposalFor_of_draftFor hm hp hd hspec) cacheHit⟩)
    (fun s hs => by
      subst hprompt
      exact advances_specStart hadm.seq.completion hs) hrun
  exact hadv.toyRun hu

theorem generateLoop_toyRun (hm : cfg.mode ≠ .ar)
    (hw : ∀ w, g.engine.draftWorker = some w → WorkerInv cfg d.draftSpeculate g.engine.scheduler w)
    (h : generateLoop cfg m.adapter d.draftSpeculate sampling prompts g = some g') :
    ∃ runs : List (List Token × List StepMetrics), g'.outputs = g.outputs ++ runs.map Prod.fst ∧
      g'.metrics.steps = g.metrics.steps ++ runs.flatMap Prod.snd ∧
      List.Forall₂ (fun prompt run => ToyRun m (proposalFor cfg d prompt) sampling.maxNewTokens
        prompt run.1 (run.2.map (·.acceptedTokens))) prompts runs := by
  induction prompts generalizing g with
  | nil =>
    obtain rfl := Option.some.inj h
    exact ⟨[], (List.append_nil _).symm, (List.append_nil _).symm, .nil⟩
  | cons prompt prompts ih =>
    obtain ⟨g₁, h₁, h₂⟩ := Option.bind_eq_some_iff.mp h
    obtain ⟨a, s, w, ha, hrun, _, _, _, hout, hmetrics⟩ := servePrompt_cases h₁
    obtain ⟨more, hsteps, hmore⟩ := runMode_toyRun hm hw ha hrun
    obtain ⟨runs, hout', hsteps', hall⟩ := ih (workerInv_of_servePrompt hw h₁) h₂
    refine ⟨(s.seq.completionTokenIds, more) :: runs, ?_, ?_, .cons hmore hall⟩
    · rw [hout', hout, List.append_assoc]
      rfl
    · rw [hsteps', hmetrics, hsteps, List.append_assoc]
      rfl

/-- **Serving on a toy target.** In a speculative mode, whatever was served before: the output for a
prompt is the part of the target's trajectory up to the first round that fills the budget, and the
steps recorded for it say how many tokens of each draft are on the trajectory. -/
theorem generate_toy (hm : cfg.mode ≠ .ar) (he : Reachable cfg m.adapter d.draftSpeculate () e)
    (h : generate cfg m.adapter d.draftSpeculate sampling e prompts = some g) :
    ∃ runs : List (List Token × List StepMetrics), g.outputs = runs.map Prod.fst ∧
      g.metrics.steps = runs.flatMap Prod.snd ∧
      List.Forall₂ (fun prompt run => ToyRun m (proposalFor cfg d prompt) sampling.maxNewTokens
        prompt run.1 (run.2.map (·.acceptedTokens))) prompts runs :=
  generateLoop_toyRun hm he.workerInv h

def perfectConfig : SSDConfig :=
  { mode := .ssd, speculateK := 1, fanOutList := [1, 1], numBlocks := 8 }

theorem perfect_call :
    ∃ (e : LLMEngine Unit 1 3 ℚ) (g : Generation Unit 1 3 ℚ), init perfectConfig () = some e ∧
      generate perfectConfig alternating.adapter alternating.draftSpeculate { maxNewTokens := 4 } e
        [[1], [0, 2]] = some g := by
  have hrun : ((init perfectConfig () : Option (LLMEngine Unit 1 3 ℚ)).bind fun e =>
      generate perfectConfig alternating.adapter alternating.draftSpeculate { maxNewTokens := 4 } e
        [[1], [0, 2]]).isSome := by
    decide +kernel
  obtain ⟨g, hg⟩ := Option.isSome_iff_exists.mp hrun
  obtain ⟨e, he, hg⟩ := Option.bind_eq_some_iff.mp hg
  exact ⟨e, g, he, hg⟩

theorem generate_toy_alternating :
    ∃ (e : LLMEngine Unit 1 3 ℚ) (g : Generation Unit 1 3 ℚ)
      (runs : List (List Token × List StepMetrics)),
      generate perfectConfig alternating.adapter alternating.draftSpeculate { maxNewTokens := 4 } e
        [[1], [0, 2]] = some g ∧
      g.outputs = runs.map Prod.fst ∧ g.metrics.steps = runs.flatMap Prod.snd ∧
      List.Forall₂ (fun prompt run => ToyRun alternating
        (proposalFor perfectConfig alternating prompt) 4 prompt run.1
          (run.2.map (·.acceptedTokens))) [[1], [0, 2]] runs := by
  obtain ⟨e, g, he, hg⟩ := perfect_call
  obtain ⟨runs, houtputs, hsteps, hall⟩ := generate_toy (by decide) (.init he) hg
  exact ⟨e, g, runs, hg, houtputs, hsteps, hall⟩

end LLMEngine

/-! ## Drafts that are never rejected -/

/-- The number of rounds in which `k + 1` tokens each fill the budget, after the first token. -/
def minRounds (k : ℕ) (maxNewTokens : ℤ) : ℕ := (maxNewTokens - 1).toNat ⌈/⌉ (k + 1)

theorem minRounds_le_iff {maxNewTokens : ℤ} {n : ℕ} :
    minRounds k maxNewTokens ≤ n ↔ maxNewTokens ≤ (1 + n * (k + 1) : ℕ) := by
  unfold minRounds
  rw [ceilDiv_le_iff_le_mul k.succ_pos, Nat.mul_comm (k + 1) n]
  omega

theorem stopsAt_minRounds (k : ℕ) (maxNewTokens : ℤ) :
    StopsAt (fun i => 1 + i * (k + 1)) maxNewTokens (minRounds k maxNewTokens) := by
  refine ⟨minRounds_le_iff.mp le_rfl, fun j hj => ?_⟩
  by_contra hle
  exact absurd (minRounds_le_iff.mpr (not_lt.mp hle)) (not_le.mpr hj)

theorem StopsAt.congr {len len' : ℕ → ℕ} {maxNewTokens : ℤ} {n : ℕ}
    (h : StopsAt len maxNewTokens n) (hlen : ∀ i ≤ n, len i = len' i) :
    StopsAt len' maxNewTokens n := by
  refine ⟨?_, fun j hj => ?_⟩
  · rw [← hlen n le_rfl]
    exact h.1
  · rw [← hlen j hj.le]
    exact h.2 j hj

namespace ToyModelAdapter

variable {m : ToyModelAdapter R H V} {d : ToyModelAdapter R' H' V'} {last : Token} {n : ℕ}

theorem agreeLen_le (t : Token) (ds : List Token) : m.agreeLen t ds ≤ ds.length := by
  induction ds generalizing t with
  | nil => exact le_rfl
  | cons x ds ih =>
    unfold agreeLen
    split_ifs
    · exact Nat.succ_le_succ (ih x)
    · exact Nat.zero_le _

/-- A draft is kept as a whole if the two models agree along it. -/
theorem agreeLen_eq_iff (t : Token) :
    m.agreeLen t (List.iterate d.T (d.T t) k) = k ↔
      ∀ j < k, d.T (m.T^[j] t) = m.T (m.T^[j] t) := by
  induction k generalizing t with
  | zero => exact iff_of_true rfl fun j hj => absurd hj (Nat.not_lt_zero j)
  | succ k ih =>
    rw [List.iterate, Nat.forall_lt_succ_left]
    unfold agreeLen
    by_cases h : d.T t = m.T t
    · rw [if_pos h, Nat.succ_inj, ih, h]
      exact (and_iff_right h).symm
    · rw [if_neg h]
      exact iff_of_false (Nat.succ_ne_zero k).symm fun hall => h hall.1

theorem roundEnd_le {proposal : Token → List Token} (hlen : ∀ t, (proposal t).length ≤ k) (n : ℕ) :
    m.roundEnd last proposal n ≤ 1 + n * (k + 1) := by
  induction n with
  | zero => simp [roundEnd]
  | succ n ih =>
    rw [roundEnd_succ, Nat.succ_mul, ← Nat.add_assoc]
    refine Nat.add_le_add ih ?_
    unfold advance
    exact Nat.succ_le_succ ((agreeLen_le _ _).trans (hlen _))

theorem roundEnd_of_full {proposal : Token → List Token}
    (h : ∀ i < n, m.advance last proposal i = k + 1) :
    m.roundEnd last proposal n = 1 + n * (k + 1) := by
  induction n with
  | zero => simp [roundEnd]
  | succ n ih =>
    rw [roundEnd_succ, ih fun i hi => h i (hi.trans n.lt_succ_self), h n n.lt_succ_self,
      Nat.succ_mul, Nat.add_assoc]

variable (m d last)

/-- The two models agree at the places where the `i`-th of the rounds drafts, if none before it has
had a token rejected. -/
def AgreesIn (k i : ℕ) : Prop :=
  ∀ j < k, d.T (m.T^[1 + i * (k + 1) + j] last) = m.T (m.T^[1 + i * (k + 1) + j] last)

variable {m d last}

theorem advance_eq_iff {i : ℕ}
    (h : m.roundEnd last (fun t => List.iterate d.T (d.T t) k) i = 1 + i * (k + 1)) :
    m.advance last (fun t => List.iterate d.T (d.T t) k) i = k + 1 ↔ AgreesIn m d last k i := by
  unfold advance AgreesIn
  simp only [h, Nat.succ_inj, agreeLen_eq_iff, ← Function.iterate_add_apply,
    Nat.add_comm (1 + i * (k + 1))]

theorem full_iff (n : ℕ) :
    (∀ i < n, m.advance last (fun t => List.iterate d.T (d.T t) k) i = k + 1) ↔
      ∀ i < n, AgreesIn m d last k i := by
  induction n with
  | zero => simp
  | succ n ih =>
    rw [Nat.forall_lt_succ_right, Nat.forall_lt_succ_right, ← ih]
    exact and_congr_right fun h => advance_eq_iff (roundEnd_of_full h)

theorem ToyRun.full {maxNewTokens : ℤ} {prompt output : List Token} {accepted : List ℕ}
    (h : ToyRun m (fun t => List.iterate d.T (d.T t) k) maxNewTokens prompt output accepted) :
    minRounds k maxNewTokens ≤ accepted.length ∧
      ((∀ a ∈ accepted, a = k + 1) ↔ ∀ last ∈ prompt.getLast?,
        ∀ i < minRounds k maxNewTokens, AgreesIn m d last k i) ∧
      ((∀ a ∈ accepted, a = k + 1) → accepted.length = minRounds k maxNewTokens) := by
  obtain ⟨hp, n, hstops, -, rfl⟩ := h
  have hlast : (∀ last ∈ prompt.getLast?, ∀ i < minRounds k maxNewTokens, AgreesIn m d last k i) ↔
      ∀ i < minRounds k maxNewTokens, AgreesIn m d (prompt.getLast hp) k i := by
    rw [List.getLast?_eq_getLast_of_ne_nil hp]
    simp
  have hmem : (∀ a ∈ (List.range n).map (m.advance (prompt.getLast hp)
      fun t => List.iterate d.T (d.T t) k), a = k + 1) ↔
      ∀ i < n, m.advance (prompt.getLast hp) (fun t => List.iterate d.T (d.T t) k) i = k + 1 := by
    simp
  -- full rounds end where the fewest rounds do
  have hcount (hfull : ∀ i < n, m.advance (prompt.getLast hp)
      (fun t => List.iterate d.T (d.T t) k) i = k + 1) : n = minRounds k maxNewTokens :=
    (hstops.congr fun i hi => roundEnd_of_full fun j hj => hfull j (hj.trans_le hi)).unique
      (stopsAt_minRounds k maxNewTokens)
  rw [List.length_map, List.length_range, hmem, hlast]
  refine ⟨?_, ⟨fun hfull => ?_, fun hagree => ?_⟩, hcount⟩
  · have hle : m.roundEnd (prompt.getLast hp) (fun t => List.iterate d.T (d.T t) k) n ≤
        1 + n * (k + 1) := roundEnd_le (fun t => by rw [List.length_iterate]) n
    have hfills := hstops.1
    exact minRounds_le_iff.mpr (by omega)
  · rw [← hcount hfull]
    exact (full_iff n).mp hfull
  · have hfull := (full_iff (minRounds k maxNewTokens)).mpr hagree
    have hmin := (stopsAt_minRounds k maxNewTokens).congr fun i hi =>
      (roundEnd_of_full fun j hj => hfull j (hj.trans_le hi)).symm
    rwa [hstops.unique hmin]

end ToyModelAdapter

namespace LLMEngine

open ToyModelAdapter (AgreesIn)

variable {m : ToyModelAdapter R H V} {d : ToyModelAdapter R' H' V'} {cfg : SSDConfig}
  {sampling : SamplingParams} {prompts : List (List Token)}
  {e : LLMEngine Unit cfg.speculateK V' R'} {g : Generation Unit cfg.speculateK V' R'}

/-- **When speculation is at its best.** In SD and SSD mode a call on toy models takes at least
`minRounds` rounds for each prompt. All drafts for a prompt are accepted as a whole exactly if the
draft model agrees with the target at the places where these rounds draft, and there are then no
more rounds. -/
theorem generate_full_iff (hm : cfg.mode = .sd ∨ cfg.mode = .ssd)
    (he : Reachable cfg m.adapter d.draftSpeculate () e)
    (h : generate cfg m.adapter d.draftSpeculate sampling e prompts = some g) :
    ∃ runs : List (List Token × List StepMetrics), g.outputs = runs.map Prod.fst ∧
      g.metrics.steps = runs.flatMap Prod.snd ∧
      List.Forall₂ (fun prompt run =>
        run.1.length = 1 + (run.2.map (·.acceptedTokens)).sum ∧
        minRounds cfg.speculateK sampling.maxNewTokens ≤ run.2.length ∧
        ((∀ step ∈ run.2, step.acceptedTokens = cfg.speculateK + 1) ↔
          ∀ last ∈ prompt.getLast?, ∀ i < minRounds cfg.speculateK sampling.maxNewTokens,
            AgreesIn m d last cfg.speculateK i) ∧
        ((∀ step ∈ run.2, step.acceptedTokens = cfg.speculateK + 1) →
          run.2.length = minRounds cfg.speculateK sampling.maxNewTokens)) prompts runs := by
  have har : cfg.mode ≠ .ar := by rcases hm with hm | hm <;> simp [hm]
  have hproposal (prompt : List Token) : proposalFor cfg d prompt =
      fun t => List.iterate d.T (d.T t) cfg.speculateK := by
    funext t
    unfold proposalFor
    rcases hm with hm | hm <;> rw [hm]
  obtain ⟨runs, hout, hsteps, hall⟩ := generateLoop_toyRun har he.workerInv h
  refine ⟨runs, hout, hsteps, hall.imp fun prompt run hrun => ?_⟩
  rw [hproposal] at hrun
  obtain ⟨hmin, hiff, hcount⟩ := hrun.full
  rw [List.length_map] at hmin hcount
  rw [List.forall_mem_map] at hiff hcount
  exact ⟨hrun.length_output, hmin, hiff, hcount⟩

theorem generate_full_iff_alternating :
    ∃ (e : LLMEngine Unit 1 3 ℚ) (g : Generation Unit 1 3 ℚ)
      (runs : List (List Token × List StepMetrics)),
      generate perfectConfig alternating.adapter alternating.draftSpeculate { maxNewTokens := 4 } e
        [[1], [0, 2]] = some g ∧ g.metrics.steps = runs.flatMap Prod.snd ∧
      List.Forall₂ (fun (_ : List Token) run =>
        (∀ step ∈ run.2, step.acceptedTokens = 2) ∧ run.2.length = 2) [[1], [0, 2]] runs := by
  obtain ⟨e, g, he, hg⟩ := perfect_call
  obtain ⟨runs, _, hsteps, hall⟩ := generate_full_iff (.inr rfl) (.init he) hg
  refine ⟨e, g, runs, hg, hsteps, hall.imp fun _ _ ⟨_, _, hiff, hcount⟩ => ?_⟩
  have hfull := hiff.mpr fun _ _ _ _ _ _ => rfl
  exact ⟨hfull, hcount hfull⟩

end LLMEngine

end SsdTpu
