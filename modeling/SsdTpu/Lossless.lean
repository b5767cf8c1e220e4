import SsdTpu.Autoregressive
import SsdTpu.ToyModel

/-!
# Lossless speculation on the toy model

With a toy target the three decode loops compute greedy continuations of the prompt, whatever the
drafts are. The speculative loops follow the abstract decoder `Greedy.decode`:

1. one round takes the decoder one round further (`Decoded.verifyRound`);
2. the loops stop at the first round whose output fills the budget (`runSd_toy`, `runSsd_toy`), for
   any service that answers every request;
3. hence their completions lie on the target's trajectory and extend the autoregressive one
   (`lossless_speculation`).
-/

namespace SsdTpu

open ToyModelAdapter (alternating)

variable {τ δ ω R R' : Type*} [LinearOrder R] [Zero R] [One R] [Add R] [Mul R] [Div R]
  {H V V' k : ℕ} [NeZero H]

/-- The number `i` of the first round after which the output has at least `maxNewTokens` tokens. -/
def StopsAt (len : ℕ → ℕ) (maxNewTokens : ℤ) (i : ℕ) : Prop :=
  maxNewTokens ≤ len i ∧ ∀ j < i, (len j : ℤ) < maxNewTokens

theorem StopsAt.unique {len : ℕ → ℕ} {maxNewTokens : ℤ} {i j : ℕ} (hi : StopsAt len maxNewTokens i)
    (hj : StopsAt len maxNewTokens j) : i = j := by
  by_contra hne
  rcases Nat.lt_or_gt_of_ne hne with h | h
  · exact absurd (hj.2 i h) (not_lt.mpr hi.1)
  · exact absurd (hi.2 j h) (not_lt.mpr hj.1)

/-- The variables of a loop after `i` rounds of the abstract decoder. -/
structure Decoded (next : List Token → Token) (prompt : List Token)
    (draft : ℕ → List Token → List Token) (i : ℕ) (s : Decoding τ) : Prop where
  prompt_eq : s.seq.promptTokenIds = prompt
  completion_eq : s.seq.completionTokenIds = Greedy.decode next prompt draft i
  token_last : ∃ ctx, s.seq.tokenIds = ctx ++ [s.token]

section Toy

variable (m : ToyModelAdapter R H V) (cfg : SSDConfig) {seq : Sequence} (metrics : RunMetrics)

theorem toy_verify (ctx : List Token) (tok : Token) (spec : List Token) (positions pages : List ℕ)
    (i : Fin (spec.length + 1)) :
    argmaxToken ((m.adapter.verify () (tok :: spec) positions pages).1 0 i) =
      m.next (ctx ++ tok :: spec.take i) := by
  have htake : tok :: spec.take i = (tok :: spec).take i ++ [(tok :: spec).get i] := by
    rw [← List.take_succ_cons, List.take_succ_eq_append_getElem i.isLt]
    rfl
  rw [htake, ← List.append_assoc, ToyModelAdapter.next_concat]
  rfl

theorem toy_prefillFirst (hp : seq.promptTokenIds ≠ []) :
    prefillFirst cfg m.adapter () seq.promptTokenIds = some (m.next seq.promptTokenIds, ()) := by
  have h := m.getLast?_logitsFromTokens hp
  show ((m.logitsFromTokens seq.promptTokenIds).getLast?.map fun logits =>
    (argmaxToken logits, ())) = _
  obtain ⟨logits, hl, harg⟩ := Option.map_eq_some_iff.mp h
  rw [hl, Option.map_some, harg]

variable {m} {cfg} {metrics} {draft : ℕ → List Token → List Token} {prompt : List Token}

/-- The step lemma: one round on the next draft is one round of the abstract decoder. -/
theorem Decoded.verifyRound {i : ℕ} {s : Decoding Unit} {spec : List Token}
    (h : Decoded m.next prompt draft i s) (hspec : spec = draft i s.seq.tokenIds)
    (cacheHit : Bool) :
    Decoded m.next prompt draft (i + 1) (verifyRound cfg m.adapter spec cacheHit s).2 := by
  obtain ⟨ctx, hctx⟩ := h.token_last
  obtain ⟨_, htok, hseq⟩ := verifyRound_spec cfg m.adapter spec cacheHit s
    fun i => toy_verify m ctx s.token spec _ _ i
  rw [← hctx] at hseq
  refine ⟨by rw [hseq]; exact h.prompt_eq, ?_, ?_⟩
  · have hids : s.seq.tokenIds = prompt ++ Greedy.decode m.next prompt draft i := by
      unfold Sequence.tokenIds
      rw [h.prompt_eq, h.completion_eq]
    rw [hseq, Sequence.appendTokens_completion, h.completion_eq, Greedy.decode, ← hids, hspec]
  · refine ⟨s.seq.tokenIds ++ spec.take (Greedy.acceptLen m.next s.seq.tokenIds spec), ?_⟩
    rw [hseq, Sequence.appendTokens_tokenIds, htok]
    unfold Greedy.round
    rw [← List.append_assoc, hctx]
    simp

theorem decoded_specStart (hp : seq.promptTokenIds ≠ []) (hc : seq.completionTokenIds = []) :
    ∃ s, specStart cfg m.adapter seq () metrics = some s ∧
      Decoded m.next seq.promptTokenIds draft 0 s ∧ s.seq.seqId = seq.seqId := by
  unfold specStart
  rw [toy_prefillFirst m cfg hp]
  refine ⟨_, rfl, ⟨rfl, ?_, seq.tokenIds, ?_⟩, rfl⟩
  · show seq.completionTokenIds ++ [m.next seq.promptTokenIds] = _
    rw [hc]
    rfl
  · show seq.promptTokenIds ++ (seq.completionTokenIds ++ [m.next seq.promptTokenIds]) = _
    rw [← List.append_assoc]
    rfl

theorem Decoded.length_lt {i : ℕ} {s : Decoding τ} {next : List Token → Token}
    {maxNewTokens : ℤ} (h : Decoded next prompt draft i s)
    (hc : s.unfinished maxNewTokens = true) :
    ((Greedy.decode next prompt draft i).length : ℤ) < maxNewTokens := by
  have := Sequence.not_isFinished_none.mp hc
  rwa [h.completion_eq] at this

theorem Decoded.le_length {i : ℕ} {s : Decoding τ} {next : List Token → Token}
    {maxNewTokens : ℤ} (h : Decoded next prompt draft i s)
    (hc : s.unfinished maxNewTokens = false) :
    maxNewTokens ≤ (Greedy.decode next prompt draft i).length := by
  by_contra hlt
  have : s.unfinished maxNewTokens = true := by
    apply Sequence.not_isFinished_none.mpr
    rw [h.completion_eq]
    exact not_le.mp hlt
  rw [hc] at this
  cases this

/-- What holds at the head of a speculative loop after some rounds, none of which filled the
budget. -/
def AtRound (m : ToyModelAdapter R H V) (prompt : List Token) (draft : ℕ → List Token → List Token)
    (maxNewTokens : ℤ) (s : Decoding Unit) (i : ℕ) : Prop :=
  Decoded m.next prompt draft i s ∧
    ∀ j < i, ((Greedy.decode m.next prompt draft j).length : ℤ) < maxNewTokens

theorem AtRound.verifyRound {i : ℕ} {s : Decoding Unit} {spec : List Token} {maxNewTokens : ℤ}
    (h : AtRound m prompt draft maxNewTokens s i) (hc : s.unfinished maxNewTokens = true)
    (hspec : spec = draft i s.seq.tokenIds) (cacheHit : Bool) :
    AtRound m prompt draft maxNewTokens (verifyRound cfg m.adapter spec cacheHit s).2 (i + 1) := by
  refine ⟨h.1.verifyRound hspec cacheHit, fun j hj => ?_⟩
  rcases Nat.lt_succ_iff_lt_or_eq.mp hj with hj | rfl
  · exact h.2 j hj
  · exact h.1.length_lt hc

theorem AtRound.stopsAt {i : ℕ} {s : Decoding Unit} {maxNewTokens : ℤ}
    (h : AtRound m prompt draft maxNewTokens s i) (hc : s.unfinished maxNewTokens = false) :
    StopsAt (fun j => (Greedy.decode m.next prompt draft j).length) maxNewTokens i :=
  ⟨h.1.le_length hc, h.2⟩

/-! ## Synchronous speculation -/

variable (m) (cfg) (metrics) (draft) {maxNewTokens : ℤ} {fuel : ℕ}

/-- **Synchronous speculation on a toy target.** If the draft always answers, the loop stops with
the output of the abstract decoder after the first round that fills the budget. `J n` describes
the draft's state before its `n`-th answer. -/
theorem runSd_toy (draftSpeculate : δ → List Token → ℕ → Option (List Token × δ)) (J : ℕ → δ → Prop)
    (hdraft : ∀ n d tokens, J n d → tokens ≠ [] →
      ∃ d', draftSpeculate d tokens cfg.speculateK = some (draft n tokens, d') ∧ J (n + 1) d')
    (hp : seq.promptTokenIds ≠ []) (hc : seq.completionTokenIds = []) {d : δ} (hd : J 0 d)
    (hfuel : maxNewTokens.toNat ≤ fuel) :
    ∃ s i, runSd cfg m.adapter draftSpeculate maxNewTokens fuel seq () d metrics = some s ∧
      s.seq.completionTokenIds = Greedy.decode m.next seq.promptTokenIds draft i ∧
      StopsAt (fun j => (Greedy.decode m.next seq.promptTokenIds draft j).length)
        maxNewTokens i := by
  obtain ⟨s₀, hstart, h0, _⟩ : ∃ s, specStart cfg m.adapter seq () metrics = some s ∧
    Decoded m.next seq.promptTokenIds draft 0 s ∧ s.seq.seqId = seq.seqId := decoded_specStart hp hc
  have hrun := Loop.run_total (c := SdState.unfinished maxNewTokens)
    (f := sdStep cfg m.adapter draftSpeculate)
    (P := fun s => ∃ i, AtRound m seq.promptTokenIds draft maxNewTokens s.toDecoding i ∧
      J i s.draft)
    (fun s => s.toDecoding.room maxNewTokens) ?_
    (s := { s₀ with draft := d }) ⟨0, ⟨h0, by simp⟩, hd⟩ (Decoding.room_le hfuel)
  · obtain ⟨s, hs, ⟨i, hi, _⟩, hcs⟩ := hrun
    refine ⟨s, i, ?_, hi.1.completion_eq, hi.stopsAt hcs⟩
    unfold runSd sdStart
    rw [hstart]
    exact hs
  · rintro s ⟨i, hi, hJ⟩ hcs
    have hne : s.seq.tokenIds ≠ [] := by
      obtain ⟨ctx, hctx⟩ := hi.1.token_last
      rw [hctx]
      simp
    obtain ⟨d', hans, hJ'⟩ := hdraft i s.draft s.seq.tokenIds hJ hne
    refine ⟨_, by unfold sdStep; rw [hans]; rfl, ⟨i + 1, hi.verifyRound hcs rfl false, hJ'⟩, ?_⟩
    exact verifyRound_room _ _ _ _ _ hcs

/-! ## Asynchronous speculation -/

/-- The service answers every request for the sequence, its `n`-th with the `n`-th draft. `J n`
describes it before that answer. -/
def Answers (serve : Serve ω k V' R') (seqId : ℕ) (J : ℕ → ω → Prop) : Prop :=
  ∀ n w acc ctx tok, J n w → ∃ a, serve w (draftRequest seqId acc tok) = some a ∧
    List.ofFn (a.1.specTokens 0) = draft n (ctx ++ [tok]) ∧ J (n + 1) a.2

/-- What holds at the head of the asynchronous loop after `i` rounds: before the last round the
pending response is the draft of the next round. -/
structure AtRequest (seqId : ℕ) (prompt : List Token) (J : ℕ → ω → Prop) (maxNewTokens : ℤ)
    (s : SsdState Unit ω k V' R') (i : ℕ) : Prop where
  seqId_eq : s.seq.seqId = seqId
  round : AtRound m prompt draft maxNewTokens s.toDecoding i
  pending : s.unfinished maxNewTokens = true →
    List.ofFn (s.draftResp.specTokens 0) = draft i s.seq.tokenIds ∧ J (i + 1) s.worker

theorem atRequest_ssdStart {serve : Serve ω k V' R'} {J : ℕ → ω → Prop}
    (hserve : Answers draft serve seq.seqId J) (hp : seq.promptTokenIds ≠ [])
    (hc : seq.completionTokenIds = []) {w : ω} (hw : J 0 w) :
    ∃ s, ssdStart cfg m.adapter serve seq () w metrics = some s ∧
      AtRequest m draft seq.seqId seq.promptTokenIds J maxNewTokens s 0 := by
  obtain ⟨s, hstart, h0, hid⟩ : ∃ s, specStart cfg m.adapter seq () metrics = some s ∧
    Decoded m.next seq.promptTokenIds draft 0 s ∧ s.seq.seqId = seq.seqId := decoded_specStart hp hc
  obtain ⟨ctx, hctx⟩ := h0.token_last
  obtain ⟨a, ha, hspec, hJ⟩ := hserve 0 w 0 ctx s.token hw
  rw [← hctx] at hspec
  unfold ssdStart
  rw [hstart, Option.bind_some, hid, ha]
  exact ⟨_, rfl, hid, ⟨h0, by simp⟩, fun _ => ⟨hspec, hJ⟩⟩

variable {m} {draft}

/-- The step lemma of the asynchronous loop. -/
theorem AtRequest.ssdStep {serve : Serve ω k V' R'} {seqId i : ℕ} {J : ℕ → ω → Prop}
    (hserve : Answers draft serve seqId J) {s : SsdState Unit ω k V' R'}
    (h : AtRequest m draft seqId prompt J maxNewTokens s i)
    (hc : s.unfinished maxNewTokens = true) :
    ∃ s', ssdStep cfg m.adapter serve maxNewTokens s = some s' ∧
      AtRequest m draft seqId prompt J maxNewTokens s' (i + 1) ∧
      s'.toDecoding.room maxNewTokens < s.toDecoding.room maxNewTokens := by
  obtain ⟨hspec, hJ⟩ := h.pending hc
  have hround : AtRound m prompt draft maxNewTokens
      (verifyRound cfg m.adapter _ _ s.toDecoding).2 (i + 1) :=
    h.round.verifyRound hc hspec (s.draftResp.cacheHit 0)
  have hroom := verifyRound_room cfg m.adapter (List.ofFn (s.draftResp.specTokens 0))
    (s.draftResp.cacheHit 0) s.toDecoding hc
  have hid : (verifyRound cfg m.adapter (List.ofFn (s.draftResp.specTokens 0))
      (s.draftResp.cacheHit 0) s.toDecoding).2.seq.seqId = seqId := by
    rw [verifyRound_seq]
    exact h.seqId_eq
  unfold SsdTpu.ssdStep
  simp only
  split_ifs with hu
  · obtain ⟨ctx, hctx⟩ := hround.1.token_last
    obtain ⟨a, ha, hspec', hJ'⟩ := hserve (i + 1) s.worker _ ctx _ hJ
    rw [hid, ha]
    refine ⟨_, rfl, ⟨hid, hround, fun _ => ⟨?_, hJ'⟩⟩, hroom⟩
    rw [hspec', hctx]
  · exact ⟨_, rfl, ⟨hid, hround, fun hu' => absurd hu' hu⟩, hroom⟩

variable (m) (draft)

/-- **Asynchronous speculation on a toy target**, for a service that answers every request made for
this sequence. -/
theorem runSsd_toy (serve : Serve ω k V' R') (J : ℕ → ω → Prop)
    (hserve : Answers draft serve seq.seqId J) (hp : seq.promptTokenIds ≠ [])
    (hc : seq.completionTokenIds = []) {w : ω} (hw : J 0 w) (hfuel : maxNewTokens.toNat ≤ fuel) :
    ∃ s i, runSsd cfg m.adapter serve maxNewTokens fuel seq () w metrics = some s ∧
      s.seq.completionTokenIds = Greedy.decode m.next seq.promptTokenIds draft i ∧
      StopsAt (fun j => (Greedy.decode m.next seq.promptTokenIds draft j).length)
        maxNewTokens i := by
  obtain ⟨s₀, hstart, h0⟩ := atRequest_ssdStart m cfg metrics draft hserve hp hc hw
  obtain ⟨s, hs, ⟨i, hi⟩, hcs⟩ := Loop.run_total (c := SsdState.unfinished maxNewTokens)
    (P := fun s => ∃ i, AtRequest m draft seq.seqId seq.promptTokenIds J maxNewTokens s i)
    (fun s => s.toDecoding.room maxNewTokens)
    (fun s ⟨i, hi⟩ hcs =>
      have ⟨s', hs', hi', hroom⟩ := hi.ssdStep cfg hserve hcs
      ⟨s', hs', ⟨i + 1, hi'⟩, hroom⟩)
    ⟨0, h0⟩ (Decoding.room_le hfuel)
  refine ⟨s, i, ?_, hi.round.1.completion_eq, hi.round.stopsAt hcs⟩
  unfold runSsd
  rw [hstart]
  exact hs

/-! ## Autoregressive decoding -/

/-- A toy target keeps no state, so any tokens will do for what it knows. -/
theorem decodesGreedily_toy : DecodesGreedily m.adapter m.next fun _ _ => True where
  generateAr := rfl
  prefill _ _ _ hp := ⟨m.getLast?_logitsFromTokens hp, trivial⟩
  decode _ ctx tok _ _ _ := ⟨(m.next_concat ctx tok).symm, trivial⟩

/-- **Autoregressive decoding on a toy target** fills the budget exactly, apart from the first
token, which is always there. -/
theorem runAr_toy (hp : seq.promptTokenIds ≠ []) (hc : seq.completionTokenIds = [])
    (hfuel : maxNewTokens.toNat ≤ fuel) :
    ∃ s, runAr cfg m.adapter maxNewTokens fuel seq () metrics = some s ∧
      s.seq.completionTokenIds =
        Greedy.extend m.next seq.promptTokenIds (max 1 maxNewTokens.toNat) := by
  obtain ⟨s, n, hs, h, hn⟩ := runAr_greedily cfg metrics (decodesGreedily_toy m) hp hc hfuel
  exact ⟨s, hs, by rw [h.follows.eq_extend, h.length_eq, hn]⟩

/-! ## The trajectory of the target -/

variable {m} {draft}

/-- The tokens `l` after the token `t` are those of the greedy trajectory of `t`. -/
def OnTrajectory (m : ToyModelAdapter R H V) (t : Token) (l : List Token) : Prop :=
  (∀ _ : 0 < l.length, l[0] = m.T t) ∧ ∀ i (_ : i + 1 < l.length), l[i + 1] = m.T l[i]

theorem onTrajectory_of_follows {l : List Token} (hp : prompt ≠ [])
    (h : Greedy.Follows m.next prompt l) : OnTrajectory m (prompt.getLast hp) l := by
  have hget := Greedy.follows_iff_getElem.mp h
  constructor
  · intro h0
    have hlast := hget 0 h0
    rw [List.take_zero, List.append_nil] at hlast
    rw [hlast, ← m.next_concat prompt.dropLast, List.dropLast_append_getLast]
  · intro i hi
    have hnext := hget (i + 1) hi
    rw [List.take_succ_eq_append_getElem (by omega), ← List.append_assoc,
      ToyModelAdapter.next_concat] at hnext
    exact hnext

/-- The abstract decoder, once it has filled the budget, extends the autoregressive completion. -/
theorem extend_prefix_decode {i : ℕ}
    (h : StopsAt (fun j => (Greedy.decode m.next prompt draft j).length) maxNewTokens i) :
    Greedy.extend m.next prompt (max 1 maxNewTokens.toNat) <+:
      Greedy.decode m.next prompt draft i := by
  have hpos : i < (Greedy.decode m.next prompt draft i).length :=
    Greedy.lt_length_decode prompt draft i
  have hfull := h.1
  rw [(Greedy.follows_decode prompt draft i).eq_extend]
  apply Greedy.extend_prefix prompt
  simp only at hfull
  omega

/-- **Lossless speculation.** On a toy target and a non-empty prompt, whatever is proposed and
whichever hits are reported, both speculative loops terminate, every token they emit is on the
target's greedy trajectory, and the autoregressive completion is a prefix of theirs. -/
theorem lossless_speculation (cfg : SSDConfig) (m : ToyModelAdapter R H V) (seq : Sequence)
    (hp : seq.promptTokenIds ≠ []) (hc : seq.completionTokenIds = []) (maxNewTokens : ℤ)
    (metrics : RunMetrics) (drafts : ℕ → Draft cfg.speculateK)
    (responses : ℕ → DraftResponse 1 cfg.speculateK V' R') (fuel : ℕ)
    (hfuel : maxNewTokens.toNat ≤ fuel) :
    ∃ ar sd ssd, runAr cfg m.adapter maxNewTokens fuel seq () metrics = some ar ∧
      runSd cfg m.adapter (scriptedDraft drafts) maxNewTokens fuel seq () 0 metrics = some sd ∧
      runSsd cfg m.adapter (scriptedServe responses) maxNewTokens fuel seq () 0 metrics = some ssd ∧
      OnTrajectory m (seq.promptTokenIds.getLast hp) sd.seq.completionTokenIds ∧
      OnTrajectory m (seq.promptTokenIds.getLast hp) ssd.seq.completionTokenIds ∧
      ar.seq.completionTokenIds <+: sd.seq.completionTokenIds ∧
      ar.seq.completionTokenIds <+: ssd.seq.completionTokenIds := by
  obtain ⟨ar, har, hcar⟩ : ∃ s, runAr cfg m.adapter maxNewTokens fuel seq () metrics = some s ∧ _ :=
    runAr_toy m cfg metrics hp hc hfuel
  obtain ⟨sd, i, hsd, hcsd, hi⟩ := runSd_toy m cfg metrics (fun n _ => List.ofFn (drafts n))
    (scriptedDraft drafts) (fun n d => d = n)
    (by rintro n _ tokens rfl _; exact ⟨_, rfl, rfl⟩) hp hc rfl hfuel
  obtain ⟨ssd, j, hssd, hcssd, hj⟩ := runSsd_toy m cfg metrics
    (fun n _ => List.ofFn ((responses n).specTokens 0)) (scriptedServe responses)
    (fun n w => w = n) (by rintro n _ acc ctx tok rfl; exact ⟨_, rfl, rfl, rfl⟩) hp hc rfl hfuel
  refine ⟨ar, sd, ssd, har, hsd, hssd, ?_, ?_, ?_, ?_⟩
  · rw [hcsd]
    exact onTrajectory_of_follows hp (Greedy.follows_decode _ _ _)
  · rw [hcssd]
    exact onTrajectory_of_follows hp (Greedy.follows_decode _ _ _)
  · rw [hcar, hcsd]
    exact extend_prefix_decode hi
  · rw [hcar, hcssd]
    exact extend_prefix_decode hj

end Toy

theorem lossless_speculation_alternating :
    ∃ ar sd ssd,
      runAr {} alternating.adapter 3 3 { seqId := 0, promptTokenIds := [4] } () {} = some ar ∧
      runSd {} alternating.adapter (scriptedDraft fun _ => ![2, 1, 1, 1]) 3 3
        { seqId := 0, promptTokenIds := [4] } () 0 {} = some sd ∧
      runSsd {} alternating.adapter (scriptedServe fun _ => (⟨fun _ => true, fun _ => ![1, 2, 2, 2],
        fun _ _ _ => 0⟩ : DraftResponse 1 4 3 ℚ)) 3 3
        { seqId := 0, promptTokenIds := [4] } () 0 {} = some ssd ∧
      OnTrajectory alternating 4 sd.seq.completionTokenIds ∧
      OnTrajectory alternating 4 ssd.seq.completionTokenIds ∧
      ar.seq.completionTokenIds <+: sd.seq.completionTokenIds ∧
      ar.seq.completionTokenIds <+: ssd.seq.completionTokenIds :=
  lossless_speculation {} alternating { seqId := 0, promptTokenIds := [4] } (by simp) rfl 3 {}
    (fun _ => ![2, 1, 1, 1]) (fun _ => ⟨fun _ => true, fun _ => ![1, 2, 2, 2], fun _ _ _ => 0⟩) 3
    (by decide)

end SsdTpu
