import SsdTpu.Loop
import SsdTpu.Verify
import SsdTpu.Adapter
import SsdTpu.Scheduler
import SsdTpu.Metrics
import SsdTpu.DraftWorker

/-!
# The inference engine

The decode loops `_run_ar`, `_run_sd` and `_run_ssd` and the request loop `generate`. A decode loop
works on its sequence object alone, which `generate` writes back. The streaming callback and the
clock are left out.

`_run_sd` is written over any draft with a state of its own, `_run_ssd` over any service that
answers draft requests, so that both can be run on arbitrary proposals; `generate` passes the draft
model and the draft worker. A call that raises, or whose response never comes, is `none`.

The fuel of a loop is a bound on its passes. Every pass appends a token, so that `max_new_tokens`
passes are always enough (`runSd_fuel` and its siblings).
-/

namespace SsdTpu

variable {τ δ ω R R' : Type*} [LinearOrder R] {V V' k : ℕ}

/-- `jnp.zeros((self.config.num_blocks,))`. -/
def pageTable (cfg : SSDConfig) : List ℕ := List.replicate cfg.numBlocks 0

/-- The variables that the decode loops carry. -/
structure Decoding (τ : Type*) where
  target : τ
  seq : Sequence
  /-- `token` in `_run_ar`, `recovery` in the others. -/
  token : Token
  metrics : RunMetrics

/-- The loop test. -/
def Decoding.unfinished (maxNewTokens : ℤ) (s : Decoding τ) : Bool :=
  !s.seq.isFinished none maxNewTokens

/-- The prefill and the first token. An empty prompt has no last logits. -/
def prefillFirst (cfg : SSDConfig) (target : DecodeModelAdapter τ R V) (t : τ)
    (promptTokenIds : List Token) : Option (Token × τ) :=
  let pre := target.prefill (target.allocateKv t) promptTokenIds (pageTable cfg)
  pre.1.getLast?.map fun logits => (argmaxToken logits, pre.2)

/-! ## Autoregressive decoding -/

def arStart (cfg : SSDConfig) (target : DecodeModelAdapter τ R V) (seq : Sequence) (t : τ)
    (metrics : RunMetrics) : Option (Decoding τ) :=
  (prefillFirst cfg target t seq.promptTokenIds).map fun p =>
    { target := p.2, seq := seq.appendToken p.1, token := p.1, metrics := metrics }

def arStep (cfg : SSDConfig) (target : DecodeModelAdapter τ R V) (s : Decoding τ) :
    Option (Decoding τ) :=
  let dec := target.decode s.target s.token s.seq.numTokens (pageTable cfg)
  some
    { target := dec.2
      seq := s.seq.appendToken dec.1.nextToken
      token := dec.1.nextToken
      metrics := s.metrics.recordStep { acceptedTokens := 1 } }

/-- `_run_ar`. The token in the result of `generate_ar` is not used. -/
def runAr (cfg : SSDConfig) (target : DecodeModelAdapter τ R V) (maxNewTokens : ℤ) (fuel : ℕ)
    (seq : Sequence) (t : τ) (metrics : RunMetrics) : Option (Decoding τ) :=
  match target.generateAr with
  | some genAr =>
    (genAr t seq.promptTokenIds maxNewTokens).map fun r =>
      { target := r.2
        seq := r.1.foldl Sequence.appendToken seq
        token := 0
        metrics := metrics.recordStep { acceptedTokens := r.1.length } }
  | none =>
    (arStart cfg target seq t metrics).bind
      (Loop.run (Decoding.unfinished maxNewTokens) (arStep cfg target) fuel)

/-! ## One round of speculation -/

/-- The start of `_run_sd` and `_run_ssd`. -/
def specStart (cfg : SSDConfig) (target : DecodeModelAdapter τ R V) (seq : Sequence) (t : τ)
    (metrics : RunMetrics) : Option (Decoding τ) :=
  (prefillFirst cfg target t seq.promptTokenIds).map fun p =>
    { target := p.2
      seq := { seq with recoveryToken := p.1 }.appendToken p.1
      token := p.1
      metrics := metrics }

/-- Verify a draft, append the accepted tokens and the recovery token and commit them. Returns the
number of accepted tokens and the new variables. -/
def verifyRound (cfg : SSDConfig) (target : DecodeModelAdapter τ R V) (spec : List Token)
    (cacheHit : Bool) (s : Decoding τ) : ℕ × Decoding τ :=
  let specKp1 := s.token :: spec
  let vres := target.verify s.target specKp1 (List.range (cfg.speculateK + 1)) (pageTable cfg)
  let vout := verifyGreedy argmaxToken vres.1 fun _ => specKp1.get
  let acc := vout.acceptUntil 0
  let accepted := spec.take acc
  let recovery := vout.recoveryTokens 0
  (acc,
    { target := target.commit vres.2 (accepted ++ [recovery])
      seq := (accepted.foldl Sequence.appendToken s.seq).appendToken recovery
      token := recovery
      metrics := s.metrics.recordStep
        { cacheHit := cacheHit, acceptedTokens := accepted.length + 1 } })

/-! ## Synchronous speculation -/

structure SdState (τ δ : Type*) extends Decoding τ where
  draft : δ

def sdStart (cfg : SSDConfig) (target : DecodeModelAdapter τ R V) (seq : Sequence) (t : τ) (d : δ)
    (metrics : RunMetrics) : Option (SdState τ δ) :=
  (specStart cfg target seq t metrics).map fun s => { s with draft := d }

def sdStep (cfg : SSDConfig) (target : DecodeModelAdapter τ R V)
    (draftSpeculate : δ → List Token → ℕ → Option (List Token × δ)) (s : SdState τ δ) :
    Option (SdState τ δ) :=
  (draftSpeculate s.draft s.seq.tokenIds cfg.speculateK).map fun r =>
    { (verifyRound cfg target r.1 false s.toDecoding).2 with draft := r.2 }

/-- The loop test of `_run_sd`. -/
def SdState.unfinished (maxNewTokens : ℤ) (s : SdState τ δ) : Bool :=
  s.toDecoding.unfinished maxNewTokens

/-- `_run_sd`. -/
def runSd (cfg : SSDConfig) (target : DecodeModelAdapter τ R V)
    (draftSpeculate : δ → List Token → ℕ → Option (List Token × δ)) (maxNewTokens : ℤ) (fuel : ℕ)
    (seq : Sequence) (t : τ) (d : δ) (metrics : RunMetrics) : Option (SdState τ δ) :=
  (sdStart cfg target seq t d metrics).bind
    (Loop.run (SdState.unfinished maxNewTokens) (sdStep cfg target draftSpeculate) fuel)

/-! ## Asynchronous speculation -/

structure SsdState (τ ω : Type*) (k V : ℕ) (R : Type*) extends Decoding τ where
  worker : ω
  draftResp : DraftResponse 1 k V R

/-- A service that answers one-row draft requests: `submit` followed by `get_response`. -/
abbrev Serve (ω : Type*) (k V : ℕ) (R : Type*) :=
  ω → DraftRequest 1 → Option (DraftResponse 1 k V R × ω)

/-- The request `[[seq_id, accepted, recovery]]`. -/
def draftRequest (seqId accepted : ℕ) (recovery : Token) : DraftRequest 1 where
  cacheKeys := fun _ => ![(seqId : ℤ), (accepted : ℤ), recovery]

def ssdStart (cfg : SSDConfig) (target : DecodeModelAdapter τ R V) (serve : Serve ω k V' R')
    (seq : Sequence) (t : τ) (w : ω) (metrics : RunMetrics) : Option (SsdState τ ω k V' R') :=
  (specStart cfg target seq t metrics).bind fun s =>
    (serve w (draftRequest s.seq.seqId 0 s.token)).map fun r =>
      { s with worker := r.2, draftResp := r.1 }

/-- The loop test of `_run_ssd`. -/
def SsdState.unfinished (maxNewTokens : ℤ) (s : SsdState τ ω k V' R') : Bool :=
  s.toDecoding.unfinished maxNewTokens

/-- The body of the loop. The `break` after the last round only skips the next request. -/
def ssdStep (cfg : SSDConfig) (target : DecodeModelAdapter τ R V) (serve : Serve ω k V' R')
    (maxNewTokens : ℤ) (s : SsdState τ ω k V' R') : Option (SsdState τ ω k V' R') :=
  let spec := List.ofFn (s.draftResp.specTokens 0)
  let r := verifyRound cfg target spec (s.draftResp.cacheHit 0) s.toDecoding
  if r.2.unfinished maxNewTokens then
    (serve s.worker (draftRequest r.2.seq.seqId r.1 r.2.token)).map fun a =>
      { r.2 with worker := a.2, draftResp := a.1 }
  else some { r.2 with worker := s.worker, draftResp := s.draftResp }

/-- `_run_ssd`. -/
def runSsd (cfg : SSDConfig) (target : DecodeModelAdapter τ R V) (serve : Serve ω k V' R')
    (maxNewTokens : ℤ) (fuel : ℕ) (seq : Sequence) (t : τ) (w : ω) (metrics : RunMetrics) :
    Option (SsdState τ ω k V' R') :=
  (ssdStart cfg target serve seq t w metrics).bind
    (Loop.run (SsdState.unfinished maxNewTokens) (ssdStep cfg target serve maxNewTokens) fuel)

/-! ## Arbitrary proposals -/

/-- A draft that answers with a given sequence of proposals, right or wrong. -/
def scriptedDraft {k : ℕ} (drafts : ℕ → Draft k) :
    ℕ → List Token → ℕ → Option (List Token × ℕ) :=
  fun n _ _ => some (List.ofFn (drafts n), n + 1)

/-- A service that answers with a given sequence of responses. -/
def scriptedServe (responses : ℕ → DraftResponse 1 k V' R') : Serve ℕ k V' R' :=
  fun n _ => some (responses n, n + 1)

/-! ## What a round does -/

theorem foldl_appendToken (seq : Sequence) (tokens : List Token) :
    tokens.foldl Sequence.appendToken seq = seq.appendTokens tokens := by
  induction tokens generalizing seq with
  | nil => simp [Sequence.appendTokens]
  | cons t ts ih =>
    show ts.foldl Sequence.appendToken (seq.appendToken t) = _
    rw [ih]
    simp [Sequence.appendTokens, Sequence.appendToken]

section Round

variable (cfg : SSDConfig) (target : DecodeModelAdapter τ R V) (spec : List Token) (cacheHit : Bool)
  (s : Decoding τ)

theorem verifyRound_seq :
    (verifyRound cfg target spec cacheHit s).2.seq = s.seq.appendTokens
      (spec.take (verifyRound cfg target spec cacheHit s).1 ++
        [(verifyRound cfg target spec cacheHit s).2.token]) := by
  show ((spec.take (verifyRound cfg target spec cacheHit s).1).foldl Sequence.appendToken
    s.seq).appendToken (verifyRound cfg target spec cacheHit s).2.token = _
  rw [foldl_appendToken]
  simp [Sequence.appendTokens, Sequence.appendToken]

theorem verifyRound_steps :
    (verifyRound cfg target spec cacheHit s).2.metrics.steps = s.metrics.steps ++
      [{ cacheHit := cacheHit
         acceptedTokens := (spec.take (verifyRound cfg target spec cacheHit s).1).length + 1 }] :=
  rfl

/-- The room left in the budget; every pass of a loop takes some. -/
def Decoding.room (maxNewTokens : ℤ) (s : Decoding τ) : ℕ :=
  (maxNewTokens - s.seq.completionTokenIds.length).toNat

theorem Decoding.room_lt {maxNewTokens : ℤ} {s s' : Decoding τ} {tokens : List Token}
    (hseq : s'.seq.completionTokenIds = s.seq.completionTokenIds ++ tokens) (hne : tokens ≠ [])
    (hc : s.unfinished maxNewTokens = true) : s'.room maxNewTokens < s.room maxNewTokens := by
  have hlt := Sequence.not_isFinished_none.mp hc
  have hpos := List.length_pos_of_ne_nil hne
  unfold room
  rw [hseq, List.length_append]
  omega

theorem Decoding.room_le {s : Decoding τ} {maxNewTokens : ℤ} {fuel : ℕ}
    (hfuel : maxNewTokens.toNat ≤ fuel) : s.room maxNewTokens ≤ fuel := by
  unfold room
  omega

theorem verifyRound_room {maxNewTokens : ℤ} (hc : s.unfinished maxNewTokens = true) :
    (verifyRound cfg target spec cacheHit s).2.room maxNewTokens < s.room maxNewTokens :=
  Decoding.room_lt (congrArg Sequence.completionTokenIds (verifyRound_seq ..)) (by simp) hc

/-- **One round.** If the logits that the target returns for the verified tokens choose the tokens
`next` gives after `ctx`, then the round adds the draft's longest correct prefix and the next token
after it. -/
theorem verifyRound_spec {next : List Token → Token} {ctx : List Token}
    (hv : ∀ i : Fin (spec.length + 1), argmaxToken ((target.verify s.target (s.token :: spec)
      (List.range (cfg.speculateK + 1)) (pageTable cfg)).1 0 i) =
        next (ctx ++ s.token :: spec.take i)) :
    (verifyRound cfg target spec cacheHit s).1 = Greedy.acceptLen next (ctx ++ [s.token]) spec ∧
      (verifyRound cfg target spec cacheHit s).2.token = next (ctx ++ s.token ::
        spec.take (Greedy.acceptLen next (ctx ++ [s.token]) spec)) ∧
      (verifyRound cfg target spec cacheHit s).2.seq =
        s.seq.appendTokens (Greedy.round next (ctx ++ [s.token]) spec) := by
  obtain ⟨hacc, hrec⟩ := verifyGreedy_spec argmaxToken
    (target.verify s.target (s.token :: spec) (List.range (cfg.speculateK + 1)) (pageTable cfg)).1
    (fun _ => (s.token :: spec).get) 0 (t := fun i => next (ctx ++ s.token :: spec.take i)) hv
  have hlen : (verifyRound cfg target spec cacheHit s).1 =
      Greedy.acceptLen next (ctx ++ [s.token]) spec := by
    apply Greedy.IsInitial.unique _ (Greedy.acceptLen_isInitial _ _)
    apply hacc.congr
    intro j hj
    rw [List.append_assoc, List.singleton_append, List.getElem?_eq_getElem hj, Option.some.injEq]
    exact ⟨fun ⟨_, h⟩ => h, fun h => ⟨hj, h⟩⟩
  have htok : (verifyRound cfg target spec cacheHit s).2.token = next (ctx ++ s.token ::
      spec.take (Greedy.acceptLen next (ctx ++ [s.token]) spec)) := by
    rw [← hlen]
    exact hrec
  refine ⟨hlen, htok, ?_⟩
  rw [verifyRound_seq, htok, hlen]
  unfold Greedy.round
  rw [List.append_assoc, List.singleton_append]

end Round

/-! ## Enough fuel -/

section Fuel

variable {cfg : SSDConfig} {target : DecodeModelAdapter τ R V} {maxNewTokens : ℤ} {fuel : ℕ}
  {seq : Sequence} {t : τ} {metrics : RunMetrics}

/-- The fuel of `runAr` never runs out, so that it is `none` only when the code raises. -/
theorem runAr_fuel (hfuel : maxNewTokens.toNat ≤ fuel) :
    runAr cfg target maxNewTokens fuel seq t metrics =
      runAr cfg target maxNewTokens maxNewTokens.toNat seq t metrics := by
  unfold runAr
  cases target.generateAr with
  | some _ => rfl
  | none =>
    apply congrArg (Option.bind (arStart cfg target seq t metrics))
    funext s
    refine Loop.run_eq_of_measure (Decoding.room maxNewTokens) (fun s s' hc hs => ?_)
      (Decoding.room_le hfuel) (Decoding.room_le le_rfl)
    obtain rfl := Option.some.inj hs
    exact Decoding.room_lt rfl (by simp) hc

theorem runSd_fuel {draftSpeculate : δ → List Token → ℕ → Option (List Token × δ)} {d : δ}
    (hfuel : maxNewTokens.toNat ≤ fuel) :
    runSd cfg target draftSpeculate maxNewTokens fuel seq t d metrics =
      runSd cfg target draftSpeculate maxNewTokens maxNewTokens.toNat seq t d metrics := by
  unfold runSd
  apply congrArg
  funext s
  refine Loop.run_eq_of_measure (fun s => s.toDecoding.room maxNewTokens) (fun s s' hc hs => ?_)
    (Decoding.room_le hfuel) (Decoding.room_le le_rfl)
  obtain ⟨r, _, rfl⟩ := Option.map_eq_some_iff.mp hs
  exact verifyRound_room _ _ _ _ _ hc

/-- The variables of the round, whether or not a next request is made. -/
theorem ssdStep_toDecoding {serve : Serve ω k V' R'} {s s' : SsdState τ ω k V' R'}
    (h : ssdStep cfg target serve maxNewTokens s = some s') :
    s'.toDecoding = (verifyRound cfg target (List.ofFn (s.draftResp.specTokens 0))
      (s.draftResp.cacheHit 0) s.toDecoding).2 := by
  unfold ssdStep at h
  simp only at h
  split_ifs at h
  · obtain ⟨a, _, rfl⟩ := Option.map_eq_some_iff.mp h
    rfl
  · obtain rfl := Option.some.inj h
    rfl

theorem runSsd_fuel {serve : Serve ω k V' R'} {w : ω} (hfuel : maxNewTokens.toNat ≤ fuel) :
    runSsd cfg target serve maxNewTokens fuel seq t w metrics =
      runSsd cfg target serve maxNewTokens maxNewTokens.toNat seq t w metrics := by
  unfold runSsd
  apply congrArg
  funext s
  refine Loop.run_eq_of_measure (fun s => s.toDecoding.room maxNewTokens) (fun s s' hc hs => ?_)
    (Decoding.room_le hfuel) (Decoding.room_le le_rfl)
  show s'.toDecoding.room maxNewTokens < _
  rw [ssdStep_toDecoding hs]
  exact verifyRound_room _ _ _ _ _ hc

end Fuel

/-! ## The service -/

/-- The loop reaches the service by requests of its own sequence only, so that what these keep is
kept by the run. -/
theorem runSsd_worker {cfg : SSDConfig} {target : DecodeModelAdapter τ R V} {maxNewTokens : ℤ}
    {fuel : ℕ} {seq : Sequence} {t : τ} {metrics : RunMetrics} {serve : Serve ω k V' R'} {w : ω}
    {P : ω → Prop} (h0 : P w)
    (hserve : ∀ w acc tok a, P w → serve w (draftRequest seq.seqId acc tok) = some a → P a.2)
    {s : SsdState τ ω k V' R'}
    (h : runSsd cfg target serve maxNewTokens fuel seq t w metrics = some s) : P s.worker := by
  obtain ⟨s₀, h₀, hrun⟩ := Option.bind_eq_some_iff.mp h
  obtain ⟨s₁, h₁, h₂⟩ := Option.bind_eq_some_iff.mp h₀
  obtain ⟨p, _, rfl⟩ := Option.map_eq_some_iff.mp h₁
  obtain ⟨a, ha, rfl⟩ := Option.map_eq_some_iff.mp h₂
  refine (Loop.run_invariant (P := fun s => s.seq.seqId = seq.seqId ∧ P s.worker)
    ⟨rfl, hserve w _ _ a h0 ha⟩ (fun s s' hs _ hf => ?_) hrun).1.2
  have hid : (verifyRound cfg target (List.ofFn (s.draftResp.specTokens 0))
      (s.draftResp.cacheHit 0) s.toDecoding).2.seq.seqId = seq.seqId := by
    rw [verifyRound_seq]
    exact hs.1
  refine ⟨?_, ?_⟩
  · rw [ssdStep_toDecoding hf]
    exact hid
  · unfold ssdStep at hf
    simp only at hf
    split_ifs at hf
    · obtain ⟨a, ha, rfl⟩ := Option.map_eq_some_iff.mp hf
      rw [hid] at ha
      exact hserve _ _ _ a hs.2 ha
    · obtain rfl := Option.some.inj hf
      exact hs.2

/-! ## What every round keeps -/

section RoundInvariant

variable {cfg : SSDConfig} {target : DecodeModelAdapter τ R V} {maxNewTokens : ℤ} {fuel : ℕ}
  {seq : Sequence} {t : τ} {metrics : RunMetrics} {P : Decoding τ → Prop}

theorem sdHead_invariant {draftSpeculate : δ → List Token → ℕ → Option (List Token × δ)} {d : δ}
    {s₀ s : SdState τ δ} {n : ℕ} (hstart : ∀ s, specStart cfg target seq t metrics = some s → P s)
    (hround : ∀ spec cacheHit s, P s → P (verifyRound cfg target spec cacheHit s).2)
    (h₀ : sdStart cfg target seq t d metrics = some s₀)
    (h : Loop.Head (SdState.unfinished maxNewTokens) (sdStep cfg target draftSpeculate) s₀ n s) :
    P s.toDecoding := by
  obtain ⟨s₁, h₁, rfl⟩ := Option.map_eq_some_iff.mp h₀
  refine h.invariant (P := fun _ s => P s.toDecoding) (hstart s₁ h₁) fun _ s s' hs _ hf => ?_
  obtain ⟨r, _, rfl⟩ := Option.map_eq_some_iff.mp hf
  exact hround r.1 false s.toDecoding hs

theorem ssdHead_invariant {serve : Serve ω k V' R'} {w : ω} {s₀ s : SsdState τ ω k V' R'} {n : ℕ}
    (hstart : ∀ s, specStart cfg target seq t metrics = some s → P s)
    (hround : ∀ spec cacheHit s, P s → P (verifyRound cfg target spec cacheHit s).2)
    (h₀ : ssdStart cfg target serve seq t w metrics = some s₀)
    (h : Loop.Head (SsdState.unfinished maxNewTokens) (ssdStep cfg target serve maxNewTokens) s₀ n
      s) : P s.toDecoding := by
  obtain ⟨s₁, h₁, h₂⟩ := Option.bind_eq_some_iff.mp h₀
  obtain ⟨a, _, rfl⟩ := Option.map_eq_some_iff.mp h₂
  refine h.invariant (P := fun _ s => P s.toDecoding) (hstart s₁ h₁) fun _ s s' hs _ hf => ?_
  rw [ssdStep_toDecoding hf]
  exact hround _ _ s.toDecoding hs

theorem runSd_invariant {draftSpeculate : δ → List Token → ℕ → Option (List Token × δ)} {d : δ}
    {s : SdState τ δ} (hstart : ∀ s, specStart cfg target seq t metrics = some s → P s)
    (hround : ∀ spec cacheHit s, P s → P (verifyRound cfg target spec cacheHit s).2)
    (h : runSd cfg target draftSpeculate maxNewTokens fuel seq t d metrics = some s) :
    P s.toDecoding := by
  obtain ⟨s₀, h₀, hrun⟩ := Option.bind_eq_some_iff.mp h
  obtain ⟨n, hs, _⟩ := Loop.exists_head_of_run hrun
  exact sdHead_invariant hstart hround h₀ hs

theorem runSsd_invariant {serve : Serve ω k V' R'} {w : ω} {s : SsdState τ ω k V' R'}
    (hstart : ∀ s, specStart cfg target seq t metrics = some s → P s)
    (hround : ∀ spec cacheHit s, P s → P (verifyRound cfg target spec cacheHit s).2)
    (h : runSsd cfg target serve maxNewTokens fuel seq t w metrics = some s) :
    P s.toDecoding := by
  obtain ⟨s₀, h₀, hrun⟩ := Option.bind_eq_some_iff.mp h
  obtain ⟨n, hs, _⟩ := Loop.exists_head_of_run hrun
  exact ssdHead_invariant hstart hround h₀ hs

end RoundInvariant

/-! ## The sequence object -/

section SameRequest

open Sequence (SameRequest)

variable {cfg : SSDConfig} {target : DecodeModelAdapter τ R V} {maxNewTokens : ℤ} {fuel : ℕ}
  {seq : Sequence} {t : τ} {metrics : RunMetrics}

theorem specStart_sameRequest {s : Decoding τ} (h : specStart cfg target seq t metrics = some s) :
    SameRequest seq s.seq := by
  obtain ⟨p, _, rfl⟩ := Option.map_eq_some_iff.mp h
  exact ⟨rfl, rfl, rfl, rfl, rfl⟩

theorem verifyRound_sameRequest {s : Decoding τ} (h : SameRequest seq s.seq) (spec : List Token)
    (cacheHit : Bool) : SameRequest seq (verifyRound cfg target spec cacheHit s).2.seq := by
  rw [verifyRound_seq]
  exact h.appendTokens _

theorem arHead_sameRequest {s₀ s : Decoding τ} {n : ℕ}
    (h₀ : arStart cfg target seq t metrics = some s₀)
    (h : Loop.Head (Decoding.unfinished maxNewTokens) (arStep cfg target) s₀ n s) :
    SameRequest seq s.seq := by
  obtain ⟨p, _, rfl⟩ := Option.map_eq_some_iff.mp h₀
  refine h.invariant (P := fun _ s => SameRequest seq s.seq) ?_ ?_
  · exact (SameRequest.refl seq).appendTokens _
  · intro _ s s' hs _ hf
    obtain rfl := Option.some.inj hf
    exact hs.appendTokens _

theorem sdHead_sameRequest {draftSpeculate : δ → List Token → ℕ → Option (List Token × δ)} {d : δ}
    {s₀ s : SdState τ δ} {n : ℕ} (h₀ : sdStart cfg target seq t d metrics = some s₀)
    (h : Loop.Head (SdState.unfinished maxNewTokens) (sdStep cfg target draftSpeculate) s₀ n s) :
    SameRequest seq s.seq :=
  sdHead_invariant (P := fun s => SameRequest seq s.seq) (fun _ hs => specStart_sameRequest hs)
    (fun spec cacheHit _ hs => verifyRound_sameRequest hs spec cacheHit) h₀ h

theorem ssdHead_sameRequest {serve : Serve ω k V' R'} {w : ω} {s₀ s : SsdState τ ω k V' R'} {n : ℕ}
    (h₀ : ssdStart cfg target serve seq t w metrics = some s₀)
    (h : Loop.Head (SsdState.unfinished maxNewTokens) (ssdStep cfg target serve maxNewTokens) s₀ n
      s) : SameRequest seq s.seq :=
  ssdHead_invariant (P := fun s => SameRequest seq s.seq) (fun _ hs => specStart_sameRequest hs)
    (fun spec cacheHit _ hs => verifyRound_sameRequest hs spec cacheHit) h₀ h

theorem runAr_sameRequest {s : Decoding τ}
    (h : runAr cfg target maxNewTokens fuel seq t metrics = some s) : SameRequest seq s.seq := by
  unfold runAr at h
  cases hg : target.generateAr with
  | some genAr =>
    rw [hg] at h
    obtain ⟨r, _, rfl⟩ := Option.map_eq_some_iff.mp h
    show SameRequest seq (r.1.foldl Sequence.appendToken seq)
    rw [foldl_appendToken]
    exact (SameRequest.refl seq).appendTokens _
  | none =>
    rw [hg] at h
    obtain ⟨s₀, h₀, hrun⟩ := Option.bind_eq_some_iff.mp h
    obtain ⟨n, hs, _⟩ := Loop.exists_head_of_run hrun
    exact arHead_sameRequest h₀ hs

theorem runSd_sameRequest {draftSpeculate : δ → List Token → ℕ → Option (List Token × δ)} {d : δ}
    {s : SdState τ δ}
    (h : runSd cfg target draftSpeculate maxNewTokens fuel seq t d metrics = some s) :
    SameRequest seq s.seq := by
  obtain ⟨s₀, h₀, hrun⟩ := Option.bind_eq_some_iff.mp h
  obtain ⟨n, hs, _⟩ := Loop.exists_head_of_run hrun
  exact sdHead_sameRequest h₀ hs

theorem runSsd_sameRequest {serve : Serve ω k V' R'} {w : ω} {s : SsdState τ ω k V' R'}
    (h : runSsd cfg target serve maxNewTokens fuel seq t w metrics = some s) :
    SameRequest seq s.seq := by
  obtain ⟨s₀, h₀, hrun⟩ := Option.bind_eq_some_iff.mp h
  obtain ⟨n, hs, _⟩ := Loop.exists_head_of_run hrun
  exact ssdHead_sameRequest h₀ hs

end SameRequest

end SsdTpu
