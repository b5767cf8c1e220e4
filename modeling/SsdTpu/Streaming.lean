import SsdTpu.Gemma4Adapter
import SsdTpu.Throughput

/-!
# Streaming

The decode loops with their `on_token` callback, and what is built on it: `generate_stream`, the
public `LLM` and the token panel of the live demo. A callback is a function on the state of the
caller that passed it; one that raises is left out.

1. `emit` appends a token and calls back. To a target with a `generate_ar` the callback is handed
   on, and it is assumed to call back once for each token (`CallsBack`), as the one of Gemma 4 does
   (`Gemma4Adapter.callsBack`).
2. The tokens that were called back since a loop was entered are those its sequence has gained
   (`Streams`). Each loop with callbacks runs in step with the one without, failures included
   (`runModeOn_rel`), so that a call of `generate` is not changed by its callback and calls it once
   for each output token, in order (`generateOn_eq`).
3. A stream yields the completion (`generateStream_eq`), and a panel shows it
   (`panel_of_generateOn`).
-/

namespace SsdTpu

/-- What `on_token` does with the state of its caller, when it returns. -/
abbrev TokenCallback (σ : Type*) := Token → String → σ → σ

/-- The text of tokens and the `on_token` argument, as `_decode_callback` finds them. -/
structure Listener (σ : Type*) where
  decodeTokensToStr : List Token → String
  onToken : Option (TokenCallback σ)

namespace Listener

variable {σ : Type*} (l : Listener σ)

/-- `_decode_callback`. -/
def decodeCallback (token : Token) (c : σ) : σ :=
  match l.onToken with
  | none => c
  | some onToken => onToken token (l.decodeTokensToStr [token]) c

/-- `seq.append_token(tok)` and the callback. -/
def emit (s : Sequence × σ) (token : Token) : Sequence × σ :=
  (s.1.appendToken token, l.decodeCallback token s.2)

/-- One callback for each token. -/
def calls (tokens : List Token) (c : σ) : σ := tokens.foldl (fun c tok => l.decodeCallback tok c) c

@[simp] theorem calls_nil (c : σ) : l.calls [] c = c := rfl

theorem calls_append (ts ts' : List Token) (c : σ) :
    l.calls (ts ++ ts') c = l.calls ts' (l.calls ts c) :=
  List.foldl_append

theorem foldl_emit (tokens : List Token) (s : Sequence × σ) :
    tokens.foldl l.emit s = (s.1.appendTokens tokens, l.calls tokens s.2) := by
  induction tokens generalizing s with
  | nil => simp [Sequence.appendTokens]
  | cons t ts ih =>
    rw [List.foldl_cons, ih]
    simp [emit, calls, Sequence.appendTokens, Sequence.appendToken]

end Listener

variable {τ ω σ R R' : Type*} [LinearOrder R] {V V' k : ℕ}

/-! ## The callbacks of `generate_ar` -/

/-- `generate_ar` with its `on_token` argument: what it returns and how it leaves the caller. -/
abbrev GenerateArOn (τ σ : Type*) :=
  τ → List Token → ℤ → Option (TokenCallback σ) → σ → Option ((List Token × τ) × σ)

/-- `generate_ar` returns the same with an `on_token` argument and without, and calls it once for
each token that it returns, in order, with the token's text. -/
def CallsBack (target : DecodeModelAdapter τ R V) (genArOn : GenerateArOn τ σ)
    (decodeTokensToStr : List Token → String) : Prop :=
  ∀ genAr ∈ target.generateAr, ∀ t promptTokens maxNewTokens onToken c,
    genArOn t promptTokens maxNewTokens onToken c = (genAr t promptTokens maxNewTokens).map
      fun r => (r, Listener.calls ⟨decodeTokensToStr, onToken⟩ r.1 c)

omit [LinearOrder R] in
theorem callsBack_of_none {target : DecodeModelAdapter τ R V} (h : target.generateAr = none)
    (genArOn : GenerateArOn τ σ) (decodeTokensToStr : List Token → String) :
    CallsBack target genArOn decodeTokensToStr := by
  intro genAr hgen
  rw [h] at hgen
  cases hgen

namespace Gemma4Adapter

/-- One pass of the loop that ends `generate_ar`. -/
def collect (l : Listener σ) (s : List Token × σ) (tid : Token) : List Token × σ :=
  (s.1 ++ [tid], l.decodeCallback tid s.2)

theorem foldl_collect (l : Listener σ) (newIds : List Token) (s : List Token × σ) :
    newIds.foldl (collect l) s = (s.1 ++ newIds, l.calls newIds s.2) := by
  induction newIds generalizing s with
  | nil => simp
  | cons t ts ih =>
    rw [List.foldl_cons, ih]
    simp [collect, Listener.calls]

/-- `generate_ar`, with its callbacks. -/
def generateArOn (m : Gemma4Adapter) (decodeTokensToStr : List Token → String) :
    GenerateArOn Unit σ := fun t promptTokens maxNewTokens onToken c =>
  let generated :=
    (m.generateAr promptTokens maxNewTokens).foldl (collect ⟨decodeTokensToStr, onToken⟩) ([], c)
  some ((generated.1, t), generated.2)

omit [LinearOrder R] in
theorem callsBack [Zero R] (m : Gemma4Adapter) (decodeTokensToStr : List Token → String) :
    CallsBack (m.adapter : DecodeModelAdapter Unit R V)
      (m.generateArOn decodeTokensToStr : GenerateArOn Unit σ) decodeTokensToStr := by
  intro genAr hgen t promptTokens maxNewTokens onToken c
  obtain rfl := Option.some.inj hgen
  unfold generateArOn
  simp only [foldl_collect]
  rfl

end Gemma4Adapter

/-! ## The decode loops with callbacks -/

section Loops

variable (cfg : SSDConfig) (target : DecodeModelAdapter τ R V) (genArOn : GenerateArOn τ σ)
  (l : Listener σ) (maxNewTokens : ℤ)

def arStartOn (seq : Sequence) (t : τ) (metrics : RunMetrics) (c : σ) : Option (Decoding τ × σ) :=
  (prefillFirst cfg target t seq.promptTokenIds).map fun p =>
    let a := l.emit (seq, c) p.1
    ({ target := p.2, seq := a.1, token := p.1, metrics := metrics }, a.2)

def arStepOn (s : Decoding τ × σ) : Option (Decoding τ × σ) :=
  let dec := target.decode s.1.target s.1.token s.1.seq.numTokens (pageTable cfg)
  let a := l.emit (s.1.seq, s.2) dec.1.nextToken
  some
    ({ target := dec.2
       seq := a.1
       token := dec.1.nextToken
       metrics := s.1.metrics.recordStep { acceptedTokens := 1 } }, a.2)

/-- `_run_ar`. The callback is handed to `generate_ar`. -/
def runArOn (fuel : ℕ) (seq : Sequence) (t : τ) (metrics : RunMetrics) (c : σ) :
    Option (Decoding τ × σ) :=
  match target.generateAr with
  | some _ =>
    (genArOn t seq.promptTokenIds maxNewTokens l.onToken c).map fun r =>
      ({ target := r.1.2
         seq := r.1.1.foldl Sequence.appendToken seq
         token := 0
         metrics := metrics.recordStep { acceptedTokens := r.1.1.length } }, r.2)
  | none =>
    (arStartOn cfg target l seq t metrics c).bind
      (Loop.run (fun s => s.1.unfinished maxNewTokens) (arStepOn cfg target l) fuel)

def specStartOn (seq : Sequence) (t : τ) (metrics : RunMetrics) (c : σ) :
    Option (Decoding τ × σ) :=
  (prefillFirst cfg target t seq.promptTokenIds).map fun p =>
    let a := l.emit ({ seq with recoveryToken := p.1 }, c) p.1
    ({ target := p.2, seq := a.1, token := p.1, metrics := metrics }, a.2)

/-- One round: each accepted token is appended and called back, then the recovery token. -/
def verifyRoundOn (spec : List Token) (cacheHit : Bool) (s : Decoding τ × σ) :
    ℕ × Decoding τ × σ :=
  let specKp1 := s.1.token :: spec
  let vres := target.verify s.1.target specKp1 (List.range (cfg.speculateK + 1)) (pageTable cfg)
  let vout := verifyGreedy argmaxToken vres.1 fun _ => specKp1.get
  let acc := vout.acceptUntil 0
  let accepted := spec.take acc
  let recovery := vout.recoveryTokens 0
  let a := l.emit (accepted.foldl l.emit (s.1.seq, s.2)) recovery
  (acc,
    { target := target.commit vres.2 (accepted ++ [recovery])
      seq := a.1
      token := recovery
      metrics := s.1.metrics.recordStep
        { cacheHit := cacheHit, acceptedTokens := accepted.length + 1 } },
    a.2)

/-- `_run_sd`. The draft keeps no state. -/
def runSdOn (draft : DraftModel R' V') (fuel : ℕ) (seq : Sequence) (t : τ) (metrics : RunMetrics)
    (c : σ) : Option (Decoding τ × σ) :=
  (specStartOn cfg target l seq t metrics c).bind
    (Loop.run (fun s => s.1.unfinished maxNewTokens)
      (fun s => (draft s.1.seq.tokenIds cfg.speculateK).map fun r =>
        (verifyRoundOn cfg target l r.1 false s).2) fuel)

def ssdStartOn (serve : Serve ω k V' R') (seq : Sequence) (t : τ) (w : ω) (metrics : RunMetrics)
    (c : σ) : Option (SsdState τ ω k V' R' × σ) :=
  (specStartOn cfg target l seq t metrics c).bind fun s =>
    (serve w (draftRequest s.1.seq.seqId 0 s.1.token)).map fun r =>
      ({ s.1 with worker := r.2, draftResp := r.1 }, s.2)

def ssdStepOn (serve : Serve ω k V' R') (s : SsdState τ ω k V' R' × σ) :
    Option (SsdState τ ω k V' R' × σ) :=
  let spec := List.ofFn (s.1.draftResp.specTokens 0)
  let r := verifyRoundOn cfg target l spec (s.1.draftResp.cacheHit 0) (s.1.toDecoding, s.2)
  if r.2.1.unfinished maxNewTokens then
    (serve s.1.worker (draftRequest r.2.1.seq.seqId r.1 r.2.1.token)).map fun a =>
      ({ r.2.1 with worker := a.2, draftResp := a.1 }, r.2.2)
  else some ({ r.2.1 with worker := s.1.worker, draftResp := s.1.draftResp }, r.2.2)

/-- `_run_ssd`. -/
def runSsdOn (serve : Serve ω k V' R') (fuel : ℕ) (seq : Sequence) (t : τ) (w : ω)
    (metrics : RunMetrics) (c : σ) : Option (SsdState τ ω k V' R' × σ) :=
  (ssdStartOn cfg target l serve seq t w metrics c).bind
    (Loop.run (fun s => s.1.unfinished maxNewTokens) (ssdStepOn cfg target l maxNewTokens serve)
      fuel)

end Loops

/-! ## In step with the loops without callbacks -/

section Refinement

variable {cfg : SSDConfig} {target : DecodeModelAdapter τ R V} {genArOn : GenerateArOn τ σ}
  {l : Listener σ} {maxNewTokens : ℤ} {seq : Sequence} {t : τ} {metrics : RunMetrics} {c : σ}

/-- The same variables; the callbacks since the loop was entered on `seq` with the caller in state
`c` are those of the tokens that the sequence has gained. -/
structure Streams (l : Listener σ) (seq : Sequence) (c : σ) (s s' : Decoding τ) (c' : σ) : Prop
    where
  vars : s' = s
  called : ∃ tokens, s.seq.completionTokenIds = seq.completionTokenIds ++ tokens ∧
    c' = l.calls tokens c

theorem Streams.append {s s' u : Decoding τ} {c' : σ} (h : Streams l seq c s s' c')
    (tokens : List Token)
    (hu : u.seq.completionTokenIds = s.seq.completionTokenIds ++ tokens) :
    Streams l seq c u u (l.calls tokens c') := by
  obtain ⟨past, hpast, rfl⟩ := h.called
  refine ⟨rfl, past ++ tokens, ?_, (l.calls_append past tokens c).symm⟩
  rw [hu, hpast, List.append_assoc]

theorem verifyRoundOn_eq (spec : List Token) (cacheHit : Bool) (s : Decoding τ) (c : σ) :
    let r := verifyRound cfg target spec cacheHit s
    verifyRoundOn cfg target l spec cacheHit (s, c) =
      (r.1, r.2, l.calls (spec.take r.1 ++ [r.2.token]) c) := by
  intro r
  unfold verifyRoundOn
  simp only [Listener.foldl_emit, ← foldl_appendToken]
  rw [l.calls_append]
  rfl

theorem arStartOn_rel : Option.Rel (fun s p => Streams l seq c s p.1 p.2)
    (arStart cfg target seq t metrics) (arStartOn cfg target l seq t metrics c) := by
  unfold arStart arStartOn
  cases prefillFirst cfg target t seq.promptTokenIds with
  | none => exact .none
  | some p => exact .some ⟨rfl, [p.1], rfl, rfl⟩

theorem specStartOn_rel : Option.Rel (fun s p => Streams l seq c s p.1 p.2)
    (specStart cfg target seq t metrics) (specStartOn cfg target l seq t metrics c) := by
  unfold specStart specStartOn
  cases prefillFirst cfg target t seq.promptTokenIds with
  | none => exact .none
  | some p => exact .some ⟨rfl, [p.1], rfl, rfl⟩

theorem runArOn_rel (hback : CallsBack target genArOn l.decodeTokensToStr) (fuel : ℕ) :
    Option.Rel (fun s p => Streams l seq c s p.1 p.2)
      (runAr cfg target maxNewTokens fuel seq t metrics)
      (runArOn cfg target genArOn l maxNewTokens fuel seq t metrics c) := by
  unfold runAr runArOn
  cases hgen : target.generateAr with
  | some genAr =>
    simp only [hback genAr hgen]
    cases genAr t seq.promptTokenIds maxNewTokens with
    | none => exact .none
    | some r =>
      refine .some ⟨rfl, r.1, ?_, rfl⟩
      show (r.1.foldl Sequence.appendToken seq).completionTokenIds = _
      rw [foldl_appendToken]
      rfl
  | none =>
    refine Loop.rel_bind arStartOn_rel fun s p h => ?_
    refine Loop.run_rel (fun s p h => by rw [h.vars]) (fun s p h _ => ?_) fuel h
    obtain ⟨s', c'⟩ := p
    obtain rfl := h.vars
    exact .some (h.append [_] rfl)

theorem runSdOn_rel (draft : DraftModel R' V') (fuel : ℕ) :
    Option.Rel (fun s p => Streams l seq c s.toDecoding p.1 p.2)
      (runSd cfg target (fun (_ : Unit) tokens k => (draft tokens k).map fun r => (r.1, ()))
        maxNewTokens fuel seq t () metrics)
      (runSdOn cfg target l maxNewTokens draft fuel seq t metrics c) := by
  unfold runSd runSdOn sdStart
  refine Loop.rel_bind (r := fun s p => Streams l seq c s.toDecoding p.1 p.2)
    (Loop.rel_map_left specStartOn_rel fun _ _ h => h) fun s p h => ?_
  refine Loop.run_rel (fun s p h => by rw [h.vars]; rfl) (fun s p h _ => ?_) fuel h
  obtain ⟨s', c'⟩ := p
  obtain rfl := h.vars
  unfold sdStep
  simp only
  cases draft s.seq.tokenIds cfg.speculateK with
  | none => exact .none
  | some r =>
    simp only [Option.map_some, verifyRoundOn_eq]
    exact .some (h.append _ (congrArg Sequence.completionTokenIds (verifyRound_seq ..)))

/-- The worker and the response in hand are the same, too. -/
structure StreamsSsd (l : Listener σ) (seq : Sequence) (c : σ) (s s' : SsdState τ ω k V' R')
    (c' : σ) : Prop extends Streams l seq c s.toDecoding s'.toDecoding c' where
  worker : s'.worker = s.worker
  draftResp : s'.draftResp = s.draftResp

theorem ssdStartOn_rel (serve : Serve ω k V' R') (w : ω) :
    Option.Rel (fun s p => StreamsSsd l seq c s p.1 p.2)
      (ssdStart cfg target serve seq t w metrics)
      (ssdStartOn cfg target l serve seq t w metrics c) := by
  refine Loop.rel_bind specStartOn_rel fun s p h => ?_
  rw [h.vars]
  cases serve w (draftRequest s.seq.seqId 0 s.token) with
  | none => exact .none
  | some a => exact .some ⟨⟨rfl, h.called⟩, rfl, rfl⟩

theorem ssdStepOn_rel {serve : Serve ω k V' R'} {s : SsdState τ ω k V' R'}
    {p : SsdState τ ω k V' R' × σ} (h : StreamsSsd l seq c s p.1 p.2) :
    Option.Rel (fun s p => StreamsSsd l seq c s p.1 p.2) (ssdStep cfg target serve maxNewTokens s)
      (ssdStepOn cfg target l maxNewTokens serve p) := by
  obtain ⟨⟨s', worker, draftResp⟩, c'⟩ := p
  obtain ⟨h, rfl, rfl⟩ := h
  obtain rfl := h.vars
  have hround := h.append _ (congrArg Sequence.completionTokenIds (verifyRound_seq cfg target
    (List.ofFn (s.draftResp.specTokens 0)) (s.draftResp.cacheHit 0) s.toDecoding))
  unfold ssdStep ssdStepOn
  simp only [verifyRoundOn_eq]
  split_ifs
  · cases serve s.worker _ with
    | none => exact .none
    | some a => exact .some ⟨hround, rfl, rfl⟩
  · exact .some ⟨hround, rfl, rfl⟩

theorem runSsdOn_rel (serve : Serve ω k V' R') (fuel : ℕ) (w : ω) :
    Option.Rel (fun s p => StreamsSsd l seq c s p.1 p.2)
      (runSsd cfg target serve maxNewTokens fuel seq t w metrics)
      (runSsdOn cfg target l maxNewTokens serve fuel seq t w metrics c) := by
  refine Loop.rel_bind (ssdStartOn_rel serve w) fun s p h => ?_
  refine Loop.run_rel (fun s p h => ?_) (fun s p h _ => ssdStepOn_rel h) fuel h
  show s.toDecoding.unfinished maxNewTokens = p.1.toDecoding.unfinished maxNewTokens
  rw [h.vars]

end Refinement

/-! ## Calls of `generate` -/

namespace LLMEngine

variable [LinearOrder R'] [Zero R']

section Generate

variable (cfg : SSDConfig) (target : DecodeModelAdapter τ R V) (genArOn : GenerateArOn τ σ)
  (draft : DraftModel R' V') (sampling : SamplingParams) (l : Listener σ)

def runModeOn (w : Option (DraftWorker cfg.speculateK V' R')) (seq : Sequence) (t : τ)
    (metrics : RunMetrics) (c : σ) :
    Option ((Decoding τ × Option (DraftWorker cfg.speculateK V' R')) × σ) :=
  let maxNewTokens := sampling.maxNewTokens
  match cfg.mode with
  | .ar =>
    (runArOn cfg target genArOn l maxNewTokens maxNewTokens.toNat seq t metrics c).map fun s =>
      ((s.1, w), s.2)
  | .sd =>
    (runSdOn cfg target l maxNewTokens draft maxNewTokens.toNat seq t metrics c).map fun s =>
      ((s.1, w), s.2)
  | .ssd | .instanceSsd =>
    w.bind fun w =>
      (runSsdOn cfg target l maxNewTokens (DraftWorker.handle cfg draft) maxNewTokens.toNat seq t w
        metrics c).map fun s => ((s.1.toDecoding, some s.1.worker), s.2)

def servePromptOn (g : Generation τ cfg.speculateK V' R' × σ) (prompt : List Token) :
    Option (Generation τ cfg.speculateK V' R' × σ) :=
  (admitPrompt cfg g.1.engine prompt).bind fun a =>
    (runModeOn cfg target genArOn draft sampling l a.1.draftWorker (a.1.scheduler.seqs a.2)
      a.1.target g.1.metrics g.2).map fun s =>
        ({ engine :=
            { scheduler := a.1.scheduler.setSeq a.2 s.1.1.seq
              target := s.1.1.target
              draftWorker := s.1.2 }
           outputs := g.1.outputs ++ [s.1.1.seq.completionTokenIds]
           metrics := s.1.1.metrics }, s.2)

def generateLoopOn : List (List Token) → Generation τ cfg.speculateK V' R' × σ →
    Option (Generation τ cfg.speculateK V' R' × σ)
  | [], g => some g
  | prompt :: prompts, g =>
    (servePromptOn cfg target genArOn draft sampling l g prompt).bind (generateLoopOn prompts)

/-- `generate` with an `on_token` argument, called by a caller in state `c`. -/
def generateOn (e : LLMEngine τ cfg.speculateK V' R') (prompts : List (List Token)) (c : σ) :
    Option (Generation τ cfg.speculateK V' R' × σ) :=
  generateLoopOn cfg target genArOn draft sampling l prompts ({ engine := e }, c)

/-- `generate_stream`, iterated to its end. Its callback collects the token before it calls
`on_token`; the pairs are yielded after the call of `generate`. -/
def generateStream (genArOn : GenerateArOn τ (List Token × σ))
    (e : LLMEngine τ cfg.speculateK V' R') (prompt : List Token) (c : σ) :
    Option (List (Token × String) × Generation τ cfg.speculateK V' R' × σ) :=
  let cb : TokenCallback (List Token × σ) := fun tok text s =>
    (s.1 ++ [tok], match l.onToken with
      | none => s.2
      | some onToken => onToken tok text s.2)
  (generateOn cfg target genArOn draft sampling { l with onToken := some cb } e [prompt]
    ([], c)).map fun r => (r.2.1.map fun tok => (tok, l.decodeTokensToStr [tok]), r.1, r.2.2)

end Generate

variable {cfg : SSDConfig} {target : DecodeModelAdapter τ R V} {genArOn : GenerateArOn τ σ}
  {draft : DraftModel R' V'} {sampling : SamplingParams} {l : Listener σ} {c : σ}

theorem runModeOn_rel (hback : CallsBack target genArOn l.decodeTokensToStr)
    (w : Option (DraftWorker cfg.speculateK V' R')) (seq : Sequence) (t : τ)
    (metrics : RunMetrics) :
    Option.Rel (fun s p => p.1.2 = s.2 ∧ Streams l seq c s.1 p.1.1 p.2)
      (runMode cfg target draft sampling w seq t metrics)
      (runModeOn cfg target genArOn draft sampling l w seq t metrics c) := by
  have hssd : Option.Rel (fun s p => p.1.2 = s.2 ∧ Streams l seq c s.1 p.1.1 p.2)
      (w.bind fun w => (runSsd cfg target (DraftWorker.handle cfg draft) sampling.maxNewTokens
        sampling.maxNewTokens.toNat seq t w metrics).map fun s => (s.toDecoding, some s.worker))
      (w.bind fun w => (runSsdOn cfg target l sampling.maxNewTokens (DraftWorker.handle cfg draft)
        sampling.maxNewTokens.toNat seq t w metrics c).map fun s =>
          ((s.1.toDecoding, some s.1.worker), s.2)) := by
    cases w with
    | none => exact .none
    | some w =>
      exact Loop.rel_map (runSsdOn_rel _ _ w) fun s p h => ⟨congrArg some h.worker, h.toStreams⟩
  unfold runMode runModeOn
  cases cfg.mode with
  | ar => exact Loop.rel_map (runArOn_rel hback _) fun _ _ h => ⟨rfl, h⟩
  | sd => exact Loop.rel_map (runSdOn_rel draft _) fun _ _ h => ⟨rfl, h⟩
  | ssd => exact hssd
  | instanceSsd => exact hssd

/-- The step lemma: a served prompt calls back with its completion. -/
theorem servePromptOn_eq (hback : CallsBack target genArOn l.decodeTokensToStr)
    (g : Generation τ cfg.speculateK V' R') (prompt : List Token) :
    servePromptOn cfg target genArOn draft sampling l (g, l.calls g.outputs.flatten c) prompt =
      (servePrompt cfg target draft sampling g prompt).map fun g =>
        (g, l.calls g.outputs.flatten c) := by
  unfold servePromptOn servePrompt
  cases ha : admitPrompt cfg g.engine prompt with
  | none => rfl
  | some a =>
    have hnew : (a.1.scheduler.seqs a.2).completionTokenIds = [] :=
      (admission_of_admitPrompt ha).seq.completion
    rw [Option.bind_some, Option.bind_some, Option.map_map]
    refine Loop.map_eq_of_rel (runModeOn_rel hback _ _ _ _) fun s p h => ?_
    obtain ⟨⟨s', w⟩, c'⟩ := p
    obtain ⟨rfl, h⟩ := h
    obtain rfl := h.vars
    obtain ⟨tokens, htokens, hc⟩ := h.called
    rw [hnew, List.nil_append] at htokens
    refine Prod.ext rfl ?_
    show c' = l.calls (g.outputs ++ [s.1.seq.completionTokenIds]).flatten c
    rw [List.flatten_concat, l.calls_append, htokens]
    exact hc

theorem generateLoopOn_eq (hback : CallsBack target genArOn l.decodeTokensToStr)
    (prompts : List (List Token)) (g : Generation τ cfg.speculateK V' R') :
    generateLoopOn cfg target genArOn draft sampling l prompts (g, l.calls g.outputs.flatten c) =
      (generateLoop cfg target draft sampling prompts g).map fun g =>
        (g, l.calls g.outputs.flatten c) := by
  induction prompts generalizing g with
  | nil => rfl
  | cons prompt prompts ih =>
    unfold generateLoopOn generateLoop
    rw [servePromptOn_eq hback]
    cases servePrompt cfg target draft sampling g prompt with
    | none => rfl
    | some g => exact ih g

theorem generateOn_callbacks (hback : CallsBack target genArOn l.decodeTokensToStr)
    (e : LLMEngine τ cfg.speculateK V' R') (prompts : List (List Token)) (c : σ) :
    generateOn cfg target genArOn draft sampling l e prompts c =
      (generate cfg target draft sampling e prompts).map fun g =>
        (g, l.calls g.outputs.flatten c) :=
  generateLoopOn_eq hback prompts { engine := e }

/-- **Streaming.** For every mode, target, draft, engine and list of prompts: a call with a callback
does what the call without it does, failures included, and the callback is made once for each token
of the outputs, in order, with the text of that token. Where the target has a `generate_ar` of its
own, this one is assumed to call back so. -/
theorem generateOn_eq (cfg : SSDConfig) (target : DecodeModelAdapter τ R V)
    (genArOn : GenerateArOn τ σ) (draft : DraftModel R' V') (sampling : SamplingParams)
    (l : Listener σ) (hback : CallsBack target genArOn l.decodeTokensToStr)
    (e : LLMEngine τ cfg.speculateK V' R') (prompts : List (List Token)) (c : σ) :
    generateOn cfg target genArOn draft sampling l e prompts c =
      (generate cfg target draft sampling e prompts).map fun g =>
        (g, g.outputs.flatten.foldl (fun c tok => l.decodeCallback tok c) c) :=
  generateOn_callbacks hback e prompts c

theorem generateOn_eq_textEngine :
    ∃ (e : LLMEngine Unit 4 3 ℚ) (g : Generation Unit 4 3 ℚ), init {} () = some e ∧
      generateOn {} (textEngine.adapter : DecodeModelAdapter Unit ℚ 3)
        (textEngine.generateArOn fun _ => "") (fun _ _ => none) { maxNewTokens := 8 }
        { decodeTokensToStr := fun _ => "", onToken := some fun tok _ c => c ++ [tok] } e
        [[1, 2], [3]] [] = some (g, [97, 98, 1, 97, 98]) := by
  have he : (init {} () : Option (LLMEngine Unit 4 3 ℚ)) =
      some { scheduler := .init {}, target := (), draftWorker := none } := rfl
  obtain ⟨g, hg, hout, _⟩ := generateLoop_gemma4 (R := ℚ) (V := 3) {} textEngine
    (fun _ _ => none) { maxNewTokens := 8 } rfl
    ({ engine := { scheduler := .init {}, target := (), draftWorker := none } } :
      Generation Unit 4 3 ℚ) (by decide) [[1, 2], [3]]
  have hcall := generateOn_eq {} (textEngine.adapter : DecodeModelAdapter Unit ℚ 3)
    (textEngine.generateArOn fun _ => "") (fun _ _ => none) { maxNewTokens := 8 }
    { decodeTokensToStr := fun _ => "", onToken := some fun tok _ (c : List Token) => c ++ [tok] }
    (textEngine.callsBack _)
    ({ scheduler := .init {}, target := (), draftWorker := none } : LLMEngine Unit 4 3 ℚ)
    [[1, 2], [3]] []
  refine ⟨_, g, he, hcall.trans ?_⟩
  unfold generate
  rw [hg, Option.map_some, hout]
  rfl

theorem calls_collecting (tokens ts : List Token) (c : σ) :
    Listener.calls { l with onToken := some fun tok text (s : List Token × σ) =>
      (s.1 ++ [tok], match l.onToken with
        | none => s.2
        | some onToken => onToken tok text s.2) } tokens (ts, c) =
      (ts ++ tokens, l.calls tokens c) := by
  induction tokens generalizing ts c with
  | nil => simp
  | cons tok tokens ih =>
    unfold Listener.calls at ih ⊢
    rw [List.foldl_cons, List.foldl_cons]
    refine (ih (ts ++ [tok]) (l.decodeCallback tok c)).trans ?_
    rw [List.append_assoc, List.singleton_append]

theorem generateStream_callbacks {genArOn : GenerateArOn τ (List Token × σ)}
    (hback : CallsBack target genArOn l.decodeTokensToStr) (e : LLMEngine τ cfg.speculateK V' R')
    (prompt : List Token) (c : σ) :
    generateStream cfg target draft sampling l genArOn e prompt c =
      (generate cfg target draft sampling e [prompt]).map fun g =>
        (g.outputs.flatten.map fun tok => (tok, l.decodeTokensToStr [tok]), g,
          l.calls g.outputs.flatten c) := by
  unfold generateStream
  simp only
  rw [generateOn_callbacks hback, Option.map_map]
  congr 1
  funext g
  have hcalls := calls_collecting (l := l) g.outputs.flatten [] c
  simp only [Function.comp_apply]
  rw [hcalls, List.nil_append]

end LLMEngine

/-! ## The public interface -/

namespace LLM

variable [LinearOrder R'] [Zero R']

/-- `list[list[int]] | list[str]`. -/
inductive Prompts where
  | tokens (prompts : List (List Token))
  | texts (prompts : List String)

/-- `_tokenize`. The model's own `tokenize` may be missing. -/
def tokenize (tokenizer : Option (String → List Token)) (text : String) : List Token :=
  match tokenizer with
  | some tokenize => tokenize text
  | none => (text.toList.take 128).map fun c => ((c.toNat % 64 : ℕ) : Token)

def tokenizePrompts (tokenizer : Option (String → List Token)) : Prompts → List (List Token)
  | .tokens prompts => prompts
  | .texts prompts => prompts.map (tokenize tokenizer)

variable (cfg : SSDConfig) (target : DecodeModelAdapter τ R V)
  (tokenizer : Option (String → List Token)) (draft : DraftModel R' V')
  (sampling : SamplingParams) (l : Listener σ)

/-- `LLM.generate`. -/
def generate (genArOn : GenerateArOn τ σ) (e : LLMEngine τ cfg.speculateK V' R')
    (prompts : Prompts) (c : σ) : Option (Generation τ cfg.speculateK V' R' × σ) :=
  LLMEngine.generateOn cfg target genArOn draft sampling l e (tokenizePrompts tokenizer prompts) c

/-- `LLM.generate_stream` of token ids or of a text. -/
def generateStream (genArOn : GenerateArOn τ (List Token × σ))
    (e : LLMEngine τ cfg.speculateK V' R') (prompt : List Token ⊕ String) (c : σ) :
    Option (List (Token × String) × Generation τ cfg.speculateK V' R' × σ) :=
  LLMEngine.generateStream cfg target draft sampling l genArOn e
    (prompt.elim id (tokenize tokenizer)) c

/-- **A stream is a call.** Iterating `generate_stream` over a prompt, given as token ids or as a
text, does what `generate` does for the one prompt without a callback; it yields the tokens of its
output with their texts, and calls the caller's own callback once for each of them. -/
theorem generateStream_eq (cfg : SSDConfig) (target : DecodeModelAdapter τ R V)
    (tokenizer : Option (String → List Token)) (draft : DraftModel R' V')
    (sampling : SamplingParams) (l : Listener σ) (genArOn : GenerateArOn τ (List Token × σ))
    (hback : CallsBack target genArOn l.decodeTokensToStr) (e : LLMEngine τ cfg.speculateK V' R')
    (prompt : List Token ⊕ String) (c : σ) :
    generateStream cfg target tokenizer draft sampling l genArOn e prompt c =
      (LLMEngine.generate cfg target draft sampling e
        (tokenizePrompts tokenizer (prompt.elim (fun p => .tokens [p]) fun s => .texts [s]))).map
          fun g => (g.outputs.flatten.map fun tok => (tok, l.decodeTokensToStr [tok]), g,
            g.outputs.flatten.foldl (fun c tok => l.decodeCallback tok c) c) := by
  have htok : tokenizePrompts tokenizer (prompt.elim (fun p => .tokens [p]) fun s => .texts [s]) =
      [prompt.elim id (tokenize tokenizer)] := by
    cases prompt <;> rfl
  unfold generateStream
  rw [LLMEngine.generateStream_callbacks hback, htok]
  rfl

theorem generateStream_eq_textEngine :
    ∃ (e : LLMEngine Unit 4 3 ℚ) (g : Generation Unit 4 3 ℚ),
      LLMEngine.init {} () = some e ∧
      generateStream {} (LLMEngine.textEngine.adapter : DecodeModelAdapter Unit ℚ 3) none
        (fun _ _ => none) { maxNewTokens := 8 }
        { decodeTokensToStr := fun _ => "x", onToken := some fun _ _ c => c + 1 }
        (LLMEngine.textEngine.generateArOn fun _ => "x") e (.inr "A") 0 =
          some ([(97, "x"), (98, "x")], g, 2) := by
  have he : (LLMEngine.init {} () : Option (LLMEngine Unit 4 3 ℚ)) =
      some { scheduler := .init {}, target := (), draftWorker := none } := rfl
  obtain ⟨g, hg, hout, _⟩ := LLMEngine.generateLoop_gemma4 (R := ℚ) (V := 3) {}
    LLMEngine.textEngine (fun _ _ => none) { maxNewTokens := 8 } rfl
    ({ engine := { scheduler := .init {}, target := (), draftWorker := none } } :
      Generation Unit 4 3 ℚ) (by decide) [[1]]
  have hcall := generateStream_eq {}
    (LLMEngine.textEngine.adapter : DecodeModelAdapter Unit ℚ 3) none (fun _ _ => none)
    { maxNewTokens := 8 }
    { decodeTokensToStr := fun _ => "x", onToken := some fun _ _ (c : ℕ) => c + 1 }
    (LLMEngine.textEngine.generateArOn fun _ => "x") (LLMEngine.textEngine.callsBack _)
    ({ scheduler := .init {}, target := (), draftWorker := none } : LLMEngine Unit 4 3 ℚ)
    (.inr "A") 0
  refine ⟨_, g, he, hcall.trans ?_⟩
  have hone : tokenizePrompts none (Sum.elim (fun p => .tokens [p]) (fun s => .texts [s])
      (.inr "A" : List Token ⊕ String)) = [[1]] := by decide
  rw [hone]
  unfold LLMEngine.generate
  rw [hg, Option.map_some, hout]
  rfl

end LLM

/-! ## The token panel -/

/-- The fields of `TokenStream` that do not depend on the clock. -/
structure TokenStream where
  text : String := ""
  tokenCount : ℕ := 0
  deriving DecidableEq, Repr

def TokenStream.append (s : TokenStream) (decoded : String) : TokenStream where
  text := s.text ++ decoded
  tokenCount := s.tokenCount + 1

/-- `decoded if decoded.endswith(" ") else decoded + " "`. -/
def withBlank (decoded : String) : String :=
  if decoded.toList.getLast? = some ' ' then decoded else decoded ++ " "

/-- `AlgorithmPanel.on_token`, without the redrawing. -/
def AlgorithmPanel.onToken : TokenCallback TokenStream := fun _ decoded s =>
  s.append (withBlank decoded)

theorem calls_onToken {decodeTokensToStr : List Token → String} (tokens : List Token)
    (s : TokenStream) :
    Listener.calls { decodeTokensToStr := decodeTokensToStr,
                     onToken := some AlgorithmPanel.onToken } tokens s =
      { text := (tokens.map fun tok => withBlank (decodeTokensToStr [tok])).foldl (· ++ ·) s.text
        tokenCount := s.tokenCount + tokens.length } := by
  induction tokens generalizing s with
  | nil => rfl
  | cons tok tokens ih =>
    refine (ih (AlgorithmPanel.onToken tok (decodeTokensToStr [tok]) s)).trans ?_
    rw [List.map_cons, List.foldl_cons, List.length_cons, Nat.add_comm tokens.length 1,
      ← Nat.add_assoc]
    rfl

/-- `decode_tokens_to_str` of the toy model. -/
def ToyModelAdapter.decodeTokensToStr (tokenIds : List Token) : String :=
  " ".intercalate (tokenIds.map fun tid => "t" ++ toString tid)

variable [LinearOrder R'] [Zero R']

open ToyModelAdapter (alternating)

/-- **The panel.** After a call that returns, a fresh panel shows the texts of the output tokens,
each ending in a blank, and its count is the one of the metrics and the tokens that these leave
out. -/
theorem panel_of_generateOn {cfg : SSDConfig} {target : DecodeModelAdapter τ R V}
    {genArOn : GenerateArOn τ TokenStream} {draft : DraftModel R' V'} {sampling : SamplingParams}
    {e : LLMEngine τ cfg.speculateK V' R'} {decodeTokensToStr : List Token → String}
    {prompts : List (List Token)} {r : Generation τ cfg.speculateK V' R' × TokenStream}
    (hback : CallsBack target genArOn decodeTokensToStr)
    (h : LLMEngine.generateOn cfg target genArOn draft sampling
      { decodeTokensToStr := decodeTokensToStr, onToken := some AlgorithmPanel.onToken } e prompts
      {} = some r) :
    r.2.text = String.join
        (r.1.outputs.flatten.map fun tok => withBlank (decodeTokensToStr [tok])) ∧
      r.2.tokenCount = (r.1.outputs.map List.length).sum ∧
      r.2.tokenCount =
        r.1.metrics.totalTokens + prompts.length * LLMEngine.unrecorded cfg target := by
  rw [LLMEngine.generateOn_callbacks hback] at h
  obtain ⟨g, hg, rfl⟩ := Option.map_eq_some_iff.mp h
  rw [calls_onToken]
  have hcount : 0 + g.outputs.flatten.length = (g.outputs.map List.length).sum := by
    rw [Nat.zero_add, List.length_flatten]
  exact ⟨rfl, hcount, hcount.trans (LLMEngine.generate_recorded hg).symm⟩

theorem panel_of_toy :
    ∃ e r, LLMEngine.init { numBlocks := 4 } () = some e ∧
      LLMEngine.generateOn { numBlocks := 4 } alternating.adapter (fun _ _ _ _ _ => none)
        alternating.draftSpeculate { maxNewTokens := 3 }
        { decodeTokensToStr := ToyModelAdapter.decodeTokensToStr
          onToken := some AlgorithmPanel.onToken } e [[1]] {} = some r ∧
      r.2.tokenCount = r.1.metrics.totalTokens + 1 := by
  have hg : LLMEngine.generateOn { numBlocks := 4 } alternating.adapter (fun _ _ _ _ _ => none)
      alternating.draftSpeculate { maxNewTokens := 3 }
      { decodeTokensToStr := ToyModelAdapter.decodeTokensToStr
        onToken := some AlgorithmPanel.onToken }
      { scheduler := .init { numBlocks := 4 }, target := (), draftWorker := none } [[1]] {} =
        some _ := rfl
  exact ⟨_, _, rfl, hg, (panel_of_generateOn (callsBack_of_none rfl _ _) hg).2.2⟩

end SsdTpu
