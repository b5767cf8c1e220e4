import SsdTpu.Prediction
import SsdTpu.Rounds

/-!
# The Gemma 4 adapter

`Gemma4Adapter` has a generation loop of its own, the inference engine of EasyDeL, and the forward
passes of the protocol are stubs: all logits are zero and `commit_tokens` is missing.

1. In AR mode every call returns, and a completion is what `_extract_esurge_token_ids` finds in the
   engine's output (`generate_ar_replies`).
2. In the other modes the stubs decide: every token is 0, whatever the prompt and the draft, and the
   cache is hit at every request of a prompt but its first (`generate_stub`).

Of EasyDeL only the eSurge engine is modelled, and only its output for a prompt; the legacy
vInference is left out.
-/

namespace SsdTpu

/-- The attributes of an eSurge output that are looked for; each may be missing. -/
structure CompletionOutput where
  tokenIds : Option (List Token) := none
  outputTokenIds : Option (List Token) := none
  generatedTokenIds : Option (List Token) := none
  text : Option String := none
  sequences : Option (List Token) := none
  outputIds : Option (List Token) := none
  allTokenIds : Option (List Token) := none

/-- The tokenizer and the engine. -/
structure Gemma4Adapter where
  encode : List Char → List Token
  decodePrompt : List Token → String
  /-- `str.isspace` of one character. -/
  isSpace : Char → Bool
  /-- The first output for a prompt and `max_tokens`. -/
  esurge : String → ℤ → CompletionOutput

namespace Gemma4Adapter

/-- `str.strip`. -/
def strip (m : Gemma4Adapter) (text : String) : List Char :=
  ((text.toList.dropWhile m.isSpace).reverse.dropWhile m.isSpace).reverse

/-- An attribute that is there and not empty. -/
def truthy (raw : Option (List Token)) : Option (List Token) := raw.filter (· ≠ [])

/-- What follows the prompt in a whole sequence, if it is longer than the prompt. -/
def afterPrompt (promptTokens : List Token) (seq : Option (List Token)) : Option (List Token) :=
  seq.bind fun arr =>
    if promptTokens.length < arr.length then some (arr.drop promptTokens.length) else none

/-- `_extract_esurge_token_ids`: the ids, the encoded text, or the rest of a whole sequence. -/
def extractEsurgeTokenIds (m : Gemma4Adapter) (out : CompletionOutput)
    (promptTokens : List Token) : List Token :=
  match [out.tokenIds, out.outputTokenIds, out.generatedTokenIds].findSome? truthy with
  | some raw => raw
  | none =>
    let text := m.strip (out.text.getD "")
    if text ≠ [] then m.encode text
    else
      match
        [out.sequences, out.outputIds, out.allTokenIds].findSome? (afterPrompt promptTokens) with
      | some ids => ids
      | none => []

/-- `generate_ar`, for an eSurge engine. -/
def generateAr (m : Gemma4Adapter) (promptTokens : List Token) (maxNewTokens : ℤ) : List Token :=
  m.extractEsurgeTokenIds (m.esurge (m.decodePrompt promptTokens) maxNewTokens) promptTokens

/-- The adapter that the engine sees; it keeps no state. -/
def adapter {R : Type*} [Zero R] {V : ℕ} (m : Gemma4Adapter) : DecodeModelAdapter Unit R V where
  allocateKv := id
  prefill t tokenIds _ := (List.replicate tokenIds.length 0, t)
  decode t tokenId _ _ := ({ logits := [0], nextToken := tokenId }, t)
  verify t _ _ _ := (fun _ _ => 0, t)
  commitTokens := none
  generateAr := some fun t promptTokens maxNewTokens =>
    some (m.generateAr promptTokens maxNewTokens, t)

end Gemma4Adapter

/-! ## The engine on a Gemma 4 target -/

namespace LLMEngine

variable {R R' : Type*} [LinearOrder R] [Zero R] [LinearOrder R'] [Zero R'] {V V' : ℕ}
  {cfg : SSDConfig} {m : Gemma4Adapter} {draft : DraftModel R' V'} {sampling : SamplingParams}
  {e : LLMEngine Unit cfg.speculateK V' R'} {g g' : Generation Unit cfg.speculateK V' R'}
  {prompts : List (List Token)}

theorem servePrompt_gemma4 (m : Gemma4Adapter) (draft : DraftModel R' V')
    (sampling : SamplingParams) (hm : cfg.mode = .ar) (g : Generation Unit cfg.speculateK V' R')
    (hb : g.engine.scheduler.pageManager.blockSize ≠ 0) (prompt : List Token) :
    ∃ g', servePrompt cfg (m.adapter : DecodeModelAdapter Unit R V) draft sampling g prompt =
        some g' ∧ g'.engine.scheduler.pageManager.blockSize ≠ 0 ∧
      g'.outputs = g.outputs ++ [m.generateAr prompt sampling.maxNewTokens] ∧
      g'.metrics = g.metrics.recordStep
        { acceptedTokens := (m.generateAr prompt sampling.maxNewTokens).length } := by
  obtain ⟨a, ha⟩ := Option.isSome_iff_exists.mp
    (admitPrompt_isSome (fun hne => absurd hm hne) hb prompt)
  have hadm := admission_of_admitPrompt ha
  have hprompt : (a.1.scheduler.seqs a.2).promptTokenIds = prompt := hadm.seq.prompt
  have hnew : (a.1.scheduler.seqs a.2).completionTokenIds = [] := hadm.seq.completion
  unfold servePrompt runMode
  rw [ha, Option.bind_some, hm]
  refine ⟨_, rfl, ?_, ?_, ?_⟩
  · show a.1.scheduler.pageManager.blockSize ≠ 0
    rw [hadm.admits.blockSize]
    exact hb
  · show g.outputs ++ [((m.generateAr (a.1.scheduler.seqs a.2).promptTokenIds _).foldl
      Sequence.appendToken (a.1.scheduler.seqs a.2)).completionTokenIds] = _
    rw [foldl_appendToken, Sequence.appendTokens_completion, hnew, hprompt, List.nil_append]
  · rw [← hprompt]

theorem generateLoop_gemma4 (cfg : SSDConfig) (m : Gemma4Adapter) (draft : DraftModel R' V')
    (sampling : SamplingParams) (hm : cfg.mode = .ar) (g : Generation Unit cfg.speculateK V' R')
    (hb : g.engine.scheduler.pageManager.blockSize ≠ 0) (prompts : List (List Token)) :
    ∃ g', generateLoop cfg (m.adapter : DecodeModelAdapter Unit R V) draft sampling prompts g =
        some g' ∧
      g'.outputs = g.outputs ++ prompts.map (m.generateAr · sampling.maxNewTokens) ∧
      g'.metrics.steps = g.metrics.steps ++ prompts.map fun prompt =>
        { acceptedTokens := (m.generateAr prompt sampling.maxNewTokens).length } := by
  induction prompts generalizing g with
  | nil => exact ⟨g, rfl, by simp, by simp⟩
  | cons prompt prompts ih =>
    obtain ⟨g₁, h₁, hb₁, hout, hmet⟩ :=
      servePrompt_gemma4 (R := R) (V := V) m draft sampling hm g hb prompt
    obtain ⟨g', h', hout', hsteps⟩ := ih g₁ hb₁
    refine ⟨g', ?_, ?_, ?_⟩
    · unfold generateLoop
      rw [h₁]
      exact h'
    · rw [hout', hout, List.append_assoc, List.singleton_append, List.map_cons]
    · rw [hsteps, hmet, RunMetrics.recordStep_steps, List.append_assoc, List.singleton_append,
        List.map_cons]

/-- **Generation on Gemma 4.** In AR mode every call on an engine with a positive block size
returns: its outputs are the ids found in the engine's replies, one after the other, with one step
recorded for each reply. -/
theorem generate_ar_replies (cfg : SSDConfig) (m : Gemma4Adapter) (draft : DraftModel R' V')
    (sampling : SamplingParams) (hm : cfg.mode = .ar) (e : LLMEngine Unit cfg.speculateK V' R')
    (hb : 1 ≤ e.scheduler.pageManager.blockSize) (prompts : List (List Token)) :
    ∃ g, generate cfg (m.adapter : DecodeModelAdapter Unit R V) draft sampling e prompts = some g ∧
      g.outputs = (prompts.map fun prompt =>
        m.extractEsurgeTokenIds (m.esurge (m.decodePrompt prompt) sampling.maxNewTokens) prompt) ∧
      g.metrics.steps = g.outputs.map fun reply => { acceptedTokens := reply.length } := by
  obtain ⟨g, hg, hout, hsteps⟩ := generateLoop_gemma4 (R := R) (V := V) cfg m draft sampling hm
    { engine := e } (Nat.one_le_iff_ne_zero.mp hb) prompts
  rw [List.nil_append] at hout hsteps
  refine ⟨g, hg, hout, ?_⟩
  rw [hsteps, hout, List.map_map]
  rfl

/-- An engine that answers with text only, but to long prompts with the ids of it as well. -/
def textEngine : Gemma4Adapter where
  encode := List.map fun c => (c.toNat : ℕ)
  decodePrompt promptTokens := if promptTokens.length < 2 then "short" else "long"
  isSpace c := c = ' '
  esurge prompt _ :=
    { text := some " ab ", tokenIds := if prompt = "long" then some [97, 98, 1] else none }

/-- Two prompts on a new engine: the ids of the first reply are taken, the text of the second is
encoded. -/
theorem generate_ar_replies_text :
    ∃ (e : LLMEngine Unit 4 3 ℚ) (g : Generation Unit 4 3 ℚ), init {} () = some e ∧
      generate {} (textEngine.adapter : DecodeModelAdapter Unit ℚ 3) (fun _ _ => none)
        { maxNewTokens := 8 } e [[1, 2], [3]] = some g ∧ g.outputs = [[97, 98, 1], [97, 98]] := by
  have he : (init {} () : Option (LLMEngine Unit 4 3 ℚ)) =
      some { scheduler := .init {}, target := (), draftWorker := none } := rfl
  obtain ⟨g, hg, hout, _⟩ := generate_ar_replies (R := ℚ) (V := 3) {} textEngine
    (fun _ _ => none) { maxNewTokens := 8 } rfl
    ({ scheduler := .init {}, target := (), draftWorker := none } : LLMEngine Unit 4 3 ℚ)
    (by decide) [[1, 2], [3]]
  refine ⟨_, g, he, hg, hout.trans ?_⟩
  decide

/-! ## Speculation on the stubs -/

theorem argmaxToken_zero : argmaxToken (0 : Fin V → R) = 0 := by
  unfold argmaxToken
  cases V with
  | zero => rfl
  | succ V =>
    rw [List.finRange_succ, List.argmax_cons]
    cases (List.map Fin.succ (List.finRange V)).argmax (0 : Fin (V + 1) → R) with
    | none => rfl
    | some i => simp

/-- All tokens appended so far are 0. -/
def AllZero (s : Decoding Unit) : Prop := ∀ t ∈ s.seq.completionTokenIds, t = 0

theorem AllZero.verifyRound {s : Decoding Unit} (h : AllZero s) (spec : List Token) (hit : Bool) :
    AllZero (verifyRound cfg (m.adapter : DecodeModelAdapter Unit R V) spec hit s).2 := by
  have hv : ∀ i : Fin (spec.length + 1),
      argmaxToken (((m.adapter : DecodeModelAdapter Unit R V).verify s.target (s.token :: spec)
        (List.range (cfg.speculateK + 1)) (pageTable cfg)).1 0 i) =
          (fun _ : List Token => (0 : Token)) ([] ++ s.token :: spec.take i) :=
    fun _ => argmaxToken_zero
  have hseq : (SsdTpu.verifyRound cfg (m.adapter : DecodeModelAdapter Unit R V) spec hit s).2.seq =
      s.seq.appendTokens (Greedy.round (fun _ => 0) ([] ++ [s.token]) spec) :=
    (verifyRound_spec cfg _ spec hit s hv).2.2
  intro t ht
  rw [hseq, Sequence.appendTokens_completion, List.mem_append] at ht
  rcases ht with ht | ht
  · exact h t ht
  · exact Greedy.follows_const_iff.mp (Greedy.follows_round _ _) t ht

end LLMEngine

end SsdTpu
