import SsdTpu.Agreement
import SsdTpu.Branches
import SsdTpu.Proposals

/-!
# What the cache predicts

`_rebuild_cache` chooses its recovery tokens with `top_f_recovery_tokens`, but from a row of zeros
in place of the draft's logits: under every accepted length it stores the first tokens of the
vocabulary. They are a prediction where the draft model happens to rank those tokens highest.

With the same toy model as target and draft every round accepts its whole draft, and a request after
the first one hits exactly when its recovery token is among the first `fan_out_list[k]`
(`prediction_iff`).
-/

namespace SsdTpu

open DraftWorker (propose IsBranch handle Run)

namespace DraftWorker

variable {R : Type*} [LinearOrder R] [Zero R] {V : ℕ} {cfg : SSDConfig} {draft : DraftModel R V}
  {w w' : DraftWorker cfg.speculateK V R}

/-- The recovery tokens under which the cache has entries for the accepted length `a`. -/
def storedFor {K : ℕ} (w : DraftWorker K V R) (a : ℕ) : Set Token :=
  {tok | ∃ i, w.cache.valid i = true ∧ w.cache.keys i 1 = a ∧ w.cache.keys i 2 = tok}

/-- For each accepted length the stored tokens are those with the largest logits after the recovery
token and the accepted part of the draft. `after` gives the draft model's logits after a context. -/
def Predicts (cfg : SSDConfig) (after : List Token → Fin V → R) (recovery : Token)
    (resp : DraftResponse 1 cfg.speculateK V R) (w' : DraftWorker cfg.speculateK V R) : Prop :=
  ∀ a fan, cfg.fanOutList[a]? = some fan → ∃ top,
    topFRecoveryTokens (after (recovery :: (List.ofFn (resp.specTokens 0)).take a)) fan = some top ∧
      w'.storedFor a = {tok | tok ∈ top}

/-- After the recovery token and each part of the draft for it, the draft model ranks the first
tokens of the vocabulary highest. -/
def RanksFirstTokens (cfg : SSDConfig) (draft : DraftModel R V) (after : List Token → Fin V → R)
    (recovery : Token) : Prop :=
  ∀ spec, (draft [recovery] cfg.speculateK).map Prod.fst = some spec →
    ∀ a fan, cfg.fanOutList[a]? = some fan → ∃ top,
      topFRecoveryTokens (after (recovery :: spec.take a)) fan = some top ∧
        ∀ tok, tok ∈ top ↔ 0 ≤ tok ∧ tok < fan

/-! ## The stored tokens -/

theorem isBranch_natCast {a : ℕ} {tok : ℤ} :
    IsBranch cfg a tok ↔ ∃ fan : ℕ, (cfg.fanOutList.take (cfg.speculateK + 1))[a]? = some fan ∧
      0 ≤ tok ∧ tok < fan := by
  unfold IsBranch
  constructor
  · rintro ⟨i, fan, f, hi, hf, ha, rfl⟩
    obtain rfl : a = i := by exact_mod_cast ha
    exact ⟨fan, hi, by omega, by omega⟩
  · rintro ⟨fan, hfan, h0, hlt⟩
    exact ⟨a, fan, tok.toNat, hfan, by omega, rfl, by omega⟩

theorem mem_storedFor {B : ℕ} [NeZero B] {req : DraftRequest B}
    {resp : DraftResponse B cfg.speculateK V R} (hw : Run cfg draft w)
    (h : handle cfg draft w req = some (resp, w')) {a : ℕ} {tok : Token} :
    tok ∈ w'.storedFor a ↔ IsBranch cfg a tok := by
  rw [isBranch_iff]
  constructor
  · rintro ⟨i, hi, h1, h2⟩
    obtain ⟨b, hb, hkey⟩ := (exists_slot_iff hw h).mp ⟨i, hi, rfl⟩
    obtain ⟨_, hb1, hb2⟩ := eq_branchKey.mp hkey
    exact ⟨b, hb, h1.symm.trans hb1, h2.symm.trans hb2⟩
  · rintro ⟨b, hb, h1, h2⟩
    obtain ⟨i, hi, hkey⟩ := (exists_slot_iff hw h).mpr ⟨b, hb, rfl⟩
    obtain ⟨_, hb1, hb2⟩ := eq_branchKey.mp hkey
    exact ⟨i, hi, hb1.trans h1.symm, hb2.trans h2.symm⟩

/-- In SSD mode every entry is the draft model's answer to the recovery token of its key. -/
theorem Run.entry_draft (hm : cfg.mode = .ssd) (hw : Run cfg draft w) {key : Key}
    {tokens : Draft cfg.speculateK} (h : w.cache.Entry key tokens) (ctx : List Token) :
    propose cfg draft ctx (key 2) = some tokens := by
  induction hw with
  | start hstart =>
    obtain ⟨mqLen, _, rfl⟩ := Option.map_eq_some_iff.mp hstart
    exact absurd h (SpecCache.not_entry_create tokens)
  | setContext _ _ ih => exact ih h
  | handle hw hr =>
    obtain ⟨rows, hrows, _, _, hat⟩ := rows_of_handle hw hr
    obtain ⟨i, row, hrow, rfl, rfl⟩ := SpecCache.entry_iff_rowAt.mp h
    have htok := hrows.tokens row (List.mem_of_getElem? ((hat i).symm.trans hrow))
    rw [propose_of_draft (by rw [hm]; simp)] at htok ⊢
    exact htok

theorem Run.specTokens_eq (hm : cfg.mode = .ssd) (hw : Run cfg draft w) {req : DraftRequest 1}
    {resp : DraftResponse 1 cfg.speculateK V R}
    (h : DraftWorker.handle cfg draft w req = some (resp, w')) :
    (draft [req.cacheKeys 0 2] cfg.speculateK).map Prod.fst =
      some (List.ofFn (resp.specTokens 0)) := by
  have hspec : propose cfg draft w.contextTokens (req.cacheKeys 0 2) =
      some (resp.specTokens 0) := by
    obtain ⟨_, _, ⟨hhit, _, hresp⟩ | ⟨_, _, hprop⟩⟩ := handle_cases h
    · rw [hresp]
      exact hw.entry_draft hm (SpecCache.entry_of_hit hhit) _
    · exact hprop
  exact (LLMEngine.spec_of_propose hspec).1 (.inl (by rw [hm]; decide))

/-- The first half: what one request leaves in the cache. -/
theorem predicts_iff_ranksFirstTokens (hm : cfg.mode = .ssd)
    (hlen : cfg.fanOutList.length = cfg.speculateK + 1) (after : List Token → Fin V → R)
    (hw : Run cfg draft w) {req : DraftRequest 1} {resp : DraftResponse 1 cfg.speculateK V R}
    (h : handle cfg draft w req = some (resp, w')) :
    Predicts cfg after (req.cacheKeys 0 2) resp w' ↔
      RanksFirstTokens cfg draft after (req.cacheKeys 0 2) := by
  have hspec := hw.specTokens_eq hm h
  have hstored : ∀ {a fan : ℕ}, cfg.fanOutList[a]? = some fan → ∀ tok : ℤ,
      tok ∈ w'.storedFor a ↔ 0 ≤ tok ∧ tok < fan := by
    intro a fan hfan tok
    rw [mem_storedFor hw h, isBranch_natCast, List.take_of_length_le hlen.le]
    constructor
    · rintro ⟨fan', hfan', htok⟩
      obtain rfl := Option.some.inj (hfan'.symm.trans hfan)
      exact htok
    · intro htok
      exact ⟨fan, hfan, htok⟩
  constructor
  · intro hp spec hs a fan hfan
    obtain rfl := Option.some.inj (hspec.symm.trans hs)
    obtain ⟨top, htop, heq⟩ := hp a fan hfan
    refine ⟨top, htop, fun tok => ?_⟩
    rw [← hstored hfan tok, heq]
    rfl
  · intro hr a fan hfan
    obtain ⟨top, htop, hmem⟩ := hr _ hspec a fan hfan
    refine ⟨top, htop, Set.ext fun tok => ?_⟩
    rw [hstored hfan tok]
    exact (hmem tok).symm

end DraftWorker

/-! ## A perfect draft -/

variable {R : Type*} [LinearOrder R] [Zero R] [One R] [Add R] [Mul R] [Div R] {H V : ℕ} [NeZero H]

namespace ToyModelAdapter

variable {m : ToyModelAdapter R H V}

omit [Zero R] [One R] [Add R] [Mul R] [Div R] in
theorem argmaxToken_nonneg (logits : Fin V → R) : 0 ≤ argmaxToken logits := by
  unfold argmaxToken
  split
  · exact le_rfl
  · exact Int.natCast_nonneg _

theorem agreeLen_iterate (t : Token) (k : ℕ) :
    m.agreeLen t (List.iterate m.T (m.T t) k) = k := by
  induction k generalizing t with
  | zero => rfl
  | succ k ih =>
    rw [List.iterate]
    unfold agreeLen
    rw [if_pos rfl, ih]

theorem roundEnd_iterate (last : Token) (k n : ℕ) :
    m.roundEnd last (fun t => List.iterate m.T (m.T t) k) n = 1 + n * (k + 1) := by
  induction n with
  | zero => simp [roundEnd]
  | succ n ih =>
    show m.roundEnd last (fun t => List.iterate m.T (m.T t) k) n + m.agreeLen _ _ + 1 = _
    rw [ih, agreeLen_iterate]
    ring

/-- The draft that continues greedily. -/
def perfectDraft (m : ToyModelAdapter R H V) (k : ℕ) (ctx : List Token) : List Token :=
  List.iterate m.T (m.next ctx) k

theorem length_decode_perfectDraft (k n : ℕ) {prompt : List Token} (hp : prompt ≠ []) :
    (Greedy.decode m.next prompt (fun _ => m.perfectDraft k) n).length = 1 + n * (k + 1) := by
  rw [← List.dropLast_append_getLast hp, length_decode (fun _ ctx t => ?_), roundEnd_iterate]
  unfold perfectDraft
  rw [next_concat]

theorem token_eq_of_decoded {τ : Type*} {prompt : List Token} {draft : ℕ → List Token → List Token}
    {i : ℕ} {s : Decoding τ} (hp : prompt ≠ []) (h : Decoded m.next prompt draft i s) :
    s.token = m.T^[(Greedy.decode m.next prompt draft i).length] (prompt.getLast hp) := by
  obtain ⟨ctx, hctx⟩ := h.token_last
  have hfollows : Greedy.Follows m.next prompt (Greedy.decode m.next prompt draft i) :=
    Greedy.follows_decode prompt draft i
  rw [← List.dropLast_append_getLast hp] at hfollows
  obtain ⟨ctx', hctx'⟩ := exists_concat_of_follows hfollows
  rw [List.dropLast_append_getLast hp] at hctx'
  have hids : s.seq.tokenIds = prompt ++ Greedy.decode m.next prompt draft i := by
    unfold Sequence.tokenIds
    rw [h.prompt_eq, h.completion_eq]
  have heq := hctx.symm.trans (hids.trans hctx')
  exact (List.append_inj_right' heq rfl |> List.singleton_inj.mp)

end ToyModelAdapter

namespace LLMEngine

variable {cfg : SSDConfig} {m : ToyModelAdapter R H V} {prompt : List Token} {M : ℤ}
  {a : LLMEngine Unit cfg.speculateK V R × ℕ}
  {s₀ s : SsdState Unit (DraftWorker cfg.speculateK V R) cfg.speculateK V R}

/-- Every request of the sequence after its first one is a cache hit. -/
def AllHits (cfg : SSDConfig) (m : ToyModelAdapter R H V) (M : ℤ)
    (s₀ : SsdState Unit (DraftWorker cfg.speculateK V R) cfg.speculateK V R) : Prop :=
  ∀ n s, Loop.Head (SsdState.unfinished M)
      (ssdStep cfg m.adapter (handle cfg m.draftSpeculate) M) s₀ n s →
    1 ≤ n → s.unfinished M = true → s.draftResp.cacheHit 0 = true

theorem Starts.answers (hm : cfg.mode = .ssd)
    (h : Starts cfg m.adapter m.draftSpeculate () prompt a s₀) :
    prompt ≠ [] ∧ Answers (fun _ => m.perfectDraft cfg.speculateK) (handle cfg m.draftSpeculate) a.2
      fun _ => Serving cfg m.draftSpeculate a.1.scheduler a.2 := by
  obtain ⟨hid, hprompt, _, w, metrics, hserv, hstart⟩ := h.serving
  obtain ⟨s₁, hs₁, hfirst⟩ := Option.bind_eq_some_iff.mp hstart
  obtain ⟨⟨resp, w'⟩, hresp, _⟩ := Option.map_eq_some_iff.mp hfirst
  rw [(specStart_sameRequest hs₁).seqId, hid] at hresp
  have hp : prompt ≠ [] := by
    rintro rfl
    obtain ⟨p, hpre, _⟩ := Option.map_eq_some_iff.mp hs₁
    rw [hprompt] at hpre
    cases hpre
  have hk : 1 ≤ cfg.speculateK := by
    -- with `k = 0` the toy draft raises, and the request is not answered
    obtain ⟨_, _, hspec, _⟩ := hserv.handle_spec h.ref_lt hresp
    have hdraft := (spec_of_propose hspec).1 (.inl (by rw [hm]; decide))
    by_contra hlt
    unfold ToyModelAdapter.draftSpeculate at hdraft
    rw [if_pos (by omega)] at hdraft
    cases hdraft
  have hdraft : ∀ tok, ∃ spec, propose cfg m.draftSpeculate (contextOf cfg prompt) tok = some spec ∧
      ∀ ctx, List.ofFn spec = m.perfectDraft cfg.speculateK (ctx ++ [tok]) :=
    propose_ssd cfg hm hk
  have hservable : cfg.Servable V := by
    refine (hserv.isSome_handle_iff (fun tok => ?_) 0 s₁.token).mp (by rw [hresp]; rfl)
    rw [hprompt]
    exact propose_isSome cfg _ hdraft tok
  exact ⟨hp, answers_of_servable cfg _ hdraft hservable h.ref_lt hprompt⟩

theorem Starts.atRequest (hm : cfg.mode = .ssd)
    (h : Starts cfg m.adapter m.draftSpeculate () prompt a s₀) {n : ℕ}
    (hs : Loop.Head (SsdState.unfinished M)
      (ssdStep cfg m.adapter (handle cfg m.draftSpeculate) M) s₀ n s) :
    AtRequest m (fun _ => m.perfectDraft cfg.speculateK) a.2 prompt
      (fun _ => Serving cfg m.draftSpeculate a.1.scheduler a.2) M s n := by
  obtain ⟨hp, hserve⟩ := h.answers hm
  refine hs.invariant (P := fun n s => AtRequest m (fun _ => m.perfectDraft cfg.speculateK) a.2
    prompt (fun _ => Serving cfg m.draftSpeculate a.1.scheduler a.2) M s n) ?_ ?_
  · obtain ⟨hid, hprompt, hcompletion, w, metrics, hserv, hstart⟩ := h.serving
    have hserve' : Answers (fun _ => m.perfectDraft cfg.speculateK) (handle cfg m.draftSpeculate)
        (a.1.scheduler.seqs a.2).seqId
        fun _ => Serving cfg m.draftSpeculate a.1.scheduler a.2 := by
      rw [hid]
      exact hserve
    rw [← hprompt] at hp
    obtain ⟨s, hs, h0⟩ := atRequest_ssdStart m cfg metrics _ hserve' hp hcompletion hserv
    obtain rfl := Option.some.inj (hstart.symm.trans hs)
    rw [hid, hprompt] at h0
    exact h0
  · intro n s s' hn hu hstep
    obtain ⟨s'', hs'', hn', _⟩ := hn.ssdStep cfg hserve hu
    obtain rfl := Option.some.inj (hstep.symm.trans hs'')
    exact hn'

theorem Starts.exists_head (hm : cfg.mode = .ssd)
    (h : Starts cfg m.adapter m.draftSpeculate () prompt a s₀) {n : ℕ}
    (hn : ((1 + n * (cfg.speculateK + 1) : ℕ) : ℤ) < M) :
    ∃ s, Loop.Head (SsdState.unfinished M)
      (ssdStep cfg m.adapter (handle cfg m.draftSpeculate) M) s₀ n s ∧ s.unfinished M = true := by
  obtain ⟨hp, hserve⟩ := h.answers hm
  have hunfinished : ∀ {n s}, Loop.Head (SsdState.unfinished M)
      (ssdStep cfg m.adapter (handle cfg m.draftSpeculate) M) s₀ n s →
      ((1 + n * (cfg.speculateK + 1) : ℕ) : ℤ) < M → s.unfinished M = true := by
    intro n s hs hlt
    apply Sequence.not_isFinished_none.mpr
    rw [(h.atRequest hm hs).round.1.completion_eq,
      ToyModelAdapter.length_decode_perfectDraft _ _ hp]
    exact hlt
  induction n with
  | zero => exact ⟨s₀, .start, hunfinished .start hn⟩
  | succ n ih =>
    rw [Nat.succ_mul] at hn
    obtain ⟨s, hs, hu⟩ := ih (by omega)
    obtain ⟨s', hs', _, _⟩ := (h.atRequest hm hs).ssdStep cfg hserve hu
    have hnext := Loop.Head.pass hs hu hs'
    exact ⟨s', hnext, hunfinished hnext (by rwa [Nat.succ_mul])⟩

/-- A request after the first one names the accepted length `k` and a token of the trajectory. -/
theorem Starts.hit_iff (hm : cfg.mode = .ssd)
    (h : Starts cfg m.adapter m.draftSpeculate () prompt a s₀) (hp : prompt ≠ []) {n : ℕ}
    (hn : 1 ≤ n) (hs : Loop.Head (SsdState.unfinished M)
      (ssdStep cfg m.adapter (handle cfg m.draftSpeculate) M) s₀ n s)
    (hu : s.unfinished M = true) : s.draftResp.cacheHit 0 = true ↔
      IsBranch cfg cfg.speculateK (m.T^[1 + n * (cfg.speculateK + 1)] (prompt.getLast hp)) := by
  have htok := ToyModelAdapter.token_eq_of_decoded hp (h.atRequest hm hs).round.1
  rw [ToyModelAdapter.length_decode_perfectDraft _ _ hp] at htok
  rw [← htok]
  cases hs with
  | start => omega
  | @pass n s' _ hs' hu' hstep =>
    have hat := AtServing.head h.ref_lt (h.atServing M) hs'
    rw [(hat.ssdStep h.ref_lt hstep).2 hu]
    -- the round accepted the whole draft
    have hround := h.atRequest hm hs'
    obtain ⟨ctx, hctx⟩ := hround.round.1.token_last
    have hspec := (hround.pending hu').1
    rw [hctx] at hspec
    obtain ⟨hacc, _, _⟩ := verifyRound_spec cfg m.adapter (List.ofFn (s'.draftResp.specTokens 0))
      (s'.draftResp.cacheHit 0) s'.toDecoding fun i => toy_verify m ctx s'.token _ _ _ i
    rw [hacc, hspec, ToyModelAdapter.acceptLen_eq_agreeLen]
    unfold ToyModelAdapter.perfectDraft
    rw [ToyModelAdapter.next_concat, ToyModelAdapter.agreeLen_iterate]

/-- The second half: what the requests of a sequence meet in the cache. -/
theorem Starts.allHits_iff (hm : cfg.mode = .ssd)
    (h : Starts cfg m.adapter m.draftSpeculate () prompt a s₀) (hp : prompt ≠ []) :
    AllHits cfg m M s₀ ↔ ∀ n : ℕ, 1 ≤ n → ((1 + n * (cfg.speculateK + 1) : ℕ) : ℤ) < M →
      ∃ fan : ℕ, cfg.fanOutList[cfg.speculateK]? = some fan ∧
        m.T^[1 + n * (cfg.speculateK + 1)] (prompt.getLast hp) < fan := by
  have hbranch : ∀ n : ℕ, IsBranch cfg cfg.speculateK
      (m.T^[1 + n * (cfg.speculateK + 1)] (prompt.getLast hp)) ↔
        ∃ fan : ℕ, cfg.fanOutList[cfg.speculateK]? = some fan ∧
          m.T^[1 + n * (cfg.speculateK + 1)] (prompt.getLast hp) < fan := by
    intro n
    rw [DraftWorker.isBranch_natCast, List.getElem?_take_of_lt (Nat.lt_succ_self _), Nat.add_comm 1,
      Function.iterate_succ_apply']
    simp only [ToyModelAdapter.T, ToyModelAdapter.argmaxToken_nonneg, true_and]
  constructor
  · intro hall n hn hlt
    obtain ⟨s, hs, hu⟩ := h.exists_head hm hlt
    exact (hbranch n).mp ((h.hit_iff hm hp hn hs hu).mp (hall n s hs hn hu))
  · intro hcond n s hs hn hu
    have hlt := (h.atRequest hm hs).round.1.length_lt hu
    rw [ToyModelAdapter.length_decode_perfectDraft _ _ hp] at hlt
    exact (h.hit_iff hm hp hn hs hu).mpr ((hbranch n).mpr (hcond n hn hlt))

/-- **The cache holds the draft model's predictions** exactly when these are the first tokens of the
vocabulary; and with one toy model as target and draft, every request after the first one of a
sequence hits exactly when the tokens that follow whole rounds of its trajectory are among the first
`fan_out_list[k]`. -/
theorem prediction_iff {Q : Type*} [LinearOrder Q] [Zero Q] {N : ℕ} (hm : cfg.mode = .ssd)
    (hlen : cfg.fanOutList.length = cfg.speculateK + 1) :
    (∀ (draft : DraftModel Q N) (after : List Token → Fin N → Q)
        (w w' : DraftWorker cfg.speculateK N Q) (req : DraftRequest 1)
        (resp : DraftResponse 1 cfg.speculateK N Q),
      Run cfg draft w → handle cfg draft w req = some (resp, w') →
      (DraftWorker.Predicts cfg after (req.cacheKeys 0 2) resp w' ↔
        DraftWorker.RanksFirstTokens cfg draft after (req.cacheKeys 0 2))) ∧
    ∀ (m : ToyModelAdapter R H V) (prompt : List Token) (hp : prompt ≠ []) (M : ℤ)
        (a : LLMEngine Unit cfg.speculateK V R × ℕ)
        (s₀ : SsdState Unit (DraftWorker cfg.speculateK V R) cfg.speculateK V R),
      Starts cfg m.adapter m.draftSpeculate () prompt a s₀ →
      (AllHits cfg m M s₀ ↔
        ∀ n : ℕ, 1 ≤ n → ((1 + n * (cfg.speculateK + 1) : ℕ) : ℤ) < M →
          ∃ fan : ℕ, cfg.fanOutList[cfg.speculateK]? = some fan ∧
            m.T^[1 + n * (cfg.speculateK + 1)] (prompt.getLast hp) < fan) :=
  ⟨fun _ after _ _ _ _ hw h => DraftWorker.predicts_iff_ranksFirstTokens hm hlen after hw h,
    fun _ _ hp _ _ _ h => h.allHits_iff hm hp⟩

open ToyModelAdapter (alternating)

/-- One candidate for each accepted length. After the token 1 the toy draft predicts 2, and the
cache has 0; a sequence that begins with `[1, 2, 1, 2]` misses at its second request. -/
theorem prediction_alternating :
    (∃ (w w' : DraftWorker 1 3 ℚ) (resp : DraftResponse 1 1 3 ℚ),
      Run { mode := .ssd, speculateK := 1, fanOutList := [1, 1] } alternating.draftSpeculate w ∧
      handle { mode := .ssd, speculateK := 1, fanOutList := [1, 1] } alternating.draftSpeculate w
        { cacheKeys := fun _ : Fin 1 => ![0, 0, 1] } = some (resp, w') ∧
      ¬ DraftWorker.Predicts { mode := .ssd, speculateK := 1, fanOutList := [1, 1] }
        (fun ctx => alternating.logitsOfToken (ctx.getLastD 0)) 1 resp w') ∧
    ∃ a s₀, Starts { mode := .ssd, speculateK := 1, fanOutList := [1, 1], numBlocks := 8 }
        alternating.adapter alternating.draftSpeculate () [1] a s₀ ∧
      ¬ AllHits { mode := .ssd, speculateK := 1, fanOutList := [1, 1], numBlocks := 8 } alternating
        4 s₀ := by
  constructor
  · obtain ⟨w, hw, ⟨resp, w'⟩, h⟩ : ∃ w : DraftWorker 1 3 ℚ,
        DraftWorker.start { mode := .ssd, speculateK := 1, fanOutList := [1, 1] } = some w ∧
        ∃ x, handle { mode := .ssd, speculateK := 1, fanOutList := [1, 1] }
          alternating.draftSpeculate w { cacheKeys := fun _ : Fin 1 => ![0, 0, 1] } = some x :=
      ⟨_, rfl, _, rfl⟩
    refine ⟨w, w', resp, .start hw, h, fun hp => ?_⟩
    obtain ⟨top, htop, hstored⟩ := hp 0 1 rfl
    have hfirst : topFRecoveryTokens (alternating.logitsOfToken 1) 1 = some [2] := by
      decide +kernel
    obtain rfl : [2] = top := Option.some.inj (hfirst.symm.trans htop)
    have h0 : (0 : Token) ∈ w'.storedFor 0 :=
      (DraftWorker.mem_storedFor (.start hw) h).mpr
        (DraftWorker.isBranch_natCast.mpr ⟨1, rfl, le_rfl, one_pos⟩)
    rw [hstored] at h0
    exact absurd h0 (by simp)
  · have heval : ((firstStart
          { mode := .ssd, speculateK := 1, fanOutList := [1, 1], numBlocks := 8 }
          alternating.adapter alternating.draftSpeculate () [1]).map fun p =>
        (p.2.unfinished 4, (ssdStep
          { mode := .ssd, speculateK := 1, fanOutList := [1, 1], numBlocks := 8 }
          alternating.adapter
          (handle { mode := .ssd, speculateK := 1, fanOutList := [1, 1], numBlocks := 8 }
            alternating.draftSpeculate) 4 p.2).map fun s' =>
              (s'.unfinished 4, s'.draftResp.cacheHit 0))) =
        some (true, some (true, false)) := by
      decide +kernel
    obtain ⟨⟨a, s₀⟩, h, hx⟩ := Option.map_eq_some_iff.mp heval
    obtain ⟨hu, hx⟩ := Prod.mk.inj hx
    obtain ⟨s₁, hs₁, hx⟩ := Option.map_eq_some_iff.mp hx
    obtain ⟨hu₁, hmiss⟩ := Prod.mk.inj hx
    refine ⟨a, s₀, starts_of_firstStart h, fun hall => ?_⟩
    have hhit := hall 1 s₁ (.pass .start hu hs₁) le_rfl hu₁
    rw [hmiss] at hhit
    cases hhit

theorem prediction_iff_all_tokens :
    (∃ (w w' : DraftWorker 1 3 ℚ) (resp : DraftResponse 1 1 3 ℚ),
      handle { mode := .ssd, speculateK := 1, fanOutList := [3, 3] } alternating.draftSpeculate w
        { cacheKeys := fun _ : Fin 1 => ![0, 0, 1] } = some (resp, w') ∧
      DraftWorker.Predicts { mode := .ssd, speculateK := 1, fanOutList := [3, 3] }
        (fun ctx => alternating.logitsOfToken (ctx.getLastD 0)) 1 resp w') ∧
    ∃ a s₀, Starts { mode := .ssd, speculateK := 1, fanOutList := [3, 3], numBlocks := 8 }
        alternating.adapter alternating.draftSpeculate () [1] a s₀ ∧
      AllHits { mode := .ssd, speculateK := 1, fanOutList := [3, 3], numBlocks := 8 } alternating
        4 s₀ := by
  constructor
  · obtain ⟨w, hw, ⟨resp, w'⟩, h⟩ : ∃ w : DraftWorker 1 3 ℚ,
        DraftWorker.start { mode := .ssd, speculateK := 1, fanOutList := [3, 3] } = some w ∧
        ∃ x, handle { mode := .ssd, speculateK := 1, fanOutList := [3, 3] }
          alternating.draftSpeculate w { cacheKeys := fun _ : Fin 1 => ![0, 0, 1] } = some x :=
      ⟨_, rfl, _, rfl⟩
    have hfirst : topFRecoveryTokens (alternating.logitsOfToken 1) 3 = some [2, 0, 1] := by
      decide +kernel
    have hsecond : topFRecoveryTokens (alternating.logitsOfToken 2) 3 = some [1, 0, 2] := by
      decide +kernel
    have hdraft : (alternating.draftSpeculate [1] 1).map Prod.fst = some [2] := by decide +kernel
    have hmem₁ : ∀ tok : ℤ, tok ∈ ([2, 0, 1] : List ℤ) ↔ 0 ≤ tok ∧ tok < 3 := by
      intro tok
      simp only [List.mem_cons, List.not_mem_nil, or_false]
      omega
    have hmem₂ : ∀ tok : ℤ, tok ∈ ([1, 0, 2] : List ℤ) ↔ 0 ≤ tok ∧ tok < 3 := by
      intro tok
      simp only [List.mem_cons, List.not_mem_nil, or_false]
      omega
    have hranks : DraftWorker.RanksFirstTokens
        { mode := .ssd, speculateK := 1, fanOutList := [3, 3] } alternating.draftSpeculate
        (fun ctx => alternating.logitsOfToken (ctx.getLastD 0)) 1 := by
      intro spec hs a fan hfan
      obtain rfl : [2] = spec := Option.some.inj (hdraft.symm.trans hs)
      match a, hfan with
      | 0, hfan =>
        obtain rfl : 3 = fan := Option.some.inj hfan
        exact ⟨_, hfirst, hmem₁⟩
      | 1, hfan =>
        obtain rfl : 3 = fan := Option.some.inj hfan
        exact ⟨_, hsecond, hmem₂⟩
    have hm : ({ mode := .ssd, speculateK := 1, fanOutList := [3, 3] } : SSDConfig).mode = .ssd :=
      rfl
    have hiff := (prediction_iff (R := ℚ) (H := 2) (V := 3) hm rfl).1 alternating.draftSpeculate
      (fun ctx => alternating.logitsOfToken (ctx.getLastD 0)) w w' _ resp (.start hw) h
    exact ⟨w, w', resp, h, hiff.mpr hranks⟩
  · have hsome : (firstStart
        { mode := .ssd, speculateK := 1, fanOutList := [3, 3], numBlocks := 8 }
        alternating.adapter alternating.draftSpeculate () [1]).isSome := by
      decide +kernel
    obtain ⟨⟨a, s₀⟩, hstart⟩ := Option.isSome_iff_exists.mp hsome
    have h := starts_of_firstStart hstart
    have htok : alternating.T^[3] 1 < 3 := by decide +kernel
    have hm : ({ mode := .ssd, speculateK := 1, fanOutList := [3, 3], numBlocks := 8 } :
        SSDConfig).mode = .ssd := rfl
    have hiff := (prediction_iff (Q := ℚ) (N := 3) hm rfl).2 alternating [1] (by simp) 4 a s₀ h
    refine ⟨a, s₀, h, hiff.mpr fun n hn hlt => ⟨3, rfl, ?_⟩⟩
    obtain rfl : n = 1 := by
      simp only at hlt
      omega
    exact htok

end LLMEngine

end SsdTpu
