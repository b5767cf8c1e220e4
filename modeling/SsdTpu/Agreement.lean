import SsdTpu.Isolation
import SsdTpu.Lossless

/-!
# Agreement of the modes

On toy models every mode emits a part of the target's trajectory, so that the modes agree on a
prompt when their completions have the same length. The autoregressive loop fills its budget of `M`
tokens exactly. A speculative loop tests the budget between rounds and stops at the first round that
reaches it, so that it returns `M` tokens only if one of its rounds ends at `M`.

`roundEnd` gives the ends of the rounds from the two weight matrices and the prompt alone, and
`agree_iff` says when the four modes agree.
-/

namespace SsdTpu

variable {R R' : Type*} [LinearOrder R] [Zero R] [One R] [Add R] [Mul R] [Div R] [LinearOrder R']
  [Zero R'] [One R'] [Add R'] [Mul R'] [Div R'] {H H' V V' k : ℕ} [NeZero H] [NeZero H']

namespace ToyModelAdapter

variable (m : ToyModelAdapter R H V)

/-- How many tokens of a draft are on the trajectory of `t`. -/
def agreeLen : Token → List Token → ℕ
  | _, [] => 0
  | t, d :: ds => if d = m.T t then agreeLen d ds + 1 else 0

/-- How many tokens there are after the first token and `i` rounds, for a prompt that ends with
`last` and the draft `proposal t` in a round after the token `t`. -/
def roundEnd (last : Token) (proposal : Token → List Token) : ℕ → ℕ
  | 0 => 1
  | i + 1 =>
    let n := roundEnd last proposal i
    let t := m.T^[n] last
    n + m.agreeLen t (proposal t) + 1

variable {m}

theorem acceptLen_eq_agreeLen (ctx : List Token) (t : Token) (ds : List Token) :
    Greedy.acceptLen m.next (ctx ++ [t]) ds = m.agreeLen t ds := by
  induction ds generalizing ctx t with
  | nil => rfl
  | cons d ds ih =>
    unfold Greedy.acceptLen agreeLen
    rw [next_concat, ih]

theorem exists_concat_of_follows {ctx l : List Token} {t : Token}
    (h : Greedy.Follows m.next (ctx ++ [t]) l) :
    ∃ ctx', ctx ++ [t] ++ l = ctx' ++ [m.T^[l.length] t] := by
  induction l using List.reverseRecOn with
  | nil => exact ⟨ctx, by simp⟩
  | append_singleton l x ih =>
    obtain ⟨hl, hx, _⟩ := Greedy.follows_append.mp h
    obtain ⟨ctx', hctx⟩ := ih hl
    refine ⟨ctx ++ [t] ++ l, ?_⟩
    rw [hctx, next_concat] at hx
    rw [← List.append_assoc, List.length_append, List.length_singleton,
      Function.iterate_succ_apply', hx]

theorem length_decode {draft : ℕ → List Token → List Token} {proposal : Token → List Token}
    (hdraft : ∀ n c t, draft n (c ++ [t]) = proposal t) (ctx : List Token) (last : Token) (i : ℕ) :
    (Greedy.decode m.next (ctx ++ [last]) draft i).length = m.roundEnd last proposal i := by
  induction i with
  | zero => rfl
  | succ i ih =>
    obtain ⟨ctx', hctx⟩ := exists_concat_of_follows
      (m := m) (Greedy.follows_decode (ctx ++ [last]) draft i)
    rw [Greedy.length_decode_succ, hctx, hdraft, acceptLen_eq_agreeLen, ih]
    rfl

end ToyModelAdapter

/-- A loop that stops at the first round that fills the budget fills it exactly if a round ends
there. -/
theorem StopsAt.eq_iff {len : ℕ → ℕ} (hlen : StrictMono len) {M i : ℕ} (h : StopsAt len M i) :
    len i = M ↔ ∃ j, len j = M := by
  refine ⟨fun hi => ⟨i, hi⟩, ?_⟩
  rintro ⟨j, hj⟩
  have hij : i ≤ j := by
    by_contra hlt
    have := h.2 j (by omega)
    omega
  have hle := hlen.monotone hij
  have hge := h.1
  omega

/-! ## Requests that are answered -/

open DraftWorker (propose)

/-- The tree of the configuration is not empty, and no fan-out exceeds the draft's vocabulary. -/
def SSDConfig.Servable (cfg : SSDConfig) (V' : ℕ) : Prop :=
  ∃ n, cfg.mqLen = some n ∧ n ≠ 0 ∧ ∀ fan ∈ cfg.fanOutList.take (cfg.speculateK + 1), fan ≤ V'

theorem SSDConfig.Servable.mqLen_isSome {cfg : SSDConfig} (h : cfg.Servable V') :
    cfg.mqLen.isSome := by
  obtain ⟨n, hn, _⟩ := h
  rw [hn]
  rfl

omit [One R'] [Add R'] [Mul R'] [Div R'] in
/-- A worker that can draft after every token answers its requests exactly if the configuration is
servable. -/
theorem Serving.isSome_handle_iff {cfg : SSDConfig} {draft : DraftModel R' V'} {s : Scheduler}
    {r : ℕ} {w : DraftWorker cfg.speculateK V' R'} (h : Serving cfg draft s r w)
    (hdraft : ∀ tok, (propose cfg draft (contextOf cfg (s.seqs r).promptTokenIds) tok).isSome)
    (acc : ℕ) (tok : Token) :
    (DraftWorker.handle cfg draft w (draftRequest r acc tok)).isSome ↔ cfg.Servable V' := by
  rw [DraftWorker.handle_isSome_iff h.honest.ready fun c hc => h.lastSource_eq hc, h.context]
  obtain ⟨n, hn, hsize⟩ := Option.map_eq_some_iff.mp h.size
  constructor
  · rintro ⟨hN, _, hfans⟩
    exact ⟨n, hn, by omega, fun fan hfan => (hfans fan hfan).1⟩
  · rintro ⟨n', hn', hpos, hfans⟩
    obtain rfl := Option.some.inj (hn.symm.trans hn')
    exact ⟨by omega, hdraft _, fun fan hfan => ⟨hfans fan hfan, fun f _ => hdraft _⟩⟩

/-! ## One prompt on a new engine -/

namespace LLMEngine

open ToyModelAdapter (alternating)

variable (cfg : SSDConfig) (m : ToyModelAdapter R H V) (d : ToyModelAdapter R' H' V') (M : ℕ)
  (prompt : List Token)

/-- The completion of a prompt served alone on a new engine of the given mode. -/
def completion (mode : DecodeMode) : Option (List Token) :=
  (alone { cfg with mode := mode } m.adapter d.draftSpeculate { maxNewTokens := M } ()
    prompt).map Prod.fst

/-- The four modes return the same `M` tokens. -/
def Agree : Prop :=
  ∃ c : List Token, c.length = M ∧ ∀ mode, completion cfg m d M prompt mode = some c

variable {m d M prompt}

theorem exists_admission_of_init {e : LLMEngine Unit cfg.speculateK V' R'}
    (he : init cfg () = some e) (hb : 1 ≤ cfg.blockSize)
    (hmq : cfg.mode ≠ .ar → cfg.mqLen.isSome) (prompt : List Token) :
    ∃ a, admitPrompt cfg e prompt = some a ∧
      (a.1.scheduler.seqs a.2).promptTokenIds = prompt ∧
      (a.1.scheduler.seqs a.2).completionTokenIds = [] ∧
      (a.1.scheduler.seqs a.2).seqId = a.2 ∧ a.2 < a.1.scheduler.nextId ∧
      ∀ w, a.1.draftWorker = some w →
        Serving cfg d.draftSpeculate a.1.scheduler a.2 w := by
  have hinv : EngineInv cfg d.draftSpeculate e := engineInv_of_init he
  have hsize : e.scheduler.pageManager.blockSize ≠ 0 := by
    rw [hinv.blockSize]
    omega
  obtain ⟨a, ha⟩ := Option.isSome_iff_exists.mp (admitPrompt_isSome hmq hsize prompt)
  have hadm := admission_of_admitPrompt ha
  exact ⟨a, ha, hadm.seq.prompt, hadm.seq.completion, hadm.seq.seqId.trans hadm.ref.symm,
    hadm.ref_lt, fun w hw => serving_of_admitPrompt hinv.worker ha hw⟩

theorem completion_ar (hb : 1 ≤ cfg.blockSize) (hp : prompt ≠ []) (hM : 1 ≤ M) :
    completion cfg m d M prompt .ar = some (Greedy.extend m.next prompt M) := by
  obtain ⟨a, ha, hprompt, hcompletion, _⟩ := exists_admission_of_init
    { cfg with mode := .ar } (d := d) (init_of_mode (.inl rfl) _) hb (fun h => absurd rfl h) prompt
  obtain ⟨s, hs, hc⟩ := runAr_toy m { cfg with mode := .ar } {} (hprompt ▸ hp) hcompletion
    (le_refl (M : ℤ).toNat)
  have hmax : max 1 (M : ℤ).toNat = M := by omega
  unfold completion
  rw [alone_eq (init_of_mode (.inl rfl) _) ha]
  show (((runAr { cfg with mode := .ar } m.adapter M (M : ℤ).toNat _ () {}).map _).map _).map _ =
    _
  rw [hs]
  show some s.seq.completionTokenIds = _
  rw [hc, hprompt, hmax]

theorem completion_sd (hb : 1 ≤ cfg.blockSize) (hk : 1 ≤ cfg.speculateK) (hp : prompt ≠ [])
    (hs : cfg.Servable V') :
    ∃ i, completion cfg m d M prompt .sd = some (Greedy.decode m.next prompt
        (fun _ tokens => List.iterate d.T (d.next tokens) cfg.speculateK) i) ∧
      StopsAt (fun j => (Greedy.decode m.next prompt
        (fun _ tokens => List.iterate d.T (d.next tokens) cfg.speculateK) j).length) M i := by
  obtain ⟨a, ha, hprompt, hcompletion, _⟩ := exists_admission_of_init
    { cfg with mode := .sd } (d := d) (init_of_mode (.inr rfl) _) hb (fun _ => hs.mqLen_isSome)
    prompt
  have hdraft : ∀ tokens, tokens ≠ [] → ((d.draftSpeculate tokens cfg.speculateK).map
      fun r => (r.1, ())) = some (List.iterate d.T (d.next tokens) cfg.speculateK, ()) := by
    intro tokens hne
    obtain ⟨ctx, t, rfl⟩ := (List.eq_nil_or_concat' tokens).resolve_left hne
    obtain ⟨r, hr, hfst⟩ := Option.map_eq_some_iff.mp (d.draftSpeculate_eq hk ctx t)
    rw [hr, Option.map_some, hfst, ToyModelAdapter.next_concat]
  obtain ⟨s, i, hs, hc, hi⟩ := runSd_toy m { cfg with mode := .sd } {}
    (fun _ tokens => List.iterate d.T (d.next tokens) cfg.speculateK)
    (fun (_ : Unit) tokens k => (d.draftSpeculate tokens k).map fun r => (r.1, ()))
    (fun _ _ => True) (fun _ _ tokens _ hne => ⟨(), hdraft tokens hne, trivial⟩) (hprompt ▸ hp)
    hcompletion trivial (le_refl (M : ℤ).toNat)
  rw [hprompt] at hc hi
  refine ⟨i, ?_, hi⟩
  unfold completion
  rw [alone_eq (init_of_mode (.inr rfl) _) ha]
  show ((((runSd { cfg with mode := .sd } m.adapter _ M (M : ℤ).toNat _ () () {}).map _).map
    _).map _) = _
  rw [hs]
  show some s.seq.completionTokenIds = _
  rw [hc]

/-! ## The modes with a draft worker -/

section Worker

variable (hm : cfg.mode = .ssd ∨ cfg.mode = .instanceSsd) (draft : List Token → List Token)
  (hdraft : ∀ tok, ∃ spec, propose cfg d.draftSpeculate (contextOf cfg prompt) tok = some spec ∧
    ∀ ctx, List.ofFn spec = draft (ctx ++ [tok]))

include hdraft in
theorem propose_isSome (tok : Token) :
    (propose cfg d.draftSpeculate (contextOf cfg prompt) tok).isSome := by
  obtain ⟨spec, hspec, _⟩ := hdraft tok
  rw [hspec]
  rfl

include hm in
theorem exists_worker (hb : 1 ≤ cfg.blockSize) (hload : cfg.LoadDraft) (hmq : cfg.mqLen.isSome)
    (prompt : List Token) :
    ∃ (e : LLMEngine Unit cfg.speculateK V' R') (a : _ × ℕ) (w : _), init cfg () = some e ∧
      admitPrompt cfg e prompt = some a ∧ a.1.draftWorker = some w ∧
      (a.1.scheduler.seqs a.2).promptTokenIds = prompt ∧
      (a.1.scheduler.seqs a.2).completionTokenIds = [] ∧
      (a.1.scheduler.seqs a.2).seqId = a.2 ∧ a.2 < a.1.scheduler.nextId ∧
      Serving cfg d.draftSpeculate a.1.scheduler a.2 w := by
  obtain ⟨e, he⟩ : ∃ e : LLMEngine Unit cfg.speculateK V' R', init cfg () = some e :=
    Option.isSome_iff_exists.mp (init_isSome hload hm hmq ())
  obtain ⟨a, ha, hprompt, hcompletion, hid, hlt, hserv⟩ :=
    exists_admission_of_init cfg (d := d) he hb (fun _ => hmq) prompt
  have hinv : EngineInv cfg d.draftSpeculate e := engineInv_of_init he
  have hworker : e.draftWorker.isSome := hinv.loaded.mpr ⟨hload, hm⟩
  obtain ⟨w, hw⟩ := Option.isSome_iff_exists.mp
    ((admission_of_admitPrompt ha).draftWorker_isSome.trans hworker)
  exact ⟨e, a, w, he, ha, hw, hprompt, hcompletion, hid, hlt, hserv w hw⟩

include hdraft in
theorem answers_of_servable (hs : cfg.Servable V') {scheduler : Scheduler} {r : ℕ}
    (hr : r < scheduler.nextId) (hprompt : (scheduler.seqs r).promptTokenIds = prompt) :
    Answers (fun _ => draft) (DraftWorker.handle cfg d.draftSpeculate) r
      fun _ => Serving cfg d.draftSpeculate scheduler r := by
  intro _ w acc ctx tok hw
  have hsome : ∀ tok, (propose cfg d.draftSpeculate
      (contextOf cfg (scheduler.seqs r).promptTokenIds) tok).isSome := by
    rw [hprompt]
    exact propose_isSome cfg draft hdraft
  obtain ⟨x, hx⟩ := Option.isSome_iff_exists.mp ((hw.isSome_handle_iff hsome acc tok).mpr hs)
  obtain ⟨hspec, _⟩ :=
    DraftWorker.handle_spec hw.honest.ready (fun c hc => hw.lastSource_eq hc) hx
  obtain ⟨spec, hspec', hofFn⟩ := hdraft tok
  rw [hw.context, hprompt] at hspec
  obtain rfl := Option.some.inj (hspec'.symm.trans hspec)
  exact ⟨x, hx, hofFn ctx, hw.handle hr acc tok hx⟩

include hm hdraft in
theorem alone_of_servable (hb : 1 ≤ cfg.blockSize) (hload : cfg.LoadDraft)
    (hs : cfg.Servable V') (hp : prompt ≠ []) :
    ∃ i, (alone cfg m.adapter d.draftSpeculate { maxNewTokens := M } () prompt).map Prod.fst =
        some (Greedy.decode m.next prompt (fun _ => draft) i) ∧
      StopsAt (fun j => (Greedy.decode m.next prompt (fun _ => draft) j).length) M i := by
  obtain ⟨e, a, w, he, ha, hw, hprompt, hcompletion, hid, hlt, hserv⟩ :=
    exists_worker cfg (d := d) hm hb hload hs.mqLen_isSome prompt
  have hserve : Answers (fun _ => draft) (DraftWorker.handle cfg d.draftSpeculate)
      (a.1.scheduler.seqs a.2).seqId fun _ => Serving cfg d.draftSpeculate a.1.scheduler a.2 := by
    rw [hid]
    exact answers_of_servable cfg draft hdraft hs hlt hprompt
  obtain ⟨s, i, hrun, hc, hi⟩ := runSsd_toy m cfg {} (fun _ => draft) _
    (fun _ => Serving cfg d.draftSpeculate a.1.scheduler a.2) hserve (hprompt ▸ hp) hcompletion
    hserv (le_refl (M : ℤ).toNat)
  rw [hprompt] at hc hi
  refine ⟨i, ?_, hi⟩
  rw [alone_eq he ha, runMode_ssd hm, hw, Option.bind_some]
  show (((((runSsd cfg m.adapter _ M (M : ℤ).toNat _ () _ {}).map _).map _).map _)) = _
  rw [hrun]
  show some s.seq.completionTokenIds = _
  rw [hc]

include hm in
/-- A call that returns divides by the block size, and has a worker. -/
theorem worker_of_alone
    (h : (alone cfg m.adapter d.draftSpeculate { maxNewTokens := M } () prompt).isSome) :
    1 ≤ cfg.blockSize ∧ cfg.LoadDraft ∧ cfg.mqLen.isSome := by
  obtain ⟨r, hr⟩ := Option.isSome_iff_exists.mp h
  obtain ⟨e, he, -⟩ := Option.bind_eq_some_iff.mp hr
  have hinv : EngineInv cfg d.draftSpeculate e := engineInv_of_init he
  obtain ⟨a, ha⟩ := Option.isSome_iff_exists.mp (admitPrompt_isSome_of_alone he hr)
  have hsize := blockSize_pos_of_admitPrompt hinv.idle ha
  rw [hinv.blockSize] at hsize
  rw [alone_eq he ha, runMode_ssd hm, Option.isSome_map] at h
  obtain ⟨s, hs⟩ := Option.isSome_iff_exists.mp h
  obtain ⟨w, hw, -⟩ := Option.bind_eq_some_iff.mp hs
  have hworker : e.draftWorker.isSome := by
    rw [← (admission_of_admitPrompt ha).draftWorker_isSome, hw]
    rfl
  obtain ⟨n, hn, -⟩ := Option.map_eq_some_iff.mp (serving_of_admitPrompt hinv.worker ha hw).size
  refine ⟨by omega, (hinv.loaded.mp hworker).1, ?_⟩
  rw [hn]
  rfl

include hm hdraft in
/-- Otherwise the first request is not answered, or there is no worker. -/
theorem servable_of_alone
    (h : (alone cfg m.adapter d.draftSpeculate { maxNewTokens := M } () prompt).isSome) :
    1 ≤ cfg.blockSize ∧ cfg.LoadDraft ∧ cfg.Servable V' := by
  obtain ⟨hb, hload, hmq⟩ := worker_of_alone cfg hm h
  refine ⟨hb, hload, ?_⟩
  obtain ⟨e, a, w, he, ha, hw, hprompt, _, hid, _, hserv⟩ :=
    exists_worker cfg (d := d) hm hb hload hmq prompt
  have hsome : ∀ tok, (propose cfg d.draftSpeculate
      (contextOf cfg (a.1.scheduler.seqs a.2).promptTokenIds) tok).isSome := by
    rw [hprompt]
    exact propose_isSome cfg draft hdraft
  rw [alone_eq he ha, runMode_ssd hm, hw, Option.bind_some, Option.isSome_map,
    Option.isSome_map] at h
  obtain ⟨s, hs⟩ := Option.isSome_iff_exists.mp h
  obtain ⟨s₀, hs₀, _⟩ := Option.bind_eq_some_iff.mp hs
  obtain ⟨s₁, hs₁, hfirst⟩ := Option.bind_eq_some_iff.mp hs₀
  obtain ⟨x, hx, _⟩ := Option.map_eq_some_iff.mp hfirst
  apply (hserv.isSome_handle_iff hsome 0 s₁.token).mp
  rw [(specStart_sameRequest hs₁).seqId, hid] at hx
  rw [hx]
  rfl

end Worker

theorem propose_ssd (hm : cfg.mode = .ssd) (hk : 1 ≤ cfg.speculateK) (tok : Token) :
    ∃ spec, propose cfg d.draftSpeculate (contextOf cfg prompt) tok = some spec ∧
      ∀ ctx, List.ofFn spec = List.iterate d.T (d.next (ctx ++ [tok])) cfg.speculateK := by
  have hdraft := d.draftSpeculate_eq hk [] tok
  obtain ⟨spec, hspec⟩ := Option.isSome_iff_exists.mp
    (toDraft_isSome (List.length_iterate d.T (d.T tok) cfg.speculateK))
  refine ⟨spec, ?_, fun ctx => ?_⟩
  · rw [DraftWorker.propose_of_draft (by rw [hm]; simp), ← List.nil_append [tok], hdraft,
      Option.bind_some, hspec]
  · rw [ofFn_of_toDraft hspec, ToyModelAdapter.next_concat]

/-- The draft of INSTANCE mode, the same in every round of a prompt. -/
def promptSpan (cfg : SSDConfig) (prompt : List Token) : List Token :=
  (promptDraft cfg.windowMean prompt cfg.speculateK).getD []

theorem propose_instance (hm : cfg.mode = .instanceSsd) (hp : prompt ≠ []) (tok : Token) :
    ∃ spec, propose cfg d.draftSpeculate (contextOf cfg prompt) tok = some spec ∧
      ∀ _ : List Token, List.ofFn spec = promptSpan cfg prompt := by
  obtain ⟨l, hl⟩ := Option.isSome_iff_exists.mp
    (promptDraft_isSome cfg.windowMean hp cfg.speculateK)
  obtain ⟨spec, hspec⟩ := Option.isSome_iff_exists.mp
    (toDraft_isSome (length_spansToSpeculationTokens hl))
  refine ⟨spec, ?_, fun _ => ?_⟩
  · unfold contextOf
    rw [if_pos hm, DraftWorker.propose_of_span ⟨hm, hp⟩, hl]
    exact hspec
  · unfold promptSpan
    rw [ofFn_of_toDraft hspec, hl]
    rfl

/-! ## When the modes agree -/

/-- The output after the first round that fills the budget is the autoregressive one exactly if a
round ends at the budget. -/
theorem decode_eq_extend_iff (hp : prompt ≠ []) {draft : List Token → List Token}
    {proposal : Token → List Token} (hdraft : ∀ c t, draft (c ++ [t]) = proposal t) {i : ℕ}
    (hi : StopsAt (fun j => (Greedy.decode m.next prompt (fun _ => draft) j).length) M i) :
    Greedy.decode m.next prompt (fun _ => draft) i = Greedy.extend m.next prompt M ↔
      ∃ j, m.roundEnd (prompt.getLast hp) proposal j = M := by
  have hlen : ∀ j, (Greedy.decode m.next prompt (fun _ => draft) j).length =
      m.roundEnd (prompt.getLast hp) proposal j := by
    intro j
    have h := ToyModelAdapter.length_decode (m := m) (fun _ => hdraft) prompt.dropLast
      (prompt.getLast hp) j
    rwa [List.dropLast_append_getLast] at h
  have hfol : Greedy.Follows m.next prompt (Greedy.decode m.next prompt (fun _ => draft) i) :=
    Greedy.follows_decode prompt (fun _ => draft) i
  have hend := hi.eq_iff (Greedy.length_decode_strictMono prompt _)
  simp only [hlen] at hend
  rw [← hend, ← hlen]
  constructor
  · intro h
    rw [h, Greedy.length_extend]
  · intro h
    rw [hfol.eq_extend, h]

theorem completion_ssd (hb : 1 ≤ cfg.blockSize) (hrole : cfg.tpuRole = .both ∨ cfg.tpuRole = .draft)
    (hk : 1 ≤ cfg.speculateK) (hp : prompt ≠ []) (hs : cfg.Servable V') :
    ∃ i, completion cfg m d M prompt .ssd = some (Greedy.decode m.next prompt
        (fun _ tokens => List.iterate d.T (d.next tokens) cfg.speculateK) i) ∧
      StopsAt (fun j => (Greedy.decode m.next prompt
        (fun _ tokens => List.iterate d.T (d.next tokens) cfg.speculateK) j).length) M i :=
  alone_of_servable { cfg with mode := .ssd } (.inl rfl) _ (propose_ssd _ rfl hk) hb
    ⟨hrole, by simp⟩ hs hp

theorem completion_instance (hb : 1 ≤ cfg.blockSize)
    (hrole : cfg.tpuRole = .both ∨ cfg.tpuRole = .draft) (hp : prompt ≠ [])
    (hs : cfg.Servable V') :
    ∃ i, completion cfg m d M prompt .instanceSsd = some (Greedy.decode m.next prompt
        (fun _ _ => promptSpan cfg prompt) i) ∧
      StopsAt (fun j => (Greedy.decode m.next prompt
        (fun _ _ => promptSpan cfg prompt) j).length) M i :=
  alone_of_servable { cfg with mode := .instanceSsd } (.inr rfl)
    (fun _ => promptSpan cfg prompt) (propose_instance _ rfl hp) hb ⟨hrole, by simp⟩ hs hp

theorem servable_of_completion_ssd (hk : 1 ≤ cfg.speculateK) {c : List Token}
    (h : completion cfg m d M prompt .ssd = some c) :
    1 ≤ cfg.blockSize ∧ (cfg.tpuRole = .both ∨ cfg.tpuRole = .draft) ∧ cfg.Servable V' := by
  obtain ⟨r, hr, _⟩ := Option.map_eq_some_iff.mp h
  have hsome : (alone { cfg with mode := .ssd } m.adapter d.draftSpeculate
      { maxNewTokens := M } () prompt).isSome := by
    rw [hr]
    rfl
  obtain ⟨hb, hload, hs⟩ := servable_of_alone { cfg with mode := .ssd } (.inl rfl)
    (fun tokens => List.iterate d.T (d.next tokens) cfg.speculateK) (propose_ssd _ rfl hk) hsome
  exact ⟨hb, hload.1, hs⟩

/-- **Agreement of the modes.** On toy models, for every non-empty prompt and every budget of `M`
tokens, the four modes return the same `M` tokens exactly when every mode can serve it (the blocks
are not empty, the role loads a draft model, the configuration is servable) and a round ends at `M`,
both with the draft model's continuations (SD and SSD) and with the span of the prompt (INSTANCE),
whatever mean ranks the spans. -/
theorem agree_iff (cfg : SSDConfig) (m : ToyModelAdapter R H V) (d : ToyModelAdapter R' H' V')
    {M : ℕ} {prompt : List Token} (hk : 1 ≤ cfg.speculateK) (hp : prompt ≠ []) (hM : 1 ≤ M) :
    Agree cfg m d M prompt ↔
      1 ≤ cfg.blockSize ∧ (cfg.tpuRole = .both ∨ cfg.tpuRole = .draft) ∧ cfg.Servable V' ∧
      (∃ i, m.roundEnd (prompt.getLast hp)
        (fun t => List.iterate d.T (d.T t) cfg.speculateK) i = M) ∧
      ∃ i, m.roundEnd (prompt.getLast hp) (fun _ => promptSpan cfg prompt) i = M := by
  have har (hb : 1 ≤ cfg.blockSize) : completion cfg m d M prompt .ar =
      some (Greedy.extend m.next prompt M) := completion_ar cfg hb hp hM
  have hdraft : ∀ ctx t, List.iterate d.T (d.next (ctx ++ [t])) cfg.speculateK =
      List.iterate d.T (d.T t) cfg.speculateK := by
    intro ctx t
    rw [ToyModelAdapter.next_concat]
  constructor
  · rintro ⟨c, hlen, hall⟩
    obtain ⟨hb, hrole, hs⟩ := servable_of_completion_ssd cfg hk (hall .ssd)
    obtain rfl : c = Greedy.extend m.next prompt M :=
      Option.some.inj ((hall .ar).symm.trans (har hb))
    obtain ⟨i, hsd, hi⟩ := completion_sd cfg (m := m) (d := d) (M := M) hb hk hp hs
    obtain ⟨j, hin, hj⟩ := completion_instance cfg (m := m) (d := d) (M := M) hb hrole hp hs
    refine ⟨hb, hrole, hs, (decode_eq_extend_iff hp hdraft hi).mp ?_,
      (decode_eq_extend_iff hp (fun _ _ => rfl) hj).mp ?_⟩
    · exact Option.some.inj (hsd.symm.trans (hall .sd))
    · exact Option.some.inj (hin.symm.trans (hall .instanceSsd))
  · rintro ⟨hb, hrole, hs, hsd, hin⟩
    refine ⟨Greedy.extend m.next prompt M, Greedy.length_extend _ _, fun mode => ?_⟩
    cases mode with
    | ar => exact har hb
    | sd =>
      obtain ⟨i, h, hi⟩ := completion_sd cfg (m := m) (d := d) (M := M) hb hk hp hs
      rw [h, (decode_eq_extend_iff hp hdraft hi).mpr hsd]
    | ssd =>
      obtain ⟨i, h, hi⟩ := completion_ssd cfg (m := m) (d := d) (M := M) hb hrole hk hp hs
      rw [h, (decode_eq_extend_iff hp hdraft hi).mpr hsd]
    | instanceSsd =>
      obtain ⟨i, h, hi⟩ := completion_instance cfg (m := m) (d := d) (M := M) hb hrole hp hs
      rw [h, (decode_eq_extend_iff hp (fun _ _ => rfl) hi).mpr hin]

/-- A perfect draft and a budget of two: the first round takes SD from one token to three. -/
theorem agree_alternating : ¬ Agree { speculateK := 1 } alternating alternating 2 [0] := by
  rintro ⟨c, hlen, hall⟩
  have hsd : completion { speculateK := 1 } alternating alternating 2 [0] .sd = some [1, 2, 1] := by
    decide +kernel
  obtain rfl := Option.some.inj (hsd.symm.trans (hall .sd))
  simp at hlen

/-- With a budget of three, one round of two tokens or two of one end at the budget. -/
theorem agree_iff_alternating : Agree { speculateK := 1 } alternating alternating 3 [0] :=
  (agree_iff { speculateK := 1 } alternating alternating le_rfl (by simp) (by decide)).mpr
    ⟨by decide, .inl rfl, ⟨4, rfl, by decide, by decide⟩, ⟨1, by decide +kernel⟩,
      ⟨2, by decide +kernel⟩⟩

end LLMEngine

end SsdTpu
