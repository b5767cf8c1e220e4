import SsdTpu.AdmissionFailure
import SsdTpu.Generate
import SsdTpu.ToyModel

/-!
# The lifecycle of a request

`generate` adds and schedules its requests, but no decode loop hands its sequence back to the
scheduler: nothing is ever finished, and running sequences keep their slots and their blocks
(`Unreleased`). So a call with at least one prompt never leaves the state that a completed request
should leave, and a call without prompts does only on an idle pool (`lifecycle_iff`).
-/

namespace SsdTpu

namespace Scheduler

variable {cfg : SSDConfig} {s s' : Scheduler} {r : ℕ}

/-- Admitted by `schedule`: running, with target blocks for its tokens and the reserve. -/
structure Admitted (cfg : SSDConfig) (s : Scheduler) (r : ℕ) : Prop where
  status : (s.seqs r).status = .running
  running : r ∈ s.running
  blocks : ((s.seqs r).numTokens + reserveTokens cfg + cfg.blockSize - 1) / cfg.blockSize ≤
    (s.seqs r).blockTable.length

/-- Every running sequence has a target block. -/
def RunningOwn (s : Scheduler) : Prop := ∀ r ∈ s.running, (s.seqs r).blockTable ≠ []

theorem one_le_reserveTokens (cfg : SSDConfig) : 1 ≤ reserveTokens cfg := by
  unfold reserveTokens
  split <;> omega

/-- An admission attempt touches one sequence; when it succeeds, its table covers its tokens and the
reserve. -/
theorem reserveBlocks_spec {b : Bool} (h : reserveBlocks cfg s r = .ok (b, s')) :
    (∀ q, q ≠ r → s'.seqs q = s.seqs q) ∧
      (b = true → ((s.seqs r).numTokens + reserveTokens cfg + s.pageManager.blockSize - 1) /
        s.pageManager.blockSize ≤ (s'.seqs r).blockTable.length) := by
  obtain ⟨target, draft, hgrows, hcases⟩ := reserveBlocks_grows h
  refine ⟨hgrows.others, fun hb => ?_⟩
  obtain ⟨-, hlen, -⟩ := hcases.resolve_right (by simp [hb])
  unfold lacking at hlen
  simp only at hlen
  rw [hgrows.blockTable, List.length_append, hlen, ← Nat.ceilDiv_eq_add_pred_div]
  omega

theorem Holds.not_mem_running {waiting : List ℕ} (h : Holds cfg s (r :: waiting ++ s.running)) :
    r ∉ s.running := by
  have hnot : r ∉ waiting ++ s.running ++ s.finished := (List.nodup_cons.mp h.nodup).1
  simp only [List.mem_append, not_or] at hnot
  exact hnot.1.2

theorem RunningOwn.defer {waiting : List ℕ} (hh : Holds cfg s (r :: waiting ++ s.running))
    (hr : RunningOwn s) (hres : reserveBlocks cfg s r = .ok (false, s')) : RunningOwn s' := by
  have hnot : r ∉ s.running := hh.not_mem_running
  intro q hq
  rw [(reserveBlocks_lists hres).1] at hq
  rw [(reserveBlocks_spec hres).1 q (by rintro rfl; exact hnot hq)]
  exact hr q hq

theorem RunningOwn.promote {waiting : List ℕ} (hb : 1 ≤ cfg.blockSize)
    (hh : Holds cfg s (r :: waiting ++ s.running)) (hr : RunningOwn s)
    (hres : reserveBlocks cfg s r = .ok (true, s')) : RunningOwn (s'.startRunning r) := by
  have hnot : r ∉ s.running := hh.not_mem_running
  obtain ⟨hother, hcover⟩ := reserveBlocks_spec hres
  intro q hq
  show ((s'.setSeq r _).seqs q).blockTable ≠ []
  by_cases hqr : q = r
  · subst hqr
    rw [setSeq_self]
    -- the reserve is at least one token, so the table covers at least one block
    have hle := hcover rfl
    rw [hh.size.1] at hle
    have hpos : 1 ≤ ((s.seqs q).numTokens + reserveTokens cfg + cfg.blockSize - 1) /
        cfg.blockSize := by
      have := one_le_reserveTokens cfg
      rw [Nat.one_le_div_iff hb]
      omega
    have hlen : 1 ≤ (s'.seqs q).blockTable.length := le_trans hpos hle
    exact List.ne_nil_of_length_pos hlen
  · have hq' : q ∈ s.running ++ [r] := by
      rw [← (reserveBlocks_lists hres).1]
      exact hq
    rw [setSeq_of_ne _ _ hqr, hother q hqr]
    exact hr q (by simpa [hqr] using hq')

theorem RunningOwn.scheduleLoop {waiting scheduled scheduled' : List ℕ} (hb : 1 ≤ cfg.blockSize)
    (hh : Holds cfg s (waiting ++ s.running)) (hr : RunningOwn s)
    (h : Scheduler.scheduleLoop cfg waiting s scheduled = .ok (s', scheduled')) :
    RunningOwn s' := by
  obtain ⟨w, s₁, h₁, rfl⟩ :=
    scheduleLoop_invariant (P := fun w s₁ _ => Holds cfg s₁ (w ++ s₁.running) ∧ RunningOwn s₁)
      (fun _ _ _ _ _ h₁ hres => ⟨h₁.1.defer hres, .defer h₁.1 h₁.2 hres⟩)
      (fun _ _ _ _ _ h₁ _ hres => ⟨h₁.1.promote hres, .promote hb h₁.1 h₁.2 hres⟩) ⟨hh, hr⟩ h
  exact h₁.2

end Scheduler

namespace LLMEngine

open ToyModelAdapter (alternating)

variable {τ R R' : Type*} [LinearOrder R] [LinearOrder R'] [Zero R'] {V V' : ℕ} {cfg : SSDConfig}
  {target : DecodeModelAdapter τ R V} {draft : DraftModel R' V'} {sampling : SamplingParams}
  {e e' : LLMEngine τ cfg.speculateK V' R'} {g g' : Generation τ cfg.speculateK V' R'}

/-- What holds of every engine between requests: pages are conserved, nothing has ever been finished
and every running sequence holds a block. -/
structure Unreleased (cfg : SSDConfig) (e : LLMEngine τ cfg.speculateK V' R') : Prop where
  holds : e.scheduler.Holds cfg (e.scheduler.waiting ++ e.scheduler.running)
  finished : e.scheduler.finished = []
  runningOwn : e.scheduler.RunningOwn

omit [LinearOrder R'] in
theorem unreleased_init {t : τ} (h : init cfg t = some e) : Unreleased cfg e := by
  have hs := (init_cases h).1
  refine ⟨?_, ?_, ?_⟩
  · rw [hs]
    exact Scheduler.holds_init cfg
  · rw [hs]
    rfl
  · rw [hs]
    intro r hr
    cases hr

omit [LinearOrder R'] [Zero R'] in
theorem Unreleased.admitPrompt {prompt : List Token} {a : LLMEngine τ cfg.speculateK V' R' × ℕ}
    (hb : 1 ≤ cfg.blockSize) (h : Unreleased cfg e) (ha : admitPrompt cfg e prompt = some a) :
    Unreleased cfg a.1 ∧ a.2 ∈ a.1.scheduler.waiting ++ a.1.scheduler.running := by
  have hadm := admission_of_admitPrompt ha
  obtain ⟨s, hs, rfl⟩ := Option.map_eq_some_iff.mp ha
  have hs := toOption_eq_some.mp hs
  have hadd : Scheduler.Holds cfg (e.scheduler.addRequest prompt).1
      ((e.scheduler.addRequest prompt).1.waiting ++ (e.scheduler.addRequest prompt).1.running) :=
    h.holds.step (.addRequest _ prompt)
  have hown : (e.scheduler.addRequest prompt).1.RunningOwn := by
    intro q hq
    have hlt : q < e.scheduler.nextId :=
      h.holds.lt q (List.mem_append_left _ (List.mem_append_right _ hq))
    show ((e.scheduler.setSeq e.scheduler.nextId _).seqs q).blockTable ≠ []
    rw [Scheduler.setSeq_of_ne _ _ hlt.ne]
    exact h.runningOwn q hq
  refine ⟨⟨hadd.scheduleLoop hs, hadm.admits.finished.trans h.finished,
    hown.scheduleLoop hb hadd hs⟩, ?_⟩
  apply hadm.admits.perm.mem_iff.mpr
  rw [hadm.ref]
  simp

theorem Unreleased.servePrompt {prompt : List Token} (hb : 1 ≤ cfg.blockSize)
    (h : Unreleased cfg g.engine)
    (hs : servePrompt cfg target draft sampling g prompt = some g') :
    Unreleased cfg g'.engine ∧ g'.engine.scheduler.nextId = g.engine.scheduler.nextId + 1 := by
  obtain ⟨a, s, w, ha, hrun, hsch, _⟩ := servePrompt_cases hs
  obtain ⟨⟨hholds, hfin, hown⟩, hmem⟩ := h.admitPrompt hb ha
  have hsame := runMode_sameRequest hrun
  refine ⟨⟨?_, ?_, fun q hq => ?_⟩, ?_⟩
  · rw [hsch]
    exact hholds.setSeq hmem hsame.seqId hsame.blocks_eq
  · rw [hsch]
    exact hfin
  · rw [hsch] at hq ⊢
    by_cases hqr : q = a.2
    · subst hqr
      rw [Scheduler.setSeq_self, hsame.blockTable]
      exact hown _ hq
    · rw [Scheduler.setSeq_of_ne _ _ hqr]
      exact hown q hq
  · rw [hsch]
    exact (admission_of_admitPrompt ha).admits.nextId

theorem Reachable.unreleased {t : τ} (hb : 1 ≤ cfg.blockSize)
    (h : Reachable cfg target draft t e) : Unreleased cfg e := by
  refine h.invariant (fun e he => unreleased_init he) (fun e prompt a t' he ha => ?_)
    fun sampling g prompt g' hg hs => (hg.servePrompt hb hs).1
  obtain ⟨⟨hholds, hfin, hown⟩, _⟩ := he.admitPrompt hb ha
  exact ⟨hholds, hfin, hown⟩

theorem lt_nextId_of_generate {prompt : List Token} {prompts : List (List Token)}
    (hb : 1 ≤ cfg.blockSize) (h : Unreleased cfg e)
    (hg : generate cfg target draft sampling e (prompt :: prompts) = some g) :
    e.scheduler.nextId < g.engine.scheduler.nextId := by
  obtain ⟨g₁, h₁, h₂⟩ := Option.bind_eq_some_iff.mp hg
  obtain ⟨hu₁, hnext⟩ := Unreleased.servePrompt hb h h₁
  have hle := generateLoop_invariant (P := fun g => Unreleased cfg g.engine ∧
      g₁.engine.scheduler.nextId ≤ g.engine.scheduler.nextId)
    (fun g prompt g' hg hs => by
      obtain ⟨hu, hn⟩ := hg.1.servePrompt hb hs
      exact ⟨hu, by omega⟩) ⟨hu₁, le_rfl⟩ h₂
  have hnext : g₁.engine.scheduler.nextId = e.scheduler.nextId + 1 := hnext
  omega

/-- What a call of `generate` from `e` with result `g` should do: every decode loop starts on an
admitted sequence, and afterwards all sequences of the call are finished, none is running and every
block is free. -/
structure Lifecycle (cfg : SSDConfig) (target : DecodeModelAdapter τ R V) (draft : DraftModel R' V')
    (sampling : SamplingParams) (e : LLMEngine τ cfg.speculateK V' R') (prompts : List (List Token))
    (g : Generation τ cfg.speculateK V' R') : Prop where
  admitted : ∀ before prompt after, prompts = before ++ prompt :: after →
    ∀ g₁ a, generate cfg target draft sampling e before = some g₁ →
      admitPrompt cfg g₁.engine prompt = some a → a.1.scheduler.Admitted cfg a.2
  finished : ∀ r, e.scheduler.nextId ≤ r → r < g.engine.scheduler.nextId →
    (g.engine.scheduler.seqs r).status = .finished ∧ r ∈ g.engine.scheduler.finished
  running : g.engine.scheduler.running = []
  free : g.engine.scheduler.pageManager.freeBlocks.length = cfg.numBlocks

omit [LinearOrder R'] [Zero R'] in
theorem Unreleased.running_eq_nil (h : Unreleased cfg e)
    (hfree : e.scheduler.pageManager.freeBlocks.length = cfg.numBlocks) :
    e.scheduler.running = [] := by
  have hlen := h.holds.owns.perm.length_eq
  rw [List.length_append, List.length_range, h.holds.size.2] at hlen
  have hheld : e.scheduler.held (e.scheduler.waiting ++ e.scheduler.running) = [] := by
    apply List.eq_nil_of_length_eq_zero
    show _ = 0
    have hinit : (PageManager.init cfg.blockSize cfg.numBlocks).numBlocks = cfg.numBlocks := rfl
    omega
  apply List.eq_nil_iff_forall_not_mem.mpr
  intro r hr
  apply h.runningOwn r hr
  have hblocks := List.flatMap_eq_nil_iff.mp hheld r (List.mem_append_right _ hr)
  exact (List.append_eq_nil_iff.mp hblocks).1

/-- **The lifecycle of a request.** For a reachable engine and a call that returns: the call treats
its requests as it should exactly when it has none and the pool is idle. -/
theorem lifecycle_iff (hb : 1 ≤ cfg.blockSize) {t : τ} (he : Reachable cfg target draft t e)
    {prompts : List (List Token)} (hg : generate cfg target draft sampling e prompts = some g) :
    Lifecycle cfg target draft sampling e prompts g ↔
      prompts = [] ∧ e.scheduler.pageManager.freeBlocks.length = cfg.numBlocks := by
  have hu := he.unreleased hb
  constructor
  · intro hl
    cases prompts with
    | nil =>
      obtain rfl := Option.some.inj hg
      exact ⟨rfl, hl.free⟩
    | cons prompt prompts =>
      have hfin : g.engine.scheduler.finished = [] :=
        (Reachable.unreleased hb (he.generate sampling _ hg)).finished
      have hmem := (hl.finished _ le_rfl (lt_nextId_of_generate hb hu hg)).2
      rw [hfin] at hmem
      cases hmem
  · rintro ⟨rfl, hfree⟩
    obtain rfl := Option.some.inj hg
    refine ⟨fun before prompt after heq => ?_, fun r h1 h2 => ?_, hu.running_eq_nil hfree, hfree⟩
    · simp at heq
    · exact absurd (lt_of_le_of_lt h1 h2) (lt_irrefl _)

/-- One prompt on a new engine: its sequence is still running when the call returns. -/
theorem lifecycle_one_prompt :
    ∃ e g, init { numBlocks := 4 } () = some e ∧
      generate { numBlocks := 4 } alternating.adapter alternating.draftSpeculate
        { maxNewTokens := 1 } e [[1]] = some g ∧
      ¬ Lifecycle { numBlocks := 4 } alternating.adapter alternating.draftSpeculate
        { maxNewTokens := 1 } e [[1]] g := by
  refine ⟨_, _, rfl, rfl, fun h => ?_⟩
  have hfin := (h.finished 0 (by decide) (by decide)).1
  cases hfin

theorem lifecycle_iff_no_prompts :
    ∃ e g, init { numBlocks := 4 } () = some e ∧
      generate { numBlocks := 4 } alternating.adapter alternating.draftSpeculate {} e [] = some g ∧
      Lifecycle { numBlocks := 4 } alternating.adapter alternating.draftSpeculate {} e [] g :=
  ⟨_, _, rfl, rfl, (lifecycle_iff (by decide) (.init rfl) rfl).mpr ⟨rfl, rfl⟩⟩

end LLMEngine

end SsdTpu
