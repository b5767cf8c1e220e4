import SsdTpu.AsyncProtocol
import SsdTpu.Driven

/-!
# `_run_ssd` on two threads

The engine thread runs `_run_ssd`, with its own variables, and talks to the draft worker thread
through the two queues. `runSsd` makes one function call of each `submit` and `get_response`. As
long as no `get_response` times out the two are the same:

1. `ssdProgram` is the engine thread: what it asks next, and what it does from one `get_response` to
   the next `submit`.
2. Its turns are the passes of the loop of `runSsd` (`turns_of_run`, `stuck_of_run`).
3. Every interleaving ends as `runSsd` does (`threads_runSsd`). The two threads never work at the
   same time: while the engine thread verifies, the worker has no request.
-/

namespace SsdTpu

variable {τ R R' : Type*} [LinearOrder R] {V V' : ℕ} {cfg : SSDConfig}
  {target : DecodeModelAdapter τ R V} {maxNewTokens : ℤ}

/-- The variables of `_run_ssd` and the request that it submits next. -/
structure SsdThread (τ : Type*) extends Decoding τ where
  pending : Option (DraftRequest 1)

/-- From the start to the first `submit`. -/
def ssdThreadStart (cfg : SSDConfig) (target : DecodeModelAdapter τ R V) (seq : Sequence) (t : τ)
    (metrics : RunMetrics) : Option (SsdThread τ) :=
  (specStart cfg target seq t metrics).map fun s =>
    { s with pending := some (draftRequest s.seq.seqId 0 s.token) }

/-- From a `get_response` to the next `submit`, or to the end. -/
def ssdThreadResume (cfg : SSDConfig) (target : DecodeModelAdapter τ R V) (maxNewTokens : ℤ)
    (s : Decoding τ) (draftResp : DraftResponse 1 cfg.speculateK V' R') : SsdThread τ :=
  if s.unfinished maxNewTokens then
    let spec := List.ofFn (draftResp.specTokens 0)
    let r := verifyRound cfg target spec (draftResp.cacheHit 0) s
    { r.2 with
      pending :=
        if r.2.unfinished maxNewTokens then some (draftRequest r.2.seq.seqId r.1 r.2.token)
        else none }
  else { s with pending := none }

def ssdProgram (cfg : SSDConfig) (target : DecodeModelAdapter τ R V) (maxNewTokens : ℤ) :
    Rpc.Program (SsdThread τ) (DraftRequest 1) (DraftResponse 1 cfg.speculateK V' R') where
  ask := SsdThread.pending
  resume g draftResp := ssdThreadResume cfg target maxNewTokens g.toDecoding draftResp

/-! ## Turns and passes -/

section Turns

variable {ω : Type*} {serve : Serve ω cfg.speculateK V' R'}
  {s s' : SsdState τ ω cfg.speculateK V' R'} {n : ℕ}

/-- The engine thread after the response of a loop state. -/
def SsdState.thread (target : DecodeModelAdapter τ R V) (maxNewTokens : ℤ)
    (s : SsdState τ ω cfg.speculateK V' R') : SsdThread τ × ω :=
  (ssdThreadResume cfg target maxNewTokens s.toDecoding s.draftResp, s.worker)

/-- The engine thread when `_run_ssd` returns. -/
def SsdState.returned {k : ℕ} (s : SsdState τ ω k V' R') : SsdThread τ × ω :=
  ({ s.toDecoding with pending := none }, s.worker)

theorem thread_of_finished (h : s.unfinished maxNewTokens = false) :
    s.thread target maxNewTokens = s.returned := by
  unfold SsdState.thread ssdThreadResume
  have h : s.toDecoding.unfinished maxNewTokens = false := h
  rw [h]
  rfl

variable (target serve) in
/-- A pass that makes a request is a turn; one that makes none is the last. -/
theorem thread_of_step (h : s.unfinished maxNewTokens = true) :
    (∃ x, (s.thread target maxNewTokens).1.pending = some x ∧
      (serve s.worker x = none ∧ ssdStep cfg target serve maxNewTokens s = none ∨
        ∃ s', ssdStep cfg target serve maxNewTokens s = some s' ∧
          Rpc.turn (ssdProgram cfg target maxNewTokens) serve (s.thread target maxNewTokens) =
            some (s'.thread target maxNewTokens))) ∨
      ∃ s', ssdStep cfg target serve maxNewTokens s = some s' ∧
        s'.unfinished maxNewTokens = false ∧ s.thread target maxNewTokens = s'.returned := by
  have h : s.toDecoding.unfinished maxNewTokens = true := h
  set r := verifyRound cfg target (List.ofFn (s.draftResp.specTokens 0)) (s.draftResp.cacheHit 0)
    s.toDecoding with hr
  by_cases hc : r.2.unfinished maxNewTokens = true
  · have hthread : s.thread target maxNewTokens =
        ({ r.2 with pending := some (draftRequest r.2.seq.seqId r.1 r.2.token) }, s.worker) := by
      unfold SsdState.thread ssdThreadResume
      rw [if_pos h]
      simp only [← hr, if_pos hc]
    have hstep : ssdStep cfg target serve maxNewTokens s =
        (serve s.worker (draftRequest r.2.seq.seqId r.1 r.2.token)).map fun a =>
          { r.2 with worker := a.2, draftResp := a.1 } := by
      unfold ssdStep
      simp only [← hr, if_pos hc]
    refine .inl ⟨draftRequest r.2.seq.seqId r.1 r.2.token, by rw [hthread], ?_⟩
    cases hserve : serve s.worker (draftRequest r.2.seq.seqId r.1 r.2.token) with
    | none =>
      refine .inl ⟨rfl, ?_⟩
      rw [hstep, hserve]
      rfl
    | some a =>
      refine .inr ⟨{ r.2 with worker := a.2, draftResp := a.1 }, ?_, ?_⟩
      · rw [hstep, hserve]
        rfl
      · rw [hthread]
        unfold Rpc.turn
        show (some _).bind _ = _
        rw [Option.bind_some, hserve]
        rfl
  · have hc : r.2.unfinished maxNewTokens = false := by simpa using hc
    refine .inr ⟨{ r.2 with worker := s.worker, draftResp := s.draftResp }, ?_, hc, ?_⟩
    · unfold ssdStep
      simp only [← hr, hc]
      rfl
    · unfold SsdState.thread ssdThreadResume
      rw [if_pos h]
      simp only [← hr, hc]
      rfl

theorem turns_of_run
    (h : Loop.run (SsdState.unfinished maxNewTokens) (ssdStep cfg target serve maxNewTokens) n s =
      some s') :
    Rpc.Turns (ssdProgram cfg target maxNewTokens) serve (s.thread target maxNewTokens)
      s'.returned := by
  induction n generalizing s with
  | zero =>
    unfold Loop.run at h
    split_ifs at h with hc
    obtain rfl := Option.some.inj h
    rw [thread_of_finished (by simpa using hc)]
    exact .refl
  | succ n ih =>
    by_cases hc : s.unfinished maxNewTokens = true
    · rcases thread_of_step target serve hc with
        ⟨x, -, ⟨-, hstep⟩ | ⟨s₁, hstep, hturn⟩⟩ | ⟨s₁, hstep, hfin, hthread⟩
      · unfold Loop.run at h
        rw [if_pos hc, hstep] at h
        cases h
      · rw [Loop.run_succ_of hc hstep] at h
        exact .head hturn (ih h)
      · rw [Loop.run_succ_of hc hstep, Loop.run_of_not hfin] at h
        obtain rfl := Option.some.inj h
        rw [hthread]
        exact .refl
    · have hc : s.unfinished maxNewTokens = false := by simpa using hc
      rw [Loop.run_of_not hc] at h
      obtain rfl := Option.some.inj h
      rw [thread_of_finished hc]
      exact .refl

/-- Where `runSsd` fails, the worker has a request that it cannot serve. -/
theorem stuck_of_run (hn : s.toDecoding.room maxNewTokens ≤ n)
    (h : Loop.run (SsdState.unfinished maxNewTokens) (ssdStep cfg target serve maxNewTokens) n s =
      none) :
    ∃ p x, Rpc.Turns (ssdProgram cfg target maxNewTokens) serve (s.thread target maxNewTokens) p ∧
      p.1.pending = some x ∧ serve p.2 x = none := by
  induction n generalizing s with
  | zero =>
    exfalso
    unfold Loop.run at h
    split_ifs at h with hc
    have hlt := Sequence.not_isFinished_none.mp hc
    unfold Decoding.room at hn
    omega
  | succ n ih =>
    by_cases hc : s.unfinished maxNewTokens = true
    · rcases thread_of_step target serve hc with
        ⟨x, hx, ⟨hserve, -⟩ | ⟨s₁, hstep, hturn⟩⟩ | ⟨s₁, hstep, hfin, -⟩
      · exact ⟨_, x, .refl, hx, hserve⟩
      · have hroom : s₁.toDecoding.room maxNewTokens < s.toDecoding.room maxNewTokens := by
          rw [ssdStep_toDecoding hstep]
          exact verifyRound_room _ _ _ _ _ hc
        rw [Loop.run_succ_of hc hstep] at h
        obtain ⟨p, y, hp, hy, hserve⟩ := ih (by omega) h
        exact ⟨p, y, .head hturn hp, hy, hserve⟩
      · rw [Loop.run_succ_of hc hstep, Loop.run_of_not hfin] at h
        cases h
    · rw [Loop.run_of_not (by simpa using hc)] at h
      cases h

variable {seq : Sequence} {t : τ} {w : ω} {metrics : RunMetrics} {g : SsdThread τ}

variable (maxNewTokens serve w) in
theorem turns_of_runSsd (hg : ssdThreadStart cfg target seq t metrics = some g) :
    match runSsd cfg target serve maxNewTokens maxNewTokens.toNat seq t w metrics with
    | some s => Rpc.Turns (ssdProgram cfg target maxNewTokens) serve (g, w) s.returned
    | none => ∃ p x, Rpc.Turns (ssdProgram cfg target maxNewTokens) serve (g, w) p ∧
        p.1.pending = some x ∧ serve p.2 x = none := by
  obtain ⟨d, hd, rfl⟩ := Option.map_eq_some_iff.mp hg
  unfold runSsd ssdStart
  rw [hd, Option.bind_some]
  cases hserve : serve w (draftRequest d.seq.seqId 0 d.token) with
  | none => exact ⟨_, _, .refl, rfl, hserve⟩
  | some a =>
    set s : SsdState τ ω cfg.speculateK V' R' := { d with worker := a.2, draftResp := a.1 } with hs
    have hturn : Rpc.turn (ssdProgram cfg target maxNewTokens) serve
        ({ d with pending := some (draftRequest d.seq.seqId 0 d.token) }, w) =
          some (s.thread target maxNewTokens) := by
      unfold Rpc.turn
      show (some _).bind _ = _
      rw [Option.bind_some, hserve]
      rfl
    show match Loop.run (SsdState.unfinished maxNewTokens)
      (ssdStep cfg target serve maxNewTokens) maxNewTokens.toNat s with | some s => _ | none => _
    cases hrun : Loop.run (SsdState.unfinished maxNewTokens)
        (ssdStep cfg target serve maxNewTokens) maxNewTokens.toNat s with
    | some s' => exact .head hturn (turns_of_run hrun)
    | none =>
      obtain ⟨p, x, hp, hx, hnone⟩ := stuck_of_run (Decoding.room_le le_rfl) hrun
      exact ⟨p, x, .head hturn hp, hx, hnone⟩

end Turns

/-! ## The two threads -/

section Threads

open Rpc

variable [LinearOrder R'] [Zero R'] {draft : DraftModel R' V'} {seq : Sequence} {t : τ}
  {w : DraftWorker cfg.speculateK V' R'} {metrics : RunMetrics} {g : SsdThread τ}
  {c : SsdThread τ × DraftWorker.Net cfg V' R'}

/-- **`_run_ssd` on two threads.** Whatever the interleaving of the engine thread, from its first
`submit` on, with an idle worker thread, when no `get_response` times out: unless the engine thread
is in `get_response`, no message is underway and the worker has nothing to do; each response is to
the request before it; and if the engine thread has returned, then with what `runSsd` returns. If
`runSsd` returns, then the threads get there from every state, stop only there, and do stop. -/
theorem threads_runSsd (hg : ssdThreadStart cfg target seq t metrics = some g)
    (hc : Driven (ssdProgram cfg target maxNewTokens) (DraftWorker.handle cfg draft) g w c) :
    (c.2.waiting = none → c.2.requestQueue = [] ∧ c.2.serving = none ∧ c.2.responseQueue = []) ∧
    (∀ p r, .received p r ∈ c.2.log → r.1 = p.1) ∧
    (c.2.waiting = none → c.1.pending = none → ∃ s,
      runSsd cfg target (DraftWorker.handle cfg draft) maxNewTokens maxNewTokens.toNat seq t w
        metrics = some s ∧ Idle s.returned c) ∧
    ∀ s, runSsd cfg target (DraftWorker.handle cfg draft) maxNewTokens maxNewTokens.toNat seq t w
        metrics = some s →
      (∃ c', Relation.ReflTransGen
        (Drive (ssdProgram cfg target maxNewTokens) (DraftWorker.handle cfg draft)) c c' ∧
          Idle s.returned c') ∧
      ((∀ c', ¬ Drive (ssdProgram cfg target maxNewTokens) (DraftWorker.handle cfg draft) c c') →
        Idle s.returned c) ∧
      ¬ ∃ f : ℕ → SsdThread τ × DraftWorker.Net cfg V' R', f 0 = c ∧ ∀ n,
        Drive (ssdProgram cfg target maxNewTokens) (DraftWorker.handle cfg draft) (f n)
          (f (n + 1)) := by
  have hturns := turns_of_runSsd maxNewTokens (DraftWorker.handle cfg draft) w hg
  refine ⟨fun hwait => ?_, fun p r hr => (hc.corresponds hr).1, fun hwait hdone => ?_,
    fun s hs => ?_⟩
  · obtain ⟨p, n, -, hphase⟩ := hc.phase
    cases hphase with
    | idle h => exact ⟨h.requestQueue, h.serving, h.responseQueue⟩
    | asked _ _ _ hw | serving _ _ _ hw | answered _ _ _ hw =>
      rw [hwait] at hw
      cases hw
  · obtain ⟨p, hp, hask, hidle⟩ := hc.final hwait hdone
    cases hrun : runSsd cfg target (DraftWorker.handle cfg draft) maxNewTokens maxNewTokens.toNat
        seq t w metrics with
    | some s =>
      rw [hrun] at hturns
      have hlast : s.returned = p := (hp.unique hturns hask).eq_of_none (turn_of_done rfl)
      exact ⟨s, rfl, hlast ▸ hidle⟩
    | none =>
      -- the worker would have to serve a request that it cannot serve
      rw [hrun] at hturns
      obtain ⟨q, x, hq, hx, hnone⟩ := hturns
      have hstuck : turn (ssdProgram cfg target maxNewTokens) (DraftWorker.handle cfg draft) q =
          none := by
        unfold turn
        rw [show (ssdProgram cfg target maxNewTokens).ask q.1 = some x from hx, Option.bind_some,
          hnone]
        rfl
      obtain rfl := (hp.unique hq hask).eq_of_none hstuck
      rw [show (ssdProgram cfg target maxNewTokens).ask q.1 = some x from hx] at hask
      cases hask
  · rw [hs] at hturns
    obtain ⟨p, n, hp, hphase⟩ := hc.phase
    have hrest := hturns.unique hp rfl
    refine ⟨hphase.complete hrest rfl, fun hstop => hphase.final hrest hstop rfl, ?_⟩
    exact fun hforever => not_acc_iff_exists_descending_chain.mpr hforever (hphase.acc hrest rfl)

open ToyModelAdapter (alternating)

theorem threads_runSsd_alternating :
    ∃ (w : DraftWorker 1 3 ℚ) (g : SsdThread Unit)
      (c : SsdThread Unit × DraftWorker.Net { mode := .ssd, speculateK := 1 } 3 ℚ)
      (s : SsdState Unit (DraftWorker 1 3 ℚ) 1 3 ℚ),
      DraftWorker.start { mode := .ssd, speculateK := 1 } = some w ∧
      ssdThreadStart { mode := .ssd, speculateK := 1 } alternating.adapter
        { seqId := 0, promptTokenIds := [1] } () {} = some g ∧
      Driven (ssdProgram { mode := .ssd, speculateK := 1 } alternating.adapter 3)
        (DraftWorker.handle { mode := .ssd, speculateK := 1 } alternating.draftSpeculate) g w c ∧
      c.2.serving.isSome ∧
      runSsd { mode := .ssd, speculateK := 1 } alternating.adapter
        (DraftWorker.handle { mode := .ssd, speculateK := 1 } alternating.draftSpeculate) 3 3
        { seqId := 0, promptTokenIds := [1] } () w {} = some s ∧
      ∃ c', Relation.ReflTransGen
        (Drive (ssdProgram { mode := .ssd, speculateK := 1 } alternating.adapter 3)
          (DraftWorker.handle { mode := .ssd, speculateK := 1 } alternating.draftSpeculate)) c c' ∧
        Idle s.returned c' := by
  obtain ⟨w, hw⟩ : ∃ w : DraftWorker 1 3 ℚ,
      DraftWorker.start { mode := .ssd, speculateK := 1 } = some w := ⟨_, rfl⟩
  obtain ⟨g, x, hg, hask⟩ : ∃ g x,
      ssdThreadStart { mode := .ssd, speculateK := 1 } alternating.adapter
        { seqId := 0, promptTokenIds := [1] } () {} = some g ∧ g.pending = some x :=
    ⟨_, _, rfl, rfl⟩
  have hrun : (runSsd { mode := .ssd, speculateK := 1 } alternating.adapter
      (DraftWorker.handle { mode := .ssd, speculateK := 1 } alternating.draftSpeculate) 3 3
      { seqId := 0, promptTokenIds := [1] } () w {}).isSome := by
    obtain rfl := Option.some.inj hw
    decide +kernel
  obtain ⟨s, hs⟩ := Option.isSome_iff_exists.mp hrun
  have h₀ : Driven (ssdProgram { mode := .ssd, speculateK := 1 } alternating.adapter 3)
      (DraftWorker.handle { mode := .ssd, speculateK := 1 } alternating.draftSpeculate) g w
      (g, { server := w }) := .refl
  have h₁ := h₀.tail (.submit rfl hask)
  have h₂ := h₁.tail (.take rfl rfl rfl)
  exact ⟨w, g, _, s, hw, hg, h₂, rfl, hs, ((threads_runSsd hg h₂).2.2.2 s hs).1⟩

end Threads

end SsdTpu
