import SsdTpu.Rpc
import SsdTpu.Engine
import SsdTpu.ToyModel

/-!
# The engine thread and the draft worker thread

`submit` and `get_response` of the engine thread and `_loop` of the worker thread, over
`request_queue` and `response_queue`. `get_response` raises `queue.Empty` when nothing has come in
30 seconds; the worker goes on with the request, and puts its response into the queue later.
`set_context` writes to the worker's state when the engine thread is not waiting. `_handle` is one
step, at the time of its response, so that a context set in the middle of it counts as set before;
where it raises there is no such step and the worker stays with its request.

Neither side empties a queue or checks what a response belongs to, so that after a timeout every
later response is for an earlier request (`correspondence_iff`). Until then a `submit` and its
`get_response` are together one call of `_handle`, as they are in `_run_ssd`
(`NetReachable.serial`).
-/

namespace SsdTpu

namespace DraftWorker

variable {R : Type*} [LinearOrder R] [Zero R] {V : ℕ}

/-- `resp = self._handle(req)`. -/
def Serves (cfg : SSDConfig) (draft : DraftModel R V) (w : DraftWorker cfg.speculateK V R)
    (req : DraftRequest 1) (resp : DraftResponse 1 cfg.speculateK V R)
    (w' : DraftWorker cfg.speculateK V R) : Prop :=
  handle cfg draft w req = some (resp, w')

def SetsContext {K : ℕ} (w w' : DraftWorker K V R) : Prop := ∃ tokens, w' = w.setContext tokens

/-- The two threads and their queues. -/
abbrev Net (cfg : SSDConfig) (V : ℕ) (R : Type*) :=
  Rpc.State (DraftWorker cfg.speculateK V R) (DraftRequest 1) (DraftResponse 1 cfg.speculateK V R)

/-- The states reached from a started worker and empty queues, for any requests, contexts and
interleaving. -/
def NetReachable (cfg : SSDConfig) (draft : DraftModel R V) (s : Net cfg V R) : Prop :=
  ∃ w, start cfg = some w ∧ Rpc.Reachable (Serves cfg draft) SetsContext { server := w } s

variable {cfg : SSDConfig} {draft : DraftModel R V} {s : Net cfg V R}

/-! ## One call at a time -/

theorem run_of_serial {w w' : DraftWorker cfg.speculateK V R}
    {es : List (DraftRequest 1 × DraftResponse 1 cfg.speculateK V R)} (hw : start cfg = some w)
    (h : Rpc.Serial (Serves cfg draft) SetsContext w es w') : Run cfg draft w' := by
  induction h with
  | start => exact .start hw
  | poke _ hp ih =>
    obtain ⟨tokens, rfl⟩ := hp
    exact ih.setContext tokens
  | call _ hs ih => exact ih.handle hs

theorem NetReachable.run (h : NetReachable cfg draft s) : Run cfg draft s.server := by
  obtain ⟨w, hw, hreach⟩ := h
  obtain ⟨trace, ht⟩ := hreach.traced
  exact run_of_serial hw ht.serial

/-- Without timeouts the responses are those of calls of `handle`, one after the other. -/
theorem NetReachable.serial (h : NetReachable cfg draft s) (hno : .timedOut ∉ s.log)
    (hidle : s.waiting = none) :
    ∃ w, start cfg = some w ∧
      Rpc.Serial (Serves cfg draft) SetsContext w (Rpc.exchanges s.log) s.server := by
  obtain ⟨w, hw, hreach⟩ := h
  exact ⟨w, hw, hreach.serial hno hidle⟩

/-! ## Correspondence -/

/-- **Request and response correspond**, that is, each `get_response` returns what `_handle` gave
for the request submitted just before, in exactly those runs in which no `get_response` returns
after one has timed out. -/
theorem correspondence_iff (h : NetReachable cfg draft s) :
    (∀ p r, .received p r ∈ s.log →
        r.1 = p.1 ∧ ∃ w w', handle cfg draft w p.2 = some (r.2, w')) ↔
      ∀ before p r after, s.log = before ++ .received p r :: after → .timedOut ∉ before := by
  obtain ⟨w, _, hreach⟩ := h
  exact Rpc.corresponds_iff hreach

open ToyModelAdapter (alternating)

/-- The request of a first `generate` times out, and that of a second one gets its response. -/
theorem correspondence_late_answer :
    ∃ s : Net { mode := .ssd, speculateK := 1 } 3 ℚ,
      NetReachable { mode := .ssd, speculateK := 1 } alternating.draftSpeculate s ∧
      ¬ ∀ p r, .received p r ∈ s.log → r.1 = p.1 ∧ ∃ w w',
        handle { mode := .ssd, speculateK := 1 } alternating.draftSpeculate w p.2 =
          some (r.2, w') := by
  obtain ⟨w, hw, ⟨resp, w'⟩, h⟩ : ∃ w : DraftWorker 1 3 ℚ,
      start { mode := .ssd, speculateK := 1 } = some w ∧
      ∃ x, handle { mode := .ssd, speculateK := 1 } alternating.draftSpeculate w
        (draftRequest 0 0 2) = some x := ⟨_, rfl, _, rfl⟩
  have h₀ : Rpc.Reachable (Serves { mode := .ssd, speculateK := 1 } alternating.draftSpeculate)
      SetsContext { server := w } { server := w } := .refl
  have h₁ := h₀.tail (.submit (draftRequest 0 0 2) rfl)
  have h₂ := h₁.tail (.take rfl rfl rfl)
  have h₃ := h₂.tail (.timeout rfl rfl)
  have h₄ := h₃.tail (.submit (draftRequest 1 0 1) rfl)
  have h₅ := h₄.tail (.answer rfl h)
  have h₆ := h₅.tail (.receive rfl rfl)
  obtain ⟨s, hs, hlog⟩ : ∃ s : Net { mode := .ssd, speculateK := 1 } 3 ℚ,
      NetReachable { mode := .ssd, speculateK := 1 } alternating.draftSpeculate s ∧
      s.log = [.timedOut, .received (1, draftRequest 1 0 1) (0, resp)] := ⟨_, ⟨w, hw, h₆⟩, rfl⟩
  refine ⟨s, hs, fun hc => ?_⟩
  obtain ⟨hnum, _⟩ := hc (1, draftRequest 1 0 1) (0, resp) (by rw [hlog]; simp)
  cases hnum

theorem correspondence_iff_in_time :
    ∃ (s : Net { mode := .ssd, speculateK := 1 } 3 ℚ) (p : ℕ × DraftRequest 1)
      (r : ℕ × DraftResponse 1 1 3 ℚ),
      NetReachable { mode := .ssd, speculateK := 1 } alternating.draftSpeculate s ∧
      s.log = [.received p r] ∧ r.1 = p.1 ∧ ∃ w w',
        handle { mode := .ssd, speculateK := 1 } alternating.draftSpeculate w p.2 =
          some (r.2, w') := by
  obtain ⟨w, hw, ⟨resp, w'⟩, h⟩ : ∃ w : DraftWorker 1 3 ℚ,
      start { mode := .ssd, speculateK := 1 } = some w ∧
      ∃ x, handle { mode := .ssd, speculateK := 1 } alternating.draftSpeculate w
        (draftRequest 0 0 2) = some x := ⟨_, rfl, _, rfl⟩
  have h₀ : Rpc.Reachable (Serves { mode := .ssd, speculateK := 1 } alternating.draftSpeculate)
      SetsContext { server := w } { server := w } := .refl
  have h₁ := h₀.tail (.submit (draftRequest 0 0 2) rfl)
  have h₂ := h₁.tail (.take rfl rfl rfl)
  have h₃ := h₂.tail (.answer rfl h)
  have h₄ := h₃.tail (.receive rfl rfl)
  obtain ⟨s, hs, hlog⟩ : ∃ s : Net { mode := .ssd, speculateK := 1 } 3 ℚ,
      NetReachable { mode := .ssd, speculateK := 1 } alternating.draftSpeculate s ∧
      s.log = [.received (0, draftRequest 0 0 2) (0, resp)] := ⟨_, ⟨w, hw, h₄⟩, rfl⟩
  refine ⟨s, _, _, hs, hlog, (correspondence_iff hs).mpr ?_ _ _ (by rw [hlog]; simp)⟩
  intro before p r after heq
  rw [hlog] at heq
  cases before with
  | nil => simp
  | cons e before => simp at heq

/-! ## Shutdown -/

/-- **After `stop`** the worker answers nothing: once its loop has ended, whatever the engine does,
the responses that `get_response` returns are those that were in the queue by then, in their order,
and the others stay there; a call that finds the queue empty raises. If none had raised before, and
the loop ended between two calls, all of them raise. -/
theorem silent_of_stop (h : NetReachable cfg draft s) (hstop : s.running = false) {s' : Net cfg V R}
    (hs : Relation.ReflTransGen (Rpc.Step (Serves cfg draft) SetsContext) s s') :
    ∃ es, s'.log = s.log ++ es ∧ s.responseQueue = Rpc.responses es ++ s'.responseQueue ∧
      (.timedOut ∉ s.log → s.waiting = none → ∀ p r, .received p r ∉ es) := by
  obtain ⟨w, _, hreach⟩ := h
  obtain ⟨_, es, hlog, hqueue⟩ := (hreach.stopped hstop).run hs
  refine ⟨es, hlog, hqueue, fun hno hidle p r => Rpc.received_not_mem ?_ p r⟩
  have hnil : s.responseQueue = [] :=
    List.map_eq_nil_iff.mp (List.append_eq_nil_iff.mp (hreach.inv.underway_eq_nil hno hidle)).1
  rw [hnil] at hqueue
  exact (List.append_eq_nil_iff.mp hqueue.symm).1

/-- A request that was given up is answered, then the worker is stopped: the next request gets that
answer, and the one after it none. -/
theorem silent_of_stop_alternating :
    ∃ (s s' : Net { mode := .ssd, speculateK := 1 } 3 ℚ) (r : ℕ × DraftResponse 1 1 3 ℚ),
      NetReachable { mode := .ssd, speculateK := 1 } alternating.draftSpeculate s ∧
      s.running = false ∧ s.responseQueue = [r] ∧
      s'.sent = s.sent ++ [draftRequest 1 0 1, draftRequest 2 0 2] ∧
      s'.log = s.log ++ [.received (1, draftRequest 1 0 1) r, .timedOut] ∧
      ∃ es, s'.log = s.log ++ es ∧ s.responseQueue = Rpc.responses es ++ s'.responseQueue := by
  obtain ⟨w, hw, ⟨resp, w'⟩, h⟩ : ∃ w : DraftWorker 1 3 ℚ,
      start { mode := .ssd, speculateK := 1 } = some w ∧
      ∃ x, handle { mode := .ssd, speculateK := 1 } alternating.draftSpeculate w
        (draftRequest 0 0 2) = some x := ⟨_, rfl, _, rfl⟩
  have h₀ : Rpc.Reachable (Serves { mode := .ssd, speculateK := 1 } alternating.draftSpeculate)
      SetsContext { server := w } { server := w } := .refl
  have h₁ := h₀.tail (.submit (draftRequest 0 0 2) rfl)
  have h₂ := h₁.tail (.take rfl rfl rfl)
  have h₃ := h₂.tail (.timeout rfl rfl)
  have h₄ := h₃.tail (.answer rfl h)
  have h₅ := h₄.tail (.stop rfl)
  obtain ⟨s, hs, hstop, hqueue, s', hrun, hsent, hlog⟩ :
      ∃ s : Net { mode := .ssd, speculateK := 1 } 3 ℚ,
        NetReachable { mode := .ssd, speculateK := 1 } alternating.draftSpeculate s ∧
        s.running = false ∧ s.responseQueue = [(0, resp)] ∧
        ∃ s', Relation.ReflTransGen (Rpc.Step (Serves { mode := .ssd, speculateK := 1 }
            alternating.draftSpeculate) SetsContext) s s' ∧
          s'.sent = s.sent ++ [draftRequest 1 0 1, draftRequest 2 0 2] ∧
          s'.log = s.log ++ [.received (1, draftRequest 1 0 1) (0, resp), .timedOut] :=
    ⟨_, ⟨w, hw, h₅⟩, rfl, rfl, _,
      (((Relation.ReflTransGen.single (.submit (draftRequest 1 0 1) rfl)).tail
        (.receive rfl rfl)).tail (.submit (draftRequest 2 0 2) rfl)).tail (.timeout rfl rfl),
      rfl, rfl⟩
  obtain ⟨es, hes, hresponses, _⟩ := silent_of_stop hs hstop hrun
  exact ⟨s, s', (0, resp), hs, hstop, hqueue, hsent, hlog, es, hes, hresponses⟩

end DraftWorker

end SsdTpu
