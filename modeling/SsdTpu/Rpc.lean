import Mathlib.Tactic

/-!
# A client and a server over two queues

A client puts requests into one queue and takes responses from another; a server does the opposite,
one request at a time. The messages carry nothing that pairs them. The client waits for one response
after each request, and gives up when the response queue stays empty for too long; it may then send
another request, while the server goes on with the old one.

The numbers that go with the messages, the list `sent` and the log are not part of the system: no
step depends on them. A request has the number of requests sent before it and a response the number
of the request that it answers. Both queues keep their order, so that the `n`-th response received
is the one to the `n`-th request, and falls behind by one with every timeout (`Inv.received`). So
responses and requests correspond as long as nothing is received after a timeout
(`corresponds_iff`), and a run without timeouts is a serial one (`Reachable.serial`).
-/

namespace Rpc

variable {σ α β : Type*}

inductive Event (α β : Type*) where
  | timedOut
  /-- What the client waited for and what it took. -/
  | received (request : ℕ × α) (response : ℕ × β)

structure State (σ α β : Type*) where
  requestQueue : List (ℕ × α) := []
  responseQueue : List (ℕ × β) := []
  server : σ
  serving : Option (ℕ × α) := none
  running : Bool := true
  waiting : Option (ℕ × α) := none
  sent : List α := []
  log : List (Event α β) := []

/-- A step of the client or of the server. `serves v x y v'` says that the server in state `v` may
answer `x` with `y` and go to `v'`; a client that does not wait may change the server's state by
`pokes`. -/
inductive Step (serves : σ → α → β → σ → Prop) (pokes : σ → σ → Prop) :
    State σ α β → State σ α β → Prop
  | submit {s : State σ α β} (x : α) (hidle : s.waiting = none) :
    Step serves pokes s
      { s with
        requestQueue := s.requestQueue ++ [(s.sent.length, x)]
        waiting := some (s.sent.length, x)
        sent := s.sent ++ [x] }
  | take {s : State σ α β} {r : ℕ × α} {rs : List (ℕ × α)} (hrun : s.running = true)
    (hfree : s.serving = none) (hq : s.requestQueue = r :: rs) :
    Step serves pokes s { s with requestQueue := rs, serving := some r }
  | answer {s : State σ α β} {r : ℕ × α} {y : β} {v : σ} (hbusy : s.serving = some r)
    (hs : serves s.server r.2 y v) :
    Step serves pokes s
      { s with
        responseQueue := s.responseQueue ++ [(r.1, y)]
        server := v
        serving := none }
  | receive {s : State σ α β} {p : ℕ × α} {r : ℕ × β} {rs : List (ℕ × β)}
    (hwait : s.waiting = some p) (hq : s.responseQueue = r :: rs) :
    Step serves pokes s
      { s with responseQueue := rs, waiting := none, log := s.log ++ [.received p r] }
  | timeout {s : State σ α β} {p : ℕ × α} (hwait : s.waiting = some p)
    (hq : s.responseQueue = []) :
    Step serves pokes s { s with waiting := none, log := s.log ++ [.timedOut] }
  | poke {s : State σ α β} {v : σ} (hidle : s.waiting = none) (hp : pokes s.server v) :
    Step serves pokes s { s with server := v }
  /-- The server leaves its loop, between two requests. -/
  | stop {s : State σ α β} (hfree : s.serving = none) :
    Step serves pokes s { s with running := false }

/-- The states reached from `s₀`, in any interleaving. -/
def Reachable (serves : σ → α → β → σ → Prop) (pokes : σ → σ → Prop) (s₀ s : State σ α β) : Prop :=
  Relation.ReflTransGen (Step serves pokes) s₀ s

/-! ## The log -/

/-- What the client asked and received. -/
def exchanges : List (Event α β) → List (α × β)
  | [] => []
  | .timedOut :: es => exchanges es
  | .received p r :: es => (p.2, r.2) :: exchanges es

/-- The responses that came in, with their numbers. -/
def responses (es : List (Event α β)) : List (ℕ × β) :=
  es.filterMap fun
    | .timedOut => none
    | .received _ r => some r

/-- How many requests were given up. -/
def timeouts : List (Event α β) → ℕ
  | [] => 0
  | .timedOut :: es => timeouts es + 1
  | .received _ _ :: es => timeouts es

theorem exchanges_append (es es' : List (Event α β)) :
    exchanges (es ++ es') = exchanges es ++ exchanges es' := by
  induction es with
  | nil => rfl
  | cons e es ih =>
    cases e with
    | timedOut => exact ih
    | received p r => exact congrArg (_ :: ·) ih

theorem timeouts_append (es es' : List (Event α β)) :
    timeouts (es ++ es') = timeouts es + timeouts es' := by
  induction es with
  | nil => simp [timeouts]
  | cons e es ih =>
    cases e with
    | timedOut =>
      show timeouts (es ++ es') + 1 = timeouts es + 1 + timeouts es'
      omega
    | received p r => exact ih

theorem timeouts_eq_zero_iff {es : List (Event α β)} : timeouts es = 0 ↔ .timedOut ∉ es := by
  induction es with
  | nil => simp [timeouts]
  | cons e es ih => cases e <;> simp [timeouts, ih]

theorem eq_or_split_of_concat_eq {γ : Type*} {l before after : List γ} {e x : γ}
    (h : l ++ [e] = before ++ x :: after) :
    (before = l ∧ x = e) ∨ ∃ after', l = before ++ x :: after' := by
  rcases List.eq_nil_or_concat' after with rfl | ⟨after, e', rfl⟩
  · obtain ⟨rfl, hlast⟩ := List.append_inj' h rfl
    exact .inl ⟨rfl, (List.singleton_inj.mp hlast).symm⟩
  · rw [← List.cons_append, ← List.append_assoc] at h
    exact .inr ⟨after, (List.append_inj' h rfl).1⟩

/-! ## The invariant -/

/-- The response is one that the server gave to the request of its number. -/
def Answered (serves : σ → α → β → σ → Prop) (sent : List α) (r : ℕ × β) : Prop :=
  ∃ x, sent[r.1]? = some x ∧ ∃ v v', serves v x r.2 v'

/-- The numbers on their way to the client, first the next to arrive. -/
def State.underway (s : State σ α β) : List ℕ :=
  s.responseQueue.map Prod.fst ++ (s.serving.toList ++ s.requestQueue).map Prod.fst

structure Inv (serves : σ → α → β → σ → Prop) (s : State σ α β) : Prop where
  /-- Every number is received or underway, in order. -/
  order : List.range (exchanges s.log).length ++ s.underway = List.range s.sent.length
  /-- Each request has been received for, given up or is waited for. -/
  lockstep : (exchanges s.log).length + timeouts s.log + s.waiting.toList.length = s.sent.length
  waiting : ∀ p, s.waiting = some p → p.1 + 1 = s.sent.length ∧ s.sent[p.1]? = some p.2
  requests : ∀ r ∈ s.serving.toList ++ s.requestQueue, s.sent[r.1]? = some r.2
  responses : ∀ r ∈ s.responseQueue, Answered serves s.sent r
  received : ∀ before p r after, s.log = before ++ .received p r :: after →
    p.1 = r.1 + timeouts before ∧ s.sent[p.1]? = some p.2 ∧ Answered serves s.sent r

variable {serves : σ → α → β → σ → Prop} {pokes : σ → σ → Prop} {s s' : State σ α β}

theorem inv_init (v : σ) : Inv serves ({ server := v } : State σ α β) where
  order := rfl
  lockstep := rfl
  waiting p hp := by cases hp
  requests r hr := by cases hr
  responses r hr := by cases hr
  received before p r after h := by simp at h

theorem getElem?_append_of_some {l : List α} {i : ℕ} {x : α} (h : l[i]? = some x) (l' : List α) :
    (l ++ l')[i]? = some x := by
  rw [List.getElem?_append_left (List.getElem?_eq_some_iff.mp h).1]
  exact h

theorem Answered.append {sent : List α} {r : ℕ × β} (h : Answered serves sent r) (l : List α) :
    Answered serves (sent ++ l) r := by
  obtain ⟨x, hx, hserves⟩ := h
  exact ⟨x, getElem?_append_of_some hx l, hserves⟩

theorem Inv.head_eq {r : ℕ × β} {rs : List (ℕ × β)} (h : Inv serves s)
    (hq : s.responseQueue = r :: rs) : r.1 = (exchanges s.log).length := by
  have hget := congrArg (fun l : List ℕ => l[(exchanges s.log).length]?) h.order
  have hlt : (exchanges s.log).length < s.sent.length := by
    have hlen := congrArg List.length h.order
    unfold State.underway at hlen
    rw [hq] at hlen
    simp only [List.length_append, List.length_range, List.length_map, List.length_cons] at hlen
    omega
  unfold State.underway at hget
  simp only [hq, List.map_cons, List.cons_append] at hget
  rw [List.getElem?_append_right (by simp), List.length_range, Nat.sub_self,
    List.getElem?_range hlt] at hget
  exact Option.some.inj hget

/-! ## The steps -/

theorem Inv.submit (h : Inv serves s) (x : α) (hidle : s.waiting = none) :
    Inv serves { s with
      requestQueue := s.requestQueue ++ [(s.sent.length, x)]
      waiting := some (s.sent.length, x)
      sent := s.sent ++ [x] } where
  order := by
    have horder := h.order
    unfold State.underway at horder ⊢
    simp only [List.length_append, List.length_singleton, List.range_succ, List.map_append,
      List.map_cons, List.map_nil, ← List.append_assoc] at horder ⊢
    rw [horder]
  lockstep := by
    have hlock := h.lockstep
    rw [hidle] at hlock
    simp only [List.length_append, List.length_singleton, Option.toList_some]
    simp only [Option.toList_none, List.length_nil] at hlock
    omega
  waiting p hp := by
    obtain rfl := Option.some.inj hp
    exact ⟨by simp, by simp⟩
  requests r hr := by
    rw [← List.append_assoc] at hr
    rcases List.mem_append.mp hr with hr | hr
    · exact getElem?_append_of_some (h.requests r hr) _
    · obtain rfl := List.mem_singleton.mp hr
      simp
  responses r hr := (h.responses r hr).append _
  received before p r after hlog := by
    obtain ⟨hp, hsent, hans⟩ := h.received before p r after hlog
    exact ⟨hp, getElem?_append_of_some hsent _, hans.append _⟩

theorem Inv.take {r : ℕ × α} {rs : List (ℕ × α)} (h : Inv serves s) (hfree : s.serving = none)
    (hq : s.requestQueue = r :: rs) :
    Inv serves { s with requestQueue := rs, serving := some r } where
  order := by
    have horder := h.order
    unfold State.underway at horder ⊢
    rw [hfree, hq] at horder
    exact horder
  lockstep := h.lockstep
  waiting := h.waiting
  requests q hmem := by
    apply h.requests
    rw [hfree, hq]
    exact hmem
  responses := h.responses
  received := h.received

theorem Inv.answer {r : ℕ × α} {y : β} {v : σ} (h : Inv serves s) (hbusy : s.serving = some r)
    (hs : serves s.server r.2 y v) :
    Inv serves { s with
      responseQueue := s.responseQueue ++ [(r.1, y)]
      server := v
      serving := none } where
  order := by
    have horder := h.order
    unfold State.underway at horder ⊢
    rw [hbusy] at horder
    simp only [Option.toList_some, Option.toList_none, List.map_append, List.map_cons,
      List.map_nil, List.nil_append, List.append_assoc] at horder ⊢
    exact horder
  lockstep := h.lockstep
  waiting := h.waiting
  requests q hmem := h.requests q (List.mem_append_right _ hmem)
  responses q hmem := by
    rcases List.mem_append.mp hmem with hmem | hmem
    · exact h.responses q hmem
    · obtain rfl := List.mem_singleton.mp hmem
      refine ⟨r.2, h.requests r ?_, _, _, hs⟩
      rw [hbusy]
      exact List.mem_append_left _ (List.mem_singleton.mpr rfl)
  received := h.received

/-- The response received is behind what the client asked by one for each timeout so far. -/
theorem Inv.receive {p : ℕ × α} {r : ℕ × β} {rs : List (ℕ × β)} (h : Inv serves s)
    (hwait : s.waiting = some p) (hq : s.responseQueue = r :: rs) :
    Inv serves { s with
      responseQueue := rs
      waiting := none
      log := s.log ++ [.received p r] } where
  order := by
    have horder := h.order
    unfold State.underway at horder ⊢
    rw [hq, List.map_cons, h.head_eq hq, List.cons_append, List.append_cons] at horder
    rw [exchanges_append, List.length_append]
    show List.range ((exchanges s.log).length + 1) ++ _ = _
    rw [List.range_succ]
    exact horder
  lockstep := by
    have hlock := h.lockstep
    rw [hwait] at hlock
    rw [exchanges_append, timeouts_append]
    simp only [Option.toList_some, Option.toList_none, List.length_append, List.length_cons,
      List.length_nil, exchanges, timeouts] at hlock ⊢
    omega
  waiting q hw := by cases hw
  requests := h.requests
  responses q hmem := h.responses q (by rw [hq]; exact List.mem_cons_of_mem _ hmem)
  received before q r' after hlog := by
    rcases eq_or_split_of_concat_eq hlog with ⟨rfl, hlast⟩ | ⟨after', hlog⟩
    · -- the response received now
      obtain ⟨rfl, rfl⟩ := Event.received.inj hlast
      obtain ⟨hnum, hsent⟩ := h.waiting q hwait
      have hhead := h.head_eq hq
      have hlock := h.lockstep
      rw [hwait] at hlock
      simp only [Option.toList_some, List.length_singleton] at hlock
      exact ⟨by omega, hsent, h.responses r' (by rw [hq]; exact List.mem_cons_self)⟩
    · exact h.received before q r' after' hlog

theorem Inv.timeout {p : ℕ × α} (h : Inv serves s) (hwait : s.waiting = some p) :
    Inv serves { s with waiting := none, log := s.log ++ [.timedOut] } where
  order := by
    rw [exchanges_append]
    show List.range (exchanges s.log ++ []).length ++ _ = _
    rw [List.append_nil]
    exact h.order
  lockstep := by
    have hlock := h.lockstep
    rw [hwait] at hlock
    rw [exchanges_append, timeouts_append]
    simp only [Option.toList_some, Option.toList_none, List.length_append, List.length_cons,
      List.length_nil, exchanges, timeouts] at hlock ⊢
    omega
  waiting q hw := by cases hw
  requests := h.requests
  responses := h.responses
  received before q r after hlog := by
    rcases eq_or_split_of_concat_eq hlog with ⟨_, hlast⟩ | ⟨after', hlog⟩
    · cases hlast
    · exact h.received before q r after' hlog

theorem Inv.step (h : Inv serves s) (hs : Step serves pokes s s') : Inv serves s' := by
  cases hs with
  | submit x hidle => exact h.submit x hidle
  | take _ hfree hq => exact h.take hfree hq
  | answer hbusy hserves => exact h.answer hbusy hserves
  | receive hwait hq => exact h.receive hwait hq
  | timeout hwait _ => exact h.timeout hwait
  | poke _ _ => exact ⟨h.order, h.lockstep, h.waiting, h.requests, h.responses, h.received⟩
  | stop _ => exact ⟨h.order, h.lockstep, h.waiting, h.requests, h.responses, h.received⟩

theorem Reachable.inv {v : σ} (h : Reachable serves pokes { server := v } s) : Inv serves s := by
  induction h with
  | refl => exact inv_init v
  | tail _ hs ih => exact ih.step hs

/-! ## Correspondence -/

/-- Every response received is one that the server gave to the request it was received for. -/
def Corresponds (serves : σ → α → β → σ → Prop) (log : List (Event α β)) : Prop :=
  ∀ p r, .received p r ∈ log → r.1 = p.1 ∧ ∃ v v', serves v p.2 r.2 v'

/-- Nothing is received after a timeout. -/
def Timely (log : List (Event α β)) : Prop :=
  ∀ before p r after, log = before ++ .received p r :: after → .timedOut ∉ before

/-- Responses correspond to requests in exactly those runs in which nothing is received after a
timeout. -/
theorem corresponds_iff {v : σ} (h : Reachable serves pokes { server := v } s) :
    Corresponds serves s.log ↔ Timely s.log := by
  have hinv := h.inv
  constructor
  · intro hc before p r after hlog
    obtain ⟨hnum, _, _⟩ := hinv.received before p r after hlog
    obtain ⟨heq, _⟩ := hc p r (by rw [hlog]; simp)
    exact timeouts_eq_zero_iff.mp (by omega)
  · intro hp p r hmem
    obtain ⟨before, after, hlog⟩ := List.append_of_mem hmem
    obtain ⟨hnum, hsent, x, hx, hserves⟩ := hinv.received before p r after hlog
    rw [timeouts_eq_zero_iff.mpr (hp before p r after hlog), Nat.add_zero] at hnum
    rw [← hnum, hsent] at hx
    obtain rfl := Option.some.inj hx
    exact ⟨hnum.symm, hserves⟩

/-! ## Serial runs -/

/-- The runs of a client that calls the server as a function: the exchanges so far, and the state of
the server after them. -/
inductive Serial (serves : σ → α → β → σ → Prop) (pokes : σ → σ → Prop) (v₀ : σ) :
    List (α × β) → σ → Prop
  | start : Serial serves pokes v₀ [] v₀
  | poke {es : List (α × β)} {v v' : σ} (h : Serial serves pokes v₀ es v) (hp : pokes v v') :
    Serial serves pokes v₀ es v'
  | call {es : List (α × β)} {v v' : σ} {x : α} {y : β} (h : Serial serves pokes v₀ es v)
    (hs : serves v x y v') : Serial serves pokes v₀ (es ++ [(x, y)]) v'

/-- The server has served the requests in the order in which they were sent, and the client receives
the responses in that order. -/
structure Traced (serves : σ → α → β → σ → Prop) (pokes : σ → σ → Prop) (v₀ : σ)
    (s : State σ α β) (trace : List (α × β)) : Prop where
  serial : Serial serves pokes v₀ trace s.server
  requests : trace.map Prod.fst ++ (s.serving.toList ++ s.requestQueue).map Prod.snd = s.sent
  responses : (exchanges s.log).map Prod.snd ++ s.responseQueue.map Prod.snd = trace.map Prod.snd
  /-- Without a timeout every request was received for or is waited for. -/
  asked : timeouts s.log = 0 →
    (exchanges s.log).map Prod.fst ++ s.waiting.toList.map Prod.snd = s.sent

theorem traced_init (v₀ : σ) :
    Traced serves pokes v₀ ({ server := v₀ } : State σ α β) [] where
  serial := .start
  requests := rfl
  responses := rfl
  asked _ := rfl

/-- The step lemma. Only an answer adds to the trace. -/
theorem Traced.step {v₀ : σ} {trace : List (α × β)} (h : Traced serves pokes v₀ s trace)
    (hs : Step serves pokes s s') : ∃ trace', Traced serves pokes v₀ s' trace' := by
  cases hs with
  | submit x hidle =>
    refine ⟨trace, h.serial, ?_, h.responses, fun ht => ?_⟩
    · rw [← h.requests]
      simp
    · have hasked := h.asked ht
      rw [hidle] at hasked
      simpa using hasked
  | take _ hfree hq =>
    refine ⟨trace, h.serial, ?_, h.responses, h.asked⟩
    have hreq := h.requests
    rw [hfree, hq] at hreq
    exact hreq
  | @answer r y v hbusy hserves =>
    refine ⟨trace ++ [(r.2, y)], h.serial.call hserves, ?_, ?_, h.asked⟩
    · have hreq := h.requests
      rw [hbusy] at hreq
      simpa using hreq
    · have hresp := h.responses
      simpa using congrArg (· ++ [y]) hresp
  | @receive p r rs hwait hq =>
    refine ⟨trace, h.serial, h.requests, ?_, fun ht => ?_⟩
    · have hresp := h.responses
      rw [hq] at hresp
      simpa [exchanges_append, exchanges] using hresp
    · rw [timeouts_append] at ht
      have hasked := h.asked (by omega)
      rw [hwait] at hasked
      simpa [exchanges_append, exchanges] using hasked
  | timeout hwait hq =>
    refine ⟨trace, h.serial, h.requests, ?_, fun ht => ?_⟩
    · have hresp := h.responses
      simpa [exchanges_append, exchanges] using hresp
    · rw [timeouts_append] at ht
      simp [timeouts] at ht
  | poke _ hp => exact ⟨trace, h.serial.poke hp, h.requests, h.responses, h.asked⟩
  | stop _ => exact ⟨trace, h.serial, h.requests, h.responses, h.asked⟩

theorem Reachable.traced {v₀ : σ} (h : Reachable serves pokes { server := v₀ } s) :
    ∃ trace, Traced serves pokes v₀ s trace := by
  induction h with
  | refl => exact ⟨[], traced_init v₀⟩
  | tail _ hs ih =>
    obtain ⟨trace, ht⟩ := ih
    exact ht.step hs

/-- Without timeouts the two threads do what one would: between requests the exchanges are those of
a serial run, which leaves the server in its present state. -/
theorem Reachable.serial {v₀ : σ} (h : Reachable serves pokes { server := v₀ } s)
    (hno : .timedOut ∉ s.log) (hidle : s.waiting = none) :
    Serial serves pokes v₀ (exchanges s.log) s.server := by
  obtain ⟨trace, ht⟩ := h.traced
  have hasked := ht.asked (timeouts_eq_zero_iff.mpr hno)
  have hreq := ht.requests
  have hresp := ht.responses
  rw [hidle] at hasked
  simp only [Option.toList_none, List.map_nil, List.append_nil] at hasked
  have hle : trace.length ≤ s.sent.length := by
    rw [← hreq]
    simp
  have hlen : (exchanges s.log).length = s.sent.length := by
    rw [← hasked, List.length_map]
  have hge : (exchanges s.log).length ≤ trace.length := by
    have := congrArg List.length hresp
    simp only [List.length_append, List.length_map] at this
    omega
  -- all requests are answered, and all responses received
  have hfst : trace.map Prod.fst = s.sent := by
    refine List.IsPrefix.eq_of_length ⟨_, hreq⟩ ?_
    rw [List.length_map]
    omega
  have hsnd : (exchanges s.log).map Prod.snd = trace.map Prod.snd := by
    refine List.IsPrefix.eq_of_length ⟨_, hresp⟩ ?_
    rw [List.length_map, List.length_map]
    omega
  have heq : exchanges s.log = trace :=
    (List.zip_of_prod hasked hsnd).trans (List.zip_of_prod hfst rfl).symm
  rw [heq]
  exact ht.serial

/-! ## After the server has stopped -/

theorem received_not_mem {es : List (Event α β)} (h : responses es = []) (p : ℕ × α)
    (r : ℕ × β) : .received p r ∉ es := by
  intro hmem
  have hr : r ∈ responses es := List.mem_filterMap.mpr ⟨.received p r, hmem, rfl⟩
  rw [h] at hr
  exact List.not_mem_nil hr

/-- The server has left its loop: it serves nothing, and takes no request any more. -/
structure Stopped (s : State σ α β) : Prop where
  running : s.running = false
  serving : s.serving = none

theorem Reachable.stopped {v : σ} (h : Reachable serves pokes { server := v } s)
    (hstop : s.running = false) : Stopped s := by
  refine ⟨hstop, ?_⟩
  induction h with
  | refl => rfl
  | tail _ hs ih =>
    cases hs with
    | submit _ _ => exact ih hstop
    | take hrun _ _ => cases hrun.symm.trans hstop
    | answer _ _ => rfl
    | receive _ _ => exact ih hstop
    | timeout _ _ => exact ih hstop
    | poke _ _ => exact ih hstop
    | stop hfree => exact hfree

/-- The step lemma: every response received is the next in the queue, and none is put into it. -/
theorem Stopped.step (h : Stopped s) (hs : Step serves pokes s s') : Stopped s' ∧
    ∃ es, s'.log = s.log ++ es ∧ s.responseQueue = responses es ++ s'.responseQueue := by
  have hsame : ∃ es, s.log = s.log ++ es ∧ s.responseQueue = responses es ++ s.responseQueue :=
    ⟨[], (List.append_nil _).symm, rfl⟩
  cases hs with
  | submit _ _ => exact ⟨⟨h.running, h.serving⟩, hsame⟩
  | take hrun _ _ => cases hrun.symm.trans h.running
  | answer hbusy _ => cases h.serving.symm.trans hbusy
  | @receive p r rs _ hq => exact ⟨⟨h.running, h.serving⟩, [.received p r], rfl, hq⟩
  | timeout _ _ => exact ⟨⟨h.running, h.serving⟩, [.timedOut], rfl, rfl⟩
  | poke _ _ => exact ⟨⟨h.running, h.serving⟩, hsame⟩
  | stop _ => exact ⟨⟨rfl, h.serving⟩, hsame⟩

theorem Stopped.run (h : Stopped s) (hs : Relation.ReflTransGen (Step serves pokes) s s') :
    Stopped s' ∧
      ∃ es, s'.log = s.log ++ es ∧ s.responseQueue = responses es ++ s'.responseQueue := by
  induction hs with
  | refl => exact ⟨h, [], (List.append_nil _).symm, rfl⟩
  | tail _ hstep ih =>
    obtain ⟨hstopped, es, hlog, hqueue⟩ := ih
    obtain ⟨hstopped', es', hlog', hqueue'⟩ := hstopped.step hstep
    refine ⟨hstopped', es ++ es', ?_, ?_⟩
    · rw [hlog', hlog, List.append_assoc]
    · unfold responses at hqueue hqueue' ⊢
      rw [hqueue, hqueue', List.filterMap_append, List.append_assoc]

/-- Between two requests of a run without timeouts nothing is underway. -/
theorem Inv.underway_eq_nil (h : Inv serves s) (hno : .timedOut ∉ s.log)
    (hidle : s.waiting = none) : s.underway = [] := by
  have hlock := h.lockstep
  rw [timeouts_eq_zero_iff.mpr hno, hidle] at hlock
  have horder := congrArg List.length h.order
  rw [List.length_append, List.length_range, List.length_range] at horder
  apply List.length_eq_zero_iff.mp
  simp only [Option.toList_none, List.length_nil] at hlock
  omega

end Rpc
