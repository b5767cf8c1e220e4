import SsdTpu.Rpc

/-!
# A client program and its server

A client that runs a program sends a request when the program asks, and goes on when a response has
come. Client and server then take turns although they are two threads: one of them always has
nothing to do.

1. `turn` is one request and its response as a function call. In every interleaving without timeouts
   the two threads are somewhere in one turn of the sequential run (`Phase`, `Driven.phase`).
2. If the sequential run ends, every interleaving can be continued to its end (`Phase.complete`),
   stops nowhere else (`Phase.final`) and does not go on for ever (`Phase.acc`).
3. If it does not end, no interleaving ends (`Driven.final`).
-/

namespace Rpc

variable {γ σ α β : Type*}

/-- What the client asks next, if it is not done, and how it goes on with the response. -/
structure Program (γ α β : Type*) where
  ask : γ → Option α
  resume : γ → β → γ

/-- A step of the client, which runs the program, or of the server. -/
inductive Drive (prog : Program γ α β) (handle : σ → α → Option (β × σ)) :
    γ × State σ α β → γ × State σ α β → Prop
  | submit {g : γ} {s : State σ α β} {x : α} (hidle : s.waiting = none)
    (hask : prog.ask g = some x) :
    Drive prog handle (g, s)
      (g, { s with
        requestQueue := s.requestQueue ++ [(s.sent.length, x)]
        waiting := some (s.sent.length, x)
        sent := s.sent ++ [x] })
  | take {g : γ} {s : State σ α β} {r : ℕ × α} {rs : List (ℕ × α)} (hrun : s.running = true)
    (hfree : s.serving = none) (hq : s.requestQueue = r :: rs) :
    Drive prog handle (g, s) (g, { s with requestQueue := rs, serving := some r })
  | answer {g : γ} {s : State σ α β} {r : ℕ × α} {y : β} {v : σ} (hbusy : s.serving = some r)
    (hs : handle s.server r.2 = some (y, v)) :
    Drive prog handle (g, s)
      (g, { s with
        responseQueue := s.responseQueue ++ [(r.1, y)]
        server := v
        serving := none })
  | receive {g : γ} {s : State σ α β} {p : ℕ × α} {r : ℕ × β} {rs : List (ℕ × β)}
    (hwait : s.waiting = some p) (hq : s.responseQueue = r :: rs) :
    Drive prog handle (g, s)
      (prog.resume g r.2,
        { s with responseQueue := rs, waiting := none, log := s.log ++ [.received p r] })

/-- The states reached from a client in `g` and an idle server in `v`, in any interleaving. -/
def Driven (prog : Program γ α β) (handle : σ → α → Option (β × σ)) (g : γ) (v : σ)
    (c : γ × State σ α β) : Prop :=
  Relation.ReflTransGen (Drive prog handle) (g, { server := v }) c

variable {prog : Program γ α β} {handle : σ → α → Option (β × σ)} {c c' : γ × State σ α β}
  {p p' : γ × σ}

theorem Drive.step {pokes : σ → σ → Prop} (h : Drive prog handle c c') :
    Step (fun v x y v' => handle v x = some (y, v')) pokes c.2 c'.2 := by
  cases h with
  | submit hidle hask => exact .submit _ hidle
  | take hrun hfree hq => exact .take hrun hfree hq
  | answer hbusy hs => exact .answer hbusy hs
  | receive hwait hq => exact .receive hwait hq

theorem Driven.reachable {pokes : σ → σ → Prop} {g : γ} {v : σ} (h : Driven prog handle g v c) :
    Reachable (fun v x y v' => handle v x = some (y, v')) pokes { server := v } c.2 := by
  induction h with
  | refl => exact .refl
  | tail _ hd ih => exact ih.tail hd.step

theorem Driven.timedOut_not_mem {g : γ} {v : σ} (h : Driven prog handle g v c) :
    .timedOut ∉ c.2.log := by
  induction h with
  | refl => simp
  | tail _ hd ih =>
    cases hd with
    | submit | take | answer => exact ih
    | receive hwait hq => simpa using ih

/-- Every response is to the request before it. -/
theorem Driven.corresponds {g : γ} {v : σ} (h : Driven prog handle g v c) {q : ℕ × α} {r : ℕ × β}
    (hr : .received q r ∈ c.2.log) : r.1 = q.1 ∧ ∃ v v', handle v q.2 = some (r.2, v') := by
  have hreach : Reachable (fun v x y v' => handle v x = some (y, v')) (fun _ _ => False)
      { server := v } c.2 := h.reachable
  refine (corresponds_iff hreach).mpr ?_ q r hr
  intro before _ _ after hlog hmem
  exact h.timedOut_not_mem (hlog ▸ List.mem_append_left _ hmem)

/-! ## Turns -/

/-- One request, served and received. -/
def turn (prog : Program γ α β) (handle : σ → α → Option (β × σ)) (p : γ × σ) :
    Option (γ × σ) :=
  (prog.ask p.1).bind fun x => (handle p.2 x).map fun a => (prog.resume p.1 a.1, a.2)

/-- The states of the sequential run. -/
def Turns (prog : Program γ α β) (handle : σ → α → Option (β × σ)) : γ × σ → γ × σ → Prop :=
  Relation.ReflTransGen fun p p' => turn prog handle p = some p'

theorem turn_of_done (h : prog.ask p.1 = none) : turn prog handle p = none := by
  unfold turn
  rw [h]
  rfl

/-- Nothing is underway. -/
structure Idle (p : γ × σ) (c : γ × State σ α β) : Prop where
  client : c.1 = p.1
  server : c.2.server = p.2
  waiting : c.2.waiting = none
  requestQueue : c.2.requestQueue = []
  serving : c.2.serving = none
  responseQueue : c.2.responseQueue = []
  running : c.2.running = true

/-- Where the threads can be in the turn that starts in `p`: before it, or with one message, in the
request queue, at the server or in the response queue. The number counts down to the response. -/
inductive Phase (prog : Program γ α β) (handle : σ → α → Option (β × σ)) (p : γ × σ) :
    ℕ → γ × State σ α β → Prop
  | idle {c : γ × State σ α β} (h : Idle p c) : Phase prog handle p 3 c
  | asked {c : γ × State σ α β} {n : ℕ} {x : α} (hask : prog.ask p.1 = some x) (hc : c.1 = p.1)
    (hv : c.2.server = p.2) (hw : c.2.waiting = some (n, x)) (hq : c.2.requestQueue = [(n, x)])
    (hs : c.2.serving = none) (hr : c.2.responseQueue = []) (hrun : c.2.running = true) :
    Phase prog handle p 2 c
  | serving {c : γ × State σ α β} {n : ℕ} {x : α} (hask : prog.ask p.1 = some x) (hc : c.1 = p.1)
    (hv : c.2.server = p.2) (hw : c.2.waiting = some (n, x)) (hq : c.2.requestQueue = [])
    (hs : c.2.serving = some (n, x)) (hr : c.2.responseQueue = []) (hrun : c.2.running = true) :
    Phase prog handle p 1 c
  | answered {c : γ × State σ α β} {n : ℕ} {x : α} {y : β} (hask : prog.ask p.1 = some x)
    (hc : c.1 = p.1) (hy : handle p.2 x = some (y, c.2.server)) (hw : c.2.waiting = some (n, x))
    (hq : c.2.requestQueue = []) (hs : c.2.serving = none) (hr : c.2.responseQueue = [(n, y)])
    (hrun : c.2.running = true) : Phase prog handle p 0 c

theorem Phase.step {n : ℕ} (h : Phase prog handle p n c) (hd : Drive prog handle c c') :
    (∃ m, n = m + 1 ∧ Phase prog handle p m c') ∨
      ∃ p', turn prog handle p = some p' ∧ Phase prog handle p' 3 c' := by
  cases hd with
  | @submit g s x hidle hask =>
    cases h with
    | idle h =>
      refine .inl ⟨2, rfl, .asked (h.client ▸ hask) h.client h.server rfl ?_ h.serving
        h.responseQueue h.running⟩
      show s.requestQueue ++ _ = _
      rw [h.requestQueue, List.nil_append]
    | asked _ _ _ hw | serving _ _ _ hw | answered _ _ _ hw =>
      rw [hidle] at hw
      cases hw
  | @take g s r rs hrun hfree hq =>
    cases h with
    | idle h =>
      rw [h.requestQueue] at hq
      cases hq
    | asked hask hc hv hw hq' hs hr hrun =>
      rw [hq'] at hq
      obtain ⟨rfl, rfl⟩ := List.cons.inj hq
      exact .inl ⟨1, rfl, .serving hask hc hv hw rfl rfl hr hrun⟩
    | serving _ _ _ _ hq' | answered _ _ _ _ hq' =>
      rw [hq'] at hq
      cases hq
  | @answer g s r y v hbusy hs =>
    cases h with
    | idle h =>
      rw [h.serving] at hbusy
      cases hbusy
    | asked _ _ _ _ _ hs' | answered _ _ _ _ _ hs' =>
      rw [hs'] at hbusy
      cases hbusy
    | serving hask hc hv hw hq hs' hr hrun =>
      rw [hs'] at hbusy
      obtain rfl := Option.some.inj hbusy
      have hv : s.server = p.2 := hv
      rw [hv] at hs
      refine .inl ⟨0, rfl, .answered hask hc hs hw hq rfl ?_ hrun⟩
      show s.responseQueue ++ _ = _
      rw [hr, List.nil_append]
  | @receive g s q r rs hwait hq =>
    cases h with
    | idle h =>
      rw [h.waiting] at hwait
      cases hwait
    | asked _ _ _ _ _ _ hr | serving _ _ _ _ _ _ hr =>
      rw [hr] at hq
      cases hq
    | @answered _ _ _ y hask hc hy hw hq' hs hr hrun =>
      rw [hr] at hq
      obtain ⟨rfl, rfl⟩ := List.cons.inj hq
      refine .inr ⟨(prog.resume p.1 y, s.server), ?_, ?_⟩
      · unfold turn
        rw [hask, Option.bind_some, hy]
        rfl
      · exact .idle ⟨congrArg (prog.resume · y) hc, rfl, rfl, hq', hs, rfl, hrun⟩

theorem Driven.phase {g : γ} {v : σ} (h : Driven prog handle g v c) :
    ∃ p n, Turns prog handle (g, v) p ∧ Phase prog handle p n c := by
  induction h with
  | refl => exact ⟨(g, v), 3, .refl, .idle ⟨rfl, rfl, rfl, rfl, rfl, rfl, rfl⟩⟩
  | tail _ hd ih =>
    obtain ⟨p, n, hp, hphase⟩ := ih
    rcases hphase.step hd with ⟨m, -, hphase⟩ | ⟨p', ht, hphase⟩
    · exact ⟨p, m, hp, hphase⟩
    · exact ⟨p', 3, hp.tail ht, hphase⟩

/-! ## To the end -/

theorem Phase.eq_idle {n : ℕ} (h : Phase prog handle p n c) (hdone : prog.ask p.1 = none) :
    n = 3 ∧ Idle p c := by
  cases h with
  | idle h => exact ⟨rfl, h⟩
  | asked hask | serving hask | answered hask =>
    rw [hdone] at hask
    cases hask

/-- One of the threads can take a step, if the turn ends in the sequential run. -/
theorem Phase.next {n : ℕ} (h : Phase prog handle p n c) (ht : turn prog handle p = some p') :
    ∃ c', Drive prog handle c c' := by
  obtain ⟨x, hx, hmap⟩ := Option.bind_eq_some_iff.mp ht
  obtain ⟨a, ha, -⟩ := Option.map_eq_some_iff.mp hmap
  cases h with
  | idle h => exact ⟨_, .submit h.waiting (h.client ▸ hx)⟩
  | asked _ _ _ _ hq hs _ hrun => exact ⟨_, .take hrun hs hq⟩
  | serving hask _ hv _ _ hs =>
    rw [hx] at hask
    obtain rfl := Option.some.inj hask
    exact ⟨_, .answer hs (hv ▸ ha)⟩
  | answered _ _ _ hw _ _ hr => exact ⟨_, .receive hw hr⟩

/-- **No interleaving goes on for ever.** By induction on the turns that are left, and on the phase
within a turn. -/
theorem Phase.acc {n : ℕ} (hp : Turns prog handle p p') (hdone : prog.ask p'.1 = none)
    (h : Phase prog handle p n c) : Acc (fun c' c => Drive prog handle c c') c := by
  induction hp using Relation.ReflTransGen.head_induction_on generalizing n c with
  | refl =>
    refine ⟨c, fun c' hd => ?_⟩
    obtain ⟨rfl, -⟩ := h.eq_idle hdone
    rcases h.step hd with ⟨m, hm, hphase⟩ | ⟨p₁, ht, -⟩
    · obtain ⟨rfl, -⟩ := hphase.eq_idle hdone
      cases hm
    · rw [turn_of_done hdone] at ht
      cases ht
  | head ht _ ih =>
    induction n generalizing c with
    | zero =>
      refine ⟨c, fun c' hd => ?_⟩
      rcases h.step hd with ⟨m, hm, -⟩ | ⟨p₁, ht₁, hphase⟩
      · cases hm
      · obtain rfl := Option.some.inj (ht.symm.trans ht₁)
        exact ih hphase
    | succ n ihn =>
      refine ⟨c, fun c' hd => ?_⟩
      rcases h.step hd with ⟨m, hm, hphase⟩ | ⟨p₁, ht₁, hphase⟩
      · obtain rfl := Nat.succ.inj hm
        exact ihn hphase
      · obtain rfl := Option.some.inj (ht.symm.trans ht₁)
        exact ih hphase

/-- **Every interleaving can be continued to the end of the sequential run.** -/
theorem Phase.complete {n : ℕ} (hp : Turns prog handle p p') (hdone : prog.ask p'.1 = none)
    (h : Phase prog handle p n c) :
    ∃ c', Relation.ReflTransGen (Drive prog handle) c c' ∧ Idle p' c' := by
  induction h.acc hp hdone generalizing p n with
  | intro c _ ih =>
    rcases Relation.ReflTransGen.cases_head hp with rfl | ⟨p₁, ht, hp₁⟩
    · exact ⟨c, .refl, (h.eq_idle hdone).2⟩
    · obtain ⟨c', hd⟩ := h.next ht
      rcases h.step hd with ⟨m, -, hphase⟩ | ⟨p₂, ht₂, hphase⟩
      · obtain ⟨c'', hrun, hidle⟩ := ih c' hd hp hphase
        exact ⟨c'', .head hd hrun, hidle⟩
      · obtain rfl := Option.some.inj (ht.symm.trans ht₂)
        obtain ⟨c'', hrun, hidle⟩ := ih c' hd hp₁ hphase
        exact ⟨c'', .head hd hrun, hidle⟩

/-- **It stops nowhere else.** -/
theorem Phase.final {n : ℕ} (hp : Turns prog handle p p')
    (h : Phase prog handle p n c) (hstop : ∀ c', ¬ Drive prog handle c c')
    (hdone : prog.ask p'.1 = none) : Idle p' c := by
  rcases Relation.ReflTransGen.cases_head hp with rfl | ⟨p₁, ht, -⟩
  · exact (h.eq_idle hdone).2
  · obtain ⟨c', hd⟩ := h.next ht
    exact absurd hd (hstop c')

/-- A client that is done has what the sequential run has at its end. -/
theorem Driven.final {g : γ} {v : σ} (h : Driven prog handle g v c)
    (hwait : c.2.waiting = none) (hdone : prog.ask c.1 = none) :
    ∃ p, Turns prog handle (g, v) p ∧ prog.ask p.1 = none ∧ Idle p c := by
  obtain ⟨p, n, hp, hphase⟩ := h.phase
  cases hphase with
  | idle h => exact ⟨p, hp, h.client ▸ hdone, h⟩
  | asked _ _ _ hw | serving _ _ _ hw | answered _ _ _ hw =>
    rw [hwait] at hw
    cases hw

theorem Turns.eq_of_none (h : Turns prog handle p p') (ht : turn prog handle p = none) :
    p = p' := by
  rcases Relation.ReflTransGen.cases_head h with heq | ⟨p₁, ht₁, -⟩
  · exact heq
  · rw [ht] at ht₁
    cases ht₁

theorem Turns.unique {p₀ : γ × σ} (hp : Turns prog handle p₀ p) (hp' : Turns prog handle p₀ p')
    (hdone : prog.ask p.1 = none) : Turns prog handle p' p := by
  induction hp' using Relation.ReflTransGen.head_induction_on with
  | refl => exact hp
  | head ht _ ih =>
    rcases Relation.ReflTransGen.cases_head hp with rfl | ⟨p₁, ht₁, hp₁⟩
    · rw [turn_of_done hdone] at ht
      cases ht
    · obtain rfl := Option.some.inj (ht.symm.trans ht₁)
      exact ih hp₁

end Rpc
