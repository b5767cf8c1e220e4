import SsdTpu.Lifecycle
import SsdTpu.QueueDiscipline

/-!
# Starvation

The queue is strictly first come, first served: a request that cannot be admitted holds up all that
come after it.

1. `demand` is what an admission needs, in blocks. While a sequence waits it holds no draft blocks,
   and only the head of the queue holds target blocks, at most those it needs (`Waits`).
2. A request that needs more than the pool has never leaves the queue (`Reachable.stuck`). When
   nothing is running and the head fits into the pool, `schedule` admits it (`admits_head`). So a
   waiting request can still be run exactly if it and those before it fit (`admissible_iff`).
3. An engine finishes no sequence. Once a request has been left waiting, a later one is never
   admitted (`generate_waiting`).
-/

namespace SsdTpu

theorem Sequence.SameTokens.numTokens {seq seq' : Sequence} (h : SameTokens seq seq') :
    seq'.numTokens = seq.numTokens := by
  unfold Sequence.numTokens Sequence.tokenIds
  rw [h.prompt, h.completion]

namespace Scheduler

variable {cfg : SSDConfig} {s s₁ s' : Scheduler} {q r : ℕ} {w : List ℕ}

/-- The target and the draft blocks for the tokens of a sequence and the reserves of the mode. -/
def demand (cfg : SSDConfig) (seq : Sequence) : ℕ × ℕ :=
  ((seq.numTokens + reserveTokens cfg) ⌈/⌉ cfg.blockSize,
    match cfg.mode, cfg.mqLen with
    | .ar, _ => 0
    | _, none => 0
    | _, some mqLen =>
      (seq.numTokens + (reserveTokens cfg + cfg.speculateK * mqLen)) ⌈/⌉ cfg.blockSize)

/-- The pool has as many blocks in all. -/
def Fits (cfg : SSDConfig) (seq : Sequence) : Prop :=
  (demand cfg seq).1 + (demand cfg seq).2 ≤ cfg.numBlocks

instance (cfg : SSDConfig) (seq : Sequence) : Decidable (Fits cfg seq) :=
  inferInstanceAs (Decidable (_ ≤ _))

theorem demand_congr {seq seq' : Sequence} (h : seq'.numTokens = seq.numTokens) :
    demand cfg seq' = demand cfg seq := by
  unfold demand
  rw [h]

theorem fits_congr {seq seq' : Sequence} (h : seq'.numTokens = seq.numTokens) :
    Fits cfg seq' ↔ Fits cfg seq := by
  unfold Fits
  rw [demand_congr h]

theorem lacking_eq_demand (hsize : s.pageManager.blockSize = cfg.blockSize) (q : ℕ) :
    lacking cfg s q = ((demand cfg (s.seqs q)).1 - (s.seqs q).blockTable.length,
      (demand cfg (s.seqs q)).2 - (s.seqs q).draftBlockTable.length) := by
  unfold lacking demand
  rw [hsize]
  cases cfg.mode <;> cases cfg.mqLen <;> simp

/-- An admission succeeds only if the pool is large enough: the tables then cover the demand, and
the pool is no larger than all blocks. -/
theorem Holds.fits_of_reserveBlocks {active : List ℕ} (h : Holds cfg s (r :: active))
    (hres : Scheduler.reserveBlocks cfg s r = .ok (true, s₁)) : Fits cfg (s.seqs r) := by
  obtain ⟨target, draft, hgrows, hcases⟩ := reserveBlocks_grows hres
  obtain ⟨-, hlenT, hlenD⟩ := hcases.resolve_right (by simp)
  rw [lacking_eq_demand h.size.1] at hlenT hlenD
  have hlen := (h.reserveBlocks hres).owns.perm.length_eq
  have hnum : s₁.pageManager.numBlocks = cfg.numBlocks := (h.reserveBlocks hres).size.2
  have hblocks : (s₁.seqs r).blocks.length =
      (s₁.seqs r).blockTable.length + (s₁.seqs r).draftBlockTable.length := List.length_append
  rw [hgrows.blockTable, hgrows.draftBlockTable, List.length_append, List.length_append] at hblocks
  rw [List.length_append, List.length_range, hnum, held, List.flatMap_cons, List.length_append,
    hblocks] at hlen
  unfold Fits
  omega

/-! ## What waiting sequences hold -/

/-- Of the waiting sequences `w` only the first has blocks, target blocks that it will need. -/
structure Waits (cfg : SSDConfig) (s : Scheduler) (w : List ℕ) : Prop where
  head : ∀ q ∈ w.head?, (s.seqs q).blockTable.length ≤ (demand cfg (s.seqs q)).1
  tail : ∀ q ∈ w.tail, (s.seqs q).blockTable = []
  draft : ∀ q ∈ w, (s.seqs q).draftBlockTable = []

theorem Waits.congr (h : Waits cfg s w) (hsame : ∀ q ∈ w, s'.seqs q = s.seqs q) :
    Waits cfg s' w where
  head q hq := by
    rw [hsame q (List.mem_of_mem_head? hq)]
    exact h.head q hq
  tail q hq := by
    rw [hsame q (List.mem_of_mem_tail hq)]
    exact h.tail q hq
  draft q hq := by
    rw [hsame q hq]
    exact h.draft q hq

theorem Waits.addRequest (h : Waits cfg s w) (hlt : ∀ q ∈ w, q < s.nextId) (prompt : List Token) :
    Waits cfg (s.addRequest prompt).1 (w ++ [s.nextId]) := by
  have hold : Waits cfg (s.addRequest prompt).1 w :=
    h.congr fun q hq => setSeq_of_ne s _ (hlt q hq).ne
  have hnew : (s.addRequest prompt).1.seqs s.nextId =
      { seqId := s.nextId, promptTokenIds := prompt } := setSeq_self s _ _
  refine ⟨fun q hq => ?_, fun q hq => ?_, fun q hq => ?_⟩
  · cases w with
    | nil =>
      obtain rfl := Option.some.inj hq
      rw [hnew]
      exact Nat.zero_le _
    | cons p w => exact hold.head q hq
  · cases w with
    | nil => cases hq
    | cons p w =>
      rcases List.mem_append.mp hq with hq | hq
      · exact hold.tail q hq
      · rw [List.mem_singleton.mp hq, hnew]
  · rcases List.mem_append.mp hq with hq | hq
    · exact hold.draft q hq
    · rw [List.mem_singleton.mp hq, hnew]

/-- A failed attempt leaves the head without draft blocks, and with no more target blocks than it
needs. -/
theorem Waits.defer (hh : Holds cfg s (r :: w ++ s.running)) (h : Waits cfg s (r :: w))
    (hres : reserveBlocks cfg s r = .ok (false, s₁)) : Waits cfg s₁ (r :: w) := by
  obtain ⟨target, draft, hgrows, hcases⟩ := reserveBlocks_grows hres
  obtain ⟨rfl, hlen⟩ : draft = [] ∧ target.length ≤ (lacking cfg s r).1 := by
    rcases hcases with ⟨hf, -⟩ | ⟨-, rfl, rfl, -⟩ | ⟨-, hlen, rfl, -⟩
    · cases hf
    · exact ⟨rfl, Nat.zero_le _⟩
    · exact ⟨rfl, hlen.le⟩
  rw [lacking_eq_demand hh.size.1] at hlen
  have hne : ∀ q ∈ w, q ≠ r := by
    rintro q hq rfl
    exact (List.nodup_cons.mp hh.nodup).1 (List.mem_append_left _ (List.mem_append_left _ hq))
  have hhead := h.head r rfl
  refine ⟨fun q hq => ?_, fun q hq => ?_, fun q hq => ?_⟩
  · obtain rfl := Option.some.inj hq
    rw [demand_congr hgrows.numTokens, hgrows.blockTable, List.length_append]
    have hlen : target.length ≤ (demand cfg (s.seqs r)).1 - (s.seqs r).blockTable.length := hlen
    omega
  · rw [hgrows.others q (hne q hq)]
    exact h.tail q hq
  · rcases List.mem_cons.mp hq with rfl | hq
    · rw [hgrows.draftBlockTable, List.append_nil]
      exact h.draft q List.mem_cons_self
    · rw [hgrows.others q (hne q hq)]
      exact h.draft q (List.mem_cons_of_mem _ hq)

theorem Waits.tail' (h : Waits cfg s (r :: w)) : Waits cfg s w where
  head _ hq := by
    rw [h.tail _ (List.mem_of_mem_head? hq)]
    exact Nat.zero_le _
  tail _ hq := h.tail _ (List.mem_of_mem_tail hq)
  draft _ hq := h.draft _ (List.mem_cons_of_mem _ hq)

theorem Waits.promote (hh : Holds cfg s (r :: w ++ s.running)) (h : Waits cfg s (r :: w))
    (hres : reserveBlocks cfg s r = .ok (true, s₁)) : Waits cfg (s₁.startRunning r) w := by
  obtain ⟨target, draft, hgrows, -⟩ := reserveBlocks_grows hres
  apply h.tail'.congr
  intro q hq
  apply hgrows.startRunning.others
  rintro rfl
  exact (List.nodup_cons.mp hh.nodup).1 (List.mem_append_left _ (List.mem_append_left _ hq))

theorem Waits.scheduleLoop {scheduled scheduled' : List ℕ} (hh : Holds cfg s (w ++ s.running))
    (h : Waits cfg s w) (hs : Scheduler.scheduleLoop cfg w s scheduled = .ok (s', scheduled')) :
    Waits cfg s' s'.waiting := by
  obtain ⟨w', s₁, h₁, rfl⟩ :=
    scheduleLoop_invariant (P := fun w s₁ _ => Holds cfg s₁ (w ++ s₁.running) ∧ Waits cfg s₁ w)
      (fun _ _ _ _ _ h₁ hres => ⟨h₁.1.defer hres, .defer h₁.1 h₁.2 hres⟩)
      (fun _ _ _ _ _ h₁ _ hres => ⟨h₁.1.promote hres, .promote h₁.1 h₁.2 hres⟩) ⟨hh, h⟩ hs
  exact h₁.2.congr fun _ _ => rfl

/-- The last two calls leave the queue and the other sequences alone. -/
structure Leaves (s s' : Scheduler) (r : ℕ) : Prop where
  waiting : s'.waiting = s.waiting
  others : ∀ q, q ≠ r → s'.seqs q = s.seqs q

theorem leaves_finish (s : Scheduler) (r : ℕ) : Leaves s (s.finish r) r where
  waiting := rfl
  others _ hq := (setSeq_of_ne (s.setSeq r _) _ hq).trans (setSeq_of_ne s _ hq)

theorem Leaves.trans {s'' : Scheduler} (h : Leaves s s' r) (h' : Leaves s' s'' r) :
    Leaves s s'' r where
  waiting := h'.waiting.trans h.waiting
  others q hq := (h'.others q hq).trans (h.others q hq)

theorem leaves_postprocess (s : Scheduler) (r : ℕ) (newTokens : List Token) (eosId : Option Token)
    (maxTokens : ℤ) : Leaves s (s.postprocess r newTokens eosId maxTokens) r := by
  have happ : Leaves s (s.setSeq r ((s.seqs r).appendTokens newTokens)) r :=
    ⟨rfl, fun q hq => setSeq_of_ne s _ hq⟩
  unfold postprocess
  simp only
  split_ifs
  · exact happ.trans (leaves_finish _ r)
  · exact happ

theorem leaves_postprocessSpeculative (s : Scheduler) (r : ℕ) (acceptedTokens : List Token)
    (recovery : Token) (reserved : ℤ) (eosId : Option Token) (maxTokens : ℤ) :
    Leaves s (s.postprocessSpeculative r acceptedTokens recovery reserved eosId maxTokens) r := by
  unfold postprocessSpeculative
  simp only
  set seq : Sequence := { (s.seqs r).appendTokens acceptedTokens with recoveryToken := recovery }
  set b := s.pageManager.rollbackSpeculative seq acceptedTokens.length reserved
  have happ : Leaves s { s.setSeq r b.2 with pageManager := b.1 } r :=
    ⟨rfl, fun q hq => setSeq_of_ne s _ hq⟩
  split_ifs
  · exact happ.trans (leaves_finish _ r)
  · exact happ

theorem Holds.ne_of_running (h : Holds cfg s (s.waiting ++ s.running)) (hr : r ∈ s.running) :
    ∀ q ∈ s.waiting, q ≠ r := by
  rintro q hq rfl
  exact List.disjoint_of_nodup_append h.nodup.of_append_left hq hr

theorem Waits.leaves (hh : Holds cfg s (s.waiting ++ s.running)) (h : Waits cfg s s.waiting)
    (hr : r ∈ s.running) (hl : Leaves s s' r) : Waits cfg s' s'.waiting := by
  rw [hl.waiting]
  exact h.congr fun q hq => hl.others q (hh.ne_of_running hr q hq)

theorem Holds.lt_of_waiting (h : Holds cfg s (s.waiting ++ s.running)) :
    ∀ q ∈ s.waiting, q < s.nextId := fun q hq =>
  h.lt q (List.mem_append_left _ (List.mem_append_left _ hq))

theorem Waits.step (hh : Holds cfg s (s.waiting ++ s.running)) (h : Waits cfg s s.waiting)
    (hs : Step cfg s s') : Waits cfg s' s'.waiting := by
  cases hs with
  | addRequest prompt => exact h.addRequest hh.lt_of_waiting prompt
  | schedule hs => exact Waits.scheduleLoop hh h hs
  | postprocess hr tokens eos max => exact h.leaves hh hr (leaves_postprocess s _ tokens eos max)
  | postprocessSpeculative hr tokens recovery reserved eos max =>
    exact h.leaves hh hr (leaves_postprocessSpeculative s _ tokens recovery reserved eos max)

theorem Reachable.waits (h : Reachable cfg s) : Waits cfg s s.waiting := by
  induction h with
  | refl => exact ⟨by simp [init], by simp [init], by simp [init]⟩
  | tail hr hstep ih => exact ih.step (Reachable.holds hr) hstep

/-! ## A request that does not fit -/

/-- A waiting sequence that the whole pool is too small for. -/
def Stuck (cfg : SSDConfig) (s : Scheduler) (w : List ℕ) (q : ℕ) : Prop :=
  q ∈ w ∧ ¬ Fits cfg (s.seqs q)

theorem Stuck.promote (hh : Holds cfg s (r :: w ++ s.running)) (h : Stuck cfg s (r :: w) q)
    (hres : reserveBlocks cfg s r = .ok (true, s₁)) : Stuck cfg (s₁.startRunning r) w q := by
  obtain ⟨target, draft, hgrows, -⟩ := reserveBlocks_grows hres
  have hne : q ≠ r := by
    rintro rfl
    exact h.2 (hh.fits_of_reserveBlocks hres)
  refine ⟨List.mem_of_ne_of_mem hne h.1, ?_⟩
  rw [hgrows.startRunning.others q hne]
  exact h.2

theorem Stuck.defer (h : Stuck cfg s w q) (hres : reserveBlocks cfg s r = .ok (false, s₁)) :
    Stuck cfg s₁ w q := by
  refine ⟨h.1, ?_⟩
  rw [fits_congr (sameTokens_reserveBlocks hres q).numTokens]
  exact h.2

theorem Stuck.scheduleLoop {scheduled scheduled' : List ℕ} (hh : Holds cfg s (w ++ s.running))
    (h : Stuck cfg s w q)
    (hs : Scheduler.scheduleLoop cfg w s scheduled = .ok (s', scheduled')) :
    Stuck cfg s' s'.waiting q := by
  obtain ⟨w', s₁, h₁, rfl⟩ :=
    scheduleLoop_invariant (P := fun w s₁ _ => Holds cfg s₁ (w ++ s₁.running) ∧ Stuck cfg s₁ w q)
      (fun _ _ _ _ _ h₁ hres => ⟨h₁.1.defer hres, h₁.2.defer hres⟩)
      (fun _ _ _ _ _ h₁ _ hres => ⟨h₁.1.promote hres, .promote h₁.1 h₁.2 hres⟩) ⟨hh, h⟩ hs
  exact h₁.2

theorem Stuck.leaves (hh : Holds cfg s (s.waiting ++ s.running)) (h : Stuck cfg s s.waiting q)
    (hr : r ∈ s.running) (hl : Leaves s s' r) : Stuck cfg s' s'.waiting q := by
  rw [hl.waiting]
  refine ⟨h.1, ?_⟩
  rw [hl.others q (hh.ne_of_running hr q h.1)]
  exact h.2

theorem Stuck.step (hh : Holds cfg s (s.waiting ++ s.running)) (h : Stuck cfg s s.waiting q)
    (hs : Step cfg s s') : Stuck cfg s' s'.waiting q := by
  cases hs with
  | addRequest prompt =>
    refine ⟨List.mem_append_left _ h.1, ?_⟩
    show ¬ Fits cfg ((s.setSeq s.nextId _).seqs q)
    rw [setSeq_of_ne s _ (hh.lt_of_waiting q h.1).ne]
    exact h.2
  | schedule hs => exact Stuck.scheduleLoop hh h hs
  | postprocess hr tokens eos max => exact h.leaves hh hr (leaves_postprocess s _ tokens eos max)
  | postprocessSpeculative hr tokens recovery reserved eos max =>
    exact h.leaves hh hr (leaves_postprocessSpeculative s _ tokens recovery reserved eos max)

/-- **A request that does not fit never leaves the queue.** -/
theorem Reachable.stuck (h : Reachable cfg s) (hq : Stuck cfg s s.waiting q)
    (hrun : Relation.ReflTransGen (Step cfg) s s') : Stuck cfg s' s'.waiting q := by
  induction hrun with
  | refl => exact hq
  | tail hs hstep ih => exact ih.step (Reachable.holds (Relation.ReflTransGen.trans h hs)) hstep

/-- In the order of arrival, what runs is before what waits. -/
theorem Reachable.running_lt (h : Reachable cfg s) (hr : r ∈ s.running) (hq : q ∈ s.waiting) :
    r < q := by
  obtain ⟨admitted, hqueues⟩ := h.queues
  have hsorted : (admitted ++ s.waiting).Pairwise (· < ·) := by
    rw [hqueues.order]
    exact List.pairwise_lt_range
  exact (List.pairwise_append.mp hsorted).2.2 r
    (hqueues.perm.mem_iff.mp (List.mem_append_left _ hr)) q hq

theorem Reachable.waiting_sorted (h : Reachable cfg s) : s.waiting.Pairwise (· < ·) := by
  obtain ⟨admitted, hqueues⟩ := h.queues
  have hsorted : (admitted ++ s.waiting).Pairwise (· < ·) := by
    rw [hqueues.order]
    exact List.pairwise_lt_range
  exact (List.pairwise_append.mp hsorted).2.1

/-! ## A queue that fits -/

theorem Holds.running_finish (h : Holds cfg s (s.waiting ++ s.running)) (hr : r ∈ s.running) :
    (s.finish r).running = s.running.erase r := by
  have h₁ : Holds cfg (s.setSeq r { s.seqs r with status := .finished }) (s.waiting ++ s.running) :=
    h.setSeq (List.mem_append_right _ hr) rfl rfl
  have hid : ∀ q ∈ s.running,
      ((s.setSeq r { s.seqs r with status := .finished }).seqs q).seqId = q := fun q hq =>
    h₁.seqId q (h.lt q (List.mem_append_left _ (List.mem_append_right _ hq)))
  exact eraseP_eq_erase hid (hid r hr)

/-- All running sequences can be finished, without touching the queue. -/
theorem Holds.drain (h : Holds cfg s (s.waiting ++ s.running)) :
    ∃ s', Relation.ReflTransGen (Step cfg) s s' ∧ s'.running = [] ∧ s'.waiting = s.waiting ∧
      ∀ q ∈ s.waiting, s'.seqs q = s.seqs q := by
  induction hn : s.running.length generalizing s with
  | zero => exact ⟨s, .refl, List.eq_nil_of_length_eq_zero hn, rfl, fun _ _ => rfl⟩
  | succ n ih =>
    obtain ⟨r, hr⟩ := List.exists_mem_of_length_pos (by omega : 0 < s.running.length)
    have hstep : Step cfg s (s.postprocess r [] none 0) := .postprocess hr [] none 0
    have hleaves := leaves_postprocess s r [] none 0
    have hlen : (s.postprocess r [] none 0).running.length = n := by
      have happ : Holds cfg (s.setSeq r ((s.seqs r).appendTokens [])) (s.waiting ++ s.running) :=
        h.setSeq (List.mem_append_right _ hr) rfl rfl
      have hfin : (((s.setSeq r ((s.seqs r).appendTokens [])).seqs r).isFinished none 0) = true :=
        Sequence.isFinished_none.mpr (Int.natCast_nonneg _)
      unfold Scheduler.postprocess
      rw [if_pos hfin, Holds.running_finish happ hr]
      show (s.running.erase r).length = n
      rw [List.length_erase_of_mem hr]
      omega
    obtain ⟨s', hrun, hnil, hwait, hsame⟩ := ih (h.step hstep) hlen
    refine ⟨s', .head hstep hrun, hnil, hwait.trans hleaves.waiting, fun q hq => ?_⟩
    rw [hsame q (by rwa [hleaves.waiting]), hleaves.others q (h.ne_of_running hr q hq)]

theorem scheduleLoop_lists {scheduled scheduled' : List ℕ}
    (h : scheduleLoop cfg w s scheduled = .ok (s', scheduled')) :
    ∃ admitted, scheduled' = scheduled ++ admitted ∧ w = admitted ++ s'.waiting ∧
      s'.running = s.running ++ admitted := by
  obtain ⟨w', s₁, ⟨admitted, hsched, hw, hrun⟩, rfl⟩ :=
    scheduleLoop_invariant (P := fun w₁ s₁ scheduled₁ => ∃ admitted,
        scheduled₁ = scheduled ++ admitted ∧ w = admitted ++ w₁ ∧
          s₁.running = s.running ++ admitted)
      (fun r w₁ s₁ s₂ scheduled₁ h₁ hres => by
        obtain ⟨admitted, hsched, hw, hrun⟩ := h₁
        exact ⟨admitted, hsched, hw, (reserveBlocks_lists hres).1.trans hrun⟩)
      (fun r w₁ s₁ s₂ scheduled₁ h₁ _ hres => by
        obtain ⟨admitted, hsched, hw, hrun⟩ := h₁
        refine ⟨admitted ++ [r], ?_, ?_, ?_⟩
        · rw [hsched, List.append_assoc]
        · rw [hw, List.append_assoc, List.singleton_append]
        · show s₂.running ++ [r] = _
          rw [(reserveBlocks_lists hres).1, hrun, List.append_assoc])
      ⟨[], by simp, by simp, by simp⟩ h
  exact ⟨admitted, hsched, hw, hrun⟩

/-- When nothing is running, only the head of the queue has blocks, and the pool has the others. -/
theorem Holds.free_of_idle (h : Holds cfg s (q :: w ++ s.running)) (hw : Waits cfg s (q :: w))
    (hidle : s.running = []) :
    s.pageManager.freeBlocks.length + (s.seqs q).blockTable.length = cfg.numBlocks := by
  have hlen := h.owns.perm.length_eq
  have hnum : s.pageManager.numBlocks = cfg.numBlocks := h.size.2
  have hrest : s.held w = [] := by
    apply List.flatMap_eq_nil_iff.mpr
    intro p hp
    exact List.append_eq_nil_iff.mpr ⟨hw.tail p hp, hw.draft p (List.mem_cons_of_mem _ hp)⟩
  have hhead : (s.seqs q).blocks = (s.seqs q).blockTable := by
    unfold Sequence.blocks
    rw [hw.draft q List.mem_cons_self, List.append_nil]
  rw [hidle, List.append_nil, held, List.flatMap_cons, hhead] at hlen
  have hlen' : (s.pageManager.freeBlocks ++ ((s.seqs q).blockTable ++ s.held w)).length =
      (List.range s.pageManager.numBlocks).length := hlen
  rw [hrest, List.append_nil, List.length_append, List.length_range, hnum] at hlen'
  exact hlen'

/-- **An idle scheduler admits a head that fits.** -/
theorem admits_head (h : Holds cfg s (q :: w ++ s.running)) (hw : Waits cfg s (q :: w))
    (hidle : s.running = []) (hfits : Fits cfg (s.seqs q)) {scheduled : List ℕ}
    (hs : scheduleLoop cfg (q :: w) s [] = .ok (s', scheduled)) :
    ∃ admitted, scheduled = q :: admitted := by
  unfold scheduleLoop at hs
  rw [if_pos (by rw [hidle]; decide)] at hs
  cases hres : reserveBlocks cfg s q with
  | error _ => rw [hres] at hs; cases hs
  | ok res =>
    obtain ⟨b, s₁⟩ := res
    rw [hres] at hs
    cases b with
    | true =>
      obtain ⟨admitted, hsched, -⟩ := scheduleLoop_lists hs
      exact ⟨admitted, hsched⟩
    | false =>
      -- the free blocks and those of the head are all blocks
      obtain ⟨target, draft, -, hcases⟩ := reserveBlocks_grows hres
      rw [lacking_eq_demand h.size.1] at hcases
      have hfree := h.free_of_idle hw hidle
      have hhead := hw.head q rfl
      unfold Fits at hfits
      exfalso
      rcases hcases with ⟨hf, -⟩ | ⟨-, -, -, hlt⟩ | ⟨-, -, -, -, hlt⟩
      · cases hf
      · have hlt : s.pageManager.freeBlocks.length <
            (demand cfg (s.seqs q)).1 - (s.seqs q).blockTable.length := hlt
        omega
      · have hlt : s.pageManager.freeBlocks.length <
            (demand cfg (s.seqs q)).1 - (s.seqs q).blockTable.length +
              ((demand cfg (s.seqs q)).2 - (s.seqs q).draftBlockTable.length) := hlt
        omega

/-- A call of `schedule` with nothing running takes the head of the queue, if it fits. -/
theorem Reachable.schedule_idle (hb : 1 ≤ cfg.blockSize)
    (hmq : cfg.mode ≠ .ar → cfg.mqLen.isSome) (h : Reachable cfg s) (hidle : s.running = [])
    (hw : s.waiting = q :: w) (hfits : Fits cfg (s.seqs q)) :
    ∃ s' admitted, Step cfg s s' ∧ s.waiting = q :: admitted ++ s'.waiting ∧
      s'.running = q :: admitted ∧ SameTokens s s' := by
  have hb' : s.pageManager.blockSize = cfg.blockSize := h.holds.size.1
  obtain ⟨⟨s', scheduled⟩, hs⟩ := exists_schedule hmq (s := s) (by omega)
  have hloop : scheduleLoop cfg (q :: w) s [] = .ok (s', scheduled) := by
    rw [← hw]
    exact hs
  have hh := h.holds
  have hwaits := h.waits
  rw [hw] at hh hwaits
  obtain ⟨admitted, hsched⟩ := admits_head hh hwaits hidle hfits hloop
  obtain ⟨admitted', hsched', hsplit, hrun⟩ := scheduleLoop_lists hloop
  rw [List.nil_append] at hsched'
  rw [← hsched', hsched] at hsplit hrun
  rw [hidle, List.nil_append] at hrun
  exact ⟨s', admitted, .schedule hs, hw.trans hsplit, hrun, (admits_scheduleLoop hloop).tokens⟩

theorem exists_of_append_cons_eq {before after ps rest : List ℕ}
    (h : before ++ r :: after = ps ++ rest) (hr : r ∉ ps) :
    ∃ before', before = ps ++ before' ∧ rest = before' ++ r :: after := by
  rcases List.append_eq_append_iff.mp h with ⟨as, rfl, has⟩ | h
  · cases as with
    | nil => exact ⟨[], by simp, has.symm⟩
    | cons p as =>
      obtain ⟨rfl, -⟩ := List.cons.inj has
      exact absurd (List.mem_append_right _ List.mem_cons_self) hr
  · exact h

/-- When every sequence up to `r` fits, finishing what runs and scheduling again admits `r`. By
induction on the number of sequences before it. -/
theorem Reachable.admits {before after : List ℕ} (hb : 1 ≤ cfg.blockSize)
    (hmq : cfg.mode ≠ .ar → cfg.mqLen.isSome) (h : Reachable cfg s)
    (hw : s.waiting = before ++ r :: after) (hfits : ∀ q ∈ before ++ [r], Fits cfg (s.seqs q)) :
    ∃ s', Relation.ReflTransGen (Step cfg) s s' ∧ r ∈ s'.running := by
  induction hn : before.length using Nat.strong_induction_on generalizing s before with
  | _ n ih =>
    obtain ⟨s₁, hrun₁, hidle, hwait₁, hsame₁⟩ := h.holds.drain
    have h₁ : Reachable cfg s₁ := Relation.ReflTransGen.trans h hrun₁
    rw [hw] at hwait₁ hsame₁
    cases before with
    | nil =>
      have hfit : Fits cfg (s₁.seqs r) := by
        rw [hsame₁ r List.mem_cons_self]
        exact hfits r List.mem_cons_self
      obtain ⟨s₂, admitted, hstep, -, hrun₂, -⟩ := h₁.schedule_idle hb hmq hidle hwait₁ hfit
      exact ⟨s₂, hrun₁.tail hstep, hrun₂ ▸ List.mem_cons_self⟩
    | cons q before =>
      have hfit : Fits cfg (s₁.seqs q) := by
        rw [hsame₁ q List.mem_cons_self]
        exact hfits q List.mem_cons_self
      obtain ⟨s₂, admitted, hstep, hsplit, hrun₂, htok⟩ := h₁.schedule_idle hb hmq hidle hwait₁ hfit
      have h₂ : Reachable cfg s₂ := h₁.tail hstep
      rw [hwait₁] at hsplit
      have hrest : before ++ r :: after = admitted ++ s₂.waiting := (List.cons.inj hsplit).2
      by_cases hmem : r ∈ admitted
      · exact ⟨s₂, hrun₁.tail hstep, hrun₂ ▸ List.mem_cons_of_mem _ hmem⟩
      · -- only sequences before `r` were admitted
        obtain ⟨before', rfl, hw₂⟩ := exists_of_append_cons_eq hrest hmem
        have hlen : before'.length < n := by
          rw [← hn, List.length_cons, List.length_append]
          omega
        have hfits₂ : ∀ p ∈ before' ++ [r], Fits cfg (s₂.seqs p) := by
          intro p hp
          have hp' : p ∈ q :: (admitted ++ before') ++ [r] := by
            rcases List.mem_append.mp hp with hp | hp
            · exact List.mem_append_left _ (List.mem_cons_of_mem _ (List.mem_append_right _ hp))
            · exact List.mem_append_right _ hp
          have hold : p ∈ q :: (admitted ++ before') ++ r :: after := by
            rcases List.mem_append.mp hp' with hp | hp
            · exact List.mem_append_left _ hp
            · exact List.mem_append_right _ (List.mem_singleton.mp hp ▸ List.mem_cons_self)
          rw [fits_congr (htok p).numTokens, hsame₁ p hold]
          exact hfits p hp'
        obtain ⟨s₃, hrun₃, hr₃⟩ := ih _ hlen h₂ hw₂ hfits₂ rfl
        exact ⟨s₃, (hrun₁.tail hstep).trans hrun₃, hr₃⟩

/-- **Starvation.** Where no call raises, in every reachable state: a waiting request can still be
run, by some continuation of the calls, if and only if the pool is large enough for it and for every
request that came before it and is waiting too. -/
theorem admissible_iff (hb : 1 ≤ cfg.blockSize) (hfan : cfg.mode ≠ .ar → cfg.fanOutList ≠ [])
    (h : Reachable cfg s) (hr : r ∈ s.waiting) :
    (∃ s', Relation.ReflTransGen (Step cfg) s s' ∧ r ∈ s'.running) ↔
      ∀ q ∈ s.waiting, q ≤ r → Fits cfg (s.seqs q) := by
  constructor
  · rintro ⟨s', hrun, hr'⟩ q hq hle
    by_contra hnot
    have hstuck := h.stuck ⟨hq, hnot⟩ hrun
    have hlt := Reachable.running_lt (Relation.ReflTransGen.trans h hrun) hr' hstuck.1
    omega
  · intro hfits
    obtain ⟨before, after, hw⟩ := List.append_of_mem hr
    have hsorted := h.waiting_sorted
    rw [hw] at hsorted
    refine h.admits hb (fun hm => SSDConfig.mqLen_isSome (hfan hm)) hw fun q hq => ?_
    rcases List.mem_append.mp hq with hq | hq
    · have hlt : q < r := (List.pairwise_append.mp hsorted).2.2 q hq r List.mem_cons_self
      exact hfits q (hw ▸ List.mem_append_left _ hq) hlt.le
    · rw [List.mem_singleton.mp hq]
      exact hfits r hr le_rfl

theorem admissible_iff_second :
    ∃ s s', Reachable { mode := .sd, numBlocks := 5 } s ∧ s.running = [0] ∧ s.waiting = [1] ∧
      Relation.ReflTransGen (Step { mode := .sd, numBlocks := 5 }) s s' ∧ 1 ∈ s'.running := by
  have hadd : Reachable { mode := .sd, numBlocks := 5 }
      ((init { mode := .sd, numBlocks := 5 }).addRequest [1, 2, 3]).1 := .single (.addRequest _ _)
  have hfirst := (hadd.tail (.addRequest _ [4])).tail (.schedule rfl)
  obtain ⟨s', hrun, hr⟩ :=
    (admissible_iff (r := 1) (by decide) (by decide) hfirst List.mem_cons_self).mpr (by decide)
  exact ⟨_, s', hfirst, rfl, rfl, hrun, hr⟩

/-! ## A queue that does not move -/

/-- All slots are taken, or the pool lacks blocks for the head of the queue. -/
def Blocked (cfg : SSDConfig) (s : Scheduler) : Prop :=
  ∃ r w, s.waiting = r :: w ∧ (16 ≤ s.running.length ∨
    s.pageManager.freeBlocks.length < (lacking cfg s r).1 + (lacking cfg s r).2)

theorem Grows.lacking_self {target draft : List ℕ} (h : Grows s s₁ r target draft) :
    lacking cfg s₁ r =
      ((lacking cfg s r).1 - target.length, (lacking cfg s r).2 - draft.length) := by
  unfold lacking
  simp only [h.numTokens, h.blockSize, h.blockTable, h.draftBlockTable, List.length_append,
    Nat.sub_sub]
  cases cfg.mode <;> cases cfg.mqLen <;> simp [Nat.sub_sub]

theorem scheduleLoop_blocked {scheduled scheduled' : List ℕ}
    (h : scheduleLoop cfg w s scheduled = .ok (s', scheduled')) (hne : s'.waiting ≠ []) :
    Blocked cfg s' := by
  induction w generalizing s scheduled with
  | nil =>
    obtain ⟨rfl, rfl⟩ := Prod.mk.inj (Except.ok.inj h)
    exact absurd rfl hne
  | cons r w ih =>
    unfold scheduleLoop at h
    split_ifs at h with hlt
    · cases hres : reserveBlocks cfg s r with
      | error _ => rw [hres] at h; cases h
      | ok res =>
        obtain ⟨b, s₁⟩ := res
        rw [hres] at h
        cases b with
        | true => exact ih h
        | false =>
          obtain ⟨rfl, rfl⟩ := Prod.mk.inj (Except.ok.inj h)
          refine ⟨r, w, rfl, .inr ?_⟩
          obtain ⟨target, draft, hgrows, hcases⟩ := reserveBlocks_grows hres
          have hfree := hgrows.free.length_eq
          rw [List.length_append, List.length_append] at hfree
          show s₁.pageManager.freeBlocks.length <
            (lacking cfg s₁ r).1 + (lacking cfg s₁ r).2
          rw [hgrows.lacking_self]
          show s₁.pageManager.freeBlocks.length < (lacking cfg s r).1 - target.length +
            ((lacking cfg s r).2 - draft.length)
          rcases hcases with ⟨hf, -⟩ | ⟨-, rfl, rfl, hshort⟩ | ⟨-, hlen, rfl, hfit, hshort⟩
          · cases hf
          · simp only [List.length_nil] at hfree ⊢
            omega
          · simp only [List.length_nil] at hfree ⊢
            omega
    · obtain ⟨rfl, rfl⟩ := Prod.mk.inj (Except.ok.inj h)
      exact ⟨r, w, rfl, .inl (not_lt.mp hlt)⟩

theorem Blocked.schedule (h : Blocked cfg s) {scheduled : List ℕ}
    (hs : Scheduler.schedule cfg s = .ok (s', scheduled)) :
    s'.running = s.running ∧ s'.waiting = s.waiting := by
  obtain ⟨r, w, hw, hblocked⟩ := h
  unfold Scheduler.schedule at hs
  rw [hw] at hs ⊢
  unfold scheduleLoop at hs
  split_ifs at hs with hlt
  · cases hres : reserveBlocks cfg s r with
    | error _ => rw [hres] at hs; cases hs
    | ok res =>
      obtain ⟨b, s₁⟩ := res
      rw [hres] at hs
      cases b with
      | true =>
        obtain ⟨target, draft, hgrows, hcases⟩ := reserveBlocks_grows hres
        obtain ⟨-, hlenT, hlenD⟩ := hcases.resolve_right (by simp)
        have hfree := hgrows.free.length_eq
        rw [List.length_append, List.length_append] at hfree
        omega
      | false =>
        obtain ⟨rfl, rfl⟩ := Prod.mk.inj (Except.ok.inj hs)
        exact ⟨(reserveBlocks_lists hres).1, rfl⟩
  · obtain ⟨rfl, rfl⟩ := Prod.mk.inj (Except.ok.inj hs)
    exact ⟨rfl, rfl⟩

theorem Blocked.addRequest (h : Blocked cfg s) (hlt : ∀ q ∈ s.waiting, q < s.nextId)
    (prompt : List Token) : Blocked cfg (s.addRequest prompt).1 := by
  obtain ⟨r, w, hw, hblocked⟩ := h
  refine ⟨r, w ++ [s.nextId], ?_, ?_⟩
  · show s.waiting ++ [s.nextId] = _
    rw [hw, List.cons_append]
  · have hold : (s.addRequest prompt).1.seqs r = s.seqs r :=
      setSeq_of_ne s _ (hlt r (hw ▸ List.mem_cons_self)).ne
    unfold lacking at hblocked ⊢
    rw [hold]
    exact hblocked

theorem Blocked.setSeq {seq : Sequence} (h : Blocked cfg s)
    (ht : seq.blockTable = (s.seqs q).blockTable)
    (hd : seq.draftBlockTable = (s.seqs q).draftBlockTable)
    (hn : (s.seqs q).numTokens ≤ seq.numTokens) : Blocked cfg (s.setSeq q seq) := by
  obtain ⟨r, w, hw, hblocked⟩ := h
  refine ⟨r, w, hw, hblocked.imp_right fun hlt => lt_of_lt_of_le hlt ?_⟩
  by_cases hr : r = q
  · subst hr
    have hceil (n : ℕ) : ((s.seqs r).numTokens + n) ⌈/⌉ s.pageManager.blockSize ≤
        (seq.numTokens + n) ⌈/⌉ s.pageManager.blockSize := by
      rw [Nat.ceilDiv_eq_add_pred_div, Nat.ceilDiv_eq_add_pred_div]
      exact Nat.div_le_div_right (by omega)
    unfold lacking
    simp only [setSeq_self, ht, hd]
    apply Nat.add_le_add (Nat.sub_le_sub_right (hceil _) _)
    cases cfg.mode <;> cases cfg.mqLen
    all_goals first
      | exact le_rfl
      | exact Nat.sub_le_sub_right (hceil _) _
  · unfold lacking
    rw [setSeq_of_ne s _ hr]
    exact le_rfl

end Scheduler

namespace LLMEngine

open Scheduler
open ToyModelAdapter (alternating)

variable {τ R R' : Type*} [LinearOrder R] [LinearOrder R'] [Zero R'] {V V' : ℕ} {cfg : SSDConfig}
  {target : DecodeModelAdapter τ R V} {draft : DraftModel R' V'} {sampling : SamplingParams}
  {e : LLMEngine τ cfg.speculateK V' R'} {g g' : Generation τ cfg.speculateK V' R'}
  {prompt : List Token} {prompts : List (List Token)}

/-- The running sequences of an engine and then the waiting ones are all that it was given, and the
queue does not move. -/
structure Lined (cfg : SSDConfig) (e : LLMEngine τ cfg.speculateK V' R') : Prop where
  order : e.scheduler.running ++ e.scheduler.waiting = List.range e.scheduler.nextId
  blocked : e.scheduler.waiting ≠ [] → Blocked cfg e.scheduler

omit [LinearOrder R'] [Zero R'] in
theorem Lined.admitPrompt {a : LLMEngine τ cfg.speculateK V' R' × ℕ} (h : Lined cfg e)
    (ha : admitPrompt cfg e prompt = some a) : Lined cfg a.1 := by
  have hnext := (admission_of_admitPrompt ha).admits.nextId
  obtain ⟨⟨s, scheduled⟩, hs, rfl⟩ := Option.map_eq_some_iff.mp ha
  have hs := toOption_eq_some.mp hs
  obtain ⟨admitted, -, hw, hrun⟩ := scheduleLoop_lists hs
  refine ⟨?_, fun hne => scheduleLoop_blocked hs hne⟩
  show s.running ++ s.waiting = List.range s.nextId
  have hnext : s.nextId = e.scheduler.nextId + 1 := hnext
  have hw : e.scheduler.waiting ++ [e.scheduler.nextId] = admitted ++ s.waiting := hw
  have hrun : s.running = e.scheduler.running ++ admitted := hrun
  rw [hrun, hnext, List.append_assoc, ← hw, ← List.append_assoc, h.order, List.range_succ]

omit [LinearOrder R'] [Zero R'] in
theorem Lined.waiting {a : LLMEngine τ cfg.speculateK V' R' × ℕ} (h : Lined cfg e)
    (hne : e.scheduler.waiting ≠ []) (ha : LLMEngine.admitPrompt cfg e prompt = some a) :
    a.1.scheduler.running = e.scheduler.running ∧
      a.1.scheduler.waiting = e.scheduler.waiting ++ [e.scheduler.nextId] := by
  obtain ⟨⟨s, scheduled⟩, hs, rfl⟩ := Option.map_eq_some_iff.mp ha
  have hs := toOption_eq_some.mp hs
  have hlt : ∀ q ∈ e.scheduler.waiting, q < e.scheduler.nextId := by
    intro q hq
    rw [← List.mem_range, ← h.order]
    exact List.mem_append_right _ hq
  exact ((h.blocked hne).addRequest hlt prompt).schedule hs

theorem Lined.servePrompt (h : Lined cfg g.engine)
    (hs : servePrompt cfg target draft sampling g prompt = some g') :
    ∃ a, LLMEngine.admitPrompt cfg g.engine prompt = some a ∧ Lined cfg g'.engine ∧
      g'.engine.scheduler.running = a.1.scheduler.running ∧
      g'.engine.scheduler.waiting = a.1.scheduler.waiting ∧
      g'.engine.scheduler.nextId = g.engine.scheduler.nextId + 1 := by
  obtain ⟨a, d, w, ha, hrun, hsch, -⟩ := servePrompt_cases hs
  have hlined := h.admitPrompt ha
  have hadm := admission_of_admitPrompt ha
  have hsame := runMode_sameRequest hrun
  have hlen : (a.1.scheduler.seqs a.2).numTokens ≤ d.seq.numTokens := by
    unfold Sequence.numTokens Sequence.tokenIds
    rw [hsame.prompt, hadm.seq.completion, List.append_nil, List.length_append]
    exact Nat.le_add_right _ _
  rw [hsch]
  refine ⟨a, ha, ⟨?_, fun hne => ?_⟩, rfl, rfl, hadm.admits.nextId⟩
  · rw [hsch]
    exact hlined.order
  · rw [hsch] at hne ⊢
    exact (hlined.blocked hne).setSeq hsame.blockTable hsame.draftBlockTable hlen

theorem Reachable.lined {t : τ} (h : Reachable cfg target draft t e) : Lined cfg e := by
  refine h.invariant (fun e he => ?_) (fun e prompt a t' he ha => ?_)
    fun sampling g prompt g' hg hs => ?_
  · refine ⟨?_, fun hne => ?_⟩
    · rw [(init_cases he).1]
      rfl
    · rw [(init_cases he).1] at hne
      exact absurd rfl hne
  · obtain ⟨horder, hblocked⟩ := he.admitPrompt ha
    exact ⟨horder, hblocked⟩
  · obtain ⟨a, -, hlined, -⟩ := hg.servePrompt hs
    exact hlined

theorem generateLoop_waiting (h : Lined cfg g.engine) (hw : g.engine.scheduler.waiting ≠ [])
    (hg : generateLoop cfg target draft sampling prompts g = some g') :
    g'.engine.scheduler.running = g.engine.scheduler.running ∧
      g'.engine.scheduler.waiting =
        g.engine.scheduler.waiting ++ List.range' g.engine.scheduler.nextId prompts.length := by
  induction prompts generalizing g with
  | nil =>
    obtain rfl := Option.some.inj hg
    exact ⟨rfl, (List.append_nil _).symm⟩
  | cons prompt prompts ih =>
    obtain ⟨g₁, h₁, h₂⟩ := Option.bind_eq_some_iff.mp hg
    obtain ⟨a, ha, hlined, hrun, hwait, hnext⟩ := h.servePrompt h₁
    obtain ⟨hrunA, hwaitA⟩ := h.waiting hw ha
    have hne : g₁.engine.scheduler.waiting ≠ [] := by
      rw [hwait, hwaitA]
      simp
    obtain ⟨hrun', hwait'⟩ := ih hlined hne h₂
    refine ⟨hrun'.trans (hrun.trans hrunA), ?_⟩
    rw [hwait', hwait, hwaitA, hnext, List.length_cons, List.range'_succ, List.append_assoc,
      List.singleton_append]

/-- **Requests that are never admitted.** When a request is left waiting in a reachable engine, no
request is admitted any more: every call that returns leaves all its requests in the queue. -/
theorem generate_waiting {t : τ} (he : Reachable cfg target draft t e)
    (hw : e.scheduler.waiting ≠ [])
    (hg : generate cfg target draft sampling e prompts = some g) :
    g.engine.scheduler.running = e.scheduler.running ∧
      g.engine.scheduler.waiting =
        e.scheduler.waiting ++ List.range' e.scheduler.nextId prompts.length :=
  generateLoop_waiting (Reachable.lined he) hw hg

theorem generate_waiting_one_block :
    ∃ e g g', init { numBlocks := 1 } () = some e ∧
      generate { numBlocks := 1 } alternating.adapter alternating.draftSpeculate
        { maxNewTokens := 1 } e [[1], [1]] = some g ∧
      generate { numBlocks := 1 } alternating.adapter alternating.draftSpeculate
        { maxNewTokens := 1 } g.engine [[1]] = some g' ∧
      g.engine.scheduler.waiting = [1] ∧ g'.engine.scheduler.running = [0] ∧
      g'.engine.scheduler.waiting = [1, 2] := by
  obtain ⟨e, g, g', he, hg, hg', hwait, hrun, hnext⟩ :
      ∃ e g g', init { numBlocks := 1 } () = some e ∧
        generate { numBlocks := 1 } alternating.adapter alternating.draftSpeculate
          { maxNewTokens := 1 } e [[1], [1]] = some g ∧
        generate { numBlocks := 1 } alternating.adapter alternating.draftSpeculate
          { maxNewTokens := 1 } g.engine [[1]] = some g' ∧
        g.engine.scheduler.waiting = [1] ∧ g.engine.scheduler.running = [0] ∧
        g.engine.scheduler.nextId = 2 := ⟨_, _, _, rfl, rfl, rfl, rfl, rfl, rfl⟩
  obtain ⟨hrun', hwait'⟩ := generate_waiting (.generate (.init he) _ _ hg)
    (by rw [hwait]; exact List.cons_ne_nil 1 []) hg'
  rw [hrun] at hrun'
  rw [hwait, hnext] at hwait'
  exact ⟨e, g, g', he, hg, hg', hwait, hrun', hwait'⟩

end LLMEngine

end SsdTpu
