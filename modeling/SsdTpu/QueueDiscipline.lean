import SsdTpu.Conservation

/-!
# The queue discipline

`Queues s w admitted` says where every sequence is, over an explicit list `w` of the sequences that
still wait, so that it can be used inside the admission loop: the admitted references followed by
the waiting ones are `0, …, nextId - 1` in order, and the admitted ones are the running and the
finished ones. A sequence that is put back goes in front of `w`, where it was (`Queues.congr`); one
that is admitted moves from the head of `w` to the end of `admitted` (`Queues.promote`). First come,
first served is then read off the order of `List.range` (`Queues.discipline`). A call that raises
leaves the sequence it was admitting in no list (`queue_discipline_iff`).
-/

namespace SsdTpu

namespace Scheduler

/-- A run of calls, returned or raised, with the references that `schedule` has admitted, in
order. -/
inductive History (cfg : SSDConfig) : Scheduler → List ℕ → Prop
  | init : History cfg (init cfg) []
  | addRequest {s : Scheduler} {admitted : List ℕ} (h : History cfg s admitted)
    (prompt : List Token) : History cfg (s.addRequest prompt).1 admitted
  | schedule {s s' : Scheduler} {admitted scheduled : List ℕ} (h : History cfg s admitted)
    (hs : s.schedule cfg = .ok (s', scheduled)) : History cfg s' (admitted ++ scheduled)
  | raised {s s' : Scheduler} {admitted scheduled : List ℕ} (h : History cfg s admitted)
    (hs : s.schedule cfg = .error (s', scheduled)) : History cfg s' (admitted ++ scheduled)
  | postprocess {s : Scheduler} {admitted : List ℕ} (h : History cfg s admitted) {r : ℕ}
    (hr : r ∈ s.running) (newTokens : List Token) (eosId : Option Token) (maxTokens : ℤ) :
    History cfg (s.postprocess r newTokens eosId maxTokens) admitted
  | postprocessSpeculative {s : Scheduler} {admitted : List ℕ} (h : History cfg s admitted) {r : ℕ}
    (hr : r ∈ s.running) (acceptedTokens : List Token) (recovery : Token) (reserved : ℤ)
    (eosId : Option Token) (maxTokens : ℤ) :
    History cfg (s.postprocessSpeculative r acceptedTokens recovery reserved eosId maxTokens)
      admitted

/-! ## The invariant -/

structure Queues (s : Scheduler) (w admitted : List ℕ) : Prop where
  order : admitted ++ w = List.range s.nextId
  perm : (s.running ++ s.finished).Perm admitted
  bound : s.running.length ≤ 16
  seqId : ∀ r < s.nextId, (s.seqs r).seqId = r
  waiting : ∀ r ∈ w, (s.seqs r).status = .waiting
  running : ∀ r ∈ s.running, (s.seqs r).status = .running
  finished : ∀ r ∈ s.finished, (s.seqs r).status = .finished

variable {cfg : SSDConfig} {s s' : Scheduler} {w admitted : List ℕ} {r : ℕ}

theorem Queues.nodup (h : Queues s w admitted) : (s.running ++ s.finished ++ w).Nodup := by
  have hp : (s.running ++ s.finished ++ w).Perm (admitted ++ w) := h.perm.append_right w
  rw [h.order] at hp
  exact hp.nodup_iff.mpr List.nodup_range

theorem Queues.lt_of_running (h : Queues s w admitted) (hr : r ∈ s.running) : r < s.nextId := by
  have hmem : r ∈ admitted := h.perm.mem_iff.mp (List.mem_append_left _ hr)
  apply List.mem_range.mp
  rw [← h.order]
  exact List.mem_append_left _ hmem

/-- The sequence objects with the same identity and the same status. -/
def SameStatus (s s' : Scheduler) : Prop :=
  ∀ q, (s'.seqs q).seqId = (s.seqs q).seqId ∧ (s'.seqs q).status = (s.seqs q).status

theorem SameStatus.trans {s'' : Scheduler} (h : SameStatus s s') (h' : SameStatus s' s'') :
    SameStatus s s'' :=
  fun q => ⟨(h' q).1.trans (h q).1, (h' q).2.trans (h q).2⟩

theorem sameStatus_setSeq {seq : Sequence} (hid : seq.seqId = (s.seqs r).seqId)
    (hst : seq.status = (s.seqs r).status) : SameStatus s (s.setSeq r seq) := by
  intro q
  by_cases hq : q = r
  · subst hq
    rw [setSeq_self]
    exact ⟨hid, hst⟩
  · rw [setSeq_of_ne _ _ hq]
    exact ⟨rfl, rfl⟩

theorem sameStatus_reserveBlocks {b : Bool} (h : reserveBlocks cfg s r = .ok (b, s')) :
    SameStatus s s' := by
  have halloc : ∀ n, SameStatus s (s.grow r n).2 := fun n =>
    sameStatus_setSeq (s := s) (r := r) rfl rfl
  rcases reserveBlocks_cases h with ⟨_, rfl, _⟩ | ⟨mqLen, _, _, _, heq⟩
  · exact halloc _
  · have hs' : s' = _ := congrArg Prod.snd heq
    rw [hs']
    exact (halloc _).trans (sameStatus_setSeq (s := (s.grow r _).2) (r := r) rfl rfl)

theorem Queues.congr (h : Queues s w admitted) (hsame : SameStatus s s')
    (hrun : s'.running = s.running) (hfin : s'.finished = s.finished)
    (hnext : s'.nextId = s.nextId) : Queues s' w admitted where
  order := by rw [hnext]; exact h.order
  perm := by rw [hrun, hfin]; exact h.perm
  bound := by rw [hrun]; exact h.bound
  seqId q hq := by
    rw [(hsame q).1]
    exact h.seqId q (hnext ▸ hq)
  waiting q hq := by
    rw [(hsame q).2]
    exact h.waiting q hq
  running q hq := by
    rw [(hsame q).2]
    exact h.running q (hrun ▸ hq)
  finished q hq := by
    rw [(hsame q).2]
    exact h.finished q (hfin ▸ hq)

/-! ## Each step keeps it -/

theorem queues_init (cfg : SSDConfig) : Queues (init cfg) [] [] where
  order := rfl
  perm := .refl _
  bound := by simp [init]
  seqId := by simp [init]
  waiting := by simp
  running := by simp [init]
  finished := by simp [init]

theorem Queues.addRequest (h : Queues s w admitted) (prompt : List Token) :
    Queues (s.addRequest prompt).1 (w ++ [s.nextId]) admitted := by
  have hne : ∀ q ∈ s.running ++ s.finished ++ w, q ≠ s.nextId := by
    intro q hq
    have hmem : q ∈ admitted ++ w := (h.perm.append_right w).mem_iff.mp hq
    rw [h.order, List.mem_range] at hmem
    omega
  have hold : ∀ q, q ≠ s.nextId → (s.addRequest prompt).1.seqs q = s.seqs q :=
    fun q hq => setSeq_of_ne s _ hq
  have hnew : (s.addRequest prompt).1.seqs s.nextId =
      { seqId := s.nextId, promptTokenIds := prompt } := setSeq_self s _ _
  refine ⟨?_, h.perm, h.bound, fun q hq => ?_, fun q hq => ?_, fun q hq => ?_, fun q hq => ?_⟩
  · show admitted ++ (w ++ [s.nextId]) = List.range (s.nextId + 1)
    rw [← List.append_assoc, h.order, List.range_succ]
  · by_cases hqn : q = s.nextId
    · rw [hqn, hnew]
    · rw [hold q hqn]
      have hq : q < s.nextId + 1 := hq
      exact h.seqId q (by omega)
  · rcases List.mem_append.mp hq with hq | hq
    · rw [hold q (hne q (List.mem_append_right _ hq))]
      exact h.waiting q hq
    · rw [List.mem_singleton.mp hq, hnew]
  · rw [hold q (hne q (List.mem_append_left _ (List.mem_append_left _ hq)))]
    exact h.running q hq
  · rw [hold q (hne q (List.mem_append_left _ (List.mem_append_right _ hq)))]
    exact h.finished q hq

/-- An admission attempt, successful or not, changes no list and no status. -/
theorem Queues.reserveBlocks {b : Bool} (h : Queues s w admitted)
    (hres : reserveBlocks cfg s r = .ok (b, s')) : Queues s' w admitted := by
  obtain ⟨hrun, hfin, hnext⟩ := reserveBlocks_lists hres
  exact h.congr (sameStatus_reserveBlocks hres) hrun hfin hnext

theorem Queues.promote (h : Queues s (r :: w) admitted) (hlt : s.running.length < 16) :
    Queues (s.startRunning r) w (admitted ++ [r]) := by
  have hnot : ∀ q ∈ s.running ++ s.finished ++ w, q ≠ r := by
    have hnd : (r :: (s.running ++ s.finished ++ w)).Nodup := List.nodup_middle.mp h.nodup
    rintro q hq rfl
    exact (List.nodup_cons.mp hnd).1 hq
  have hold : ∀ q, q ≠ r → (s.startRunning r).seqs q = s.seqs q := fun q hq => setSeq_of_ne s _ hq
  have hself : (s.startRunning r).seqs r = { s.seqs r with status := .running } :=
    setSeq_self s _ _
  refine ⟨?_, ?_, ?_, fun q hq => ?_, fun q hq => ?_, fun q hq => ?_, fun q hq => ?_⟩
  · rw [List.append_assoc]
    exact h.order
  · show (s.running ++ [r] ++ s.finished).Perm (admitted ++ [r])
    have hmove : (s.running ++ [r] ++ s.finished).Perm (s.running ++ s.finished ++ [r]) := by
      rw [List.append_assoc, List.append_assoc]
      exact List.perm_append_comm.append_left _
    exact hmove.trans (h.perm.append_right _)
  · show (s.running ++ [r]).length ≤ 16
    rw [List.length_append, List.length_singleton]
    omega
  · by_cases hqr : q = r
    · rw [hqr, hself]
      exact h.seqId r (hqr ▸ hq)
    · rw [hold q hqr]
      exact h.seqId q hq
  · rw [hold q (hnot q (List.mem_append_right _ hq))]
    exact h.waiting q (List.mem_cons_of_mem _ hq)
  · rcases List.mem_append.mp hq with hq | hq
    · rw [hold q (hnot q (List.mem_append_left _ (List.mem_append_left _ hq)))]
      exact h.running q hq
    · rw [List.mem_singleton.mp hq, hself]
  · rw [hold q (hnot q (List.mem_append_left _ (List.mem_append_right _ hq)))]
    exact h.finished q hq

theorem Queues.scheduleLoop {scheduled scheduled' : List ℕ}
    (h : Queues s w (admitted ++ scheduled))
    (hs : scheduleLoop cfg w s scheduled = .ok (s', scheduled')) :
    Queues s' s'.waiting (admitted ++ scheduled') := by
  obtain ⟨w', s₁, h₁, rfl⟩ :=
    scheduleLoop_invariant (P := fun w s₁ scheduled => Queues s₁ w (admitted ++ scheduled))
      (fun _ _ _ _ _ h₁ hres => h₁.reserveBlocks hres)
      (fun _ _ _ _ _ h₁ hlt hres => by
        rw [← List.append_assoc]
        apply (h₁.reserveBlocks hres).promote
        rwa [(reserveBlocks_lists hres).1]) h hs
  exact ⟨h₁.order, h₁.perm, h₁.bound, h₁.seqId, h₁.waiting, h₁.running, h₁.finished⟩

theorem Queues.finish (h : Queues s w admitted) (hr : r ∈ s.running) :
    Queues (s.finish r) w admitted := by
  have hnd : (s.running ++ (s.finished ++ w)).Nodup := by
    rw [← List.append_assoc]
    exact h.nodup
  have hrun : s.running.Nodup := hnd.of_append_left
  have hout : ∀ q ∈ s.finished ++ w, q ≠ r := by
    rintro q hq rfl
    exact List.disjoint_of_nodup_append hnd hr hq
  set s₁ := s.setSeq r { s.seqs r with status := .finished } with hs₁
  have hsame : ∀ q, (s₁.seqs q).seqId = (s.seqs q).seqId := by
    intro q
    by_cases hq : q = r
    · subst hq
      rw [hs₁, setSeq_self]
    · rw [hs₁, setSeq_of_ne s _ hq]
  have hold : ∀ q, q ≠ r → (s.finish r).seqs q = s.seqs q := fun q hq =>
    (setSeq_of_ne s₁ _ hq).trans (setSeq_of_ne s _ hq)
  have hself : (s.finish r).seqs r = (s₁.pageManager.freeSequence (s₁.seqs r)).2 :=
    setSeq_self s₁ r _
  have hid : ∀ q ∈ s.running, (s₁.seqs q).seqId = q := fun q hq =>
    (hsame q).trans (h.seqId q (h.lt_of_running hq))
  have herase : (s.finish r).running = s.running.erase r := eraseP_eq_erase hid (hid r hr)
  refine ⟨h.order, ?_, ?_, fun q hq => ?_, fun q hq => ?_, fun q hq => ?_, fun q hq => ?_⟩
  · rw [herase]
    show (s.running.erase r ++ (s.finished ++ [r])).Perm admitted
    have hmove : (s.running.erase r ++ (s.finished ++ [r])).Perm
        (r :: (s.running.erase r ++ s.finished)) := by
      rw [← List.append_assoc]
      exact List.perm_append_singleton _ _
    exact hmove.trans (((List.perm_cons_erase hr).symm.append_right s.finished).trans h.perm)
  · rw [herase]
    exact le_trans List.length_erase_le h.bound
  · by_cases hqr : q = r
    · rw [hqr, hself]
      exact hid r hr
    · rw [hold q hqr]
      exact h.seqId q hq
  · rw [hold q (hout q (List.mem_append_right _ hq))]
    exact h.waiting q hq
  · rw [herase, hrun.mem_erase_iff] at hq
    rw [hold q hq.1]
    exact h.running q hq.2
  · rcases List.mem_append.mp hq with hq | hq
    · rw [hold q (hout q (List.mem_append_left _ hq))]
      exact h.finished q hq
    · rw [List.mem_singleton.mp hq, hself]
      show (s₁.seqs r).status = .finished
      rw [hs₁, setSeq_self]

theorem Queues.postprocess (h : Queues s s.waiting admitted) (hr : r ∈ s.running)
    (newTokens : List Token) (eosId : Option Token) (maxTokens : ℤ) :
    Queues (s.postprocess r newTokens eosId maxTokens)
      (s.postprocess r newTokens eosId maxTokens).waiting admitted := by
  have happ : Queues (s.setSeq r ((s.seqs r).appendTokens newTokens)) s.waiting admitted :=
    h.congr (sameStatus_setSeq rfl rfl) rfl rfl rfl
  unfold Scheduler.postprocess
  simp only
  split_ifs
  · exact happ.finish hr
  · exact happ

theorem Queues.postprocessSpeculative (h : Queues s s.waiting admitted) (hr : r ∈ s.running)
    (accepted : List Token) (recovery : Token) (reserved : ℤ) (eosId : Option Token)
    (maxTokens : ℤ) :
    Queues (s.postprocessSpeculative r accepted recovery reserved eosId maxTokens)
      (s.postprocessSpeculative r accepted recovery reserved eosId maxTokens).waiting admitted := by
  unfold Scheduler.postprocessSpeculative
  simp only
  set seq : Sequence := { (s.seqs r).appendTokens accepted with recoveryToken := recovery }
  set b := s.pageManager.rollbackSpeculative seq accepted.length reserved with hb
  have happ : Queues { s.setSeq r b.2 with pageManager := b.1 } s.waiting admitted :=
    h.congr (sameStatus_setSeq (s := s) rfl rfl) rfl rfl rfl
  split_ifs
  · exact happ.finish hr
  · exact happ

theorem Queues.schedule {scheduled : List ℕ} (h : Queues s s.waiting admitted)
    (hs : s.schedule cfg = .ok (s', scheduled)) :
    Queues s' s'.waiting (admitted ++ scheduled) := by
  apply Queues.scheduleLoop _ hs
  rw [List.append_nil]
  exact h

/-- The run lemma, for calls that return. -/
theorem Reachable.queues (h : Reachable cfg s) : ∃ admitted, Queues s s.waiting admitted := by
  induction h with
  | refl => exact ⟨[], queues_init cfg⟩
  | tail _ hs ih =>
    obtain ⟨admitted, ih⟩ := ih
    cases hs with
    | addRequest prompt => exact ⟨admitted, ih.addRequest prompt⟩
    | schedule hs => exact ⟨_, ih.schedule hs⟩
    | postprocess hr tokens eos max => exact ⟨admitted, ih.postprocess hr tokens eos max⟩
    | postprocessSpeculative hr tokens recovery reserved eos max =>
      exact ⟨admitted, ih.postprocessSpeculative hr tokens recovery reserved eos max⟩

/-! ## First come, first served -/

/-- Every sequence ever added is in one of the lists, once, with the status of that list; at most 16
run; ids are distinct, the waiting ones increase, and they come after all that were admitted. -/
structure Discipline (s : Scheduler) (admitted : List ℕ) : Prop where
  once : (s.waiting ++ s.running ++ s.finished).Perm (List.range s.nextId)
  waiting : ∀ r ∈ s.waiting, (s.seqs r).status = .waiting
  running : ∀ r ∈ s.running, (s.seqs r).status = .running
  finished : ∀ r ∈ s.finished, (s.seqs r).status = .finished
  bound : s.running.length ≤ 16
  distinct : ∀ q < s.nextId, ∀ r < s.nextId, (s.seqs q).seqId = (s.seqs r).seqId → q = r
  increasing : (s.waiting.map fun r => (s.seqs r).seqId).Pairwise (· < ·)
  started : admitted.Perm (s.running ++ s.finished)
  fcfs : ∀ q ∈ admitted, ∀ r ∈ s.waiting, (s.seqs q).seqId < (s.seqs r).seqId

theorem Queues.discipline (hq : Queues s s.waiting admitted) : Discipline s admitted := by
  have hsorted : (admitted ++ s.waiting).Pairwise (· < ·) := by
    rw [hq.order]
    exact List.pairwise_lt_range
  obtain ⟨_, hwait, hbefore⟩ := List.pairwise_append.mp hsorted
  have hid : ∀ r ∈ admitted ++ s.waiting, (s.seqs r).seqId = r := by
    intro r hr
    rw [hq.order] at hr
    exact hq.seqId r (List.mem_range.mp hr)
  refine ⟨?_, hq.waiting, hq.running, hq.finished, hq.bound, fun q hlq r hlr heq => ?_, ?_,
    hq.perm.symm, fun q hqa r hrw => ?_⟩
  · rw [← hq.order, List.append_assoc]
    exact List.perm_append_comm.trans (hq.perm.append_right _)
  · rwa [hq.seqId q hlq, hq.seqId r hlr] at heq
  · have hmap : (s.waiting.map fun r => (s.seqs r).seqId) = s.waiting := by
      conv_rhs => rw [← List.map_id s.waiting]
      exact List.map_congr_left fun r hr => hid r (List.mem_append_right _ hr)
    rwa [hmap]
  · rw [hid q (List.mem_append_left _ hqa), hid r (List.mem_append_right _ hrw)]
    exact hbefore q hqa r hrw

/-- The run lemma, for all calls: none of them raises. -/
theorem History.queues (hb : 1 ≤ cfg.blockSize) (hc : cfg.mode = .ar ∨ cfg.fanOutList ≠ [] ∨
      cfg.numBlocks * cfg.blockSize < cfg.speculateK + 1) (h : History cfg s admitted) :
    Holds cfg s (s.waiting ++ s.running) ∧ Queues s s.waiting admitted := by
  induction h with
  | init => exact ⟨holds_init cfg, queues_init cfg⟩
  | addRequest _ prompt ih => exact ⟨ih.1.step (.addRequest _ prompt), ih.2.addRequest prompt⟩
  | schedule _ hs ih => exact ⟨ih.1.step (.schedule hs), ih.2.schedule hs⟩
  | raised _ hs ih =>
    obtain ⟨a, ha⟩ := ih.1.exists_schedule hb hc
    cases ha.symm.trans hs
  | postprocess _ hr tokens eos max ih =>
    exact ⟨ih.1.postprocess hr tokens eos max, ih.2.postprocess hr tokens eos max⟩
  | postprocessSpeculative _ hr tokens recovery reserved eos max ih =>
    exact ⟨ih.1.postprocessSpeculative hr tokens recovery reserved eos max,
      ih.2.postprocessSpeculative hr tokens recovery reserved eos max⟩

/-- **The queue discipline.** Over all histories of calls, returned or raised, it holds in every
state reached exactly if no call can raise: the block size is not 0, and the draft reserve is
defined or never needed. -/
theorem queue_discipline_iff (cfg : SSDConfig) :
    (∀ s admitted, History cfg s admitted → Discipline s admitted) ↔
      1 ≤ cfg.blockSize ∧ (cfg.mode = .ar ∨ cfg.fanOutList ≠ [] ∨
        cfg.numBlocks * cfg.blockSize < cfg.speculateK + 1) := by
  constructor
  · intro h
    by_contra hc
    -- the first admission raises, and its sequence is in no queue
    have hfail : cfg.blockSize = 0 ∨ cfg.mode ≠ .ar ∧ cfg.fanOutList = [] ∧
        cfg.speculateK + 1 ≤ cfg.numBlocks * cfg.blockSize := by
      by_cases hb : cfg.blockSize = 0
      · exact .inl hb
      · have hc : ¬ (_ ∨ _ ∨ _) := fun h => hc ⟨by omega, h⟩
        rw [not_or, not_or, not_not, not_lt] at hc
        exact .inr hc
    obtain ⟨s', hs, hwait, hrun, hfin, hnext, -⟩ := schedule_first_error hfail
    have honce := (h s' _ ((History.init.addRequest []).raised hs)).once.length_eq
    rw [hwait, hrun, hfin, hnext] at honce
    cases honce
  · exact fun hc s admitted h => (h.queues hc.1 hc.2).2.discipline

/-- On an empty fan-out list the first request is in no queue after the call that admits it. -/
theorem queue_discipline_empty_fan_out :
    ∃ s, History { mode := .sd, fanOutList := [] } s [] ∧ s.nextId = 1 ∧ s.waiting = [] ∧
      s.running = [] ∧ s.finished = [] ∧ ¬ Discipline s [] := by
  obtain ⟨s', hs, hwait, hrun, hfin, hnext, -⟩ :
      ∃ s', ((init { mode := .sd, fanOutList := [] }).addRequest []).1.schedule
        { mode := .sd, fanOutList := [] } = .error (s', []) ∧ _ :=
    schedule_first_error (.inr ⟨by decide, rfl, by decide⟩)
  refine ⟨s', (History.init.addRequest []).raised hs, hnext, hwait, hrun, hfin, fun h => ?_⟩
  have honce := h.once.length_eq
  rw [hwait, hrun, hfin, hnext] at honce
  cases honce

/-- Five blocks serve one request at a time. The second is put back for want of draft blocks and is
admitted when the first has finished. -/
theorem queue_discipline_put_back :
    ∃ s, History { mode := .sd, numBlocks := 5 } s [0, 1] ∧ s.waiting = [2] ∧ s.running = [1] ∧
      s.finished = [0] ∧ Discipline s [0, 1] := by
  have hadd : History { mode := .sd, numBlocks := 5 }
      (((init { mode := .sd, numBlocks := 5 }).addRequest [1, 2, 3]).1.addRequest [4]).1 [] :=
    (History.init.addRequest _).addRequest _
  have hfirst := hadd.schedule rfl
  have hdone := (hfirst.addRequest [5]).postprocess (r := 0) List.mem_cons_self [7] none 1
  have hsecond := hdone.schedule rfl
  exact ⟨_, hsecond, rfl, rfl, rfl,
    (queue_discipline_iff _).mpr ⟨by decide, .inr (.inl (by decide))⟩ _ _ hsecond⟩

end Scheduler

end SsdTpu
