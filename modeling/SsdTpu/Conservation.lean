import SsdTpu.Admission

/-!
# Page conservation

The blocks of the waiting and running sequences and the free blocks are all blocks of the pool, each
once. Every call that returns keeps this (`Holds.step`). One that raises in the middle of an
admission can lose blocks, and `conservation_iff` says on which configurations.

1. Every operation of the pool on one sequence exchanges blocks between that sequence and the pool
   only: it is a `Transfer`.
2. `Holds cfg s active` is the invariant over an explicit list of the sequences that own blocks, so
   that it can be used inside the admission loop, where `waiting` is being consumed.
3. A transfer on an active sequence keeps it (`Holds.transfer`), and every scheduler step is made of
   transfers and moves between the lists.
4. A call raises only with an empty fan-out list (`Holds.exists_schedule`), and then loses the
   target blocks of the sequence it was admitting (`schedule_first_error`).
-/

namespace SsdTpu

/-! ## Transfers between a sequence and the pool -/

/-- Whatever the others own, the pool exchanges blocks with this sequence only. -/
structure Transfer (pm : PageManager) (seq : Sequence) (pm' : PageManager) (seq' : Sequence) :
    Prop where
  owns : ∀ held, pm.Owns (seq.blocks ++ held) → pm'.Owns (seq'.blocks ++ held)
  size : PageManager.SameSize pm pm'
  seqId : seq'.seqId = seq.seqId

namespace Transfer

variable {pm pm' pm'' : PageManager} {seq seq' seq'' : Sequence}

theorem trans (h : Transfer pm seq pm' seq') (h' : Transfer pm' seq' pm'' seq'') :
    Transfer pm seq pm'' seq'' where
  owns held hown := h'.owns held (h.owns held hown)
  size := h.size.trans h'.size
  seqId := h'.seqId.trans h.seqId

theorem of_blocks_eq (hid : seq'.seqId = seq.seqId) (hb : seq'.blocks = seq.blocks) :
    Transfer pm seq pm seq' where
  owns held hown := by rwa [hb]
  size := .refl pm
  seqId := hid

theorem grow (pm : PageManager) (seq : Sequence) (n : ℕ) :
    Transfer pm seq (pm.growTable seq.numTokens n seq.blockTable).2.1
      { seq with blockTable := (pm.growTable seq.numTokens n seq.blockTable).2.2 } where
  owns held hown := by
    obtain ⟨new, htab, hown', _⟩ := hown.growTable seq.numTokens n seq.blockTable
    apply hown'.of_perm
    show (new ++ (seq.blocks ++ held)).Perm
      ((pm.growTable seq.numTokens n seq.blockTable).2.2 ++ seq.draftBlockTable ++ held)
    rw [htab]
    simp only [Sequence.blocks, List.append_assoc]
    exact (List.perm_append_comm_assoc _ _ _)
  size := PageManager.sameSize_growTable _ _ _ _
  seqId := rfl

theorem growDraft (pm : PageManager) (seq : Sequence) (n : ℕ) :
    Transfer pm seq (pm.growTable seq.numTokens n seq.draftBlockTable).2.1
      { seq with
        draftBlockTable := (pm.growTable seq.numTokens n seq.draftBlockTable).2.2 } where
  owns held hown := by
    obtain ⟨new, htab, hown', _⟩ := hown.growTable seq.numTokens n seq.draftBlockTable
    apply hown'.of_perm
    show (new ++ (seq.blocks ++ held)).Perm
      (seq.blockTable ++ (pm.growTable seq.numTokens n seq.draftBlockTable).2.2 ++ held)
    rw [htab]
    simp only [Sequence.blocks, List.append_assoc]
    refine (List.perm_append_comm_assoc _ _ _).trans (List.Perm.append_left _ ?_)
    exact List.perm_append_comm_assoc _ _ _
  size := PageManager.sameSize_growTable _ _ _ _
  seqId := rfl

theorem rollbackSpeculative (pm : PageManager) (seq : Sequence) (accepted reserved : ℤ) :
    Transfer pm seq (pm.rollbackSpeculative seq accepted reserved).1
      (pm.rollbackSpeculative seq accepted reserved).2 where
  owns held hown := by
    unfold Sequence.blocks at hown ⊢
    rw [List.append_assoc] at hown ⊢
    exact (hown.rollbackLoop _ _ _).2
  size := PageManager.sameSize_rollbackLoop _ _ _ _ _
  seqId := rfl

theorem freeSequence (pm : PageManager) (seq : Sequence) :
    Transfer pm seq (pm.freeSequence seq).1 (pm.freeSequence seq).2 where
  owns held hown := by
    unfold Sequence.blocks at hown
    rw [List.append_assoc] at hown
    exact hown.foldl_freeBlock.foldl_freeBlock
  size := (PageManager.sameSize_foldl_freeBlock _ _).trans
    (PageManager.sameSize_foldl_freeBlock _ _)
  seqId := rfl

end Transfer

/-! ## The invariant -/

namespace Scheduler

/-- The blocks owned by the sequences behind the references. -/
def held (s : Scheduler) (active : List ℕ) : List ℕ := active.flatMap fun r => (s.seqs r).blocks

structure Holds (cfg : SSDConfig) (s : Scheduler) (active : List ℕ) : Prop where
  nodup : (active ++ s.finished).Nodup
  lt : ∀ r ∈ active ++ s.finished, r < s.nextId
  seqId : ∀ r < s.nextId, (s.seqs r).seqId = r
  owns : s.pageManager.Owns (s.held active)
  finished : ∀ r ∈ s.finished, (s.seqs r).blocks = []
  size : PageManager.SameSize (.init cfg.blockSize cfg.numBlocks) s.pageManager

variable {cfg : SSDConfig} {s s' : Scheduler} {active active' : List ℕ} {r : ℕ}

theorem Holds.of_perm (h : Holds cfg s active) (hp : active.Perm active') :
    Holds cfg s active' where
  nodup := (hp.append_right _).nodup_iff.mp h.nodup
  lt q hq := h.lt q ((hp.append_right _).mem_iff.mpr hq)
  seqId := h.seqId
  owns := h.owns.of_perm (hp.flatMap_right _)
  finished := h.finished
  size := h.size

theorem Holds.of_lists (h : Holds cfg s active) (waiting running : List ℕ) :
    Holds cfg { s with waiting := waiting, running := running } active :=
  ⟨h.nodup, h.lt, h.seqId, h.owns, h.finished, h.size⟩

theorem held_setSeq_of_not_mem (seq : Sequence) (hr : r ∉ active) :
    (s.setSeq r seq).held active = s.held active := by
  unfold held
  apply List.flatMap_congr
  intro q hq
  rw [setSeq_of_ne _ _ (by rintro rfl; exact hr hq)]

/-- **A transfer on an active sequence keeps the invariant.** -/
theorem Holds.transfer {seq : Sequence} {pm : PageManager} (h : Holds cfg s (r :: active))
    (ht : Transfer s.pageManager (s.seqs r) pm seq) :
    Holds cfg { s.setSeq r seq with pageManager := pm } (r :: active) := by
  have hnot : r ∉ active ++ s.finished := (List.nodup_cons.mp h.nodup).1
  rw [List.mem_append, not_or] at hnot
  have hlt : r < s.nextId := h.lt r List.mem_cons_self
  refine ⟨h.nodup, h.lt, fun q hq => ?_, ?_, fun q hq => ?_, h.size.trans ht.size⟩
  · by_cases hqr : q = r
    · subst hqr
      exact (congrArg Sequence.seqId (setSeq_self s q seq)).trans (ht.seqId.trans (h.seqId q hq))
    · exact (congrArg Sequence.seqId (setSeq_of_ne s seq hqr)).trans (h.seqId q hq)
  · have hown : s.pageManager.Owns ((s.seqs r).blocks ++ s.held active) := h.owns
    have hown' := ht.owns _ hown
    rw [← held_setSeq_of_not_mem seq hnot.1] at hown'
    show pm.Owns (((s.setSeq r seq).seqs r).blocks ++ (s.setSeq r seq).held active)
    rwa [setSeq_self]
  · have hqr : q ≠ r := by
      rintro rfl
      exact hnot.2 hq
    exact (congrArg Sequence.blocks (setSeq_of_ne s seq hqr)).trans (h.finished q hq)

theorem Holds.transfer_of_mem {seq : Sequence} {pm : PageManager} (h : Holds cfg s active)
    (hr : r ∈ active) (ht : Transfer s.pageManager (s.seqs r) pm seq) :
    Holds cfg { s.setSeq r seq with pageManager := pm } active :=
  have hp := List.perm_cons_erase hr
  ((h.of_perm hp).transfer ht).of_perm hp.symm

theorem Holds.setSeq {seq : Sequence} (h : Holds cfg s active) (hr : r ∈ active)
    (hid : seq.seqId = (s.seqs r).seqId) (hb : seq.blocks = (s.seqs r).blocks) :
    Holds cfg (s.setSeq r seq) active :=
  h.transfer_of_mem hr (Transfer.of_blocks_eq hid hb)

/-! ## Each step keeps it -/

theorem holds_init (cfg : SSDConfig) : Holds cfg (init cfg) [] where
  nodup := List.nodup_nil
  lt := by simp [init]
  seqId := by simp [init]
  owns := PageManager.owns_init _ _
  finished := by simp [init]
  size := .refl _

theorem Holds.addRequest (h : Holds cfg s active) (prompt : List Token) :
    Holds cfg (s.addRequest prompt).1 (s.nextId :: active) := by
  have hnew : s.nextId ∉ active ++ s.finished := fun hm => absurd (h.lt _ hm) (lt_irrefl _)
  have hnew' : s.nextId ∉ active := fun hm => hnew (List.mem_append_left _ hm)
  refine ⟨List.nodup_cons.mpr ⟨hnew, h.nodup⟩, fun q hq => ?_, fun q hq => ?_, ?_, fun q hq => ?_,
    h.size⟩
  · rcases List.mem_cons.mp hq with rfl | hq
    · exact Nat.lt_succ_self _
    · exact Nat.lt_succ_of_lt (h.lt q hq)
  · by_cases hqn : q = s.nextId
    · subst hqn
      exact congrArg Sequence.seqId (setSeq_self s _ _)
    · exact (congrArg Sequence.seqId (setSeq_of_ne s _ hqn)).trans
        (h.seqId q (lt_of_le_of_ne (Nat.lt_succ_iff.mp hq) hqn))
  · show s.pageManager.Owns (((s.setSeq s.nextId _).seqs s.nextId).blocks ++
      (s.setSeq s.nextId _).held active)
    rw [setSeq_self, held_setSeq_of_not_mem _ hnew']
    exact h.owns
  · have hqn : q ≠ s.nextId := by
      rintro rfl
      exact hnew (List.mem_append_right _ hq)
    exact (congrArg Sequence.blocks (setSeq_of_ne s _ hqn)).trans (h.finished q hq)

theorem Holds.grow (h : Holds cfg s (r :: active)) (n : ℕ) :
    Holds cfg (s.grow r n).2 (r :: active) :=
  h.transfer (Transfer.grow _ _ n)

theorem Holds.growDraft (h : Holds cfg s (r :: active)) (n : ℕ) :
    Holds cfg (s.growDraft r n).2 (r :: active) :=
  h.transfer (Transfer.growDraft _ _ n)

theorem Holds.reserveBlocks {b : Bool} (h : Holds cfg s (r :: active))
    (hr : reserveBlocks cfg s r = .ok (b, s')) : Holds cfg s' (r :: active) := by
  rcases reserveBlocks_cases hr with ⟨_, rfl, _⟩ | ⟨mqLen, _, _, _, heq⟩
  · exact h.grow _
  · rw [(Prod.mk.inj heq).2]
    exact (h.grow _).growDraft _

theorem Holds.startRunning (h : Holds cfg s (r :: active)) :
    Holds cfg (s.startRunning r) (r :: active) := by
  have h₁ : Holds cfg (s.setSeq r { s.seqs r with status := .running }) (r :: active) :=
    h.setSeq List.mem_cons_self rfl rfl
  exact h₁.of_lists s.waiting (s.running ++ [r])

theorem Holds.defer {waiting : List ℕ} (h : Holds cfg s (r :: waiting ++ s.running))
    (hres : Scheduler.reserveBlocks cfg s r = .ok (false, s')) :
    Holds cfg s' (r :: waiting ++ s'.running) := by
  rw [(reserveBlocks_lists hres).1]
  exact Holds.reserveBlocks h hres

theorem Holds.promote {waiting : List ℕ} (h : Holds cfg s (r :: waiting ++ s.running))
    (hres : Scheduler.reserveBlocks cfg s r = .ok (true, s')) :
    Holds cfg (s'.startRunning r) (waiting ++ (s'.startRunning r).running) := by
  have h₁ : Holds cfg s' (r :: (waiting ++ s'.running)) := by
    rw [(reserveBlocks_lists hres).1]
    exact Holds.reserveBlocks h hres
  apply h₁.startRunning.of_perm
  show (r :: (waiting ++ s'.running)).Perm (waiting ++ (s'.running ++ [r]))
  rw [← List.append_assoc]
  exact (List.perm_append_singleton _ _).symm

theorem Holds.scheduleLoop {waiting scheduled scheduled' : List ℕ}
    (h : Holds cfg s (waiting ++ s.running))
    (hs : scheduleLoop cfg waiting s scheduled = .ok (s', scheduled')) :
    Holds cfg s' (s'.waiting ++ s'.running) := by
  obtain ⟨w, s₁, h₁, rfl⟩ :=
    scheduleLoop_invariant (P := fun w s₁ _ => Holds cfg s₁ (w ++ s₁.running))
      (fun _ _ _ _ _ h₁ hres => h₁.defer hres) (fun _ _ _ _ _ h₁ _ hres => h₁.promote hres) h hs
  exact h₁.of_lists w s₁.running

/-- Removal by value removes the reference itself, since sequence ids are distinct. -/
theorem eraseP_eq_erase {running : List ℕ} (hid : ∀ q ∈ running, (s.seqs q).seqId = q)
    (hr : (s.seqs r).seqId = r) :
    running.eraseP (fun q => decide (s.seqs q = s.seqs r)) = running.erase r := by
  induction running with
  | nil => rfl
  | cons q running ih =>
    by_cases hqr : q = r
    · subst hqr
      simp
    · have hne : s.seqs q ≠ s.seqs r := by
        intro h
        exact hqr (by rw [← hid q List.mem_cons_self, h, hr])
      rw [List.eraseP_cons_of_neg (by simpa using hne), List.erase_cons_tail (by simpa using hqr),
        ih fun q hq => hid q (List.mem_cons_of_mem _ hq)]

theorem Holds.retire (h : Holds cfg s (r :: active)) (hb : (s.seqs r).blocks = []) :
    Holds cfg { s with finished := s.finished ++ [r] } active where
  nodup := by
    have hp : (r :: active ++ s.finished).Perm (active ++ (s.finished ++ [r])) := by
      rw [← List.append_assoc]
      exact (List.perm_append_singleton _ _).symm
    exact hp.nodup_iff.mp h.nodup
  lt q hq := by
    apply h.lt q
    simp only [List.mem_append, List.mem_cons, List.not_mem_nil, or_false] at hq ⊢
    tauto
  seqId := h.seqId
  owns := by
    have hown : s.pageManager.Owns ((s.seqs r).blocks ++ s.held active) := h.owns
    rwa [hb] at hown
  finished q hq := by
    rcases List.mem_append.mp hq with hq | hq
    · exact h.finished q hq
    · rw [List.mem_singleton.mp hq]
      exact hb
  size := h.size

theorem Holds.finish (h : Holds cfg s (s.waiting ++ s.running)) (hr : r ∈ s.running) :
    Holds cfg (s.finish r) ((s.finish r).waiting ++ (s.finish r).running) := by
  have hwait : r ∉ s.waiting := fun hw =>
    List.disjoint_of_nodup_append (List.Nodup.of_append_left h.nodup) hw hr
  have hperm : (s.waiting ++ s.running).Perm (r :: (s.waiting ++ s.running.erase r)) := by
    have := List.perm_cons_erase (List.mem_append_right s.waiting hr)
    rwa [List.erase_append_right _ hwait] at this
  set s₁ := s.setSeq r { s.seqs r with status := .finished } with hs₁
  have h₁ : Holds cfg s₁ (r :: (s.waiting ++ s.running.erase r)) :=
    (h.of_perm hperm).setSeq List.mem_cons_self rfl rfl
  have hid : ∀ q ∈ s.running, (s₁.seqs q).seqId = q := fun q hq =>
    h₁.seqId q (h.lt q (List.mem_append_left _ (List.mem_append_right _ hq)))
  have hrun : (s.finish r).running = s.running.erase r := eraseP_eq_erase hid (hid r hr)
  have h₂ := h₁.transfer (Transfer.freeSequence s₁.pageManager (s₁.seqs r))
  have h₃ := h₂.retire (congrArg Sequence.blocks (setSeq_self s₁ r _))
  rw [hrun]
  exact h₃.of_lists s.waiting (s.finish r).running

theorem Holds.postprocess (h : Holds cfg s (s.waiting ++ s.running)) (hr : r ∈ s.running)
    (newTokens : List Token) (eosId : Option Token) (maxTokens : ℤ) :
    Holds cfg (s.postprocess r newTokens eosId maxTokens)
      ((s.postprocess r newTokens eosId maxTokens).waiting ++
        (s.postprocess r newTokens eosId maxTokens).running) := by
  have h₁ : Holds cfg (s.setSeq r ((s.seqs r).appendTokens newTokens))
      (s.waiting ++ s.running) :=
    h.setSeq (List.mem_append_right _ hr) rfl rfl
  unfold Scheduler.postprocess
  simp only
  split_ifs
  · exact Holds.finish h₁ hr
  · exact h₁

theorem Holds.postprocessSpeculative (h : Holds cfg s (s.waiting ++ s.running))
    (hr : r ∈ s.running) (accepted : List Token) (recovery : Token) (reserved : ℤ)
    (eosId : Option Token) (maxTokens : ℤ) :
    Holds cfg (s.postprocessSpeculative r accepted recovery reserved eosId maxTokens)
      ((s.postprocessSpeculative r accepted recovery reserved eosId maxTokens).waiting ++
        (s.postprocessSpeculative r accepted recovery reserved eosId maxTokens).running) := by
  have happ : Transfer s.pageManager (s.seqs r) s.pageManager
      { (s.seqs r).appendTokens accepted with recoveryToken := recovery } :=
    Transfer.of_blocks_eq rfl rfl
  have ht := happ.trans (Transfer.rollbackSpeculative _ _ accepted.length reserved)
  have h₁ := h.transfer_of_mem (List.mem_append_right _ hr) ht
  unfold Scheduler.postprocessSpeculative
  simp only
  split_ifs
  · exact Holds.finish h₁ hr
  · exact h₁

/-- The step lemma: every call keeps the invariant. -/
theorem Holds.step (h : Holds cfg s (s.waiting ++ s.running)) (hs : Step cfg s s') :
    Holds cfg s' (s'.waiting ++ s'.running) := by
  cases hs with
  | addRequest prompt =>
    apply (h.addRequest prompt).of_perm
    show (s.nextId :: (s.waiting ++ s.running)).Perm (s.waiting ++ [s.nextId] ++ s.running)
    rw [List.append_assoc, List.singleton_append]
    exact List.perm_middle.symm
  | schedule hs => exact Holds.scheduleLoop h hs
  | postprocess hr newTokens eosId maxTokens => exact h.postprocess hr newTokens eosId maxTokens
  | postprocessSpeculative hr accepted recovery reserved eosId maxTokens =>
    exact h.postprocessSpeculative hr accepted recovery reserved eosId maxTokens

/-- The run lemma: the invariant holds in every reachable state. -/
theorem Reachable.holds (h : Reachable cfg s) : Holds cfg s (s.waiting ++ s.running) := by
  induction h with
  | refl => exact holds_init cfg
  | tail _ hstep ih => exact ih.step hstep

/-- The free blocks and the tables of the waiting and running sequences are together all blocks, the
reference counts are 1 on the allocated blocks and missing on the others, and finished sequences own
nothing. -/
structure Conserved (cfg : SSDConfig) (s : Scheduler) : Prop where
  blocks : (s.pageManager.freeBlocks ++ (s.waiting ++ s.running).flatMap fun r =>
    (s.seqs r).blockTable ++ (s.seqs r).draftBlockTable).Perm (List.range cfg.numBlocks)
  allocated : ∀ b, (∃ r ∈ s.waiting ++ s.running,
    b ∈ (s.seqs r).blockTable ∨ b ∈ (s.seqs r).draftBlockTable) →
      s.pageManager.refCounts b = some 1
  free : ∀ b, (¬ ∃ r ∈ s.waiting ++ s.running,
    b ∈ (s.seqs r).blockTable ∨ b ∈ (s.seqs r).draftBlockTable) →
      s.pageManager.refCounts b = none
  finished : ∀ r ∈ s.finished, (s.seqs r).blockTable = [] ∧ (s.seqs r).draftBlockTable = []

theorem Holds.conserved (h : Holds cfg s (s.waiting ++ s.running)) : Conserved cfg s := by
  have hmem : ∀ b, b ∈ s.held (s.waiting ++ s.running) ↔ ∃ r ∈ s.waiting ++ s.running,
      b ∈ (s.seqs r).blockTable ∨ b ∈ (s.seqs r).draftBlockTable := by
    intro b
    simp only [held, Sequence.blocks, List.mem_flatMap, List.mem_append]
  refine ⟨?_, fun b hb => ?_, fun b hb => ?_, fun r hr => ?_⟩
  · have hp := h.owns.perm
    rwa [h.size.2] at hp
  · rw [h.owns.refs, if_pos ((hmem b).mpr hb)]
  · rw [h.owns.refs, if_neg fun hm => hb ((hmem b).mp hm)]
  · exact List.append_eq_nil_iff.mp (h.finished r hr)

/-! ## Calls that raise -/

theorem Holds.length_le (h : Holds cfg s active) (hr : r ∈ active) :
    s.pageManager.freeBlocks.length + (s.seqs r).blockTable.length ≤ cfg.numBlocks := by
  have hperm := (h.of_perm (List.perm_cons_erase hr)).owns.perm.length_eq
  have hsize : s.pageManager.numBlocks = cfg.numBlocks := h.size.2
  simp only [held, Sequence.blocks, List.flatMap_cons, List.length_append, List.length_range,
    hsize] at hperm
  omega

/-- No allocation of more than the pool has succeeds. -/
theorem Holds.grow_of_lt (h : Holds cfg s active) (hr : r ∈ active) (hb : 1 ≤ cfg.blockSize)
    {n : ℕ} (hn : cfg.numBlocks * cfg.blockSize < n) : (s.grow r n).1 = false := by
  by_contra hok
  have hlack := PageManager.growTable_fst.mp (Bool.not_eq_false _ ▸ hok)
  have hsize : s.pageManager.blockSize = cfg.blockSize := h.size.1
  have hle : ((s.seqs r).numTokens + n) ⌈/⌉ cfg.blockSize ≤ cfg.numBlocks := by
    rw [hsize] at hlack
    have hpool := h.length_le hr
    omega
  rw [ceilDiv_le_iff_le_mul hb, mul_comm] at hle
  omega

theorem reserveTokens_of_ne (hm : cfg.mode ≠ .ar) : reserveTokens cfg = cfg.speculateK + 1 := by
  unfold reserveTokens
  cases hmode : cfg.mode with
  | ar => exact absurd hmode hm
  | sd | ssd | instanceSsd => rfl

/-- With a draft reserve that is defined, or not needed, or never come to, a call returns. -/
theorem Holds.exists_schedule (h : Holds cfg s (s.waiting ++ s.running)) (hb : 1 ≤ cfg.blockSize)
    (hc : cfg.mode = .ar ∨ cfg.fanOutList ≠ [] ∨
      cfg.numBlocks * cfg.blockSize < cfg.speculateK + 1) : ∃ a, s.schedule cfg = .ok a := by
  have hsize : s.pageManager.blockSize = cfg.blockSize := h.size.1
  have hb' : s.pageManager.blockSize ≠ 0 := by omega
  by_cases hmq : cfg.mode ≠ .ar → cfg.mqLen.isSome
  · exact Scheduler.exists_schedule hmq hb'
  · obtain ⟨hm, hnone⟩ := Classical.not_imp.mp hmq
    have hsmall := (hc.resolve_left hm).resolve_left fun hfan =>
      hnone (SSDConfig.mqLen_isSome hfan)
    unfold schedule
    cases hw : s.waiting with
    | nil => exact ⟨_, rfl⟩
    | cons r waiting =>
      have hgrow : (s.grow r (reserveTokens cfg)).1 = false :=
        h.grow_of_lt (by rw [hw]; simp) hb (by rwa [reserveTokens_of_ne hm])
      have hres : Scheduler.reserveBlocks cfg s r =
          .ok (false, (s.grow r (reserveTokens cfg)).2) := by
        rw [reserveBlocks_eq, if_neg hb', if_pos (.inl hgrow), ← hgrow]
      unfold Scheduler.scheduleLoop
      rw [hres]
      split_ifs
      · exact ⟨_, rfl⟩
      · exact ⟨_, rfl⟩

/-- The run lemma, for all calls: none of them raises. -/
theorem holds_of_calls (hb : 1 ≤ cfg.blockSize) (hc : cfg.mode = .ar ∨ cfg.fanOutList ≠ [] ∨
      cfg.numBlocks * cfg.blockSize < cfg.speculateK + 1)
    (h : Relation.ReflTransGen (Call cfg) (init cfg) s) : Holds cfg s (s.waiting ++ s.running) := by
  induction h with
  | refl => exact holds_init cfg
  | tail _ hcall ih =>
    cases hcall with
    | returned hs => exact ih.step hs
    | raised hs =>
      obtain ⟨a, ha⟩ := ih.exists_schedule hb hc
      cases ha.symm.trans hs

theorem Holds.free_lt_of_grow {n : ℕ} (h : Holds cfg s (r :: active)) (hn : 1 ≤ n)
    (hb : 1 ≤ cfg.blockSize) (hok : (s.grow r n).1 = true) :
    (s.grow r n).2.pageManager.freeBlocks.length < cfg.numBlocks := by
  obtain ⟨new, htab, -, hcov⟩ :=
    h.owns.growTable (s.seqs r).numTokens n (s.seqs r).blockTable
  have hsize : s.pageManager.blockSize = cfg.blockSize := h.size.1
  have hseq : ((s.grow r n).2.seqs r).blockTable = (s.seqs r).blockTable ++ new := by
    rw [← htab]
    exact congrArg Sequence.blockTable (setSeq_self s r _)
  have hpos : 1 ≤ ((s.seqs r).blockTable ++ new).length := by
    refine le_trans ?_ (hcov hok)
    rw [hsize]
    exact Nat.div_pos (by omega) hb
  have hle := (h.grow n).length_le List.mem_cons_self
  rw [hseq] at hle
  omega

/-- The first admission raises: the sequence is in no list, and on an empty fan-out list its target
blocks are in none, either. -/
theorem schedule_first_error (hc : cfg.blockSize = 0 ∨ cfg.mode ≠ .ar ∧ cfg.fanOutList = [] ∧
      cfg.speculateK + 1 ≤ cfg.numBlocks * cfg.blockSize) :
    ∃ s', ((init cfg).addRequest []).1.schedule cfg = .error (s', []) ∧ s'.waiting = [] ∧
      s'.running = [] ∧ s'.finished = [] ∧ s'.nextId = 1 ∧
      (1 ≤ cfg.blockSize → s'.pageManager.freeBlocks.length < cfg.numBlocks) := by
  set s := ((init cfg).addRequest []).1
  have hraise {s₁ : Scheduler} (h : reserveBlocks cfg s 0 = .error s₁) :
      s.schedule cfg = .error ({ s₁ with waiting := [] }, []) := by
    show scheduleLoop cfg [0] s [] = _
    unfold scheduleLoop
    rw [if_pos (show s.running.length < 16 from Nat.zero_lt_succ 15), h]
  by_cases hb : cfg.blockSize = 0
  · have hres : reserveBlocks cfg s 0 = .error s := by
      rw [reserveBlocks_eq]
      exact if_pos hb
    exact ⟨_, hraise hres, rfl, rfl, rfl, rfl, fun h => by omega⟩
  · obtain ⟨hm, hfan, hfit⟩ := hc.resolve_left hb
    have hb1 : 0 < cfg.blockSize := by omega
    have hseq : s.seqs 0 = { seqId := 0, promptTokenIds := [] } := setSeq_self (init cfg) 0 _
    have hmq : cfg.mqLen = none := by
      unfold SSDConfig.mqLen
      simp [hfan]
    have hceil : (cfg.speculateK + 1) ⌈/⌉ cfg.blockSize ≤ cfg.numBlocks := by
      rwa [ceilDiv_le_iff_le_mul hb1, mul_comm]
    -- the target blocks fit
    have hgrow : (s.grow 0 (reserveTokens cfg)).1 = true := by
      apply PageManager.growTable_fst.mpr
      rw [hseq, reserveTokens_of_ne hm]
      have hfree : s.pageManager.freeBlocks.length = cfg.numBlocks := List.length_range
      have hzero : Sequence.numTokens { seqId := 0, promptTokenIds := [] } = 0 := rfl
      have hsize : s.pageManager.blockSize = cfg.blockSize := rfl
      rw [hfree, hzero, Nat.zero_add, hsize]
      exact (Nat.sub_le _ _).trans hceil
    have hres : reserveBlocks cfg s 0 = .error (s.grow 0 (reserveTokens cfg)).2 := by
      rw [reserveBlocks_eq]
      simp only
      rw [if_neg (show s.pageManager.blockSize ≠ 0 from hb), if_neg (by simp [hgrow, hm]), hmq]
    have hadd : Holds cfg s [0] := (holds_init cfg).addRequest []
    exact ⟨_, hraise hres, rfl, rfl, rfl, rfl, fun _ =>
      hadd.free_lt_of_grow (by rw [reserveTokens_of_ne hm]; omega) hb1 hgrow⟩

/-- An empty fan-out list makes the scheduler lose blocks, in a mode that drafts and on a pool that
covers the tokens of one round. -/
theorem not_conserved_of_empty (hb : 1 ≤ cfg.blockSize) (hm : cfg.mode ≠ .ar)
    (hfan : cfg.fanOutList = []) (hfit : cfg.speculateK + 1 ≤ cfg.numBlocks * cfg.blockSize) :
    ∃ s, Relation.ReflTransGen (Call cfg) (init cfg) s ∧ ¬ Conserved cfg s := by
  obtain ⟨s', hs, hwait, hrun, -, -, hlost⟩ := schedule_first_error (.inr ⟨hm, hfan, hfit⟩)
  refine ⟨s', (Relation.ReflTransGen.single (.returned (.addRequest _ []))).tail (.raised hs),
    fun h => ?_⟩
  have hlen := h.blocks.length_eq
  rw [hwait, hrun, List.append_nil, List.flatMap_nil, List.append_nil, List.length_range] at hlen
  have hlost := hlost hb
  omega

/-- **Page conservation.** Over all runs of calls, returned or raised, no block is lost, doubled or
shared, exactly if the draft reserve is defined or never needed: in AR mode, with a fan-out list
that is not empty, or on a pool that is too small for any admission. -/
theorem conservation_iff (cfg : SSDConfig) (hb : 1 ≤ cfg.blockSize) :
    (∀ s, Relation.ReflTransGen (Call cfg) (init cfg) s → Conserved cfg s) ↔
      cfg.mode = .ar ∨ cfg.fanOutList ≠ [] ∨
        cfg.numBlocks * cfg.blockSize < cfg.speculateK + 1 := by
  constructor
  · intro h
    by_contra hc
    push Not at hc
    obtain ⟨hm, hfan, hfit⟩ := hc
    obtain ⟨s, hrun, hnot⟩ := not_conserved_of_empty hb hm hfan hfit
    exact hnot (h s hrun)
  · exact fun hc s hrun => (holds_of_calls hb hc hrun).conserved

/-- With the empty fan-out list the target block of the first request is in no list: it is neither
free nor in a table of a waiting or running sequence. -/
theorem conservation_empty_fan_out :
    ∃ s, Relation.ReflTransGen (Call { mode := .sd, fanOutList := [], numBlocks := 8 })
        (init { mode := .sd, fanOutList := [], numBlocks := 8 }) s ∧
      s.waiting = [] ∧ s.running = [] ∧ s.finished = [] ∧ 7 ∉ s.pageManager.freeBlocks ∧
      ¬ Conserved { mode := .sd, fanOutList := [], numBlocks := 8 } s := by
  have hadd : Relation.ReflTransGen (Call { mode := .sd, fanOutList := [], numBlocks := 8 })
      (init { mode := .sd, fanOutList := [], numBlocks := 8 })
      ((init { mode := .sd, fanOutList := [], numBlocks := 8 }).addRequest [1, 2, 3]).1 :=
    .single (.returned (.addRequest _ _))
  refine ⟨_, hadd.tail (.raised rfl), rfl, rfl, rfl, by decide, fun h => ?_⟩
  exact absurd h.blocks.length_eq (by decide)

theorem conservation_admitted :
    ∃ a, ((init { mode := .sd, numBlocks := 8 }).addRequest [1, 2, 3]).1.schedule
        { mode := .sd, numBlocks := 8 } = .ok a ∧
      a.1.running = [0] ∧ (a.1.seqs 0).blocks.length = 4 ∧
      Conserved { mode := .sd, numBlocks := 8 } a.1 := by
  refine ⟨_, rfl, rfl, rfl, ?_⟩
  have hadd : Relation.ReflTransGen (Call { mode := .sd, numBlocks := 8 })
      (init { mode := .sd, numBlocks := 8 })
      ((init { mode := .sd, numBlocks := 8 }).addRequest [1, 2, 3]).1 :=
    .single (.returned (.addRequest _ _))
  exact (conservation_iff _ (by decide)).mpr (.inr (.inl (by decide))) _
    (hadd.tail (.returned (.schedule rfl)))

end Scheduler

end SsdTpu
