import SsdTpu.Rollback

/-!
# Failed admissions

`schedule` takes the target blocks of a sequence before its draft blocks. When the draft blocks do
not fit, the sequence goes back to `waiting` with the target blocks it got.

1. `lacking cfg s q` is what the two tables of `q` lack. `StopsHalfway` says of these numbers, the
   number of free blocks and the free running slots that the call ends at a sequence whose target
   blocks fit and whose draft blocks do not.
2. An attempt that succeeds takes what is lacking, one that fails takes nothing or the target blocks
   (`reserveBlocks_grows`).
3. By induction on `waiting`, the call is atomic exactly when it does not stop halfway
   (`schedule_atomic_iff`).
-/

namespace SsdTpu

namespace PageManager

/-- An allocation that succeeds moves as many blocks as the table lacks from the pool to it; one
that fails moves none. -/
def Moves (lack free : ℕ) (ok : Bool) (new : List ℕ) : Prop :=
  (ok = true ∧ lack ≤ free ∧ new.length = lack) ∨ (ok = false ∧ free < lack ∧ new = [])

theorem growTable_moves (pm : PageManager) (numTokens reserve : ℕ) (table : List ℕ) :
    let a := pm.growTable numTokens reserve table
    ∃ new, a.2.2 = table ++ new ∧ pm.freeBlocks.Perm (a.2.1.freeBlocks ++ new) ∧
      a.2.1.blockSize = pm.blockSize ∧
      Moves ((numTokens + reserve) ⌈/⌉ pm.blockSize - table.length) pm.freeBlocks.length a.1
        new := by
  intro a
  by_cases h : (numTokens + reserve) ⌈/⌉ pm.blockSize - table.length ≤ pm.freeBlocks.length
  · obtain ⟨hfree, hlen⟩ := popBlocks_freeBlocks h
    have ha : a = (true, popBlocks _ pm table) := growTable_eq h
    rw [popBlocks_eq] at ha
    rw [ha]
    refine ⟨_, rfl, ?_, (sameSize_popBlocks pm _ []).1, .inl ⟨rfl, h, hlen⟩⟩
    conv_lhs => rw [hfree]
    exact (List.reverse_perm _).append_left _
  · have ha : a = (false, pm, table) := growTable_of_lt (not_le.mp h)
    rw [ha]
    exact ⟨[], by simp, by simp, rfl, .inr ⟨rfl, not_le.mp h, rfl⟩⟩

end PageManager

namespace Scheduler

variable {cfg : SSDConfig} {s s₁ s₂ s' : Scheduler} {r : ℕ}

/-- The target and the draft blocks that `q` lacks for its tokens and the reserves of the mode. -/
def lacking (cfg : SSDConfig) (s : Scheduler) (q : ℕ) : ℕ × ℕ :=
  let seq := s.seqs q
  let reserve := reserveTokens cfg
  ((seq.numTokens + reserve) ⌈/⌉ s.pageManager.blockSize - seq.blockTable.length,
    match cfg.mode, cfg.mqLen with
    | .ar, _ => 0
    | _, none => 0
    | _, some mqLen =>
      (seq.numTokens + (reserve + cfg.speculateK * mqLen)) ⌈/⌉ s.pageManager.blockSize -
        seq.draftBlockTable.length)

/-- With `free` blocks and `room` running slots, the first sequences are admitted, and the next
takes the target blocks it lacks and then finds too few blocks for its draft table. -/
def StopsHalfway (lack : ℕ → ℕ × ℕ) (waiting : List ℕ) (free room : ℕ) : Prop :=
  ∃ admitted r rest, waiting = admitted ++ r :: rest ∧ admitted.length < room ∧
    let used := (admitted.map fun q => (lack q).1 + (lack q).2).sum
    0 < (lack r).1 ∧ used + (lack r).1 ≤ free ∧ free < used + (lack r).1 + (lack r).2

theorem not_stopsHalfway_nil (lack : ℕ → ℕ × ℕ) (free room : ℕ) :
    ¬ StopsHalfway lack [] free room := by
  rintro ⟨admitted, r, rest, hw, -⟩
  simp at hw

theorem stopsHalfway_cons {lack : ℕ → ℕ × ℕ} {rest : List ℕ} {free room : ℕ} :
    StopsHalfway lack (r :: rest) free room ↔ 0 < room ∧
      ((0 < (lack r).1 ∧ (lack r).1 ≤ free ∧ free < (lack r).1 + (lack r).2) ∨
        ((lack r).1 + (lack r).2 ≤ free ∧
          StopsHalfway lack rest (free - ((lack r).1 + (lack r).2)) (room - 1))) := by
  constructor
  · rintro ⟨admitted, q, rest', hw, hroom, hpos, hfit, hshort⟩
    cases admitted with
    | nil =>
      obtain ⟨rfl, rfl⟩ := List.cons.inj hw
      rw [List.map_nil, List.sum_nil, Nat.zero_add] at hfit hshort
      exact ⟨by simpa using hroom, .inl ⟨hpos, hfit, hshort⟩⟩
    | cons p admitted =>
      obtain ⟨rfl, rfl⟩ := List.cons.inj hw
      rw [List.map_cons, List.sum_cons] at hfit hshort
      rw [List.length_cons] at hroom
      refine ⟨by omega, .inr ⟨by omega, admitted, q, rest', rfl, by omega, hpos, ?_, ?_⟩⟩
      · omega
      · omega
  · rintro ⟨hroom, ⟨hpos, hfit, hshort⟩ | ⟨hfits, admitted, q, rest', rfl, hroom', hpos, hfit,
      hshort⟩⟩
    · exact ⟨[], r, rest, rfl, hroom, hpos, by simpa using hfit, by simpa using hshort⟩
    · refine ⟨r :: admitted, q, rest', rfl, by rw [List.length_cons]; omega, hpos, ?_, ?_⟩
      · rw [List.map_cons, List.sum_cons]
        omega
      · rw [List.map_cons, List.sum_cons]
        omega

theorem stopsHalfway_congr {lack lack' : ℕ → ℕ × ℕ} {waiting : List ℕ} {free room : ℕ}
    (h : ∀ q ∈ waiting, lack q = lack' q) :
    StopsHalfway lack waiting free room ↔ StopsHalfway lack' waiting free room := by
  induction waiting generalizing free room with
  | nil => simp [not_stopsHalfway_nil]
  | cons r rest ih =>
    rw [stopsHalfway_cons, stopsHalfway_cons, h r List.mem_cons_self,
      ih fun q hq => h q (List.mem_cons_of_mem r hq)]

/-! ## One attempt -/

/-- The tables of `r` are longer by blocks that left the pool; nothing else differs but statuses and
lists. -/
structure Grows (s s' : Scheduler) (r : ℕ) (target draft : List ℕ) : Prop where
  blockTable : (s'.seqs r).blockTable = (s.seqs r).blockTable ++ target
  draftBlockTable : (s'.seqs r).draftBlockTable = (s.seqs r).draftBlockTable ++ draft
  numTokens : (s'.seqs r).numTokens = (s.seqs r).numTokens
  others : ∀ q, q ≠ r → s'.seqs q = s.seqs q
  free : s.pageManager.freeBlocks.Perm (s'.pageManager.freeBlocks ++ (target ++ draft))
  blockSize : s'.pageManager.blockSize = s.pageManager.blockSize

theorem grows_setSeq {seq : Sequence} {pm : PageManager} {target draft : List ℕ}
    (ht : seq.blockTable = (s.seqs r).blockTable ++ target)
    (hd : seq.draftBlockTable = (s.seqs r).draftBlockTable ++ draft)
    (hn : seq.numTokens = (s.seqs r).numTokens)
    (hfree : s.pageManager.freeBlocks.Perm (pm.freeBlocks ++ (target ++ draft)))
    (hsize : pm.blockSize = s.pageManager.blockSize) :
    Grows s { s.setSeq r seq with pageManager := pm } r target draft where
  blockTable := by
    show ((s.setSeq r seq).seqs r).blockTable = _
    rw [setSeq_self, ht]
  draftBlockTable := by
    show ((s.setSeq r seq).seqs r).draftBlockTable = _
    rw [setSeq_self, hd]
  numTokens := by
    show ((s.setSeq r seq).seqs r).numTokens = _
    rw [setSeq_self, hn]
  others q hq := setSeq_of_ne s seq hq
  free := hfree
  blockSize := hsize

theorem allocate_grows (s : Scheduler) (r n : ℕ) :
    ∃ new, Grows s (s.grow r n).2 r new [] ∧
      PageManager.Moves (((s.seqs r).numTokens + n) ⌈/⌉ s.pageManager.blockSize -
        (s.seqs r).blockTable.length) s.pageManager.freeBlocks.length (s.grow r n).1 new := by
  obtain ⟨new, htab, hfree, hsize, hmoves⟩ :=
    s.pageManager.growTable_moves (s.seqs r).numTokens n (s.seqs r).blockTable
  exact ⟨new, grows_setSeq htab (List.append_nil _).symm rfl (by rwa [List.append_nil]) hsize,
    hmoves⟩

theorem allocateDraft_grows (s : Scheduler) (r n : ℕ) :
    ∃ new, Grows s (s.growDraft r n).2 r [] new ∧
      PageManager.Moves (((s.seqs r).numTokens + n) ⌈/⌉ s.pageManager.blockSize -
        (s.seqs r).draftBlockTable.length) s.pageManager.freeBlocks.length (s.growDraft r n).1
        new := by
  obtain ⟨new, htab, hfree, hsize, hmoves⟩ :=
    s.pageManager.growTable_moves (s.seqs r).numTokens n (s.seqs r).draftBlockTable
  exact ⟨new, grows_setSeq (List.append_nil _).symm htab rfl hfree hsize, hmoves⟩

theorem Grows.trans {target draft : List ℕ} (h : Grows s s₁ r target [])
    (h' : Grows s₁ s₂ r [] draft) : Grows s s₂ r target draft where
  blockTable := by rw [h'.blockTable, h.blockTable, List.append_nil]
  draftBlockTable := by rw [h'.draftBlockTable, h.draftBlockTable, List.append_nil]
  numTokens := h'.numTokens.trans h.numTokens
  others q hq := (h'.others q hq).trans (h.others q hq)
  free := by
    have hfree := h.free.trans (h'.free.append_right _)
    rw [List.append_nil, List.nil_append, List.append_assoc] at hfree
    exact hfree.trans (List.perm_append_comm.append_left _)
  blockSize := h'.blockSize.trans h.blockSize

/-- What an attempt takes: all that is lacking when it succeeds; nothing, or the target blocks,
when it fails. -/
theorem reserveBlocks_grows {b : Bool} (h : reserveBlocks cfg s r = .ok (b, s₁)) :
    ∃ target draft, Grows s s₁ r target draft ∧
      ((b = true ∧ target.length = (lacking cfg s r).1 ∧ draft.length = (lacking cfg s r).2) ∨
        (b = false ∧ target = [] ∧ draft = [] ∧
          s.pageManager.freeBlocks.length < (lacking cfg s r).1) ∨
        (b = false ∧ target.length = (lacking cfg s r).1 ∧ draft = [] ∧
          (lacking cfg s r).1 ≤ s.pageManager.freeBlocks.length ∧
          s.pageManager.freeBlocks.length < (lacking cfg s r).1 + (lacking cfg s r).2)) := by
  obtain ⟨target, ht, hmoves⟩ := allocate_grows s r (reserveTokens cfg)
  rcases reserveBlocks_cases h with ⟨hb, rfl, har⟩ | ⟨mqLen, hq, hmode, hok, heq⟩
  · rw [← hb] at hmoves
    rcases hmoves with ⟨hb, -, hlen⟩ | ⟨hb, hlt, rfl⟩
    · have hdraft : (lacking cfg s r).2 = 0 := by simp [lacking, har hb]
      exact ⟨target, [], ht, .inl ⟨hb, hlen, hdraft.symm⟩⟩
    · exact ⟨[], [], ht, .inr (.inl ⟨hb, rfl, rfl, hlt⟩)⟩
  · rw [hok] at hmoves
    have hfit := hmoves.resolve_right (by simp)
    obtain ⟨draft, hd, hmoves'⟩ := allocateDraft_grows (s.grow r (reserveTokens cfg)).2 r
      (reserveTokens cfg + cfg.speculateK * mqLen)
    rw [← congrArg Prod.snd heq] at hd
    rw [← congrArg Prod.fst heq, ht.numTokens, ht.blockSize, ht.draftBlockTable,
      List.append_nil] at hmoves'
    have hdraft : (lacking cfg s r).2 = ((s.seqs r).numTokens +
        (reserveTokens cfg + cfg.speculateK * mqLen)) ⌈/⌉ s.pageManager.blockSize -
          (s.seqs r).draftBlockTable.length := by
      unfold lacking
      simp only [hq]
    have hfree := ht.free.length_eq
    rw [List.append_nil, List.length_append] at hfree
    rw [← hdraft] at hmoves'
    refine ⟨target, draft, ht.trans hd, ?_⟩
    rcases hmoves' with ⟨hb, -, hlen⟩ | ⟨hb, hlt, rfl⟩
    · exact .inl ⟨hb, hfit.2.2, hlen⟩
    · have hlack : target.length = (lacking cfg s r).1 := hfit.2.2
      exact .inr (.inr ⟨hb, hlack, rfl, hfit.2.1, by omega⟩)

/-! ## The admission loop -/

/-- The blocks at the end of the tables of `q` that it did not have before. -/
def newBlocks (s s' : Scheduler) (q : ℕ) : List ℕ :=
  (s'.seqs q).blockTable.drop (s.seqs q).blockTable.length ++
    (s'.seqs q).draftBlockTable.drop (s.seqs q).draftBlockTable.length

/-- A sequence that still waits has the tables it had, and the blocks missing from the free ones are
the new blocks of the admitted sequences. -/
structure Atomic (s s' : Scheduler) (admitted : List ℕ) : Prop where
  waiting : ∀ q ∈ s'.waiting, (s'.seqs q).blockTable = (s.seqs q).blockTable ∧
    (s'.seqs q).draftBlockTable = (s.seqs q).draftBlockTable
  missing : s.pageManager.freeBlocks.Perm
    (s'.pageManager.freeBlocks ++ admitted.flatMap (newBlocks s s'))

theorem atomic_of_eq (hseqs : s'.seqs = s.seqs)
    (hfree : s'.pageManager.freeBlocks = s.pageManager.freeBlocks) : Atomic s s' [] where
  waiting q _ := by rw [hseqs]; exact ⟨rfl, rfl⟩
  missing := by simp [hfree]

theorem Grows.lacking_eq {target draft : List ℕ} (h : Grows s s₁ r target draft) {q : ℕ}
    (hq : q ≠ r) : lacking cfg s₁ q = lacking cfg s q := by
  unfold lacking
  rw [h.others q hq, h.blockSize]

theorem Grows.newBlocks_self {target draft : List ℕ} (h : Grows s s₁ r target draft)
    (hr : s'.seqs r = s₁.seqs r) : newBlocks s s' r = target ++ draft := by
  unfold newBlocks
  rw [hr, h.blockTable, h.draftBlockTable, List.drop_left, List.drop_left]

theorem Grows.atomic_cons_iff {target draft admitted : List ℕ} (h : Grows s s₁ r target draft)
    (hr : s'.seqs r = s₁.seqs r) (hadm : r ∉ admitted) (hwait : r ∉ s'.waiting) :
    Atomic s s' (r :: admitted) ↔ Atomic s₁ s' admitted := by
  have hnew : admitted.flatMap (newBlocks s s') = admitted.flatMap (newBlocks s₁ s') := by
    apply List.flatMap_congr
    intro q hq
    unfold newBlocks
    rw [h.others q (by rintro rfl; exact hadm hq)]
  have hfree : s.pageManager.freeBlocks.Perm (s'.pageManager.freeBlocks ++
      (r :: admitted).flatMap (newBlocks s s')) ↔
        s₁.pageManager.freeBlocks.Perm
          (s'.pageManager.freeBlocks ++ admitted.flatMap (newBlocks s₁ s')) := by
    rw [List.flatMap_cons, h.newBlocks_self hr, hnew]
    have hmove : (s'.pageManager.freeBlocks ++ (target ++ draft ++
        admitted.flatMap (newBlocks s₁ s'))).Perm (s'.pageManager.freeBlocks ++
          admitted.flatMap (newBlocks s₁ s') ++ (target ++ draft)) := by
      rw [List.append_assoc s'.pageManager.freeBlocks]
      exact List.perm_append_comm.append_left _
    rw [h.free.congr_left, hmove.congr_right, List.perm_append_right_iff]
  constructor
  · rintro ⟨hw, hm⟩
    refine ⟨fun q hq => ?_, hfree.mp hm⟩
    rw [h.others q (by rintro rfl; exact hwait hq)]
    exact hw q hq
  · rintro ⟨hw, hm⟩
    refine ⟨fun q hq => ?_, hfree.mpr hm⟩
    rw [← h.others q (by rintro rfl; exact hwait hq)]
    exact hw q hq

theorem Grows.startRunning {target draft : List ℕ} (h : Grows s s₁ r target draft) :
    Grows s (s₁.startRunning r) r target draft where
  blockTable := by
    show ((s₁.setSeq r _).seqs r).blockTable = _
    rw [setSeq_self]
    exact h.blockTable
  draftBlockTable := by
    show ((s₁.setSeq r _).seqs r).draftBlockTable = _
    rw [setSeq_self]
    exact h.draftBlockTable
  numTokens := by
    show ((s₁.setSeq r _).seqs r).numTokens = _
    rw [setSeq_self]
    exact h.numTokens
  others q hq := (setSeq_of_ne s₁ _ hq).trans (h.others q hq)
  free := h.free
  blockSize := h.blockSize

/-- An attempt that fails is atomic exactly when it took no target block. -/
theorem Grows.atomic_nil_iff {target waiting : List ℕ} (h : Grows s s₁ r target []) :
    Atomic s { s₁ with waiting := r :: waiting } [] ↔ target = [] := by
  constructor
  · rintro ⟨hw, -⟩
    have htab : (s₁.seqs r).blockTable = (s.seqs r).blockTable := (hw r List.mem_cons_self).1
    rw [h.blockTable] at htab
    simpa using htab
  · rintro rfl
    refine ⟨fun q _ => ?_, ?_⟩
    · show (s₁.seqs q).blockTable = _ ∧ (s₁.seqs q).draftBlockTable = _
      by_cases hq : q = r
      · subst hq
        rw [h.blockTable, h.draftBlockTable, List.append_nil, List.append_nil]
        exact ⟨rfl, rfl⟩
      · rw [h.others q hq]
        exact ⟨rfl, rfl⟩
    · simpa using h.free

theorem atomic_stop_iff {rest : List ℕ} (hlt : s.running.length < 16)
    (h : reserveBlocks cfg s r = .ok (false, s₁)) :
    Atomic s { s₁ with waiting := r :: rest } [] ↔ ¬ StopsHalfway (lacking cfg s) (r :: rest)
      s.pageManager.freeBlocks.length (16 - s.running.length) := by
  obtain ⟨target, draft, hgrows, hcases⟩ := reserveBlocks_grows h
  have hcases := hcases.resolve_left (by simp)
  obtain rfl : draft = [] := by tauto
  rw [hgrows.atomic_nil_iff, stopsHalfway_cons, ← List.length_eq_zero_iff]
  rcases hcases with ⟨-, rfl, -, hshort⟩ | ⟨-, hlen, -, hfit, hshort⟩
  · exact iff_of_true rfl (by rintro ⟨-, h | h⟩ <;> omega)
  · rw [hlen]
    constructor
    · rintro hzero ⟨-, h | h⟩ <;> omega
    · intro hnot
      by_contra hpos
      exact hnot ⟨by omega, .inl ⟨by omega, hfit, hshort⟩⟩

theorem stopsHalfway_startRunning_iff {rest : List ℕ} (hr : r ∉ rest)
    (hlt : s.running.length < 16) (h : reserveBlocks cfg s r = .ok (true, s₁)) :
    StopsHalfway (lacking cfg (s₁.startRunning r)) rest
        (s₁.startRunning r).pageManager.freeBlocks.length
        (16 - (s₁.startRunning r).running.length) ↔
      StopsHalfway (lacking cfg s) (r :: rest) s.pageManager.freeBlocks.length
        (16 - s.running.length) := by
  obtain ⟨target, draft, hgrows, hcases⟩ := reserveBlocks_grows h
  obtain ⟨-, hlenT, hlenD⟩ := hcases.resolve_right (by simp)
  have hfree := hgrows.free.length_eq
  rw [List.length_append, List.length_append, hlenT, hlenD] at hfree
  have hroom : (s₁.startRunning r).running.length = s.running.length + 1 := by
    show (s₁.running ++ [r]).length = _
    rw [(reserveBlocks_lists h).1, List.length_append, List.length_singleton]
  have hleft : (s₁.startRunning r).pageManager.freeBlocks.length =
      s.pageManager.freeBlocks.length - ((lacking cfg s r).1 + (lacking cfg s r).2) := by
    show s₁.pageManager.freeBlocks.length = _
    omega
  rw [hleft, hroom, stopsHalfway_cons, Nat.sub_add_eq, stopsHalfway_congr fun q hq =>
    hgrows.startRunning.lacking_eq (by rintro rfl; exact hr hq)]
  constructor
  · exact fun hstop => ⟨by omega, .inr ⟨by omega, hstop⟩⟩
  · rintro ⟨-, hstop | hstop⟩
    · omega
    · exact hstop.2

/-- The loop admits a prefix of the waiting sequences, and is atomic exactly when it does not stop
halfway. By induction on `waiting`: an admission leaves what the others lack as it was. -/
theorem scheduleLoop_atomic_iff {waiting scheduled scheduled' : List ℕ} (hw : waiting.Nodup)
    (h : scheduleLoop cfg waiting s scheduled = .ok (s', scheduled')) :
    ∃ admitted, scheduled' = scheduled ++ admitted ∧ waiting = admitted ++ s'.waiting ∧
      (∀ q, q ∉ waiting → s'.seqs q = s.seqs q) ∧
      (Atomic s s' admitted ↔ ¬ StopsHalfway (lacking cfg s) waiting
        s.pageManager.freeBlocks.length (16 - s.running.length)) := by
  induction waiting generalizing s scheduled with
  | nil =>
    obtain ⟨rfl, rfl⟩ := Prod.mk.inj (Except.ok.inj h)
    exact ⟨[], by simp, rfl, fun _ _ => rfl,
      iff_of_true (atomic_of_eq rfl rfl) (not_stopsHalfway_nil _ _ _)⟩
  | cons r waiting ih =>
    obtain ⟨hr, hw⟩ := List.nodup_cons.mp hw
    unfold scheduleLoop at h
    split_ifs at h with hlt
    · cases hres : reserveBlocks cfg s r with
      | error _ => rw [hres] at h; cases h
      | ok res =>
        obtain ⟨b, s₁⟩ := res
        rw [hres] at h
        obtain ⟨target, draft, hgrows, -⟩ := reserveBlocks_grows hres
        cases b with
        | false =>
          obtain ⟨rfl, rfl⟩ := Prod.mk.inj (Except.ok.inj h)
          refine ⟨[], by simp, rfl, fun q hq => hgrows.others q ?_, atomic_stop_iff hlt hres⟩
          rintro rfl
          exact hq List.mem_cons_self
        | true =>
          have hstart := hgrows.startRunning
          obtain ⟨admitted, hsched, hsplit, hother, hiff⟩ := ih hw h
          have hadm : r ∉ admitted := fun hm => hr (hsplit ▸ List.mem_append_left _ hm)
          have hwait : r ∉ s'.waiting := fun hm => hr (hsplit ▸ List.mem_append_right _ hm)
          refine ⟨r :: admitted, ?_, ?_, fun q hq => ?_, ?_⟩
          · rw [hsched, List.append_assoc, List.singleton_append]
          · rw [hsplit, List.cons_append]
          · rw [List.mem_cons, not_or] at hq
            rw [hother q hq.2, hstart.others q hq.1]
          · rw [hstart.atomic_cons_iff (hother r hr) hadm hwait, hiff,
              stopsHalfway_startRunning_iff hr hlt hres]
    · obtain ⟨rfl, rfl⟩ := Prod.mk.inj (Except.ok.inj h)
      refine ⟨[], by simp, rfl, fun _ _ => rfl, iff_of_true (atomic_of_eq rfl rfl) ?_⟩
      rw [stopsHalfway_cons]
      omega

theorem Reachable.nodup_waiting (h : Reachable cfg s) : s.waiting.Nodup := by
  have hnodup := h.holds.nodup
  rw [List.append_assoc, List.nodup_append] at hnodup
  exact hnodup.1

/-- **Failed admission.** A call of `schedule` leaves the waiting sequences and the pool as if it
had only tried what it admitted if and only if it does not stop between the target and the draft
blocks of a sequence that lacks a target block. -/
theorem schedule_atomic_iff (hw : s.waiting.Nodup) {scheduled : List ℕ}
    (h : schedule cfg s = .ok (s', scheduled)) :
    Atomic s s' scheduled ↔ ¬ StopsHalfway (lacking cfg s) s.waiting
      s.pageManager.freeBlocks.length (16 - s.running.length) := by
  obtain ⟨admitted, hsched, -, -, hiff⟩ := scheduleLoop_atomic_iff hw h
  rw [List.nil_append] at hsched
  rw [hsched]
  exact hiff

/-- A request of three tokens on a pool of two four-token blocks: its target table takes both, its
draft table needs twelve, and it waits with the whole pool. -/
theorem schedule_halfway :
    ∃ s a, Reachable { mode := .sd, blockSize := 4, numBlocks := 2 } s ∧
      schedule { mode := .sd, blockSize := 4, numBlocks := 2 } s = .ok a ∧ a.2 = [] ∧
      0 ∈ a.1.waiting ∧ (s.seqs 0).blockTable = [] ∧ (a.1.seqs 0).blockTable = [1, 0] ∧
      s.pageManager.freeBlocks = [0, 1] ∧ a.1.pageManager.freeBlocks = [] := by
  have hadd : Reachable { mode := .sd, blockSize := 4, numBlocks := 2 }
      ((init { mode := .sd, blockSize := 4, numBlocks := 2 }).addRequest [1, 2, 3]).1 :=
    .single (.addRequest _ _)
  exact ⟨_, _, hadd, rfl, by decide, by decide, rfl, by decide, by decide, by decide⟩

theorem schedule_atomic_admitted :
    ∃ s a, schedule { mode := .sd, blockSize := 4, numBlocks := 64 } s = .ok a ∧ a.2 = [0] ∧
      Atomic s a.1 a.2 := by
  set s : Scheduler := ((init { mode := .sd, blockSize := 4, numBlocks := 64 }).addRequest
    [1, 2, 3]).1
  have hsched : (schedule { mode := .sd, blockSize := 4, numBlocks := 64 } s).toOption.map
      Prod.snd = some [0] := by decide
  obtain ⟨⟨s', scheduled⟩, hs, rfl⟩ := Option.map_eq_some_iff.mp hsched
  have hs := toOption_eq_some.mp hs
  refine ⟨s, _, hs, rfl, (schedule_atomic_iff (by decide) hs).mpr ?_⟩
  show ¬ StopsHalfway _ [0] _ _
  rw [stopsHalfway_cons]
  rintro ⟨-, hstop | ⟨-, hstop⟩⟩
  · revert hstop
    decide
  · exact not_stopsHalfway_nil _ _ _ hstop

end Scheduler

end SsdTpu
