import SsdTpu.Conservation

/-!
# Rolling back speculative pages

`rollback_speculative` cuts the table of a sequence to the blocks that `num_tokens` and the accepted
tokens need, and frees the dropped blocks from the end (`rollbackLoop_eq`).

1. On a pool whose free blocks carry no count (`Clean`), freeing popped blocks in the reverse order
   is the inverse of popping them (`foldl_freeBlock_popBlocks`), so that reserving and rolling back
   is reserving what was accepted (`rollbackSpeculative_allocate`).
2. `postprocess_speculative` appends the accepted tokens before it rolls back, and the rollback adds
   them again: the table it leaves covers the accepted tokens twice. It is the right one exactly
   when the second count crosses no block boundary that the table reaches
   (`postprocessSpeculative_trims_iff`).
-/

namespace SsdTpu

namespace PageManager

variable {pm : PageManager} {table : List ℕ}

/-! ## Popping blocks -/

theorem popBlocks_eq (k : ℕ) (pm : PageManager) (table : List ℕ) :
    popBlocks k pm table = ((popBlocks k pm []).1, table ++ (popBlocks k pm []).2) := by
  induction k generalizing pm table with
  | zero => simp [popBlocks]
  | succ k ih =>
    unfold popBlocks
    cases pm.freeBlocks.getLast? with
    | none => simp
    | some block =>
      show popBlocks k (pm.take block) (table ++ [block]) = _
      rw [ih (pm.take block) (table ++ [block])]
      show _ = ((popBlocks k (pm.take block) ([] ++ [block])).1,
        table ++ (popBlocks k (pm.take block) ([] ++ [block])).2)
      rw [ih (pm.take block) ([] ++ [block])]
      simp

theorem popBlocks_add (m k : ℕ) (pm : PageManager) (table : List ℕ) :
    popBlocks (m + k) pm table = popBlocks k (popBlocks m pm table).1 (popBlocks m pm table).2 := by
  induction m generalizing pm table with
  | zero => simp [popBlocks]
  | succ m ih =>
    rw [Nat.add_right_comm]
    cases hb : pm.freeBlocks.getLast? with
    | none =>
      have hstuck : ∀ n, popBlocks n pm table = (pm, table) := by
        intro n
        cases n with
        | zero => rfl
        | succ n => simp [popBlocks, hb]
      rw [hstuck, hstuck, hstuck]
    | some block =>
      have hstep : ∀ n, popBlocks (n + 1) pm table =
          popBlocks n (pm.take block) (table ++ [block]) := fun n => by simp [popBlocks, hb]
      rw [hstep, hstep, ih]

/-- The popped blocks are the top of the stack, the first popped on top. -/
theorem popBlocks_freeBlocks {k : ℕ} (hk : k ≤ pm.freeBlocks.length) :
    pm.freeBlocks = (popBlocks k pm []).1.freeBlocks ++ (popBlocks k pm []).2.reverse ∧
      (popBlocks k pm []).2.length = k := by
  induction k generalizing pm with
  | zero => simp [popBlocks]
  | succ k ih =>
    unfold popBlocks
    cases hb : pm.freeBlocks.getLast? with
    | none =>
      rw [List.getLast?_eq_none_iff] at hb
      simp [hb] at hk
    | some block =>
      have hfree : pm.freeBlocks = pm.freeBlocks.dropLast ++ [block] :=
        (List.dropLast_append_getLast? block hb).symm
      have hk' : k ≤ (pm.take block).freeBlocks.length := by
        rw [take_freeBlocks, List.length_dropLast]
        omega
      obtain ⟨happ, hlen⟩ := ih hk'
      rw [take_freeBlocks] at happ
      show pm.freeBlocks = (popBlocks k (pm.take block) [block]).1.freeBlocks ++
        (popBlocks k (pm.take block) [block]).2.reverse ∧
          (popBlocks k (pm.take block) [block]).2.length = k + 1
      rw [popBlocks_eq k (pm.take block) [block]]
      refine ⟨?_, by simp [hlen]⟩
      rw [List.reverse_append, ← List.append_assoc, ← happ]
      exact hfree

theorem length_popBlocks {k : ℕ} (hk : k ≤ pm.freeBlocks.length) (table : List ℕ) :
    (popBlocks k pm table).2.length = table.length + k ∧
      (popBlocks k pm table).1.freeBlocks.length = pm.freeBlocks.length - k := by
  obtain ⟨hfree, hlen⟩ := popBlocks_freeBlocks hk
  have hlen' := congrArg List.length hfree
  rw [List.length_append, List.length_reverse, hlen] at hlen'
  rw [popBlocks_eq, List.length_append, hlen]
  exact ⟨rfl, show (popBlocks k pm []).1.freeBlocks.length = _ by omega⟩

/-! ## Freeing what was popped -/

/-- The free blocks are distinct and none has a reference count. -/
structure Clean (pm : PageManager) : Prop where
  nodup : pm.freeBlocks.Nodup
  fresh : ∀ b ∈ pm.freeBlocks, pm.refCounts b = none

theorem Clean.take {block : ℕ} (h : pm.Clean) (hb : pm.freeBlocks.getLast? = some block) :
    (pm.take block).Clean := by
  have hfree : pm.freeBlocks = pm.freeBlocks.dropLast ++ [block] :=
    (List.dropLast_append_getLast? block hb).symm
  have hnodup := h.nodup
  rw [hfree, List.nodup_append] at hnodup
  refine ⟨hnodup.1, fun b hmem => ?_⟩
  have hne : b ≠ block := hnodup.2.2 b hmem block (List.mem_singleton_self block)
  show Function.update pm.refCounts block _ b = none
  rw [Function.update_of_ne hne]
  exact h.fresh b (List.dropLast_subset _ hmem)

theorem freeBlock_take {block : ℕ} (hb : pm.freeBlocks.getLast? = some block)
    (hfresh : pm.refCounts block = none) : (pm.take block).freeBlock block = pm := by
  have hfree : pm.freeBlocks.dropLast ++ [block] = pm.freeBlocks :=
    List.dropLast_append_getLast? block hb
  have hcount : ((pm.take block).refCounts block).getD 1 - 1 = 0 := by
    simp [PageManager.take, hfresh]
  unfold PageManager.freeBlock
  rw [hcount, if_pos le_rfl]
  have hrefs : Function.update (pm.take block).refCounts block none = pm.refCounts := by
    unfold PageManager.take
    rw [Function.update_idem, ← hfresh, Function.update_eq_self]
  rw [hrefs, take_freeBlocks, hfree]
  rfl

/-- **Popping and freeing in the reverse order is the identity on a clean pool.** -/
theorem foldl_freeBlock_popBlocks {k : ℕ} (h : pm.Clean) (hk : k ≤ pm.freeBlocks.length) :
    (popBlocks k pm []).2.reverse.foldl freeBlock (popBlocks k pm []).1 = pm := by
  induction k generalizing pm with
  | zero => rfl
  | succ k ih =>
    unfold popBlocks
    cases hb : pm.freeBlocks.getLast? with
    | none => rfl
    | some block =>
      have hk' : k ≤ (pm.take block).freeBlocks.length := by
        rw [take_freeBlocks, List.length_dropLast]
        omega
      show (popBlocks k (pm.take block) [block]).2.reverse.foldl freeBlock
        (popBlocks k (pm.take block) [block]).1 = pm
      rw [popBlocks_eq k (pm.take block) [block], List.reverse_append, List.foldl_append,
        ih (h.take hb) hk']
      exact freeBlock_take hb (h.fresh block (List.mem_of_getLast? hb))

theorem Clean.popBlocks {k : ℕ} (h : pm.Clean) : (popBlocks k pm table).1.Clean := by
  induction k generalizing pm table with
  | zero => exact h
  | succ k ih =>
    unfold PageManager.popBlocks
    cases hb : pm.freeBlocks.getLast? with
    | none => exact h
    | some block => exact ih (h.take hb)

theorem Owns.clean {held : List ℕ} (h : pm.Owns held) : pm.Clean := by
  have hnodup := h.nodup
  rw [List.nodup_append] at hnodup
  refine ⟨hnodup.1, fun b hb => ?_⟩
  rw [h.refs, if_neg fun hh => hnodup.2.2 b hb b hh rfl]

/-! ## The rollback -/

theorem rollbackLoop_eq (used : ℕ) (total : ℤ) (n : ℕ) (pm : PageManager) (table : List ℕ)
    (hn : table.length ≤ n) :
    rollbackLoop used total n pm table =
      ((table.drop used).reverse.foldl freeBlock pm, table.take used) := by
  induction n generalizing pm table with
  | zero =>
    have hnil : table = [] := List.eq_nil_of_length_eq_zero (by omega)
    simp [rollbackLoop, hnil]
  | succ n ih =>
    unfold rollbackLoop
    split_ifs with hc
    · -- a block beyond `used` is dropped
      have hlt : used < table.length := by omega
      cases hb : table.getLast? with
      | none =>
        rw [List.getLast?_eq_none_iff] at hb
        simp [hb] at hlt
      | some block =>
        have htab : table.dropLast ++ [block] = table := List.dropLast_append_getLast? block hb
        have hlen : used ≤ table.dropLast.length := by
          rw [List.length_dropLast]
          omega
        show rollbackLoop used total n (pm.freeBlock block) table.dropLast = _
        rw [ih _ _ (by rw [List.length_dropLast]; omega)]
        conv_rhs => rw [← htab]
        rw [List.drop_append_of_le_length hlen, List.take_append_of_le_length hlen,
          List.reverse_append]
        rfl
    · -- `total - (total - used)` is `used`: both tests are the same
      have hle : table.length ≤ used := by omega
      rw [List.drop_eq_nil_of_le hle, List.take_of_length_le hle]
      rfl

theorem rollbackSpeculative_eq (pm : PageManager) (seq : Sequence) (accepted : ℕ) (reserved : ℤ) :
    pm.rollbackSpeculative seq accepted reserved =
      ((seq.blockTable.drop ((seq.numTokens + accepted) ⌈/⌉ pm.blockSize)).reverse.foldl
          freeBlock pm,
        { seq with
          blockTable := seq.blockTable.take ((seq.numTokens + accepted) ⌈/⌉ pm.blockSize) }) := by
  have hused : ((seq.numTokens : ℤ) + accepted + pm.blockSize - 1) / pm.blockSize =
      (((seq.numTokens + accepted) ⌈/⌉ pm.blockSize : ℕ) : ℤ) := by
    rw [Nat.ceilDiv_eq_add_pred_div]
    by_cases hb : pm.blockSize = 0
    · simp [hb]
    · have hpos : 1 ≤ seq.numTokens + accepted + pm.blockSize := by omega
      push_cast [Nat.cast_sub hpos]
      rfl
  unfold rollbackSpeculative
  simp only
  rw [hused, rollbackLoop_eq _ _ _ _ _ le_rfl]

/-- **Reserving and rolling back is reserving what was accepted.** On a clean pool, `allocate` for
`r` tokens and a rollback to `a` of them leave the table, the free blocks in their order and the
reference counts of `allocate` for `a` tokens, which succeeds too. -/
theorem rollbackSpeculative_allocate (pm : PageManager) (seq : Sequence) (a r : ℕ)
    (hb : 1 ≤ pm.blockSize) (hnodup : pm.freeBlocks.Nodup)
    (hfresh : ∀ b ∈ pm.freeBlocks, pm.refCounts b = none)
    (htab : seq.blockTable.length ≤ (seq.numTokens + a) ⌈/⌉ pm.blockSize) (har : a ≤ r)
    {reserved : PageManager × Sequence} (hr : pm.allocate seq r = some (true, reserved)) :
    let back := reserved.1.rollbackSpeculative reserved.2 a r
    ∃ direct, pm.allocate seq a = some (true, direct) ∧
      back.2.blockTable = direct.2.blockTable ∧ back.1.freeBlocks = direct.1.freeBlocks ∧
      back.1.refCounts = direct.1.refCounts := by
  have hb0 : pm.blockSize ≠ 0 := by omega
  rw [allocate_eq hb0] at hr ⊢
  obtain ⟨hok, rfl⟩ := Prod.mk.inj (Option.some.inj hr)
  set n := seq.numTokens with hn
  set A := (n + a) ⌈/⌉ pm.blockSize with hA
  set R := (n + r) ⌈/⌉ pm.blockSize with hR
  have hAR : A ≤ R := (gc_mul_ceilDiv hb).monotone_l (Nat.add_le_add_left har n)
  have hfree : R - seq.blockTable.length ≤ pm.freeBlocks.length := growTable_fst.mp hok
  have hfree' : A - seq.blockTable.length ≤ pm.freeBlocks.length := by omega
  -- what `allocate` for the accepted tokens does
  set d := popBlocks (A - seq.blockTable.length) pm seq.blockTable with hd
  have hdirect : pm.growTable n a seq.blockTable = (true, d) := growTable_eq hfree'
  obtain ⟨hdtab, hdroom⟩ := length_popBlocks hfree' seq.blockTable
  rw [← hd, Nat.add_sub_cancel' htab] at hdtab
  rw [← hd] at hdroom
  have hdclean : d.1.Clean := Clean.popBlocks ⟨hnodup, hfresh⟩
  -- the larger reservation pops the blocks of the rejected tokens after that
  have hreserved : pm.growTable n r seq.blockTable = (true, popBlocks (R - A) d.1 d.2) := by
    rw [growTable_eq hfree, hd, ← popBlocks_add]
    congr 2
    omega
  have hback : (popBlocks (R - A) d.1 d.2).1.rollbackSpeculative
      { seq with blockTable := (popBlocks (R - A) d.1 d.2).2 } a r =
        (d.1, { seq with blockTable := d.2 }) := by
    have hsize : (popBlocks (R - A) d.1 d.2).1.blockSize = pm.blockSize :=
      (sameSize_popBlocks d.1 _ d.2).1.trans (sameSize_popBlocks pm _ _).1
    have hnum : Sequence.numTokens { seq with blockTable := (popBlocks (R - A) d.1 d.2).2 } = n :=
      rfl
    rw [rollbackSpeculative_eq, hsize, hnum, ← hA, popBlocks_eq]
    simp only
    have hroom : R - A ≤ d.1.freeBlocks.length := by omega
    rw [← hdtab, List.drop_left, List.take_left, hdtab, foldl_freeBlock_popBlocks hdclean hroom]
  simp only
  rw [hreserved, hdirect]
  simp only
  rw [hback]
  exact ⟨_, rfl, rfl, rfl, rfl⟩

theorem rollbackSpeculative_allocate_two :
    let pm := init 4 10
    let seq : Sequence := { seqId := 0, promptTokenIds := [1, 2, 3, 4, 5] }
    ∃ reserved direct, pm.allocate seq 12 = some (true, reserved) ∧
      pm.allocate seq 2 = some (true, direct) ∧ reserved.2.blockTable.length = 5 ∧
      direct.2.blockTable.length = 2 ∧
      (reserved.1.rollbackSpeculative reserved.2 2 12).2.blockTable = direct.2.blockTable ∧
      (reserved.1.rollbackSpeculative reserved.2 2 12).1.freeBlocks = direct.1.freeBlocks := by
  intro pm seq
  have hok : (pm.growTable seq.numTokens 12 seq.blockTable).1 = true := by decide
  have hr : pm.allocate seq 12 = _ := allocate_eq (by decide) seq 12
  rw [hok] at hr
  obtain ⟨direct, hd, htab, hfree, _⟩ := rollbackSpeculative_allocate pm seq 2 12 (by decide)
    (by decide) (fun _ _ => rfl) (by decide) (by decide) hr
  exact ⟨_, direct, hr, hd, by decide, htab ▸ by decide, htab, hfree⟩

theorem Owns.foldl_freeBlocks {held : List ℕ} (h : pm.Owns (table ++ held)) :
    (table.foldl PageManager.freeBlock pm).freeBlocks = pm.freeBlocks ++ table := by
  induction table generalizing pm with
  | nil => simp
  | cons b table ih =>
    have hcount : (pm.refCounts b).getD 1 - 1 = 0 := by simp [h.refs]
    have hfree : (pm.freeBlock b).freeBlocks = pm.freeBlocks ++ [b] := by
      unfold PageManager.freeBlock
      rw [hcount, if_pos le_rfl]
    rw [List.foldl_cons, ih h.freeBlock, hfree, List.append_assoc, List.singleton_append]

end PageManager

/-! ## After a speculative round -/

namespace Scheduler

variable {cfg : SSDConfig} {s : Scheduler} {r : ℕ}

/-- The pool of a reachable scheduler is clean, so that a rollback on it undoes a reservation. -/
theorem Reachable.clean (h : Reachable cfg s) : s.pageManager.Clean := h.holds.owns.clean

theorem finish_status (s : Scheduler) (r : ℕ) : ((s.finish r).seqs r).status = .finished := by
  unfold finish
  show (((s.setSeq r _).setSeq r _).seqs r).status = _
  rw [setSeq_self, setSeq_self]
  rfl

/-- The pool and the sequence after a call that does not finish it: the accepted tokens are
appended, and the table is cut to what `num_tokens` and the accepted tokens need. -/
theorem postprocessSpeculative_eq {accepted : List Token} {recovery : Token} {reserved : ℤ}
    {eosId : Option Token} {maxTokens : ℤ}
    (hfin : ((s.postprocessSpeculative r accepted recovery reserved eosId maxTokens).seqs r).status
      ≠ .finished) :
    let s' := s.postprocessSpeculative r accepted recovery reserved eosId maxTokens
    let used := ((s.seqs r).numTokens + 2 * accepted.length) ⌈/⌉ s.pageManager.blockSize
    (s'.seqs r).numTokens = (s.seqs r).numTokens + accepted.length ∧
      (s'.seqs r).blockTable = (s.seqs r).blockTable.take used ∧
      s'.pageManager = ((s.seqs r).blockTable.drop used).reverse.foldl PageManager.freeBlock
        s.pageManager := by
  intro s' used
  set seq : Sequence := { (s.seqs r).appendTokens accepted with recoveryToken := recovery }
    with hseq
  have hnum : seq.numTokens = (s.seqs r).numTokens + accepted.length := by
    have htok : seq.tokenIds = (s.seqs r).tokenIds ++ accepted :=
      Sequence.appendTokens_tokenIds (s.seqs r) accepted
    unfold Sequence.numTokens
    rw [htok, List.length_append]
  have hused : (seq.numTokens + accepted.length) ⌈/⌉ s.pageManager.blockSize = used := by
    rw [hnum, Nat.add_assoc, ← Nat.two_mul]
  have hroll := PageManager.rollbackSpeculative_eq s.pageManager seq accepted.length reserved
  rw [hused] at hroll
  have hs' : s' = { s.setSeq r (s.pageManager.rollbackSpeculative seq accepted.length reserved).2
      with pageManager :=
        (s.pageManager.rollbackSpeculative seq accepted.length reserved).1 } := by
    have hdef : s' = s.postprocessSpeculative r accepted recovery reserved eosId maxTokens := rfl
    unfold postprocessSpeculative at hdef hfin
    simp only [← hseq] at hdef hfin
    split_ifs at hdef hfin
    · exact absurd (finish_status _ r) hfin
    · exact hdef
  rw [hs', hroll]
  show ((s.setSeq r _).seqs r).numTokens = _ ∧ ((s.setSeq r _).seqs r).blockTable = _ ∧ _
  rw [setSeq_self]
  exact ⟨hnum, rfl, rfl⟩

theorem Holds.mem_freeBlocks_of_drop (h : Holds cfg s (s.waiting ++ s.running))
    (hr : r ∈ s.running) (used b : ℕ) (hb : b ∈ (s.seqs r).blockTable.drop used) :
    b ∈ (((s.seqs r).blockTable.drop used).reverse.foldl PageManager.freeBlock
      s.pageManager).freeBlocks := by
  have hperm := List.perm_cons_erase (List.mem_append_right s.waiting hr)
  have hown := (h.of_perm hperm).owns
  have hsplit : (s.held (r :: (s.waiting ++ s.running).erase r)).Perm
      (((s.seqs r).blockTable.drop used).reverse ++ ((s.seqs r).blockTable.take used ++
        (s.seqs r).draftBlockTable ++ s.held ((s.waiting ++ s.running).erase r))) := by
    have htab : ((s.seqs r).blockTable.take used ++ (s.seqs r).blockTable.drop used).Perm
        (((s.seqs r).blockTable.drop used).reverse ++ (s.seqs r).blockTable.take used) :=
      List.perm_append_comm.trans ((List.reverse_perm _).symm.append_right _)
    rw [List.take_append_drop] at htab
    show (((s.seqs r).blockTable ++ (s.seqs r).draftBlockTable) ++
      s.held ((s.waiting ++ s.running).erase r)).Perm _
    simpa only [List.append_assoc] using htab.append_right _
  rw [(hown.of_perm hsplit).foldl_freeBlocks]
  exact List.mem_append_right _ (List.mem_reverse.mpr hb)

/-- **The rollback after a verify.** A running sequence that the call does not finish keeps exactly
the blocks its tokens need, of those it had, and gives the others back, if and only if it had no
more than these, or counting the accepted tokens a second time crosses no block boundary. -/
theorem postprocessSpeculative_trims_iff (hb : 1 ≤ cfg.blockSize) (h : Reachable cfg s)
    (hr : r ∈ s.running) (accepted : List Token) (recovery : Token) (reserved : ℤ)
    (eosId : Option Token) (maxTokens : ℤ)
    (hfin : ((s.postprocessSpeculative r accepted recovery reserved eosId maxTokens).seqs r).status
      ≠ .finished) :
    let s' := s.postprocessSpeculative r accepted recovery reserved eosId maxTokens
    let table := (s.seqs r).blockTable
    let table' := (s'.seqs r).blockTable
    (table'.length = min table.length ((s'.seqs r).numTokens ⌈/⌉ cfg.blockSize) ∧
        table' <+: table ∧ ∀ b ∈ table, b ∉ table' → b ∈ s'.pageManager.freeBlocks) ↔
      table.length ≤ ((s.seqs r).numTokens + accepted.length) ⌈/⌉ cfg.blockSize ∨
        ((s.seqs r).numTokens + 2 * accepted.length) ⌈/⌉ cfg.blockSize =
          ((s.seqs r).numTokens + accepted.length) ⌈/⌉ cfg.blockSize := by
  intro s' table table'
  have hh := h.holds
  have hsize : s.pageManager.blockSize = cfg.blockSize := hh.size.1
  obtain ⟨hnum, htab, hpool⟩ := postprocessSpeculative_eq hfin
  rw [hsize] at htab hpool
  set n := (s.seqs r).numTokens with hn
  set a := accepted.length with ha
  have htab' : table' = table.take ((n + 2 * a) ⌈/⌉ cfg.blockSize) := htab
  have hlen : table'.length = min ((n + 2 * a) ⌈/⌉ cfg.blockSize) table.length := by
    rw [htab', List.length_take]
  have hnum' : (s'.seqs r).numTokens = n + a := hnum
  -- the second count of the accepted tokens can only add blocks
  have hmono : (n + a) ⌈/⌉ cfg.blockSize ≤ (n + 2 * a) ⌈/⌉ cfg.blockSize :=
    (gc_mul_ceilDiv hb).monotone_l (by omega)
  rw [hlen, hnum']
  constructor
  · rintro ⟨hmin, -, -⟩
    omega
  · intro hcond
    refine ⟨by omega, ?_, fun b hb hb' => ?_⟩
    · rw [htab']
      exact List.take_prefix _ _
    · have hdrop : b ∈ table.drop ((n + 2 * a) ⌈/⌉ cfg.blockSize) := by
        rw [← List.take_append_drop ((n + 2 * a) ⌈/⌉ cfg.blockSize) table, List.mem_append,
          ← htab'] at hb
        exact hb.resolve_left hb'
      have hfree := hh.mem_freeBlocks_of_drop hr _ b hdrop
      rwa [← hpool] at hfree

/-- A request of three tokens that reserved five more on four-token blocks, with one token accepted:
the table keeps two blocks, and four tokens need one. -/
theorem postprocessSpeculative_keeps_block :
    ∃ s a, Reachable { mode := .sd, blockSize := 4, numBlocks := 64 } s ∧ 0 ∈ s.running ∧
      a = s.postprocessSpeculative 0 [7] 8 5 none 100 ∧ (a.seqs 0).status = .running ∧
      (s.seqs 0).blockTable.length = 2 ∧ (a.seqs 0).numTokens = 4 ∧
      (a.seqs 0).blockTable.length = 2 ∧
      min (s.seqs 0).blockTable.length ((a.seqs 0).numTokens ⌈/⌉ 4) = 1 := by
  have hadd : Reachable { mode := .sd, blockSize := 4, numBlocks := 64 }
      ((init { mode := .sd, blockSize := 4, numBlocks := 64 }).addRequest [1, 2, 3]).1 :=
    .single (.addRequest _ _)
  exact ⟨_, _, hadd.tail (.schedule rfl), by decide, rfl, by decide, by decide, by decide,
    by decide, by decide⟩

theorem postprocessSpeculative_trims_two :
    ∃ s a, Reachable { mode := .sd, blockSize := 4, numBlocks := 64 } s ∧
      a = s.postprocessSpeculative 0 [7] 8 5 none 100 ∧
      (s.seqs 0).blockTable.length = 2 ∧ (a.seqs 0).blockTable.length = 1 ∧
      ∀ b ∈ (s.seqs 0).blockTable, b ∉ (a.seqs 0).blockTable → b ∈ a.pageManager.freeBlocks := by
  have hadd : Reachable { mode := .sd, blockSize := 4, numBlocks := 64 }
      ((init { mode := .sd, blockSize := 4, numBlocks := 64 }).addRequest [1, 2]).1 :=
    .single (.addRequest _ _)
  have hs := hadd.tail (.schedule rfl)
  obtain ⟨hlen, -, hfree⟩ := (postprocessSpeculative_trims_iff (by decide) hs (r := 0) (by decide)
    [7] 8 5 none 100 (by decide)).mpr (by decide)
  exact ⟨_, _, hs, rfl, by decide, hlen.trans (by decide), hfree⟩

end Scheduler

end SsdTpu
