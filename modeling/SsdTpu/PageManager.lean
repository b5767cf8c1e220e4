import Mathlib.Algebra.Order.Floor.Div
import SsdTpu.Sequence

/-!
# Paged KV block allocation

`free_blocks` is a stack with its top at the end of the list: `pop()` takes the last block and a
freed block is appended. `ref_counts` is a dict, `none` being a missing key.

A pool *owns* a list of blocks (`PageManager.Owns`) when the free blocks together with it are all
blocks once, and the reference counts are 1 on exactly that list. Each operation is summed up by
one lemma about what is owned before and after: `Owns.growTable`, `Owns.foldl_freeBlock` and
`Owns.rollbackLoop`.
-/

namespace SsdTpu

structure PageManager where
  blockSize : ℕ
  numBlocks : ℕ
  freeBlocks : List ℕ
  refCounts : ℕ → Option ℤ

namespace PageManager

/-- A new pool, all blocks free. -/
def init (blockSize numBlocks : ℕ) : PageManager where
  blockSize := blockSize
  numBlocks := numBlocks
  freeBlocks := List.range numBlocks
  refCounts := fun _ => none

/-- Take one block: `ref_counts[block] = ref_counts.get(block, 0) + 1`. -/
def take (pm : PageManager) (block : ℕ) : PageManager :=
  { pm with
    freeBlocks := pm.freeBlocks.dropLast
    refCounts := Function.update pm.refCounts block (some ((pm.refCounts block).getD 0 + 1)) }

/-- `for _ in range(extra)`: pop a block and append it to the table. The callers have checked that
there are enough blocks, so `pop()` finds one. -/
def popBlocks : ℕ → PageManager → List ℕ → PageManager × List ℕ
  | 0, pm, table => (pm, table)
  | extra + 1, pm, table =>
    match pm.freeBlocks.getLast? with
    | none => (pm, table)
    | some block => popBlocks extra (pm.take block) (table ++ [block])

/-- The common body of `allocate` and `allocate_draft` on a block size of at least 1: grow a table
until it covers the tokens of the sequence and `reserve` more, or change nothing and return
`False`. -/
def growTable (pm : PageManager) (numTokens reserve : ℕ) (table : List ℕ) :
    Bool × PageManager × List ℕ :=
  let blocksNeeded := (numTokens + reserve + pm.blockSize - 1) / pm.blockSize
  let extra := blocksNeeded - table.length
  if blocksNeeded ≤ table.length then (true, pm, table)
  else if pm.freeBlocks.length < extra then (false, pm, table)
  else (true, popBlocks extra pm table)

/-- On a block size of 0 the division raises, before anything is changed. -/
def allocateTable (pm : PageManager) (numTokens reserve : ℕ) (table : List ℕ) :
    Option (Bool × PageManager × List ℕ) :=
  if pm.blockSize = 0 then none else some (pm.growTable numTokens reserve table)

def allocate (pm : PageManager) (seq : Sequence) (numTokens : ℕ) :
    Option (Bool × PageManager × Sequence) :=
  (pm.allocateTable seq.numTokens numTokens seq.blockTable).map fun r =>
    (r.1, r.2.1, { seq with blockTable := r.2.2 })

def allocateDraft (pm : PageManager) (seq : Sequence) (numTokens : ℕ) :
    Option (Bool × PageManager × Sequence) :=
  (pm.allocateTable seq.numTokens numTokens seq.draftBlockTable).map fun r =>
    (r.1, r.2.1, { seq with draftBlockTable := r.2.2 })

/-- `_free_block`: a missing count is read as 1; the entry goes and the block becomes free when the
count reaches 0. -/
def freeBlock (pm : PageManager) (block : ℕ) : PageManager :=
  let count := (pm.refCounts block).getD 1 - 1
  if count ≤ 0 then
    { pm with
      freeBlocks := pm.freeBlocks ++ [block]
      refCounts := Function.update pm.refCounts block none }
  else { pm with refCounts := Function.update pm.refCounts block (some count) }

/-- The loop of `rollback_speculative`. Each pass drops the last block of the table, so that as
many passes as blocks are enough. -/
def rollbackLoop (used total : ℤ) : ℕ → PageManager → List ℕ → PageManager × List ℕ
  | 0, pm, table => (pm, table)
  | n + 1, pm, table =>
    if (table.length : ℤ) > used ∧ (table.length : ℤ) > total - (total - used) then
      match table.getLast? with
      | none => (pm, table)
      | some block => rollbackLoop used total n (pm.freeBlock block) table.dropLast
    else (pm, table)

/-- Called on running sequences, which there are none of on a block size of 0. -/
def rollbackSpeculative (pm : PageManager) (seq : Sequence) (acceptedTokens reserved : ℤ) :
    PageManager × Sequence :=
  let used := (seq.numTokens + acceptedTokens + pm.blockSize - 1) / pm.blockSize
  let total := (seq.numTokens + reserved + pm.blockSize - 1) / pm.blockSize
  let r := rollbackLoop used total seq.blockTable.length pm seq.blockTable
  (r.1, { seq with blockTable := r.2 })

def freeSequence (pm : PageManager) (seq : Sequence) : PageManager × Sequence :=
  let pm := seq.blockTable.foldl freeBlock pm
  let pm := seq.draftBlockTable.foldl freeBlock pm
  (pm, { seq with blockTable := [], draftBlockTable := [] })

/-! ## Ownership -/

/-- The free blocks and `held` are together all blocks, each once, and the reference counts are 1 on
the held blocks and missing on the others. -/
structure Owns (pm : PageManager) (held : List ℕ) : Prop where
  perm : (pm.freeBlocks ++ held).Perm (List.range pm.numBlocks)
  refs : ∀ b, pm.refCounts b = if b ∈ held then some 1 else none

variable {pm : PageManager} {held held' table : List ℕ}

theorem owns_init (blockSize numBlocks : ℕ) : (init blockSize numBlocks).Owns [] where
  perm := by simp [init]
  refs := by simp [init]

theorem Owns.of_perm (h : pm.Owns held) (hp : held.Perm held') : pm.Owns held' where
  perm := ((List.Perm.refl _).append hp.symm).trans h.perm
  refs b := by simp only [h.refs, hp.mem_iff]

theorem Owns.nodup (h : pm.Owns held) : (pm.freeBlocks ++ held).Nodup :=
  h.perm.nodup_iff.mpr List.nodup_range

theorem Owns.take {block : ℕ} (h : pm.Owns held) (hb : pm.freeBlocks.getLast? = some block) :
    (pm.take block).Owns (block :: held) := by
  have hfree : pm.freeBlocks = pm.freeBlocks.dropLast ++ [block] :=
    (List.dropLast_append_getLast? block hb).symm
  have hnot : block ∉ held := by
    intro hmem
    have := h.nodup
    rw [hfree, List.append_assoc, List.singleton_append] at this
    exact (List.nodup_cons.mp (List.Nodup.of_append_right this)).1 hmem
  constructor
  · have := h.perm
    rw [hfree, List.append_assoc, List.singleton_append] at this
    exact this
  · intro b
    show Function.update pm.refCounts block _ b = _
    by_cases hbb : b = block
    · subst hbb
      simp [h.refs, hnot]
    · rw [Function.update_of_ne hbb, h.refs]
      simp [hbb]

@[simp] theorem take_freeBlocks (block : ℕ) :
    (pm.take block).freeBlocks = pm.freeBlocks.dropLast := rfl
@[simp] theorem take_numBlocks (block : ℕ) : (pm.take block).numBlocks = pm.numBlocks := rfl
@[simp] theorem take_blockSize (block : ℕ) : (pm.take block).blockSize = pm.blockSize := rfl

/-- Popping puts exactly as many new blocks at the end of the table. -/
theorem Owns.popBlocks {extra : ℕ} (h : pm.Owns held) (hle : extra ≤ pm.freeBlocks.length)
    (table : List ℕ) :
    ∃ new, (popBlocks extra pm table).2 = table ++ new ∧ new.length = extra ∧
      (popBlocks extra pm table).1.Owns (new ++ held) := by
  induction extra generalizing pm held table with
  | zero => exact ⟨[], by simp [PageManager.popBlocks], rfl, h⟩
  | succ extra ih =>
    unfold PageManager.popBlocks
    cases hb : pm.freeBlocks.getLast? with
    | none =>
      rw [List.getLast?_eq_none_iff] at hb
      simp [hb] at hle
    | some block =>
      obtain ⟨new, htab, hlen, hown⟩ := ih (h.take hb)
        (by rw [take_freeBlocks, List.length_dropLast]; omega) (table ++ [block])
      refine ⟨block :: new, by simpa using htab, by simp [hlen], hown.of_perm ?_⟩
      exact List.perm_middle

theorem Owns.freeBlock {block : ℕ} (h : pm.Owns (block :: held)) :
    (pm.freeBlock block).Owns held := by
  have hnot : block ∉ held :=
    (List.nodup_cons.mp (List.Nodup.of_append_right h.nodup)).1
  have hcount : (pm.refCounts block).getD 1 - 1 = 0 := by simp [h.refs]
  unfold PageManager.freeBlock
  rw [hcount, if_pos le_rfl]
  constructor
  · have := h.perm
    rw [← List.singleton_append, ← List.append_assoc] at this
    exact this
  · intro b
    show Function.update pm.refCounts block none b = _
    by_cases hbb : b = block
    · subst hbb
      simp [hnot]
    · rw [Function.update_of_ne hbb, h.refs]
      simp [hbb]

theorem Owns.foldl_freeBlock (h : pm.Owns (table ++ held)) :
    (table.foldl PageManager.freeBlock pm).Owns held := by
  induction table generalizing pm with
  | nil => exact h
  | cons b table ih => exact ih h.freeBlock

/-- The rollback loop drops a suffix of the table and gives up exactly the dropped blocks. -/
theorem Owns.rollbackLoop (used total : ℤ) (n : ℕ) (h : pm.Owns (table ++ held)) :
    (rollbackLoop used total n pm table).2 <+: table ∧
      (rollbackLoop used total n pm table).1.Owns
        ((rollbackLoop used total n pm table).2 ++ held) := by
  induction n generalizing pm table with
  | zero => exact ⟨List.prefix_rfl, h⟩
  | succ n ih =>
    unfold PageManager.rollbackLoop
    split_ifs with hc
    · cases hb : table.getLast? with
      | none => exact ⟨List.prefix_rfl, h⟩
      | some block =>
        have htab : table = table.dropLast ++ [block] :=
          (List.dropLast_append_getLast? block hb).symm
        have hown : pm.Owns (block :: (table.dropLast ++ held)) := by
          apply h.of_perm
          rw [htab, List.dropLast_concat, List.append_assoc, List.singleton_append]
          exact List.perm_middle
        obtain ⟨hpre, hown⟩ := ih hown.freeBlock
        exact ⟨hpre.trans (List.dropLast_prefix _), hown⟩
    · exact ⟨List.prefix_rfl, h⟩

/-! ## The dimensions of the pool -/

/-- The block size and the number of blocks are the same. -/
def SameSize (pm pm' : PageManager) : Prop :=
  pm'.blockSize = pm.blockSize ∧ pm'.numBlocks = pm.numBlocks

theorem SameSize.refl (pm : PageManager) : SameSize pm pm := ⟨rfl, rfl⟩

theorem SameSize.trans {pm pm' pm'' : PageManager} (h : SameSize pm pm')
    (h' : SameSize pm' pm'') : SameSize pm pm'' :=
  ⟨h'.1.trans h.1, h'.2.trans h.2⟩

theorem sameSize_freeBlock (pm : PageManager) (block : ℕ) :
    SameSize pm (pm.freeBlock block) := by
  unfold freeBlock
  simp only
  split_ifs <;> exact ⟨rfl, rfl⟩

theorem sameSize_foldl_freeBlock (pm : PageManager) (table : List ℕ) :
    SameSize pm (table.foldl freeBlock pm) := by
  induction table generalizing pm with
  | nil => exact .refl pm
  | cons b table ih => exact (sameSize_freeBlock pm b).trans (ih _)

theorem sameSize_popBlocks (pm : PageManager) (n : ℕ) (table : List ℕ) :
    SameSize pm (popBlocks n pm table).1 := by
  induction n generalizing pm table with
  | zero => exact .refl pm
  | succ n ih =>
    unfold popBlocks
    cases pm.freeBlocks.getLast? with
    | none => exact .refl pm
    | some block => exact SameSize.trans ⟨rfl, rfl⟩ (ih _ _)

theorem sameSize_growTable (pm : PageManager) (numTokens reserve : ℕ) (table : List ℕ) :
    SameSize pm (pm.growTable numTokens reserve table).2.1 := by
  unfold growTable
  simp only
  split_ifs
  · exact .refl pm
  · exact .refl pm
  · exact sameSize_popBlocks pm _ _

theorem sameSize_rollbackLoop (pm : PageManager) (used total : ℤ) (n : ℕ) (table : List ℕ) :
    SameSize pm (rollbackLoop used total n pm table).1 := by
  induction n generalizing pm table with
  | zero => exact .refl pm
  | succ n ih =>
    unfold rollbackLoop
    split_ifs
    · cases table.getLast? with
      | none => exact .refl pm
      | some block => exact (sameSize_freeBlock pm block).trans (ih _ _)
    · exact .refl pm

/-! ## Allocation -/

theorem allocate_eq (hb : pm.blockSize ≠ 0) (seq : Sequence) (n : ℕ) : pm.allocate seq n =
    some ((pm.growTable seq.numTokens n seq.blockTable).1,
      (pm.growTable seq.numTokens n seq.blockTable).2.1,
      { seq with blockTable := (pm.growTable seq.numTokens n seq.blockTable).2.2 }) := by
  unfold allocate allocateTable
  rw [if_neg hb]
  rfl

/-- A table that grows pops what it lacks, and pops nothing when it lacks nothing. -/
theorem growTable_eq {numTokens reserve : ℕ} (h : (numTokens + reserve) ⌈/⌉ pm.blockSize -
      table.length ≤ pm.freeBlocks.length) :
    pm.growTable numTokens reserve table =
      (true, popBlocks ((numTokens + reserve) ⌈/⌉ pm.blockSize - table.length) pm table) := by
  rw [Nat.ceilDiv_eq_add_pred_div] at h ⊢
  unfold growTable
  simp only
  split_ifs with hle hlt
  · rw [Nat.sub_eq_zero_of_le hle]
    rfl
  · omega
  · rfl

theorem growTable_of_lt {numTokens reserve : ℕ} (h : pm.freeBlocks.length <
      (numTokens + reserve) ⌈/⌉ pm.blockSize - table.length) :
    pm.growTable numTokens reserve table = (false, pm, table) := by
  rw [Nat.ceilDiv_eq_add_pred_div] at h
  unfold growTable
  simp only
  rw [if_neg (by omega), if_pos h]

theorem growTable_fst {numTokens reserve : ℕ} :
    (pm.growTable numTokens reserve table).1 = true ↔
      (numTokens + reserve) ⌈/⌉ pm.blockSize - table.length ≤ pm.freeBlocks.length := by
  by_cases h : (numTokens + reserve) ⌈/⌉ pm.blockSize - table.length ≤ pm.freeBlocks.length
  · simp [growTable_eq h, h]
  · simp [growTable_of_lt (not_le.mp h), h]

/-- **Allocation.** A success appends fresh blocks, after which the table covers the tokens and the
reserve; a failure changes nothing. -/
theorem Owns.growTable (h : pm.Owns held) (numTokens reserve : ℕ) (table : List ℕ) :
    ∃ new, (pm.growTable numTokens reserve table).2.2 = table ++ new ∧
      (pm.growTable numTokens reserve table).2.1.Owns (new ++ held) ∧
      ((pm.growTable numTokens reserve table).1 = true →
        (numTokens + reserve + pm.blockSize - 1) / pm.blockSize ≤ (table ++ new).length) := by
  unfold PageManager.growTable
  simp only
  split_ifs with hle hlt
  · exact ⟨[], by simp, h, fun _ => by simpa using hle⟩
  · exact ⟨[], by simp, h, by simp⟩
  · obtain ⟨new, htab, hlen, hown⟩ := h.popBlocks (not_lt.mp hlt) table
    refine ⟨new, htab, hown, fun _ => ?_⟩
    rw [List.length_append, hlen]
    omega

end PageManager

end SsdTpu
