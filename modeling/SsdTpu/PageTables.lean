import SsdTpu.Lifecycle

/-!
# The page tables handed to the target

The three decode loops build their page table as `num_blocks` zeros, and pass it to every call of
the target in place of the block table that the scheduler has filled. Through it every position of
every sequence lies in block 0 (`slot_pageTable`).
-/

namespace SsdTpu

/-! ## Slots -/

/-- `page_table[p // block_size] * block_size + p % block_size`. An index beyond the end reads the
last entry; an empty table has none. -/
def slot (pageTable : List ℕ) (blockSize p : ℕ) : Option ℕ :=
  (pageTable[min (p / blockSize) (pageTable.length - 1)]?).map fun block =>
    block * blockSize + p % blockSize

/-- Through the page table the first `n` positions have slots of their own, in blocks of the block
table. -/
structure Addresses (pageTable : List ℕ) (blockSize : ℕ) (blockTable : List ℕ) (n : ℕ) : Prop where
  owned : ∀ p < n, ∃ s, slot pageTable blockSize p = some s ∧ s / blockSize ∈ blockTable
  distinct : ∀ p < n, ∀ q < n, slot pageTable blockSize p = slot pageTable blockSize q → p = q

section Slots

variable {cfg : SSDConfig} {blockTable : List ℕ} {n : ℕ}

theorem slot_pageTable (h : cfg.numBlocks ≠ 0) (p : ℕ) :
    slot (pageTable cfg) cfg.blockSize p = some (p % cfg.blockSize) := by
  unfold slot pageTable
  rw [List.length_replicate, List.getElem?_replicate, if_pos (by omega), Option.map_some,
    Nat.zero_mul, Nat.zero_add]

theorem slot_pageTable_of_empty (h : cfg.numBlocks = 0) (p : ℕ) :
    slot (pageTable cfg) cfg.blockSize p = none := by
  unfold slot pageTable
  rw [h]
  rfl

/-- A table of zeros addresses the positions of one block, if that is block 0. -/
theorem addresses_pageTable_iff (hb : 1 ≤ cfg.blockSize) :
    Addresses (pageTable cfg) cfg.blockSize blockTable n ↔
      (n ≠ 0 → n ≤ cfg.blockSize ∧ 0 ∈ blockTable ∧ cfg.numBlocks ≠ 0) := by
  constructor
  · intro h hn
    obtain ⟨s, hs, hmem⟩ := h.owned 0 (by omega)
    have hN : cfg.numBlocks ≠ 0 := by
      intro hN
      rw [slot_pageTable_of_empty hN] at hs
      cases hs
    refine ⟨?_, ?_, hN⟩
    · -- the first positions of two blocks share a slot
      by_contra hlt
      have heq := h.distinct 0 (by omega) cfg.blockSize (by omega) (by
        rw [slot_pageTable hN, slot_pageTable hN, Nat.mod_self, Nat.zero_mod])
      omega
    · rw [slot_pageTable hN, Nat.zero_mod] at hs
      obtain rfl := Option.some.inj hs
      rwa [Nat.zero_div] at hmem
  · intro h
    constructor
    · intro p hp
      obtain ⟨hle, hmem, hN⟩ := h (by omega)
      refine ⟨_, slot_pageTable hN p, ?_⟩
      rwa [Nat.div_eq_of_lt (Nat.mod_lt _ hb)]
    · intro p hp q hq heq
      obtain ⟨hle, _, hN⟩ := h (by omega)
      rw [slot_pageTable hN, slot_pageTable hN, Option.some.injEq,
        Nat.mod_eq_of_lt (by omega), Nat.mod_eq_of_lt (by omega)] at heq
      exact heq

end Slots

/-! ## The calls of a run -/

namespace LLMEngine

variable {τ R R' : Type*} [LinearOrder R] [LinearOrder R'] [Zero R'] {V V' : ℕ} {cfg : SSDConfig}
  {target : DecodeModelAdapter τ R V} {draft : DraftModel R' V'}
  {e : LLMEngine τ cfg.speculateK V' R'} {prompt : List Token}
  {a : LLMEngine τ cfg.speculateK V' R' × ℕ} {maxNewTokens : ℤ}

/-- The calls of the target, each with `pageTable cfg`, while a prompt is served; `a` is the engine
after the admission and the reference of the sequence. `TargetCall … seq n` is a call made while the
sequence object is `seq` and that is about the first `n` positions. -/
inductive TargetCall (cfg : SSDConfig) (target : DecodeModelAdapter τ R V)
    (draft : DraftModel R' V') (maxNewTokens : ℤ) (a : LLMEngine τ cfg.speculateK V' R' × ℕ) :
    Sequence → ℕ → Prop
  /-- `target.prefill`, which only a target with a loop of its own is spared, in AR mode. -/
  | prefill (h : cfg.mode = .ar → target.generateAr = none) :
    TargetCall cfg target draft maxNewTokens a (a.1.scheduler.seqs a.2)
      (a.1.scheduler.seqs a.2).numTokens
  /-- `target.decode` in `_run_ar`. -/
  | decode (hm : cfg.mode = .ar) (hgen : target.generateAr = none) {metrics : RunMetrics}
    {s₀ s : Decoding τ} {i : ℕ}
    (h₀ : arStart cfg target (a.1.scheduler.seqs a.2) a.1.target metrics = some s₀)
    (hs : Loop.Head (Decoding.unfinished maxNewTokens) (arStep cfg target) s₀ i s)
    (hu : s.unfinished maxNewTokens = true) :
    TargetCall cfg target draft maxNewTokens a s.seq s.seq.numTokens
  /-- `target.verify` in `_run_sd`, after the draft has answered. -/
  | verifySd (hm : cfg.mode = .sd) {metrics : RunMetrics} {s₀ s s' : SdState τ Unit} {i : ℕ}
    (h₀ : sdStart cfg target (a.1.scheduler.seqs a.2) a.1.target () metrics = some s₀)
    (hs : Loop.Head (SdState.unfinished maxNewTokens)
      (sdStep cfg target fun _ tokens k => (draft tokens k).map fun r => (r.1, ())) s₀ i s)
    (hu : s.unfinished maxNewTokens = true)
    (hstep : sdStep cfg target (fun _ tokens k => (draft tokens k).map fun r => (r.1, ())) s =
      some s') :
    TargetCall cfg target draft maxNewTokens a s.seq (s.seq.numTokens + cfg.speculateK)
  /-- `target.verify` in `_run_ssd`. -/
  | verifySsd (hm : cfg.mode = .ssd ∨ cfg.mode = .instanceSsd)
    {w : DraftWorker cfg.speculateK V' R'} {metrics : RunMetrics}
    {s₀ s : SsdState τ (DraftWorker cfg.speculateK V' R') cfg.speculateK V' R'} {i : ℕ}
    (hw : a.1.draftWorker = some w)
    (h₀ : ssdStart cfg target (DraftWorker.handle cfg draft) (a.1.scheduler.seqs a.2) a.1.target w
      metrics = some s₀)
    (hs : Loop.Head (SsdState.unfinished maxNewTokens)
      (ssdStep cfg target (DraftWorker.handle cfg draft) maxNewTokens) s₀ i s)
    (hu : s.unfinished maxNewTokens = true) :
    TargetCall cfg target draft maxNewTokens a s.seq (s.seq.numTokens + cfg.speculateK)

theorem TargetCall.sameRequest {seq : Sequence} {n : ℕ}
    (h : TargetCall cfg target draft maxNewTokens a seq n) :
    Sequence.SameRequest (a.1.scheduler.seqs a.2) seq := by
  cases h with
  | prefill => exact .refl _
  | decode _ _ h₀ hs => exact arHead_sameRequest h₀ hs
  | verifySd _ h₀ hs => exact sdHead_sameRequest h₀ hs
  | verifySsd _ _ h₀ hs => exact ssdHead_sameRequest h₀ hs

omit [LinearOrder R'] [Zero R'] in
theorem Unreleased.lt_numBlocks {b : ℕ} (h : Unreleased cfg a.1)
    (hr : a.2 ∈ a.1.scheduler.waiting ++ a.1.scheduler.running)
    (hmem : b ∈ (a.1.scheduler.seqs a.2).blockTable) : b < cfg.numBlocks := by
  have hheld : b ∈ a.1.scheduler.held (a.1.scheduler.waiting ++ a.1.scheduler.running) :=
    List.mem_flatMap.mpr ⟨a.2, hr, List.mem_append_left _ hmem⟩
  have hrange := h.holds.owns.perm.mem_iff.mp (List.mem_append_right _ hheld)
  rw [List.mem_range, h.holds.size.2] at hrange
  exact hrange

/-- **The page tables handed to the target** address the slots of the sequence exactly in those runs
in which it owns block 0 and no call is about more positions than there are in a block. -/
theorem addresses_iff {t : τ} (hb : 1 ≤ cfg.blockSize) (he : Reachable cfg target draft t e)
    (ha : admitPrompt cfg e prompt = some a) (maxNewTokens : ℤ) :
    (∀ seq n, TargetCall cfg target draft maxNewTokens a seq n →
        Addresses (pageTable cfg) cfg.blockSize seq.blockTable n) ↔
      ∀ seq n, TargetCall cfg target draft maxNewTokens a seq n → n ≠ 0 →
        n ≤ cfg.blockSize ∧ 0 ∈ (a.1.scheduler.seqs a.2).blockTable := by
  obtain ⟨hu, hr⟩ := (he.unreleased hb).admitPrompt hb ha
  constructor
  · intro h seq n hcall hn
    obtain ⟨hle, hmem, _⟩ := (addresses_pageTable_iff hb).mp (h seq n hcall) hn
    rw [hcall.sameRequest.blockTable] at hmem
    exact ⟨hle, hmem⟩
  · intro h seq n hcall
    refine (addresses_pageTable_iff hb).mpr fun hn => ?_
    obtain ⟨hle, hmem⟩ := h seq n hcall hn
    have hpos := hu.lt_numBlocks hr hmem
    rw [hcall.sameRequest.blockTable]
    exact ⟨hle, hmem, by omega⟩

open ToyModelAdapter (alternating)

/-- The first sequence of a new engine gets the last block of the pool, and the prefill writes to
block 0. -/
theorem addresses_last_block :
    ∃ e a, init { numBlocks := 8 } () = some e ∧
      admitPrompt { numBlocks := 8 } e [1] = some a ∧
      ¬ ∀ seq n, TargetCall { numBlocks := 8 } alternating.adapter alternating.draftSpeculate 1 a
        seq n → Addresses (pageTable { numBlocks := 8 }) 16 seq.blockTable n := by
  refine ⟨_, _, rfl, rfl, fun h => ?_⟩
  have hcall := h _ _ (.prefill fun _ => rfl)
  have hown := (addresses_pageTable_iff (by decide)).mp hcall
  exact absurd hown (by decide)

theorem addresses_iff_one_block :
    ∃ e a, init { numBlocks := 1 } () = some e ∧
      admitPrompt { numBlocks := 1 } e [1] = some a ∧
      ∀ seq n, TargetCall { numBlocks := 1 } alternating.adapter alternating.draftSpeculate 3 a
        seq n → Addresses (pageTable { numBlocks := 1 }) 16 seq.blockTable n := by
  obtain ⟨e, he, a, ha, hprompt, hcompletion, hblocks⟩ :
      ∃ e : LLMEngine Unit 4 3 ℚ, init { numBlocks := 1 } () = some e ∧
        ∃ a, admitPrompt { numBlocks := 1 } e [1] = some a ∧
          (a.1.scheduler.seqs a.2).promptTokenIds = [1] ∧
          (a.1.scheduler.seqs a.2).completionTokenIds = [] ∧
          (a.1.scheduler.seqs a.2).blockTable = [0] :=
    ⟨_, rfl, _, rfl, rfl, rfl, rfl⟩
  refine ⟨e, a, he, ha, (addresses_iff (by decide) (.init he) ha 3).mpr fun seq n hcall _ => ?_⟩
  refine ⟨?_, by rw [hblocks]; simp⟩
  have hsame := hcall.sameRequest.prompt
  rw [hprompt] at hsame
  have hlen : n ≤ 3 := by
    cases hcall with
    | prefill =>
      unfold Sequence.numTokens Sequence.tokenIds
      rw [hprompt, hcompletion]
      decide
    | decode _ _ _ _ hu =>
      have hlt := Sequence.not_isFinished_none.mp hu
      unfold Sequence.numTokens Sequence.tokenIds
      rw [hsame, List.length_append, List.length_singleton]
      omega
    | verifySd hm => cases hm
    | verifySsd hm => rcases hm with hm | hm <;> cases hm
  exact hlen.trans (by decide)

end LLMEngine

end SsdTpu
