import SsdTpu.LastWrite
import SsdTpu.PageTables

/-!
# The paged KV cache

`pages` has the axes plane (keys, values), layer, block, offset in the block, and holds one vector
for each KV head at each place. `write_kv_slots` writes the vectors one by one at flat slots, and
`gather_kv_for_positions` returns zeros whatever the pages hold.

1. An in-range slot splits into block and offset and one write sets one place of each plane
   (`writeSlot_eq`).
2. The loop of writes is an exact update of a map, and loops through tables without a common block
   commute (`writeKvSlots_exact`).
3. What is written at distinct positions of a page table is all in the pages (`pages_of_slot`), but
   the gather returns it only if it is zero (`gatherKv_iff`).
-/

namespace SsdTpu

/-- One vector for each KV head. -/
abbrev KvVec (α : Type*) (heads dim : ℕ) := Fin heads → Fin dim → α

/-- The places of the `pages` array; its fourth axis has `block_size` places. -/
abbrev Pages (α : Type*) (layers numBlocks blockSize heads dim : ℕ) :=
  Fin 2 × Fin layers × Fin numBlocks × Fin blockSize → KvVec α heads dim

structure KVCacheState (α : Type*) (layers numBlocks blockSize heads dim : ℕ) where
  pages : Pages α layers numBlocks blockSize heads dim

/-- The place of an index on an axis of length `n`: a negative index counts from the end, and an
update at any other index is dropped. -/
def wrapIndex (n : ℕ) (i : ℤ) : Option (Fin n) :=
  if h : 0 ≤ i ∧ i < n then some ⟨i.toNat, by omega⟩
  else if h : -n ≤ i ∧ i < 0 then some ⟨(i + n).toNat, by omega⟩
  else none

section Model

variable {α β : Type*} {layers numBlocks blockSize heads dim n : ℕ}

namespace KVCacheState

def allocate [Zero α] : KVCacheState α layers numBlocks blockSize heads dim where
  pages := fun _ _ _ => 0

end KVCacheState

/-- The values of a vector, cast to the type of the pages. -/
def castVec (cast : β → α) (vec : KvVec β heads dim) : KvVec α heads dim :=
  fun h d => cast (vec h d)

/-- `pages.at[plane, layer, block, offset].set(vec)`. -/
def setAt (cast : β → α)
    (pages : Pages α layers numBlocks blockSize heads dim)
    (plane : Fin 2) (layer : Fin layers) (block offset : ℤ) (vec : KvVec β heads dim) :
    Pages α layers numBlocks blockSize heads dim :=
  match wrapIndex numBlocks block, wrapIndex blockSize offset with
  | some b, some o => Function.update pages (plane, layer, b, o) (castVec cast vec)
  | _, _ => pages

/-- The axis of the planes has a place 0 and a place 1. -/
local instance instNeZeroTwo : NeZero 2 := ⟨two_ne_zero⟩

/-- `_write`: the key and the value of one slot. -/
def writeSlot (cast : β → α) (layer : Fin layers)
    (pages : Pages α layers numBlocks blockSize heads dim) (slot : ℤ)
    (kVec vVec : KvVec β heads dim) : Pages α layers numBlocks blockSize heads dim :=
  let block := slot / blockSize
  let offset := slot % blockSize
  let pages := setAt cast pages 0 layer block offset kVec
  setAt cast pages 1 layer block offset vVec

/-- The arrays `slot_mapping`, `k` and `v` have one entry for each of `n` tokens. -/
def writeKvSlots (cast : β → α) (cache : KVCacheState α layers numBlocks blockSize heads dim)
    (layer : Fin layers) (slotMapping : Fin n → ℤ) (k v : Fin n → KvVec β heads dim) :
    KVCacheState α layers numBlocks blockSize heads dim where
  pages := (List.finRange n).foldl
    (fun pages i => writeSlot cast layer pages (slotMapping i) (k i) (v i)) cache.pages

/-- The slots are computed and not used: the gather returns arrays of zeros. -/
def gatherKvForPositions [Zero α] (_cache : KVCacheState α layers numBlocks blockSize heads dim)
    (_layer : Fin layers) (pageTable : List ℕ) (positions : Fin n → ℕ) :
    (Fin n → KvVec α heads dim) × (Fin n → KvVec α heads dim) :=
  let _slots := fun i => slot pageTable blockSize (positions i)
  let k : Fin n → KvVec α heads dim := fun _ _ _ => 0
  let v := fun _ _ _ => 0
  (k, v)

/-! ## One write -/

theorem wrapIndex_natCast {i : ℕ} (h : i < n) : wrapIndex n i = some ⟨i, h⟩ := by
  unfold wrapIndex
  rw [dif_pos ⟨by omega, by omega⟩]
  simp

theorem writeSlot_eq (cast : β → α) (layer : Fin layers)
    (pages : Pages α layers numBlocks blockSize heads dim)
    (slot : Fin (numBlocks * blockSize)) (kVec vVec : KvVec β heads dim) :
    writeSlot cast layer pages (slot : ℕ) kVec vVec =
      Function.update (Function.update pages (0, layer, slot.divNat, slot.modNat)
        (castVec cast kVec)) (1, layer, slot.divNat, slot.modNat) (castVec cast vVec) := by
  have hblock : wrapIndex numBlocks (((slot : ℕ) : ℤ) / blockSize) = some slot.divNat :=
    wrapIndex_natCast slot.divNat.isLt
  have hoffset : wrapIndex blockSize (((slot : ℕ) : ℤ) % blockSize) = some slot.modNat :=
    wrapIndex_natCast slot.modNat.isLt
  unfold writeSlot setAt
  simp only [hblock, hoffset]

theorem divNat_modNat_inj {s t : Fin (numBlocks * blockSize)} (hdiv : s.divNat = t.divNat)
    (hmod : s.modNat = t.modNat) : s = t :=
  finProdFinEquiv.symm.injective (Prod.ext hdiv hmod)

section Step

variable {cast : β → α} {layer l : Fin layers}
  {pages : Pages α layers numBlocks blockSize heads dim}
  {slot s : Fin (numBlocks * blockSize)} {kVec vVec : KvVec β heads dim}

theorem writeSlot_self (plane : Fin 2) :
    writeSlot cast layer pages (slot : ℕ) kVec vVec (plane, layer, slot.divNat, slot.modNat) =
      castVec cast (if plane = 0 then kVec else vVec) := by
  rw [writeSlot_eq]
  fin_cases plane
  · rw [Function.update_of_ne (by simp)]
    exact Function.update_self _ _ _
  · exact Function.update_self _ _ _

theorem writeSlot_of_ne (plane : Fin 2) (h : l ≠ layer ∨ s ≠ slot) :
    writeSlot cast layer pages (slot : ℕ) kVec vVec (plane, l, s.divNat, s.modNat) =
      pages (plane, l, s.divNat, s.modNat) := by
  have hne : ∀ q, (plane, l, s.divNat, s.modNat) ≠ (q, layer, slot.divNat, slot.modNat) := by
    intro q heq
    simp only [Prod.mk.injEq] at heq
    exact h.elim (fun hl => hl heq.2.1) fun hs => hs (divNat_modNat_inj heq.2.2.1 heq.2.2.2)
  rw [writeSlot_eq, Function.update_of_ne (hne 1), Function.update_of_ne (hne 0)]

end Step

/-! ## The loop -/

theorem finRange_split (i : Fin n) :
    ∃ before after, List.finRange n = before ++ i :: after ∧ ∀ j ∈ after, i < j := by
  obtain ⟨before, after, hsplit⟩ := List.append_of_mem (List.mem_finRange i)
  have hsorted := List.pairwise_lt_finRange n
  rw [hsplit, List.pairwise_append, List.pairwise_cons] at hsorted
  exact ⟨before, after, hsplit, hsorted.2.1.1⟩

variable (cast : β → α) (cache : KVCacheState α layers numBlocks blockSize heads dim)
  (layer : Fin layers) (slotMapping : Fin n → Fin (numBlocks * blockSize))
  (k v : Fin n → KvVec β heads dim)

theorem writeKvSlots_of_ne {l : Fin layers} {s : Fin (numBlocks * blockSize)} (plane : Fin 2)
    (h : l ≠ layer ∨ ∀ i, slotMapping i ≠ s) :
    (writeKvSlots cast cache layer (fun i => (slotMapping i : ℕ)) k v).pages
        (plane, l, s.divNat, s.modNat) = cache.pages (plane, l, s.divNat, s.modNat) := by
  unfold writeKvSlots
  simp only
  refine LastWrite.read_foldl_of_not_hit
    (fun pages : Pages α layers numBlocks blockSize heads dim =>
      pages (plane, l, s.divNat, s.modNat))
    (fun i => l = layer ∧ slotMapping i = s) (fun pages i hi => ?_) (fun i _ hi => ?_) _
  · exact writeSlot_of_ne plane (by tauto)
  · exact h.elim (fun hl => hl hi.1) fun hs => hs i hi.2

/-- The place of a slot holds the vector of the last write to it. -/
theorem writeKvSlots_of_last {i : Fin n} (plane : Fin 2)
    (h : ∀ j, i < j → slotMapping j ≠ slotMapping i) :
    (writeKvSlots cast cache layer (fun i => (slotMapping i : ℕ)) k v).pages
        (plane, layer, (slotMapping i).divNat, (slotMapping i).modNat) =
      castVec cast (if plane = 0 then k i else v i) := by
  obtain ⟨before, after, hsplit, hafter⟩ := finRange_split i
  unfold writeKvSlots
  simp only
  rw [hsplit]
  refine LastWrite.read_foldl_of_last
    (fun pages : Pages α layers numBlocks blockSize heads dim =>
      pages (plane, layer, (slotMapping i).divNat, (slotMapping i).modNat))
    (fun j => slotMapping j = slotMapping i)
    (fun j => castVec cast (if plane = 0 then k j else v j)) (fun pages j hj => ?_)
    (fun pages j hj => ?_) rfl (fun j hj => h j (hafter j hj)) _
  · rw [← hj]
    exact writeSlot_self plane
  · exact writeSlot_of_ne plane (.inr (Ne.symm hj))

theorem writeSlot_comm {layer l : Fin layers} {slot s : Fin (numBlocks * blockSize)}
    (h : slot ≠ s) (pages : Pages α layers numBlocks blockSize heads dim)
    (kVec vVec kVec' vVec' : KvVec β heads dim) :
    writeSlot cast l (writeSlot cast layer pages (slot : ℕ) kVec vVec) (s : ℕ) kVec' vVec' =
      writeSlot cast layer (writeSlot cast l pages (s : ℕ) kVec' vVec') (slot : ℕ) kVec vVec := by
  have hne : ∀ p q : Fin 2, (p, layer, slot.divNat, slot.modNat) ≠ (q, l, s.divNat, s.modNat) := by
    intro p q heq
    simp only [Prod.mk.injEq] at heq
    exact h (divNat_modNat_inj heq.2.2.1 heq.2.2.2)
  rw [writeSlot_eq, writeSlot_eq, writeSlot_eq, writeSlot_eq]
  -- the two writes of the second slot move past those of the first one by one
  rw [Function.update_comm (hne 1 0), Function.update_comm (hne 0 0),
    Function.update_comm (hne 1 1), Function.update_comm (hne 0 1)]

/-- The slots of the loop belong to positions of a page table. -/
def Through (pageTable : List ℕ) (slotMapping : Fin n → Fin (numBlocks * blockSize)) : Prop :=
  ∃ positions : Fin n → ℕ, ∀ i, positions i < pageTable.length * blockSize ∧
    slot pageTable blockSize (positions i) = some (slotMapping i : ℕ)

theorem slot_eq {pageTable : List ℕ} {p : ℕ} (hp : p < pageTable.length * blockSize) :
    ∃ hlt : p / blockSize < pageTable.length,
      slot pageTable blockSize p =
        some (pageTable[p / blockSize] * blockSize + p % blockSize) := by
  have hlt : p / blockSize < pageTable.length :=
    Nat.div_lt_of_lt_mul (Nat.mul_comm pageTable.length _ ▸ hp)
  refine ⟨hlt, ?_⟩
  unfold slot
  rw [Nat.min_eq_left (by omega), List.getElem?_eq_getElem hlt]
  rfl

theorem slot_div_mod (block p : ℕ) (hpos : 0 < blockSize) :
    (block * blockSize + p % blockSize) / blockSize = block ∧
      (block * blockSize + p % blockSize) % blockSize = p % blockSize := by
  have hlt : p % blockSize < blockSize := Nat.mod_lt _ hpos
  rw [Nat.mul_comm, Nat.mul_add_div hpos, Nat.mul_add_mod, Nat.div_eq_of_lt hlt, Nat.mod_mod]
  exact ⟨Nat.add_zero _, rfl⟩

theorem Through.divNat_mem {pageTable : List ℕ} {slotMapping : Fin n → Fin (numBlocks * blockSize)}
    (h : Through pageTable slotMapping) (i : Fin n) : ((slotMapping i).divNat : ℕ) ∈ pageTable := by
  obtain ⟨positions, h⟩ := h
  obtain ⟨hp, hslot⟩ := h i
  obtain ⟨hlt, heq⟩ := slot_eq hp
  have hpos : 0 < blockSize := Nat.pos_of_mul_pos_left (Nat.zero_lt_of_lt hp)
  rw [heq, Option.some.injEq] at hslot
  have hdiv : ((slotMapping i).divNat : ℕ) = pageTable[positions i / blockSize] := by
    show ((slotMapping i : ℕ)) / blockSize = _
    rw [← hslot]
    exact (slot_div_mod _ _ hpos).1
  rw [hdiv]
  exact List.getElem_mem hlt

/-- **The write is an exact map update.** The place of a slot (its quotient and its remainder by the
block size) holds the key and the value of the last write to the slot, and what it held before when
there is none; the other layers are unchanged; and writes through two tables without a common block
commute. -/
theorem writeKvSlots_exact (cast : β → α)
    (cache : KVCacheState α layers numBlocks blockSize heads dim) (layer : Fin layers)
    (slotMapping : Fin n → Fin (numBlocks * blockSize)) (k v : Fin n → KvVec β heads dim) :
    let cache' := writeKvSlots cast cache layer (fun i => (slotMapping i : ℕ)) k v
    (∀ plane s i, slotMapping i = s → (∀ j, i < j → slotMapping j ≠ s) →
        cache'.pages (plane, layer, s.divNat, s.modNat) =
          castVec cast (if plane = 0 then k i else v i)) ∧
      (∀ plane s, (∀ i, slotMapping i ≠ s) →
        cache'.pages (plane, layer, s.divNat, s.modNat) =
          cache.pages (plane, layer, s.divNat, s.modNat)) ∧
      (∀ plane l block offset, l ≠ layer →
        cache'.pages (plane, l, block, offset) = cache.pages (plane, l, block, offset)) ∧
      ∀ (m : ℕ) (l : Fin layers) (slotMapping' : Fin m → Fin (numBlocks * blockSize))
        (k' v' : Fin m → KvVec β heads dim) (pageTable pageTable' : List ℕ),
        Through pageTable slotMapping → Through pageTable' slotMapping' →
          pageTable.Disjoint pageTable' →
            writeKvSlots cast cache' l (fun i => (slotMapping' i : ℕ)) k' v' =
              writeKvSlots cast (writeKvSlots cast cache l (fun i => (slotMapping' i : ℕ)) k' v')
                layer (fun i => (slotMapping i : ℕ)) k v := by
  intro cache'
  refine ⟨fun plane s i hi h => ?_, fun plane s h => ?_, fun plane l block offset hl => ?_, ?_⟩
  · subst hi
    exact writeKvSlots_of_last cast cache layer slotMapping k v plane h
  · exact writeKvSlots_of_ne cast cache layer slotMapping k v plane (.inr h)
  · obtain ⟨s, hs⟩ := finProdFinEquiv.symm.surjective (block, offset)
    obtain ⟨rfl, rfl⟩ := Prod.mk.inj hs
    exact writeKvSlots_of_ne cast cache layer slotMapping k v plane (.inl hl)
  · intro m l slotMapping' k' v' pageTable pageTable' hthrough hthrough' hdisj
    have hne : ∀ i j, slotMapping i ≠ slotMapping' j := by
      intro i j heq
      have hmem := hthrough.divNat_mem i
      rw [heq] at hmem
      exact hdisj hmem (hthrough'.divNat_mem j)
    exact congrArg KVCacheState.mk (LastWrite.foldl_comm_of_steps
      (fun pages i _ j _ => writeSlot_comm cast (hne i j) pages _ _ _ _) cache.pages)

theorem writeKvSlots_exact_repeated :
    (writeKvSlots id (KVCacheState.allocate : KVCacheState ℤ 1 2 4 1 1) 0
        (fun i : Fin 3 => ((![5, 2, 5] : Fin 3 → Fin (2 * 4)) i : ℕ))
        (fun i _ _ => 10 + i) fun i _ _ => 20 + i).pages (0, 0, 1, 1) = fun _ _ => 12 :=
  (writeKvSlots_exact id (KVCacheState.allocate : KVCacheState ℤ 1 2 4 1 1) 0
    (![5, 2, 5] : Fin 3 → Fin (2 * 4)) (fun i _ _ => 10 + i) fun i _ _ => 20 + i).1 0 5 2 rfl
    (by decide)

/-! ## The gather -/

/-- The pages hold what was written at distinct positions of a page table with distinct blocks, each
vector at the slot of its position. -/
theorem pages_of_slot {pageTable : List ℕ} (hnodup : pageTable.Nodup) {positions : Fin n → ℕ}
    (hinj : Function.Injective positions)
    (hslot : ∀ i, positions i < pageTable.length * blockSize ∧
      slot pageTable blockSize (positions i) = some (slotMapping i : ℕ)) (plane : Fin 2)
    (i : Fin n) :
    (writeKvSlots cast cache layer (fun i => (slotMapping i : ℕ)) k v).pages
        (plane, layer, (slotMapping i).divNat, (slotMapping i).modNat) =
      castVec cast (if plane = 0 then k i else v i) := by
  apply writeKvSlots_of_last
  intro j hij heq
  obtain ⟨hpi, hsi⟩ := hslot i
  obtain ⟨hpj, hsj⟩ := hslot j
  obtain ⟨hlti, hi⟩ := slot_eq hpi
  obtain ⟨hltj, hj⟩ := slot_eq hpj
  have hpos : 0 < blockSize := Nat.pos_of_mul_pos_left (Nat.zero_lt_of_lt hpi)
  rw [heq, ← hsi, hi, hj, Option.some.injEq] at hsj
  -- equal slots have equal blocks and offsets, hence equal positions
  have hblock : pageTable[positions j / blockSize] = pageTable[positions i / blockSize] := by
    have hdiv := congrArg (· / blockSize) hsj
    simpa only [(slot_div_mod _ _ hpos).1] using hdiv
  have hoffset : positions j % blockSize = positions i % blockSize := by
    have hmod := congrArg (· % blockSize) hsj
    simpa only [(slot_div_mod _ _ hpos).2] using hmod
  have hdiv : positions j / blockSize = positions i / blockSize :=
    (hnodup.getElem_inj_iff).mp hblock
  have hpos' : positions j = positions i := by
    rw [← Nat.div_add_mod (positions j) blockSize, hdiv, hoffset, Nat.div_add_mod]
  exact absurd (hinj hpos') (ne_of_gt hij)

/-- One key and one value at position 1 of a table of two blocks: the pages hold them, and the
gather returns zeros. -/
theorem gather_zeros :
    let pageTable := [1, 0]
    let cache := writeKvSlots id (KVCacheState.allocate : KVCacheState ℤ 1 2 4 1 1) 0
      (fun i : Fin 1 => ((![5] : Fin 1 → Fin (2 * 4)) i : ℕ)) (fun _ _ _ => 10) fun _ _ _ => 20
    slot pageTable 4 1 = some 5 ∧ cache.pages (0, 0, 1, 1) = (fun _ _ => 10) ∧
      cache.pages (1, 0, 1, 1) = (fun _ _ => 20) ∧
      gatherKvForPositions cache 0 pageTable ![1] ≠ (fun _ _ _ => 10, fun _ _ _ => 20) := by
  refine ⟨rfl, by decide, by decide, fun heq => ?_⟩
  have hzero := congrArg (fun g => g.1 0 0 0) heq
  exact absurd hzero (by decide)

/-- **Write, then gather.** The gather returns what was written through the table if and only if
all of it is zero: it never reads the pages. -/
theorem gatherKv_iff [Zero α] (pageTable : List ℕ) (positions : Fin n → ℕ) :
    gatherKvForPositions (writeKvSlots cast cache layer (fun i => (slotMapping i : ℕ)) k v) layer
        pageTable positions = (fun i => castVec cast (k i), fun i => castVec cast (v i)) ↔
      ∀ i h d, cast (k i h d) = 0 ∧ cast (v i h d) = 0 := by
  unfold gatherKvForPositions
  simp only [Prod.mk.injEq, funext_iff]
  constructor
  · rintro ⟨hk, hv⟩ i h d
    exact ⟨(hk i h d).symm, (hv i h d).symm⟩
  · intro h
    exact ⟨fun i a d => (h i a d).1.symm, fun i a d => (h i a d).2.symm⟩

end Model

end SsdTpu
