import SsdTpu.DraftWorker
import SsdTpu.ToyModel

/-!
# The branches of a rebuilt cache

`mq_len` and `_rebuild_cache` lay out the branches from the same two fields, but not alike: `mq_len`
continues a fan-out list that is too short by its last entry, and the enumeration of
`_rebuild_cache` stops where the list does. So after a request the cache is what `mq_len` promises
exactly when the list has an entry for every accepted length (`covers_iff`).
-/

namespace SsdTpu

namespace SpecCache

variable {N K V : ℕ} {R : Type*} {c : SpecCache N K V R}

theorem valid_iff_rowAt {i : Fin N} : c.valid i = true ↔ (c.rowAt i).isSome := by
  unfold rowAt
  cases c.valid i <;> simp

theorem key_of_rowAt {i : Fin N} {row : CacheRow K V R} (h : c.rowAt i = some row) :
    c.keys i = row.key := by
  unfold rowAt at h
  split_ifs at h
  obtain rfl := Option.some.inj h
  rfl

end SpecCache

namespace DraftWorker

variable {R : Type*} [Zero R] {V : ℕ}

/-- What the cache should hold after a request: `mq_len` valid entries, in the first slots, under
distinct keys, and at least one for every accepted length. -/
structure Covers (cfg : SSDConfig) (w : DraftWorker cfg.speculateK V R) : Prop where
  count : ∃ mqLen, cfg.mqLen = some mqLen ∧ mqLen ≤ w.numBranches ∧
    ∀ i, w.cache.valid i = true ↔ (i : ℕ) < mqLen
  distinct : ∀ i j, w.cache.valid i = true → w.cache.valid j = true →
    w.cache.keys i = w.cache.keys j → i = j
  covered : ∀ a ≤ cfg.speculateK, ∃ i, w.cache.valid i = true ∧ w.cache.keys i 1 = a

/-! ## The keys -/

theorem branchKey_injective (key : Key) :
    Function.Injective fun b : ℕ × Token => branchKey key b.1 b.2 := by
  intro b b' h
  obtain ⟨_, h1, h2⟩ := eq_branchKey.mp h
  obtain ⟨_, h1', h2'⟩ := eq_branchKey.mp (rfl : branchKey key b.1 b.2 = _)
  refine Prod.ext ?_ (h2'.symm.trans h2)
  exact_mod_cast h1'.symm.trans h1

theorem nodup_branches (accIdx : ℕ) (fans : List ℕ) : (branches accIdx fans).Nodup := by
  induction fans generalizing accIdx with
  | nil => exact List.nodup_nil
  | cons fan fans ih =>
    refine List.nodup_append.mpr ⟨?_, ih _, ?_⟩
    · apply List.nodup_range.map
      intro f f' h
      exact_mod_cast (Prod.mk.inj h).2
    · -- the later branches have larger accepted lengths
      intro b hb b' hb' heq
      obtain ⟨f, _, rfl⟩ := List.mem_map.mp hb
      obtain ⟨i, _, _, _, _, h1, _⟩ := mem_branches.mp hb'
      rw [← heq] at h1
      simp only at h1
      omega

variable [LinearOrder R]

section Rows

variable {cfg : SSDConfig} {draft : DraftModel R V} {ctx : List Token} {key : Key}
  {bs : List (ℕ × Token)} {rows : List (CacheRow cfg.speculateK V R)}

omit [Zero R] [LinearOrder R] in
theorem RowsFor.key_injective (h : RowsFor cfg draft ctx key bs rows) (hbs : bs.Nodup) {i j : ℕ}
    {row row' : CacheRow cfg.speculateK V R} (hi : rows[i]? = some row) (hj : rows[j]? = some row')
    (hkey : row.key = row'.key) : i = j := by
  have hnd : (rows.map (·.key)).Nodup := by
    rw [h.keys]
    exact hbs.map (branchKey_injective key)
  have hilt : i < (rows.map (·.key)).length := by
    rw [List.length_map]
    exact (List.getElem?_eq_some_iff.mp hi).1
  apply (List.getElem?_inj hilt hnd).mp
  rw [List.getElem?_map, List.getElem?_map, hi, hj]
  exact congrArg some hkey

end Rows

/-! ## The cache after a request -/

variable {cfg : SSDConfig} {draft : DraftModel R V} {w w' : DraftWorker cfg.speculateK V R} {B : ℕ}
  [NeZero B] {req : DraftRequest B} {resp : DraftResponse B cfg.speculateK V R}

theorem rows_of_handle (hw : Run cfg draft w) (h : handle cfg draft w req = some (resp, w')) :
    ∃ rows, RowsFor cfg draft w.contextTokens (req.cacheKeys 0)
        (branches 0 (cfg.fanOutList.take (cfg.speculateK + 1))) rows ∧
      rows.length = (cfg.fanOutList.take (cfg.speculateK + 1)).sum ∧
      rows.length ≤ w'.numBranches ∧
      ∀ i : Fin w'.numBranches, w'.cache.rowAt i = rows[(i : ℕ)]? := by
  obtain ⟨_, ⟨cache, hcache, rfl⟩, _⟩ := handle_batch h
  obtain ⟨rows, hrows, hlen, rfl⟩ := rebuildCache_rows hcache
  obtain ⟨mqLen, hmq, hN⟩ := hw.numBranches
  have hle := SSDConfig.sum_take_le_mqLen hmq
  have hroom : rows.length ≤ w.numBranches := by omega
  exact ⟨rows, hrows, hlen, hroom, SpecCache.rowAt_reset_insertBatch hroom⟩

/-- The keys that have an entry are those of the branches. -/
theorem exists_slot_iff (hw : Run cfg draft w) (h : handle cfg draft w req = some (resp, w'))
    {k : Key} : (∃ i, w'.cache.valid i = true ∧ w'.cache.keys i = k) ↔
      ∃ b ∈ branches 0 (cfg.fanOutList.take (cfg.speculateK + 1)),
        k = branchKey (req.cacheKeys 0) b.1 b.2 := by
  obtain ⟨rows, hrows, _, hroom, hat⟩ := rows_of_handle hw h
  constructor
  · rintro ⟨i, hi, rfl⟩
    obtain ⟨row, hrow⟩ := Option.isSome_iff_exists.mp (SpecCache.valid_iff_rowAt.mp hi)
    rw [SpecCache.key_of_rowAt hrow]
    obtain ⟨b, hb, hkey, _⟩ :=
      hrows.exists_iff.mp ⟨row, List.mem_of_getElem? ((hat i).symm.trans hrow), rfl, rfl⟩
    exact ⟨b, hb, hkey⟩
  · rintro ⟨b, hb, rfl⟩
    have hmem : branchKey (req.cacheKeys 0) b.1 b.2 ∈ rows.map (·.key) := by
      rw [hrows.keys]
      exact List.mem_map_of_mem (f := fun b : ℕ × Token => branchKey (req.cacheKeys 0) b.1 b.2) hb
    obtain ⟨row, hrow, hkey⟩ := List.mem_map.mp hmem
    obtain ⟨i, hi, rfl⟩ := List.mem_iff_getElem.mp hrow
    have hslot := (hat ⟨i, by omega⟩).trans (List.getElem?_eq_getElem hi)
    exact ⟨⟨i, by omega⟩, SpecCache.valid_iff_rowAt.mpr (by rw [hslot]; rfl),
      (SpecCache.key_of_rowAt hslot).trans hkey⟩

theorem mqLen_of_le (h : cfg.speculateK + 1 ≤ cfg.fanOutList.length) :
    cfg.mqLen = some (cfg.fanOutList.take (cfg.speculateK + 1)).sum := by
  unfold SSDConfig.mqLen
  simp only
  rw [if_neg (by omega)]

/-- **The rebuilt cache covers every verification outcome** exactly when the fan-out list has an
entry for each of them. -/
theorem covers_iff (hpos : ∀ fan ∈ cfg.fanOutList, 0 < fan) (hw : Run cfg draft w)
    (h : handle cfg draft w req = some (resp, w')) :
    Covers cfg w' ↔ cfg.speculateK + 1 ≤ cfg.fanOutList.length := by
  obtain ⟨rows, hrows, hlen, hroom, hat⟩ := rows_of_handle hw h
  have hvalid : ∀ i, w'.cache.valid i = true ↔ (i : ℕ) < rows.length := by
    intro i
    rw [SpecCache.valid_iff_rowAt, hat]
    simp
  constructor
  · intro hc
    by_contra hlt
    -- no branch is made for the accepted length that follows the last entry of the list
    obtain ⟨i, hi, hkey⟩ := hc.covered cfg.fanOutList.length (by omega)
    obtain ⟨b, hb, hbkey⟩ := (exists_slot_iff hw h).mp ⟨i, hi, rfl⟩
    obtain ⟨j, fan, _, hj, _, h1, _⟩ := mem_branches.mp hb
    have hjlt : j < cfg.fanOutList.length := by
      have := (List.getElem?_eq_some_iff.mp hj).1
      rw [List.length_take] at this
      omega
    rw [(eq_branchKey.mp hbkey).2.1, h1] at hkey
    omega
  · intro hle
    refine ⟨⟨_, mqLen_of_le hle, by omega, fun i => by rw [hvalid, hlen]⟩,
      fun i j hi hj hkey => ?_, fun a ha => ?_⟩
    · have hri := List.getElem?_eq_getElem ((hvalid i).mp hi)
      have hrj := List.getElem?_eq_getElem ((hvalid j).mp hj)
      rw [SpecCache.key_of_rowAt ((hat i).trans hri),
        SpecCache.key_of_rowAt ((hat j).trans hrj)] at hkey
      exact Fin.ext (hrows.key_injective (nodup_branches _ _) hri hrj hkey)
    · have halen : a < cfg.fanOutList.length := by omega
      have hfan : (cfg.fanOutList.take (cfg.speculateK + 1))[a]? = some cfg.fanOutList[a] := by
        rw [List.getElem?_take_of_lt (by omega)]
        exact List.getElem?_eq_getElem halen
      have hb : (a, (0 : Token)) ∈ branches 0 (cfg.fanOutList.take (cfg.speculateK + 1)) :=
        mem_branches.mpr ⟨a, _, 0, hfan, hpos _ (List.getElem_mem halen), (Nat.zero_add a).symm,
          rfl⟩
      obtain ⟨i, hi, hkey⟩ := (exists_slot_iff hw h).mpr ⟨_, hb, rfl⟩
      exact ⟨i, hi, (eq_branchKey.mp hkey).2.1⟩

open ToyModelAdapter (alternating)

/-- A list of one fan-out for `k = 1`: `mq_len` counts two branches and one entry is made, none for
the accepted length 1. -/
theorem covers_short_list :
    ∃ (w w' : DraftWorker 1 3 ℚ) (resp : DraftResponse 1 1 3 ℚ),
      Run { mode := .ssd, speculateK := 1, fanOutList := [1] } alternating.draftSpeculate w ∧
      handle { mode := .ssd, speculateK := 1, fanOutList := [1] } alternating.draftSpeculate w
        { cacheKeys := fun _ : Fin 1 => ![0, 0, 1] } = some (resp, w') ∧
      ¬ Covers { mode := .ssd, speculateK := 1, fanOutList := [1] } w' := by
  refine ⟨_, _, _, .start rfl, rfl, fun h => ?_⟩
  obtain ⟨i, hi, hkey⟩ := h.covered 1 le_rfl
  revert i
  decide

theorem covers_iff_full_list :
    ∃ (w w' : DraftWorker 1 3 ℚ) (resp : DraftResponse 1 1 3 ℚ),
      handle { mode := .ssd, speculateK := 1, fanOutList := [2, 1] } alternating.draftSpeculate w
        { cacheKeys := fun _ : Fin 1 => ![0, 0, 1] } = some (resp, w') ∧
      Covers { mode := .ssd, speculateK := 1, fanOutList := [2, 1] } w' := by
  obtain ⟨w, hw, ⟨resp, w'⟩, h⟩ : ∃ w : DraftWorker 1 3 ℚ,
      start { mode := .ssd, speculateK := 1, fanOutList := [2, 1] } = some w ∧
      ∃ a, handle { mode := .ssd, speculateK := 1, fanOutList := [2, 1] }
        alternating.draftSpeculate w { cacheKeys := fun _ : Fin 1 => ![0, 0, 1] } = some a :=
    ⟨_, rfl, _, rfl⟩
  exact ⟨w, w', resp, h, (covers_iff (by simp) (.start hw) h).mpr (by decide)⟩

end DraftWorker

end SsdTpu
