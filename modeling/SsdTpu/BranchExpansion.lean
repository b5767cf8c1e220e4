import SsdTpu.Branches

/-!
# Expanding a batch into branches

`expand_fanout_branches` makes the keys of all branches of a batch, accepted length by accepted
length, candidate by candidate, and row by row. The pairs of accepted length and candidate are the
`branches` of the draft worker, in the same order (`expandLoop_eq`), so that every outcome is
enumerated once, and for one row as in `_rebuild_cache` (`expandFanoutBranches_enumerates`).
-/

namespace SsdTpu

open DraftWorker (branches branchKey eq_branchKey mem_branches)
open ToyModelAdapter (alternating)

variable {B F : ℕ}

/-- `base_keys.at[:, 1].set(acc_idx)` and, where there is a column `f` of candidates,
`key.at[:, 2].set(recovery_candidates[:, f])`. -/
def expandKey (baseKeys : Fin B → Key) (recoveryCandidates : Fin B → Fin F → Token)
    (accIdx f : ℕ) : Fin B → Key :=
  let key := fun b => Function.update (baseKeys b) 1 (accIdx : ℤ)
  if h : f < F then fun b => Function.update (key b) 2 (recoveryCandidates b ⟨f, h⟩) else key

/-- The two loops, over the fan-outs from the accepted length `accIdx` on. -/
def expandLoop (baseKeys : Fin B → Key) (recoveryCandidates : Fin B → Fin F → Token) :
    ℕ → List ℕ → List (Fin B → Key)
  | _, [] => []
  | accIdx, fan :: fans =>
    (List.range fan).map (expandKey baseKeys recoveryCandidates accIdx) ++
      expandLoop baseKeys recoveryCandidates (accIdx + 1) fans

/-- `expand_fanout_branches`: the keys and `mq_len`. -/
def expandFanoutBranches (baseKeys : Fin B → Key) (fanOutList : List ℕ)
    (recoveryCandidates : Fin B → Fin F → Token) : List Key × ℕ :=
  let mqLen := fanOutList.sum
  let branches := expandLoop baseKeys recoveryCandidates 0 fanOutList
  if branches.isEmpty then (List.ofFn baseKeys, B) else (branches.flatMap List.ofFn, mqLen)

section Keys

variable (baseKeys : Fin B → Key) (recoveryCandidates : Fin B → Fin F → Token) {fans : List ℕ}

/-- The keys, branch by branch and row by row. -/
def branchKeys (fans : List ℕ) : List Key :=
  (branches 0 fans).flatMap fun p =>
    List.ofFn (expandKey baseKeys recoveryCandidates p.1 p.2.toNat)

/-- The loops enumerate the branches of the draft worker, in its order. -/
theorem expandLoop_eq (accIdx : ℕ) (fans : List ℕ) :
    expandLoop baseKeys recoveryCandidates accIdx fans =
      (branches accIdx fans).map fun p =>
        expandKey baseKeys recoveryCandidates p.1 p.2.toNat := by
  induction fans generalizing accIdx with
  | nil => rfl
  | cons fan fans ih =>
    unfold expandLoop branches
    rw [ih, List.map_append, List.map_map]
    rfl

theorem expandFanoutBranches_eq (hpos : ∃ fan ∈ fans, 0 < fan) :
    expandFanoutBranches baseKeys fans recoveryCandidates =
      (branchKeys baseKeys recoveryCandidates fans, fans.sum) := by
  obtain ⟨fan, hfan, hlt⟩ := hpos
  have hsum : 0 < (branches 0 fans).length := by
    rw [DraftWorker.length_branches]
    exact lt_of_lt_of_le hlt (List.le_sum_of_mem hfan)
  have hne : (expandLoop baseKeys recoveryCandidates 0 fans).isEmpty = false := by
    rw [expandLoop_eq, List.isEmpty_eq_false_iff]
    exact List.ne_nil_of_length_pos (by rwa [List.length_map])
  unfold expandFanoutBranches branchKeys
  simp only
  rw [hne, expandLoop_eq, List.flatMap_map]
  rfl

theorem length_branchKeys (fans : List ℕ) :
    (branchKeys baseKeys recoveryCandidates fans).length = B * fans.sum := by
  unfold branchKeys
  rw [List.length_flatMap]
  simp [DraftWorker.length_branches, Nat.mul_comm]

theorem expandKey_of_lt (accIdx : ℕ) (f : Fin F) (b : Fin B) :
    expandKey baseKeys recoveryCandidates accIdx f b =
      branchKey (baseKeys b) accIdx (recoveryCandidates b f) := by
  unfold expandKey
  simp only
  rw [dif_pos f.isLt]
  rfl

theorem exists_column (hcols : ∀ fan ∈ fans, fan ≤ F) {p : ℕ × Token}
    (hp : p ∈ branches 0 fans) : ∃ (fan : ℕ) (f : Fin F), fans[p.1]? = some fan ∧ (f : ℕ) < fan ∧
      p = (p.1, ((f : ℕ) : Token)) := by
  obtain ⟨i, fan, f, hi, hf, h1, h2⟩ := mem_branches.mp hp
  rw [Nat.zero_add] at h1
  have hF : f < F := lt_of_lt_of_le hf (hcols fan (List.mem_of_getElem? hi))
  exact ⟨fan, ⟨f, hF⟩, h1 ▸ hi, hf, Prod.ext rfl h2⟩

theorem mem_branchKeys (hcols : ∀ fan ∈ fans, fan ≤ F) {key : Key} :
    key ∈ branchKeys baseKeys recoveryCandidates fans ↔
      ∃ (b : Fin B) (a fan : ℕ) (f : Fin F), fans[a]? = some fan ∧ (f : ℕ) < fan ∧
        key = branchKey (baseKeys b) a (recoveryCandidates b f) := by
  unfold branchKeys
  rw [List.mem_flatMap]
  constructor
  · rintro ⟨p, hp, hmem⟩
    obtain ⟨fan, f, hfan, hf, heq⟩ := exists_column hcols hp
    obtain ⟨b, rfl⟩ := List.mem_ofFn.mp hmem
    rw [heq]
    exact ⟨b, p.1, fan, f, hfan, hf, expandKey_of_lt baseKeys recoveryCandidates p.1 f b⟩
  · rintro ⟨b, a, fan, f, hfan, hf, rfl⟩
    refine ⟨(a, ((f : ℕ) : Token)), ?_, List.mem_ofFn.mpr ⟨b, ?_⟩⟩
    · exact mem_branches.mpr ⟨a, fan, f, hfan, hf, (Nat.zero_add a).symm, rfl⟩
    · exact expandKey_of_lt baseKeys recoveryCandidates a f b

variable {baseKeys recoveryCandidates}

/-- The sequence ids tell the rows apart, the accepted length and the candidate the branches. -/
theorem eq_of_expandKey_eq (hseq : Function.Injective fun b => baseKeys b 0)
    (hcand : ∀ b, Function.Injective (recoveryCandidates b)) {a a' : ℕ} {f f' : Fin F}
    {b b' : Fin B} (h : expandKey baseKeys recoveryCandidates a f b =
      expandKey baseKeys recoveryCandidates a' f' b') : b = b' ∧ a = a' ∧ f = f' := by
  rw [expandKey_of_lt, expandKey_of_lt, eq_branchKey] at h
  obtain ⟨h0, h1, h2⟩ := h
  obtain ⟨h0', h1', h2'⟩ :=
    eq_branchKey.mp (rfl : branchKey (baseKeys b) a (recoveryCandidates b f) = _)
  obtain rfl : b = b' := hseq (h0'.symm.trans h0)
  refine ⟨rfl, ?_, hcand b (h2'.symm.trans h2)⟩
  exact_mod_cast h1'.symm.trans h1

theorem nodup_branchKeys (hseq : Function.Injective fun b => baseKeys b 0)
    (hcols : ∀ fan ∈ fans, fan ≤ F) (hcand : ∀ b, Function.Injective (recoveryCandidates b)) :
    (branchKeys baseKeys recoveryCandidates fans).Nodup := by
  refine List.nodup_flatMap.mpr ⟨fun p hp => ?_, ?_⟩
  · obtain ⟨fan, f, _, _, heq⟩ := exists_column hcols hp
    rw [heq]
    exact List.nodup_ofFn.mpr fun b b' h => (eq_of_expandKey_eq hseq hcand h).1
  · apply (DraftWorker.nodup_branches 0 fans).pairwise_of_forall_ne
    intro p hp p' hp' hne
    obtain ⟨fan, f, _, _, heq⟩ := exists_column hcols hp
    obtain ⟨fan', f', _, _, heq'⟩ := exists_column hcols hp'
    rw [Function.onFun, List.disjoint_left]
    intro key hmem hmem'
    rw [heq] at hmem
    rw [heq'] at hmem'
    obtain ⟨b, rfl⟩ := List.mem_ofFn.mp hmem
    obtain ⟨b', hb'⟩ := List.mem_ofFn.mp hmem'
    obtain ⟨_, ha, hf⟩ := eq_of_expandKey_eq hseq hcand hb'.symm
    exact hne (by rw [heq, heq', ha, hf])

end Keys

/-! ## The keys of `_rebuild_cache` -/

variable {R : Type*} [Zero R] [LinearOrder R] {V : ℕ}

/-- The first columns of the candidates are those that `_rebuild_cache` selects for each fan-out. -/
def SameCandidates (R : Type*) [Zero R] [LinearOrder R] (V : ℕ) (fans : List ℕ)
    (recoveryCandidates : Fin F → Token) : Prop :=
  ∀ fan ∈ fans, ∀ candidates, topFRecoveryTokens (fun _ : Fin V => (0 : R)) fan = some candidates →
    ∀ f : Fin F, (f : ℕ) < fan → candidates[(f : ℕ)]? = some (recoveryCandidates f)

theorem SameCandidates.eq {fans : List ℕ} {recoveryCandidates : Fin F → Token}
    (h : SameCandidates R V fans recoveryCandidates) {fan : ℕ} (hfan : fan ∈ fans) (hV : fan ≤ V)
    {f : Fin F} (hf : (f : ℕ) < fan) : recoveryCandidates f = (f : ℕ) := by
  have htop := h fan hfan _ (topFRecoveryTokens_of_const 0 hV) f hf
  rw [List.getElem?_map, List.getElem?_range hf] at htop
  exact (Option.some.inj htop).symm

theorem sameCandidates_of_eq {fans : List ℕ} {recoveryCandidates : Fin F → Token}
    (hV : ∀ fan ∈ fans, fan ≤ V) (h : ∀ f, recoveryCandidates f = ((f : ℕ) : Token)) :
    SameCandidates R V fans recoveryCandidates := by
  intro fan hfan candidates htop f hf
  rw [topFRecoveryTokens_of_const 0 (hV fan hfan)] at htop
  obtain rfl := Option.some.inj htop
  rw [List.getElem?_map, List.getElem?_range hf, h f]
  rfl

/-- For a batch of one row, the keys are those that `_rebuild_cache` inserts, in its order. -/
theorem rebuildCache_branchKeys {cfg : SSDConfig} {draft : DraftModel R V} {ctx : List Token}
    {baseKeys : Fin 1 → Key} {recoveryCandidates : Fin 1 → Fin F → Token} {N : ℕ}
    {c c' : SpecCache N cfg.speculateK V R}
    (hlen : cfg.fanOutList.length = cfg.speculateK + 1) (hcols : ∀ fan ∈ cfg.fanOutList, fan ≤ F)
    (hsame : SameCandidates R V cfg.fanOutList (recoveryCandidates 0))
    (h : DraftWorker.rebuildCache cfg draft ctx (baseKeys 0) c = some c') :
    ∃ rows : List (CacheRow cfg.speculateK V R),
      rows.map (·.key) = branchKeys baseKeys recoveryCandidates cfg.fanOutList ∧
        c' = c.insertBatch 0 rows := by
  have htake : cfg.fanOutList.take (cfg.speculateK + 1) = cfg.fanOutList :=
    List.take_of_length_le hlen.le
  have hreb : DraftWorker.Rebuilds cfg draft ctx cfg.fanOutList := by
    rw [← htake, ← DraftWorker.rebuildCache_isSome_iff, h]
    rfl
  obtain ⟨⟨c₁, slot⟩, h₁, rfl⟩ := Option.map_eq_some_iff.mp h
  obtain ⟨rows, hrows, rfl, _⟩ := DraftWorker.rebuildLoop_rows h₁
  refine ⟨rows, ?_, rfl⟩
  rw [hrows.keys, htake]
  unfold branchKeys
  simp only [List.ofFn_succ, List.ofFn_zero]
  rw [← List.map_eq_flatMap]
  apply List.map_congr_left
  intro p hp
  obtain ⟨fan, f, hfan, hf, heq⟩ := exists_column hcols hp
  have hmem : fan ∈ cfg.fanOutList := List.mem_of_getElem? hfan
  rw [heq]
  show _ = expandKey baseKeys recoveryCandidates p.1 f 0
  rw [expandKey_of_lt, hsame.eq hmem (hreb fan hmem).1 hf]

theorem branchKey_eq (key : Key) (accIdx : ℕ) (r : Token) :
    branchKey key accIdx r = ![key 0, (accIdx : ℤ), r] := by
  obtain ⟨h0, h1, h2⟩ := eq_branchKey.mp (rfl : branchKey key accIdx r = _)
  funext i
  fin_cases i
  · exact h0
  · exact h1
  · exact h2

/-- **Branch expansion.** Of a batch with distinct sequence ids and distinct candidates, every
triple of a row, an accepted length and one of its candidates is enumerated, once; and for one row,
with the candidates of `_rebuild_cache`, the keys are those that it inserts, in its order. -/
theorem expandFanoutBranches_enumerates (hB : 1 ≤ B) (baseKeys : Fin B → Key) (fans : List ℕ)
    (recoveryCandidates : Fin B → Fin F → Token)
    (hseq : Function.Injective fun b => baseKeys b 0) (hpos : ∃ fan ∈ fans, 0 < fan)
    (hcols : ∀ fan ∈ fans, fan ≤ F) (hcand : ∀ b, Function.Injective (recoveryCandidates b)) :
    let e := expandFanoutBranches baseKeys fans recoveryCandidates
    e.2 = fans.sum ∧ e.1.length = B * fans.sum ∧ e.1.Nodup ∧
      (∀ key, key ∈ e.1 ↔ ∃ (b : Fin B) (a fan : ℕ) (f : Fin F), fans[a]? = some fan ∧
        (f : ℕ) < fan ∧ key = ![baseKeys b 0, (a : ℤ), recoveryCandidates b f]) ∧
      ∀ (V : ℕ) (cfg : SSDConfig) (draft : DraftModel R V) (ctx : List Token) (N : ℕ)
        (c c' : SpecCache N cfg.speculateK V R), B = 1 → cfg.fanOutList = fans →
        fans.length = cfg.speculateK + 1 → SameCandidates R V fans (recoveryCandidates ⟨0, hB⟩) →
        DraftWorker.rebuildCache cfg draft ctx (baseKeys ⟨0, hB⟩) c = some c' →
        ∃ rows : List (CacheRow cfg.speculateK V R), rows.map (·.key) = e.1 ∧
          c' = c.insertBatch 0 rows := by
  intro e
  have he : e = (branchKeys baseKeys recoveryCandidates fans, fans.sum) :=
    expandFanoutBranches_eq baseKeys recoveryCandidates hpos
  rw [he]
  refine ⟨rfl, length_branchKeys baseKeys recoveryCandidates fans,
    nodup_branchKeys hseq hcols hcand, fun key => ?_, ?_⟩
  · rw [mem_branchKeys baseKeys recoveryCandidates hcols]
    simp only [branchKey_eq]
  · rintro V cfg draft ctx N c c' rfl rfl hlen hsame h
    exact rebuildCache_branchKeys hlen hcols hsame h

theorem expandFanoutBranches_enumerates_one :
    let cfg : SSDConfig := { mode := .ssd, speculateK := 1, fanOutList := [2, 1] }
    let e := expandFanoutBranches ![![5, 0, 2]] [2, 1] ![![0, 1]]
    e.1.length = 3 ∧ e.1.Nodup ∧ ∃ (c : SpecCache 3 1 3 ℚ) (rows : List (CacheRow 1 3 ℚ)),
      DraftWorker.rebuildCache cfg alternating.draftSpeculate [] ![5, 0, 2] SpecCache.create =
          some c ∧
        rows.map (·.key) = e.1 ∧ c = SpecCache.create.insertBatch 0 rows := by
  intro cfg e
  obtain ⟨_, hlen, hnodup, _, hworker⟩ := expandFanoutBranches_enumerates (R := ℚ) le_rfl
    ![![5, 0, 2]] [2, 1] ![![0, 1]] (by decide) (by decide) (by decide) (by decide)
  obtain ⟨rows, hkeys, hrows⟩ := hworker 3 cfg alternating.draftSpeculate [] 3 SpecCache.create _
    rfl rfl rfl (sameCandidates_of_eq (by decide) (by decide)) rfl
  exact ⟨hlen, hnodup, _, rows, rfl, hkeys, hrows⟩

end SsdTpu
