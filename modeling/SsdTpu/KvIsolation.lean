import SsdTpu.KvCache
import SsdTpu.PagedMemory
import SsdTpu.Starvation

/-!
# Private caches in the paged one

The block tables of a scheduler and the writes of `write_kv_slots` through them are a paged memory.
Each request has the target and the draft part of a KV cache for itself, although admissions,
rollbacks and other requests move blocks around at any time:

1. No block is in two tables (`Reachable.distinct`), and a call of the scheduler changes each table
   at its end only (`Step.tables`).
2. A write is a store into one private memory (`backed_writeSlots`).
3. In every run, what a request has written at a position is at the slot of that position for as
   long as its table covers it (`pagedRun_backed`).
-/

namespace SsdTpu

/-- The two tables of a sequence. -/
inductive TableKind where
  | target
  | draft
  deriving DecidableEq, Repr

def Sequence.table (seq : Sequence) : TableKind → List ℕ
  | .target => seq.blockTable
  | .draft => seq.draftBlockTable

namespace Scheduler

open PagedMemory

variable {cfg : SSDConfig} {s s₁ s' : Scheduler} {r : ℕ}

/-- The tables of the waiting and the running sequences. -/
def tables (s : Scheduler) (i : ℕ × TableKind) : List ℕ :=
  if i.1 ∈ s.waiting ++ s.running then (s.seqs i.1).table i.2 else []

theorem mem_blocks_of_getElem? {seq : Sequence} {kind : TableKind} {m b : ℕ}
    (h : (seq.table kind)[m]? = some b) : b ∈ seq.blocks := by
  have hb := List.mem_of_getElem? h
  unfold Sequence.blocks
  cases kind with
  | target => exact List.mem_append_left _ hb
  | draft => exact List.mem_append_right _ hb

theorem table_inj {seq : Sequence} (h : seq.blocks.Nodup) {kind kind' : TableKind} {m n b : ℕ}
    (hm : (seq.table kind)[m]? = some b) (hn : (seq.table kind')[n]? = some b) :
    kind = kind' ∧ m = n := by
  obtain ⟨htarget, hdraft, hdisj⟩ := List.nodup_append.mp h
  have hmem := List.mem_of_getElem? hm
  have hmem' := List.mem_of_getElem? hn
  have hinj {l : List ℕ} (hl : l.Nodup) (hm : l[m]? = some b) (hn : l[n]? = some b) : m = n :=
    (List.getElem?_inj (List.getElem?_eq_some_iff.mp hm).1 hl).mp (hm.trans hn.symm)
  cases kind <;> cases kind'
  · exact ⟨rfl, hinj htarget hm hn⟩
  · exact absurd rfl (hdisj b hmem b hmem')
  · exact absurd rfl (hdisj b hmem' b hmem)
  · exact ⟨rfl, hinj hdraft hm hn⟩

theorem tables_getElem?_eq_some {i : ℕ × TableKind} {m b : ℕ} (h : (s.tables i)[m]? = some b) :
    i.1 ∈ s.waiting ++ s.running ∧ ((s.seqs i.1).table i.2)[m]? = some b := by
  unfold tables at h
  split_ifs at h with hi
  · exact ⟨hi, h⟩
  · simp at h

/-- **No block is in two tables.** -/
theorem Holds.distinct (h : Holds cfg s (s.waiting ++ s.running)) : Distinct s.tables := by
  obtain ⟨hnodup, hdisj⟩ := List.nodup_flatMap.mp h.owns.nodup.of_append_right
  intro i j m n b hm hn
  obtain ⟨hi, hm⟩ := tables_getElem?_eq_some hm
  obtain ⟨hj, hn⟩ := tables_getElem?_eq_some hn
  have hsymm : Std.Symm (Function.onFun List.Disjoint fun r => (s.seqs r).blocks) :=
    ⟨fun _ _ hd => List.Disjoint.symm hd⟩
  have hrefs : i.1 = j.1 := by
    by_contra hne
    exact hdisj.forall hi hj hne (mem_blocks_of_getElem? hm) (mem_blocks_of_getElem? hn)
  rw [← hrefs] at hn
  obtain ⟨hkind, hmn⟩ := table_inj (hnodup i.1 hi) hm hn
  exact ⟨Prod.ext hrefs hkind, hmn⟩

/-! ## What a call does to the tables -/

/-- Every table keeps what it had. -/
def Longer (s s' : Scheduler) : Prop :=
  ∀ q kind, (s.seqs q).table kind <+: (s'.seqs q).table kind

/-- Every table is a part of what it was. -/
def Shorter (s s' : Scheduler) : Prop :=
  ∀ q kind, (s'.seqs q).table kind <+: (s.seqs q).table kind

theorem Grows.longer {target draft : List ℕ} (h : Grows s s₁ r target draft) : Longer s s₁ := by
  intro q kind
  by_cases hq : q = r
  · subst hq
    cases kind with
    | target => exact ⟨target, h.blockTable.symm⟩
    | draft => exact ⟨draft, h.draftBlockTable.symm⟩
  · rw [h.others q hq]

theorem longer_scheduleLoop {w scheduled scheduled' : List ℕ}
    (h : scheduleLoop cfg w s scheduled = .ok (s', scheduled')) : Longer s s' := by
  obtain ⟨w', s₁, h₁, rfl⟩ :=
    scheduleLoop_invariant (P := fun _ s₁ _ => Longer s s₁)
      (fun r w s₁ s₂ scheduled h₁ hres q kind => by
        obtain ⟨target, draft, hgrows, -⟩ := reserveBlocks_grows hres
        exact (h₁ q kind).trans (hgrows.longer q kind))
      (fun r w s₁ s₂ scheduled h₁ _ hres q kind => by
        obtain ⟨target, draft, hgrows, -⟩ := reserveBlocks_grows hres
        exact (h₁ q kind).trans (hgrows.startRunning.longer q kind))
      (fun _ _ => List.prefix_rfl) h
  exact h₁

theorem shorter_setSeq {seq : Sequence} {pm : PageManager}
    (h : ∀ kind, seq.table kind <+: (s.seqs r).table kind) :
    Shorter s { s.setSeq r seq with pageManager := pm } := by
  intro q kind
  show ((s.setSeq r seq).seqs q).table kind <+: _
  by_cases hq : q = r
  · subst hq
    rw [setSeq_self]
    exact h kind
  · rw [setSeq_of_ne s _ hq]

theorem Shorter.trans {s'' : Scheduler} (h : Shorter s s') (h' : Shorter s' s'') : Shorter s s'' :=
  fun q kind => (h' q kind).trans (h q kind)

theorem shorter_finish (s : Scheduler) (r : ℕ) : Shorter s (s.finish r) := by
  intro q kind
  by_cases hq : q = r
  · subst hq
    have hfree : (s.finish q).seqs q = _ := setSeq_self _ _ _
    rw [hfree]
    cases kind <;> exact List.nil_prefix
  · rw [(leaves_finish s r).others q hq]

theorem shorter_postprocess (s : Scheduler) (r : ℕ) (newTokens : List Token) (eosId : Option Token)
    (maxTokens : ℤ) : Shorter s (s.postprocess r newTokens eosId maxTokens) := by
  have happ : Shorter s (s.setSeq r ((s.seqs r).appendTokens newTokens)) :=
    shorter_setSeq fun kind => by cases kind <;> exact List.prefix_rfl
  unfold postprocess
  simp only
  split_ifs
  · exact happ.trans (shorter_finish _ r)
  · exact happ

theorem rollbackLoop_prefix (used total : ℤ) (n : ℕ) (pm : PageManager) (table : List ℕ) :
    (PageManager.rollbackLoop used total n pm table).2 <+: table := by
  induction n generalizing pm table with
  | zero => exact List.prefix_rfl
  | succ n ih =>
    unfold PageManager.rollbackLoop
    split_ifs
    · cases table.getLast? with
      | none => exact List.prefix_rfl
      | some block => exact (ih _ _).trans (List.dropLast_prefix _)
    · exact List.prefix_rfl

theorem shorter_postprocessSpeculative (s : Scheduler) (r : ℕ) (acceptedTokens : List Token)
    (recovery : Token) (reserved : ℤ) (eosId : Option Token) (maxTokens : ℤ) :
    Shorter s (s.postprocessSpeculative r acceptedTokens recovery reserved eosId maxTokens) := by
  unfold postprocessSpeculative
  simp only
  set seq : Sequence := { (s.seqs r).appendTokens acceptedTokens with recoveryToken := recovery }
  set b := s.pageManager.rollbackSpeculative seq acceptedTokens.length reserved
  have hroll : Shorter s { s.setSeq r b.2 with pageManager := b.1 } := by
    apply shorter_setSeq
    intro kind
    cases kind with
    | target => exact rollbackLoop_prefix _ _ _ _ _
    | draft => exact List.prefix_rfl
  split_ifs
  · exact hroll.trans (shorter_finish _ r)
  · exact hroll

theorem tables_cmp {i : ℕ × TableKind}
    (h : i.1 ∈ s.waiting ++ s.running → (s.seqs i.1).table i.2 <+: (s'.seqs i.1).table i.2 ∨
      (s'.seqs i.1).table i.2 <+: (s.seqs i.1).table i.2) :
    s.tables i <+: s'.tables i ∨ s'.tables i <+: s.tables i := by
  unfold tables
  split_ifs with hi hi'
  · exact h hi
  · exact .inr List.nil_prefix
  · exact .inl List.nil_prefix
  · exact .inl List.nil_prefix

/-- **A call changes each table at its end only.** -/
theorem Step.tables (hh : Holds cfg s (s.waiting ++ s.running)) (hs : Step cfg s s')
    (i : ℕ × TableKind) : s.tables i <+: s'.tables i ∨ s'.tables i <+: s.tables i := by
  apply tables_cmp
  intro hi
  cases hs with
  | addRequest prompt =>
    have hlt : i.1 < s.nextId := hh.lt i.1 (List.mem_append_left _ hi)
    have hold : (s.addRequest prompt).1.seqs i.1 = s.seqs i.1 := setSeq_of_ne s _ hlt.ne
    rw [hold]
    exact .inl List.prefix_rfl
  | schedule hs => exact .inl (longer_scheduleLoop hs i.1 i.2)
  | postprocess hr tokens eos max => exact .inr (shorter_postprocess s _ tokens eos max i.1 i.2)
  | postprocessSpeculative hr tokens recovery reserved eos max =>
    exact .inr (shorter_postprocessSpeculative s _ tokens recovery reserved eos max i.1 i.2)

end Scheduler

/-! ## What a write does to the pages -/

section Cache

open PagedMemory

variable {α β : Type*} {layers numBlocks blockSize heads dim n : ℕ} {cast : β → α}

attribute [local instance] instNeZeroTwo

/-- The key and the value at a block and an offset. -/
def KVCacheState.at (cache : KVCacheState α layers numBlocks blockSize heads dim)
    (layer : Fin layers) (x : ℕ × ℕ) : Option (KvVec α heads dim × KvVec α heads dim) :=
  if h : x.1 < numBlocks ∧ x.2 < blockSize then
    some (cache.pages (0, layer, ⟨x.1, h.1⟩, ⟨x.2, h.2⟩),
      cache.pages (1, layer, ⟨x.1, h.1⟩, ⟨x.2, h.2⟩))
  else none

/-- `slot_mapping` and the vectors, for the private memories: the last write to a position wins. -/
def storeAll {ι γ : Type*} [DecidableEq ι] (virt : ι → ℕ → Option γ) (i : ι)
    (writes : List (ℕ × γ)) : ι → ℕ → Option γ :=
  writes.foldl (fun virt w => store virt i w.1 w.2) virt

theorem place_of_slot {pageTable : List ℕ} {p : ℕ} {sl : Fin (numBlocks * blockSize)}
    (hp : p < pageTable.length * blockSize)
    (hslot : slot pageTable blockSize p = some (sl : ℕ)) :
    place blockSize pageTable p = some ((sl.divNat : ℕ), (sl.modNat : ℕ)) := by
  obtain ⟨hlt, heq⟩ := slot_eq hp
  have hpos : 0 < blockSize := Nat.pos_of_mul_pos_left (Nat.zero_lt_of_lt hp)
  rw [heq, Option.some.injEq] at hslot
  obtain ⟨hdiv, hmod⟩ := slot_div_mod pageTable[p / blockSize] p hpos
  rw [hslot] at hdiv hmod
  have hdiv : (sl.divNat : ℕ) = pageTable[p / blockSize] := hdiv
  have hmod : (sl.modNat : ℕ) = p % blockSize := hmod
  unfold place
  rw [List.getElem?_eq_getElem hlt, hdiv, hmod]
  rfl

section Write

variable {layer l : Fin layers} {pages : Pages α layers numBlocks blockSize heads dim}
  {sl : Fin (numBlocks * blockSize)} {kVec vVec : KvVec β heads dim}

theorem at_writeSlot_self :
    (KVCacheState.mk (writeSlot cast layer pages (sl : ℕ) kVec vVec)).at layer
      ((sl.divNat : ℕ), (sl.modNat : ℕ)) = some (castVec cast kVec, castVec cast vVec) := by
  unfold KVCacheState.at
  rw [dif_pos ⟨sl.divNat.isLt, sl.modNat.isLt⟩]
  congr 2
  · exact writeSlot_self 0
  · exact writeSlot_self 1

theorem at_writeSlot_of_ne {x : ℕ × ℕ}
    (h : l ≠ layer ∨ x ≠ ((sl.divNat : ℕ), (sl.modNat : ℕ))) :
    (KVCacheState.mk (writeSlot cast layer pages (sl : ℕ) kVec vVec)).at l x =
      (KVCacheState.mk pages).at l x := by
  unfold KVCacheState.at
  split_ifs with hx
  · -- the place is the one of a slot
    obtain ⟨s, hs⟩ := finProdFinEquiv.symm.surjective (⟨x.1, hx.1⟩, ⟨x.2, hx.2⟩)
    obtain ⟨hdiv, hmod⟩ := Prod.mk.inj hs
    have hne : l ≠ layer ∨ s ≠ sl := by
      refine h.imp_right fun hne => ?_
      rintro rfl
      exact hne (Prod.ext (congrArg Fin.val hdiv).symm (congrArg Fin.val hmod).symm)
    rw [← hdiv, ← hmod]
    congr 2
    · exact writeSlot_of_ne 0 hne
    · exact writeSlot_of_ne 1 hne
  · rfl

end Write

variable {ι : Type*} [DecidableEq ι] {tables : ι → List ℕ} {layer : Fin layers}
  {virt : ι → ℕ → Option (KvVec α heads dim × KvVec α heads dim)}

/-- **The loop of writes, in the private memory.** By induction on the writes that are left. -/
theorem backed_writeSlots {i : ι} {positions : Fin n → ℕ}
    {slotMapping : Fin n → Fin (numBlocks * blockSize)} (k v : Fin n → KvVec β heads dim)
    (hd : Distinct tables)
    (hslot : ∀ j, positions j < (tables i).length * blockSize ∧
      slot (tables i) blockSize (positions j) = some (slotMapping j : ℕ))
    (js : List (Fin n)) (pages : Pages α layers numBlocks blockSize heads dim)
    (h : Backed blockSize tables ((KVCacheState.mk pages).at layer) virt) :
    Backed blockSize tables
      ((KVCacheState.mk (js.foldl (fun pages j =>
        writeSlot cast layer pages (slotMapping j : ℕ) (k j) (v j)) pages)).at layer)
      (storeAll virt i
        (js.map fun j => (positions j, castVec cast (k j), castVec cast (v j)))) := by
  induction js generalizing pages virt with
  | nil => exact h
  | cons j js ih =>
    apply ih
    exact h.store hd (place_of_slot (hslot j).1 (hslot j).2) at_writeSlot_self
      fun y hy => at_writeSlot_of_ne (.inr hy)

theorem at_writeSlots_of_ne {l : Fin layers} (hl : l ≠ layer)
    (slotMapping : Fin n → Fin (numBlocks * blockSize)) (k v : Fin n → KvVec β heads dim)
    (js : List (Fin n)) (pages : Pages α layers numBlocks blockSize heads dim) :
    (KVCacheState.mk (js.foldl (fun pages j =>
        writeSlot cast layer pages (slotMapping j : ℕ) (k j) (v j)) pages)).at l =
      (KVCacheState.mk pages).at l := by
  induction js generalizing pages with
  | nil => rfl
  | cons j js ih =>
    rw [List.foldl_cons, ih]
    funext x
    exact at_writeSlot_of_ne (.inl hl)

end Cache

/-! ## Runs -/

namespace Scheduler

open PagedMemory

variable {α β : Type*} {layers heads dim : ℕ} {cfg : SSDConfig} {cast : β → α} {s : Scheduler}
  {cache : KVCacheState α layers cfg.numBlocks cfg.blockSize heads dim}
  {mem : Fin layers → ℕ × TableKind → ℕ → Option (KvVec α heads dim × KvVec α heads dim)}

/-- The runs of a scheduler and a cache: the calls of the scheduler, and writes of the running
sequences at covered positions of their tables. `mem` is what each sequence has written, as far as
its tables have covered it since. -/
inductive PagedRun (cfg : SSDConfig) (cast : β → α) :
    Scheduler → KVCacheState α layers cfg.numBlocks cfg.blockSize heads dim →
      (Fin layers → ℕ × TableKind → ℕ → Option (KvVec α heads dim × KvVec α heads dim)) → Prop
  | init (cache : KVCacheState α layers cfg.numBlocks cfg.blockSize heads dim) :
    PagedRun cfg cast (init cfg) cache fun _ _ _ => none
  | call {s s' : Scheduler} {cache : KVCacheState α layers cfg.numBlocks cfg.blockSize heads dim}
    {mem : Fin layers → ℕ × TableKind → ℕ → Option (KvVec α heads dim × KvVec α heads dim)}
    (h : PagedRun cfg cast s cache mem) (hs : Step cfg s s') :
    PagedRun cfg cast s' cache fun layer => forget cfg.blockSize s'.tables (mem layer)
  | write {s : Scheduler} {cache : KVCacheState α layers cfg.numBlocks cfg.blockSize heads dim}
    {mem : Fin layers → ℕ × TableKind → ℕ → Option (KvVec α heads dim × KvVec α heads dim)}
    (h : PagedRun cfg cast s cache mem) {r : ℕ} (hr : r ∈ s.running) (kind : TableKind)
    (layer : Fin layers) {n : ℕ} (positions : Fin n → ℕ)
    (slotMapping : Fin n → Fin (cfg.numBlocks * cfg.blockSize))
    (hslot : ∀ j, positions j < ((s.seqs r).table kind).length * cfg.blockSize ∧
      slot ((s.seqs r).table kind) cfg.blockSize (positions j) = some (slotMapping j : ℕ))
    (k v : Fin n → KvVec β heads dim) :
    PagedRun cfg cast s (writeKvSlots cast cache layer (fun j => (slotMapping j : ℕ)) k v)
      (Function.update mem layer (storeAll (mem layer) (r, kind)
        ((List.finRange n).map fun j => (positions j, castVec cast (k j), castVec cast (v j)))))

theorem PagedRun.reachable (h : PagedRun cfg cast s cache mem) : Reachable cfg s := by
  induction h with
  | init cache => exact .refl
  | call _ hs ih => exact ih.tail hs
  | write _ _ _ _ _ _ _ _ _ ih => exact ih

/-- The run lemma: the pages hold the private memories, layer by layer. -/
theorem PagedRun.backed (h : PagedRun cfg cast s cache mem) (layer : Fin layers) :
    Backed cfg.blockSize s.tables (cache.at layer) (mem layer) := by
  induction h with
  | init cache =>
    intro i p v hv
    cases hv
  | call h hs ih => exact ih.forget (Step.tables h.reachable.holds hs)
  | @write s cache mem h r hr kind layer' n positions slotMapping hslot k v ih =>
    have htable : s.tables (r, kind) = (s.seqs r).table kind :=
      if_pos (List.mem_append_right _ hr)
    by_cases hl : layer = layer'
    · subst hl
      rw [Function.update_self]
      exact backed_writeSlots k v (Holds.distinct h.reachable.holds) (by rwa [htable]) _ _ ih
    · rw [Function.update_of_ne hl]
      have hkeep : (writeKvSlots cast cache layer' (fun j => (slotMapping j : ℕ)) k v).at layer =
          cache.at layer := at_writeSlots_of_ne hl slotMapping k v _ _
      rw [hkeep]
      exact ih

/-- **Private caches in the paged one.** In every run, whatever calls and writes of others come in
between: what a sequence has last written at a position, in a layer of the target or the draft part,
is in the pages at the slot of the position, for as long as its table covers it. -/
theorem pagedRun_backed (h : PagedRun cfg cast s cache mem) {layer : Fin layers} {r p : ℕ}
    {kind : TableKind} {key value : KvVec α heads dim}
    (hv : mem layer (r, kind) p = some (key, value)) :
    r ∈ s.waiting ++ s.running ∧ ∃ sl : Fin (cfg.numBlocks * cfg.blockSize),
      slot ((s.seqs r).table kind) cfg.blockSize p = some (sl : ℕ) ∧
        cache.pages (0, layer, sl.divNat, sl.modNat) = key ∧
        cache.pages (1, layer, sl.divNat, sl.modNat) = value := by
  obtain ⟨x, hx, hat⟩ := h.backed layer (r, kind) p (key, value) hv
  obtain ⟨b, hb, rfl⟩ := Option.map_eq_some_iff.mp hx
  obtain ⟨hactive, hb⟩ := tables_getElem?_eq_some hb
  unfold KVCacheState.at at hat
  split_ifs at hat with hin
  obtain ⟨hkey, hvalue⟩ := Prod.mk.inj (Option.some.inj hat)
  obtain ⟨sl, hsl⟩ := finProdFinEquiv.symm.surjective (⟨b, hin.1⟩, ⟨p % cfg.blockSize, hin.2⟩)
  obtain ⟨hdiv, hmod⟩ := Prod.mk.inj hsl
  obtain ⟨hlt, hget⟩ := List.getElem?_eq_some_iff.mp hb
  have hpos : 0 < cfg.blockSize := Nat.zero_lt_of_lt hin.2
  have hp : p < ((s.seqs r).table kind).length * cfg.blockSize :=
    (Nat.div_lt_iff_lt_mul hpos).mp hlt
  have hval : (sl : ℕ) = b * cfg.blockSize + p % cfg.blockSize := by
    have hb : (sl : ℕ) / cfg.blockSize = b := congrArg Fin.val hdiv
    have ho : (sl : ℕ) % cfg.blockSize = p % cfg.blockSize := congrArg Fin.val hmod
    rw [← Nat.div_add_mod (sl : ℕ) cfg.blockSize, hb, ho, Nat.mul_comm]
  obtain ⟨_, hslot⟩ := slot_eq hp
  refine ⟨hactive, sl, ?_, ?_, ?_⟩
  · rw [hslot, hval, hget]
  · rw [← hkey, ← hdiv, ← hmod]
  · rw [← hvalue, ← hdiv, ← hmod]

/-- The first request writes; a second one is admitted, writes and finishes, and a third one gets
its block and writes to it. The first still finds its own. -/
theorem pagedRun_backed_reused :
    ∃ (s : Scheduler) (cache : KVCacheState ℤ 1 4 4 1 1)
      (mem : Fin 1 → ℕ × TableKind → ℕ → Option (KvVec ℤ 1 1 × KvVec ℤ 1 1)),
      PagedRun { blockSize := 4, numBlocks := 4 } id s cache mem ∧ s.running = [0, 2] ∧
      s.finished = [1] ∧ mem 0 (2, .target) 0 = some (fun _ _ => 50, fun _ _ => 60) ∧
      ∃ sl : Fin (4 * 4), slot ((s.seqs 0).table .target) 4 0 = some (sl : ℕ) ∧
        cache.pages (0, 0, sl.divNat, sl.modNat) = (fun _ _ => 10) ∧
        cache.pages (1, 0, sl.divNat, sl.modNat) = fun _ _ => 20 := by
  have hinit : PagedRun { blockSize := 4, numBlocks := 4 } (id : ℤ → ℤ)
      (init { blockSize := 4, numBlocks := 4 })
      (KVCacheState.allocate : KVCacheState ℤ 1 4 4 1 1) fun _ _ _ => none := .init _
  have hfirst := ((hinit.call (.addRequest _ [1])).call (.schedule rfl)).write (r := 0) (by decide)
    .target 0 ![0] ![12] (by decide) (fun _ _ _ => 10) fun _ _ _ => 20
  have hsecond := ((hfirst.call (.addRequest _ [2])).call (.schedule rfl)).write (r := 1)
    (by decide) .target 0 ![0] ![8] (by decide) (fun _ _ _ => 30) fun _ _ _ => 40
  have hfinished := hsecond.call (.postprocess (r := 1) (by decide) [7] none 1)
  have hthird := ((hfinished.call (.addRequest _ [3])).call (.schedule rfl)).write (r := 2)
    (by decide) .target 0 ![0] ![8] (by decide) (fun _ _ _ => 50) fun _ _ _ => 60
  exact ⟨_, _, _, hthird, rfl, rfl, rfl, And.right (pagedRun_backed hthird rfl)⟩

end Scheduler

end SsdTpu
