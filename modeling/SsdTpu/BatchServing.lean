import SsdTpu.DraftWorker
import SsdTpu.ToyModel

/-!
# Batched requests

`_handle` decides once for a whole batch whether to draft: as soon as one row hits, the rows that
miss are answered with the masked zeros of the lookup. So the response to a batch is row by row the
response to each key alone when no row hits, or when the drafts that were left out would have been
zeros (`rowServed_iff`).
-/

namespace SsdTpu

namespace DraftWorker

variable {R : Type*} [Zero R] {V : ℕ}

/-- The key is in the cache. -/
def Hits {K : ℕ} (w : DraftWorker K V R) (key : Key) : Prop := (w.cache.lookupRow key).hit = true

variable [LinearOrder R]

/-- What a row of a response should be: the cached tokens when its key hits and the draft for its
recovery token when it misses; so it is what the key would get alone from the same worker. -/
structure RowServed (cfg : SSDConfig) (draft : DraftModel R V) (w : DraftWorker cfg.speculateK V R)
    (key : Key) (hit : Bool) (tokens : Draft cfg.speculateK)
    (logits : Fin cfg.speculateK → Fin V → R) : Prop where
  cached : w.Hits key → hit = true ∧ tokens = (w.cache.lookupRow key).tokens
  drafted : ¬ w.Hits key → hit = false ∧ propose cfg draft w.contextTokens (key 2) = some tokens
  alone : ∃ resp w', handle cfg draft w { cacheKeys := fun _ : Fin 1 => key } = some (resp, w') ∧
    resp.cacheHit 0 = hit ∧ resp.specTokens 0 = tokens ∧ resp.draftLogits 0 = logits

variable {cfg : SSDConfig} {draft : DraftModel R V} {w w' : DraftWorker cfg.speculateK V R}
  {key : Key} {B : ℕ} [NeZero B] {req : DraftRequest B}
  {resp : DraftResponse B cfg.speculateK V R}

theorem rowServed_of_hit (hN : w.numBranches ≠ 0)
    (hreb : Rebuilds cfg draft w.contextTokens (cfg.fanOutList.take (cfg.speculateK + 1)))
    (hhit : w.Hits key) : RowServed cfg draft w key (w.cache.lookupRow key).hit
      (w.cache.lookupRow key).tokens (w.cache.lookupRow key).logits where
  cached _ := ⟨hhit, rfl⟩
  drafted hmiss := absurd hhit hmiss
  alone := by
    obtain ⟨resp, w', h, hh, ht, hl⟩ := handle_of_hit hN hreb hhit
    exact ⟨resp, w', h, hh.trans hhit.symm, ht, hl⟩

theorem rowServed_of_miss (hN : w.numBranches ≠ 0)
    (hreb : Rebuilds cfg draft w.contextTokens (cfg.fanOutList.take (cfg.speculateK + 1)))
    (hmiss : ¬ w.Hits key) {tokens : Draft cfg.speculateK}
    (hprop : propose cfg draft w.contextTokens (key 2) = some tokens) :
    RowServed cfg draft w key false tokens fun _ _ => 0 where
  cached hhit := absurd hhit hmiss
  drafted _ := ⟨rfl, hprop⟩
  alone := handle_of_miss hN hreb hmiss hprop

/-- **Every row gets its own answer** exactly when no row of the batch hits, or every row that
misses has the zeros it is given for its draft. -/
theorem rowServed_iff (h : handle cfg draft w req = some (resp, w')) :
    (∀ b, RowServed cfg draft w (req.cacheKeys b) (resp.cacheHit b) (resp.specTokens b)
        (resp.draftLogits b)) ↔
      (∀ b, ¬ w.Hits (req.cacheKeys b)) ∨ ∀ b, ¬ w.Hits (req.cacheKeys b) →
        propose cfg draft w.contextTokens (req.cacheKeys b 2) = some fun _ => 0 := by
  obtain ⟨hN, ⟨cache, hcache, _⟩, hrows⟩ := handle_batch h
  have hreb : Rebuilds cfg draft w.contextTokens
      (cfg.fanOutList.take (cfg.speculateK + 1)) := by
    rw [← rebuildCache_isSome_iff, hcache]
    rfl
  rcases hrows with ⟨⟨b₀, hb₀⟩, rfl⟩ | ⟨hmiss, hprop, hhit, hlogits⟩
  · constructor
    · refine fun hall => .inr fun b hb => ?_
      rw [((hall b).drafted hb).2]
      exact congrArg some (congrArg LookupRow.tokens (SpecCache.lookupRow_of_miss hb))
    · rintro (hnone | hzero) b
      · exact absurd hb₀ (hnone b₀)
      · by_cases hb : w.Hits (req.cacheKeys b)
        · exact rowServed_of_hit hN hreb hb
        · show RowServed cfg draft w (req.cacheKeys b) (w.cache.lookupRow (req.cacheKeys b)).hit
            (w.cache.lookupRow (req.cacheKeys b)).tokens
            (w.cache.lookupRow (req.cacheKeys b)).logits
          rw [SpecCache.lookupRow_of_miss hb]
          exact rowServed_of_miss hN hreb hb (hzero b hb)
  · refine iff_of_true (fun b => ?_) (.inl hmiss)
    rw [hhit, hlogits]
    exact rowServed_of_miss hN hreb (hmiss b) (hprop b)

open ToyModelAdapter (alternating)

/-- After a request of sequence 0, a batch of a key that hits and one that misses: the second row is
a zero, where the draft for its recovery token 2 is 1. -/
theorem rowServed_mixed :
    ∃ (w w' : DraftWorker 1 3 ℚ) (resp : DraftResponse 2 1 3 ℚ),
      Run { mode := .ssd, speculateK := 1 } alternating.draftSpeculate w ∧
      handle { mode := .ssd, speculateK := 1 } alternating.draftSpeculate w
        { cacheKeys := ![![0, 0, 1], ![0, 0, 2]] } = some (resp, w') ∧
      ¬ RowServed { mode := .ssd, speculateK := 1 } alternating.draftSpeculate w ![0, 0, 2]
        (resp.cacheHit 1) (resp.specTokens 1) (resp.draftLogits 1) := by
  obtain ⟨w₀, hw₀, ⟨resp₀, w⟩, h₀, ⟨resp, w'⟩, h, hctx, hmiss, hzero⟩ : ∃ w₀ : DraftWorker 1 3 ℚ,
      start { mode := .ssd, speculateK := 1 } = some w₀ ∧
      ∃ a, handle { mode := .ssd, speculateK := 1 } alternating.draftSpeculate w₀
          { cacheKeys := fun _ : Fin 1 => ![0, 0, 1] } = some a ∧
        ∃ b, handle { mode := .ssd, speculateK := 1 } alternating.draftSpeculate a.2
            { cacheKeys := ![![0, 0, 1], ![0, 0, 2]] } = some b ∧
          a.2.contextTokens = [] ∧ (a.2.cache.lookupRow ![0, 0, 2]).hit = false ∧
          b.1.specTokens 1 0 = 0 :=
    ⟨_, rfl, _, rfl, _, rfl, rfl, rfl, rfl⟩
  have hprop : (propose { mode := .ssd, speculateK := 1 } alternating.draftSpeculate [] 2).map
      (fun d => d 0) = some 1 := by decide +kernel
  refine ⟨w, w', resp, .handle (.start hw₀) h₀, h, fun hrow => ?_⟩
  have hnot : ¬ w.Hits ![0, 0, 2] := fun hhit => Bool.noConfusion (hhit.symm.trans hmiss)
  have hdraft := (hrow.drafted hnot).2
  rw [show w.contextTokens = [] from hctx] at hdraft
  rw [show propose { mode := .ssd, speculateK := 1 } alternating.draftSpeculate [] 2 =
    some (resp.specTokens 1) from hdraft, Option.map_some, hzero] at hprop
  cases hprop

theorem rowServed_iff_all_hit :
    ∃ (w w' : DraftWorker 1 3 ℚ) (resp : DraftResponse 2 1 3 ℚ),
      handle { mode := .ssd, speculateK := 1 } alternating.draftSpeculate w
        { cacheKeys := ![![0, 0, 1], ![0, 1, 0]] } = some (resp, w') ∧
      (∀ b, w.Hits ((![![0, 0, 1], ![0, 1, 0]] : Fin 2 → Key) b)) ∧
      ∀ b, RowServed { mode := .ssd, speculateK := 1 } alternating.draftSpeculate w
        ((![![0, 0, 1], ![0, 1, 0]] : Fin 2 → Key) b) (resp.cacheHit b) (resp.specTokens b)
        (resp.draftLogits b) := by
  obtain ⟨w₀, ⟨resp₀, w⟩, _, ⟨resp, w'⟩, h, h0, h1⟩ : ∃ w₀ : DraftWorker 1 3 ℚ,
      ∃ a, handle { mode := .ssd, speculateK := 1 } alternating.draftSpeculate w₀
          { cacheKeys := fun _ : Fin 1 => ![0, 0, 1] } = some a ∧
        ∃ b, handle { mode := .ssd, speculateK := 1 } alternating.draftSpeculate a.2
            { cacheKeys := ![![0, 0, 1], ![0, 1, 0]] } = some b ∧
          a.2.Hits ![0, 0, 1] ∧ a.2.Hits ![0, 1, 0] :=
    ⟨⟨16, .create, [], []⟩, _, rfl, _, rfl, rfl, rfl⟩
  have hhit : ∀ b, w.Hits ((![![0, 0, 1], ![0, 1, 0]] : Fin 2 → Key) b) :=
    Fin.forall_fin_two.mpr ⟨h0, h1⟩
  exact ⟨w, w', resp, h, hhit,
    (rowServed_iff h).mpr (.inr fun b hmiss => absurd (hhit b) hmiss)⟩

end DraftWorker

end SsdTpu
