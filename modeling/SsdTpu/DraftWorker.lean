import SsdTpu.SpecCache
import SsdTpu.Priors

/-!
# The draft worker

`DraftWorker` answers a request from its speculation cache, or by a draft of its own, and then
rebuilds the cache for the branches of the next request. The draft model is a function of the prefix
and `k`. An exception in the worker's thread, after which no response comes, is `none`.

The drafts of a cache come from one sequence id and one context (`CacheFor`). `handle_spec` sums up
a request: its response is the draft the worker would make for it now, and the cache afterwards is
the one for this request.
-/

namespace SsdTpu

/-- `draft_speculate`, as a function of the prefix and `k`: the tokens and their logits. -/
abbrev DraftModel (R : Type*) (V : ℕ) := List Token → ℕ → Option (List Token × List (Fin V → R))

/-- The fields that are read. -/
structure DraftRequest (B : ℕ) where
  cacheKeys : Fin B → Key

structure DraftResponse (B K V : ℕ) (R : Type*) where
  cacheHit : Fin B → Bool
  specTokens : Fin B → Draft K
  draftLogits : Fin B → Fin K → Fin V → R

/-- The record of one request that was answered: its first row. -/
structure Served (K : ℕ) where
  key : Key
  context : List Token
  hit : Bool
  spec : Draft K

structure DraftWorker (K V : ℕ) (R : Type*) where
  numBranches : ℕ
  cache : SpecCache numBranches K V R
  contextTokens : List Token
  /-- Not in the source and read by no function: the requests answered so far. -/
  served : List (Served K)

/-- `jnp.array(spec)` where an array of `k` tokens is needed, as a draft of `k` tokens gives it. (A
draft of one token alone would be repeated to fill a row of the cache.) -/
def toDraft (k : ℕ) (spec : List Token) : Option (Draft k) :=
  if h : spec.length = k then some fun i => spec.get (i.cast h.symm) else none

theorem ofFn_of_toDraft {k : ℕ} {spec : List Token} {d : Draft k} (h : toDraft k spec = some d) :
    List.ofFn d = spec := by
  unfold toDraft at h
  split_ifs at h with hk
  obtain rfl := Option.some.inj h
  subst hk
  exact List.ofFn_get spec

theorem toDraft_isSome {k : ℕ} {spec : List Token} (h : spec.length = k) :
    (toDraft k spec).isSome := by
  unfold toDraft
  rw [dif_pos h]
  rfl

/-- A loop over the rows of a batch, each of which may raise. -/
def sequenceRows {B : ℕ} {α : Type*} (f : Fin B → Option α) : Option (Fin B → α) :=
  if h : ∀ b, (f b).isSome then some fun b => (f b).get (h b) else none

theorem sequenceRows_eq_some {B : ℕ} {α : Type*} {f : Fin B → Option α} {g : Fin B → α} :
    sequenceRows f = some g ↔ ∀ b, f b = some (g b) := by
  unfold sequenceRows
  constructor
  · intro h b
    split_ifs at h with hall
    obtain rfl := Option.some.inj h
    exact (Option.some_get (hall b)).symm
  · intro h
    have hall : ∀ b, (f b).isSome := fun b => by rw [h b]; rfl
    rw [dif_pos hall]
    congr 1
    funext b
    exact Option.some.inj ((Option.some_get (hall b)).trans (h b))

namespace DraftWorker

variable {R : Type*} [Zero R] {V : ℕ}

/-- `start`: four slots for each branch. -/
def start (cfg : SSDConfig) : Option (DraftWorker cfg.speculateK V R) :=
  cfg.mqLen.map fun mqLen =>
    { numBranches := mqLen * 4, cache := .create, contextTokens := [], served := [] }

def setContext {K : ℕ} (w : DraftWorker K V R) (tokens : List Token) : DraftWorker K V R :=
  { w with contextTokens := tokens }

/-- The draft for one recovery token, made alike on a miss and in `_rebuild_cache`: the best span of
the context in INSTANCE mode, else the draft model on that token alone. -/
def propose (cfg : SSDConfig) (draft : DraftModel R V) (contextTokens : List Token)
    (recovery : Token) : Option (Draft cfg.speculateK) :=
  let k := cfg.speculateK
  let spec :=
    if cfg.mode = .instanceSsd ∧ contextTokens ≠ [] then
      let sal := scoreTokenSalience contextTokens
      spansToSpeculationTokens (findHighSalienceSpans cfg.windowMean contextTokens sal k) k
    else (draft [recovery] k).map Prod.fst
  spec.bind (toDraft k)

section Propose

variable {cfg : SSDConfig} {draft : DraftModel R V} {contextTokens : List Token}

omit [Zero R] in
theorem propose_of_draft (h : ¬ (cfg.mode = .instanceSsd ∧ contextTokens ≠ []))
    (recovery : Token) : propose cfg draft contextTokens recovery =
      ((draft [recovery] cfg.speculateK).map Prod.fst).bind (toDraft cfg.speculateK) := by
  unfold propose
  simp only
  rw [if_neg h]

omit [Zero R] in
theorem propose_of_span (h : cfg.mode = .instanceSsd ∧ contextTokens ≠ []) (recovery : Token) :
    propose cfg draft contextTokens recovery =
      (promptDraft cfg.windowMean contextTokens cfg.speculateK).bind (toDraft cfg.speculateK) := by
  unfold propose promptDraft
  simp only
  rw [if_pos h]

end Propose

/-- `req.cache_keys[0].at[1].set(acc_idx).at[2].set(candidate)`. -/
def branchKey (key : Key) (accIdx : ℕ) (recovery : Token) : Key :=
  Function.update (Function.update key 1 (accIdx : ℤ)) 2 recovery

section Rebuild

variable (cfg : SSDConfig) (draft : DraftModel R V) (contextTokens : List Token) (key : Key) {N : ℕ}

/-- The inner loop of `_rebuild_cache`, over the candidates of one accepted length. The state is the
cache and the next slot. -/
def rebuildBranch (accIdx : ℕ) :
    List Token → SpecCache N cfg.speculateK V R × ℕ → Option (SpecCache N cfg.speculateK V R × ℕ)
  | [], s => some s
  | r :: rs, (c, slot) =>
    match propose cfg draft contextTokens r with
    | none => none
    | some spec =>
      rebuildBranch accIdx rs (c.insert slot (branchKey key accIdx r) spec (fun _ _ => 0), slot + 1)

variable [LinearOrder R]

/-- The outer loop, over the fan-outs of the accepted lengths from `accIdx`. -/
def rebuildLoop : ℕ → List ℕ → SpecCache N cfg.speculateK V R × ℕ →
    Option (SpecCache N cfg.speculateK V R × ℕ)
  | _, [], s => some s
  | accIdx, fan :: fans, s =>
    match topFRecoveryTokens (fun _ : Fin V => (0 : R)) fan with
    | none => none
    | some candidates =>
      (rebuildBranch cfg draft contextTokens key accIdx candidates s).bind
        (rebuildLoop (accIdx + 1) fans)

def rebuildCache (c : SpecCache N cfg.speculateK V R) : Option (SpecCache N cfg.speculateK V R) :=
  (rebuildLoop cfg draft contextTokens key 0 (cfg.fanOutList.take (cfg.speculateK + 1))
    (c, 0)).map Prod.fst

end Rebuild

variable [LinearOrder R]

/-- `_handle`. The draft of the worker's own is used when no row hits. -/
def handle (cfg : SSDConfig) (draft : DraftModel R V) {B : ℕ} [NeZero B]
    (w : DraftWorker cfg.speculateK V R) (req : DraftRequest B) :
    Option (DraftResponse B cfg.speculateK V R × DraftWorker cfg.speculateK V R) :=
  match w.cache.lookup req.cacheKeys with
  | none => none
  | some rows =>
    let resp :=
      if ∃ b, (rows b).hit = true then
        some { cacheHit := fun b => (rows b).hit
               specTokens := fun b => (rows b).tokens
               draftLogits := fun b => (rows b).logits }
      else
        (sequenceRows fun b => propose cfg draft w.contextTokens (req.cacheKeys b 2)).map
          fun tokens =>
            { cacheHit := fun _ => false, specTokens := tokens, draftLogits := fun _ _ _ => 0 }
    resp.bind fun resp =>
      (rebuildCache cfg draft w.contextTokens (req.cacheKeys 0) w.cache.reset).map fun cache =>
        (resp,
          { w with
            cache := cache
            served := w.served ++ [{ key := req.cacheKeys 0, context := w.contextTokens
                                     hit := resp.cacheHit 0, spec := resp.specTokens 0 }] })

/-! ## What the cache holds -/

/-- The accepted lengths and recovery tokens that `_rebuild_cache` makes entries for. -/
def IsBranch (cfg : SSDConfig) (accepted recovery : ℤ) : Prop :=
  ∃ (i : ℕ) (fan f : ℕ), (cfg.fanOutList.take (cfg.speculateK + 1))[i]? = some fan ∧ f < fan ∧
    accepted = i ∧ recovery = f

/-- The entries of the cache are those made for the sequence id and the context of `src`; there are
none before the first request. -/
def CacheFor (cfg : SSDConfig) (draft : DraftModel R V) {N : ℕ}
    (c : SpecCache N cfg.speculateK V R) (src : Option (ℤ × List Token)) : Prop :=
  ∀ key tokens, c.Entry key tokens ↔ ∃ seqId ctx, src = some (seqId, ctx) ∧ key 0 = seqId ∧
    IsBranch cfg (key 1) (key 2) ∧ propose cfg draft ctx (key 2) = some tokens

theorem eq_branchKey {key key' : Key} {accIdx : ℕ} {r : Token} :
    key' = branchKey key accIdx r ↔ key' 0 = key 0 ∧ key' 1 = accIdx ∧ key' 2 = r := by
  unfold branchKey
  constructor
  · rintro rfl
    simp
  · rintro ⟨h0, h1, h2⟩
    funext i
    fin_cases i
    · simpa using h0
    · simpa using h1
    · simpa using h2

/-- The branches of the fan-outs from the accepted length `accIdx` on, in the order in which
`_rebuild_cache` fills the slots. -/
def branches : ℕ → List ℕ → List (ℕ × Token)
  | _, [] => []
  | accIdx, fan :: fans =>
    (List.range fan).map (fun f : ℕ => (accIdx, (f : Token))) ++ branches (accIdx + 1) fans

theorem length_branches (accIdx : ℕ) (fans : List ℕ) :
    (branches accIdx fans).length = fans.sum := by
  induction fans generalizing accIdx with
  | nil => rfl
  | cons fan fans ih =>
    rw [branches, List.length_append, List.length_map, List.length_range, ih, List.sum_cons]

theorem mem_branches {accIdx : ℕ} {fans : List ℕ} {b : ℕ × Token} :
    b ∈ branches accIdx fans ↔ ∃ (i fan f : ℕ), fans[i]? = some fan ∧ f < fan ∧
      b.1 = accIdx + i ∧ b.2 = f := by
  induction fans generalizing accIdx with
  | nil => simp [branches]
  | cons fan fans ih =>
    rw [branches, List.mem_append, ih]
    constructor
    · rintro (hb | ⟨i, fan', f, hi, hf, h1, h2⟩)
      · obtain ⟨f, hf, rfl⟩ := List.mem_map.mp hb
        exact ⟨0, fan, f, rfl, List.mem_range.mp hf, rfl, rfl⟩
      · exact ⟨i + 1, fan', f, hi, hf, by omega, h2⟩
    · rintro ⟨i, fan', f, hi, hf, h1, h2⟩
      cases i with
      | zero =>
        obtain rfl := Option.some.inj hi
        exact .inl (List.mem_map.mpr ⟨f, List.mem_range.mpr hf, Prod.ext h1.symm h2.symm⟩)
      | succ i => exact .inr ⟨i, fan', f, hi, hf, by omega, h2⟩

theorem isBranch_iff {cfg : SSDConfig} {accepted recovery : ℤ} :
    IsBranch cfg accepted recovery ↔
      ∃ b ∈ branches 0 (cfg.fanOutList.take (cfg.speculateK + 1)), accepted = b.1 ∧
        recovery = b.2 := by
  unfold IsBranch
  constructor
  · rintro ⟨i, fan, f, hi, hf, h1, h2⟩
    exact ⟨(i, f), mem_branches.mpr ⟨i, fan, f, hi, hf, (Nat.zero_add i).symm, rfl⟩, h1, h2⟩
  · rintro ⟨b, hb, h1, h2⟩
    obtain ⟨i, fan, f, hi, hf, hb1, hb2⟩ := mem_branches.mp hb
    exact ⟨i, fan, f, hi, hf, by rw [h1, hb1, Nat.zero_add], by rw [h2, hb2]⟩

section RebuildSpec

variable {cfg : SSDConfig} {draft : DraftModel R V} {ctx : List Token} {key : Key} {N : ℕ}
  {c c' : SpecCache N cfg.speculateK V R} {slot slot' : ℕ}

/-- The rows made for some branches: each under the key of its branch, with the draft for its
recovery token. -/
structure RowsFor (cfg : SSDConfig) (draft : DraftModel R V) (ctx : List Token) (key : Key)
    (bs : List (ℕ × Token)) (rows : List (CacheRow cfg.speculateK V R)) : Prop where
  keys : rows.map (·.key) = bs.map fun b => branchKey key b.1 b.2
  tokens : ∀ row ∈ rows, propose cfg draft ctx (row.key 2) = some row.tokens

omit [Zero R] [LinearOrder R] in
theorem RowsFor.length_eq {bs : List (ℕ × Token)}
    {rows : List (CacheRow cfg.speculateK V R)} (h : RowsFor cfg draft ctx key bs rows) :
    rows.length = bs.length := by
  simpa using congrArg List.length h.keys

omit [Zero R] [LinearOrder R] in
theorem RowsFor.append {bs bs' : List (ℕ × Token)}
    {rows rows' : List (CacheRow cfg.speculateK V R)}
    (h : RowsFor cfg draft ctx key bs rows) (h' : RowsFor cfg draft ctx key bs' rows') :
    RowsFor cfg draft ctx key (bs ++ bs') (rows ++ rows') where
  keys := by rw [List.map_append, List.map_append, h.keys, h'.keys]
  tokens row hrow := (List.mem_append.mp hrow).elim (h.tokens row) (h'.tokens row)

omit [Zero R] [LinearOrder R] in
theorem RowsFor.exists_iff {bs : List (ℕ × Token)}
    {rows : List (CacheRow cfg.speculateK V R)} (h : RowsFor cfg draft ctx key bs rows)
    {k : Key} {t : Draft cfg.speculateK} : (∃ row ∈ rows, row.key = k ∧ row.tokens = t) ↔
      ∃ b ∈ bs, k = branchKey key b.1 b.2 ∧ propose cfg draft ctx b.2 = some t := by
  constructor
  · rintro ⟨row, hrow, rfl, rfl⟩
    have hmem : row.key ∈ rows.map (·.key) := List.mem_map_of_mem hrow
    rw [h.keys] at hmem
    obtain ⟨b, hb, hkey⟩ := List.mem_map.mp hmem
    have hrec : row.key 2 = b.2 := (eq_branchKey.mp hkey.symm).2.2
    refine ⟨b, hb, hkey.symm, ?_⟩
    rw [← hrec]
    exact h.tokens row hrow
  · rintro ⟨b, hb, rfl, ht⟩
    have hmem : branchKey key b.1 b.2 ∈ bs.map fun b => branchKey key b.1 b.2 :=
      List.mem_map_of_mem (f := fun b : ℕ × Token => branchKey key b.1 b.2) hb
    rw [← h.keys] at hmem
    obtain ⟨row, hrow, hkey⟩ := List.mem_map.mp hmem
    refine ⟨row, hrow, hkey, ?_⟩
    have htok := h.tokens row hrow
    rw [(eq_branchKey.mp hkey).2.2, ht] at htok
    exact (Option.some.inj htok).symm

omit [LinearOrder R] in
theorem rebuildBranch_rows {accIdx : ℕ} {rs : List Token}
    (h : rebuildBranch cfg draft ctx key accIdx rs (c, slot) = some (c', slot')) :
    ∃ rows, RowsFor cfg draft ctx key (rs.map (accIdx, ·)) rows ∧ c' = c.insertBatch slot rows ∧
      slot' = slot + rows.length := by
  induction rs generalizing c slot with
  | nil =>
    obtain ⟨rfl, rfl⟩ := Prod.mk.inj (Option.some.inj h)
    exact ⟨[], ⟨rfl, by simp⟩, rfl, rfl⟩
  | cons r rs ih =>
    unfold rebuildBranch at h
    cases hp : propose cfg draft ctx r with
    | none => rw [hp] at h; cases h
    | some spec =>
      rw [hp] at h
      obtain ⟨rows, hrows, rfl, rfl⟩ := ih h
      refine ⟨⟨branchKey key accIdx r, spec, fun _ _ => 0⟩ :: rows, ⟨?_, ?_⟩, rfl, ?_⟩
      · rw [List.map_cons, List.map_cons, List.map_cons, hrows.keys]
      · rw [List.forall_mem_cons]
        refine ⟨?_, hrows.tokens⟩
        show propose cfg draft ctx (branchKey key accIdx r 2) = some spec
        rwa [show branchKey key accIdx r 2 = r from (eq_branchKey.mp rfl).2.2]
      · rw [List.length_cons]
        omega

theorem rebuildLoop_rows {accIdx : ℕ} {fans : List ℕ}
    (h : rebuildLoop cfg draft ctx key accIdx fans (c, slot) = some (c', slot')) :
    ∃ rows, RowsFor cfg draft ctx key (branches accIdx fans) rows ∧ c' = c.insertBatch slot rows ∧
      slot' = slot + rows.length := by
  induction fans generalizing accIdx c slot with
  | nil =>
    obtain ⟨rfl, rfl⟩ := Prod.mk.inj (Option.some.inj h)
    exact ⟨[], ⟨rfl, by simp⟩, rfl, rfl⟩
  | cons fan fans ih =>
    unfold rebuildLoop at h
    by_cases hfan : fan ≤ V
    · rw [topFRecoveryTokens_of_const 0 hfan] at h
      obtain ⟨⟨c₁, slot₁⟩, h₁, h₂⟩ := Option.bind_eq_some_iff.mp h
      obtain ⟨rows₁, hrows₁, rfl, rfl⟩ := rebuildBranch_rows h₁
      obtain ⟨rows₂, hrows₂, rfl, rfl⟩ := ih h₂
      refine ⟨rows₁ ++ rows₂, ?_, (SpecCache.insertBatch_append _ _ _ _).symm, ?_⟩
      · rw [List.map_map] at hrows₁
        exact hrows₁.append hrows₂
      · rw [List.length_append]
        omega
    · unfold topFRecoveryTokens at h
      rw [if_pos (not_le.mp hfan)] at h
      cases h

/-- A rebuilt cache is one batch of inserts into an empty cache, a row for each branch. -/
theorem rebuildCache_rows (h : rebuildCache cfg draft ctx key c.reset = some c') :
    ∃ rows, RowsFor cfg draft ctx key
        (branches 0 (cfg.fanOutList.take (cfg.speculateK + 1))) rows ∧
      rows.length = (cfg.fanOutList.take (cfg.speculateK + 1)).sum ∧
      c' = c.reset.insertBatch 0 rows := by
  obtain ⟨⟨c₁, slot₁⟩, h₁, rfl⟩ := Option.map_eq_some_iff.mp h
  obtain ⟨rows, hrows, rfl, _⟩ := rebuildLoop_rows h₁
  exact ⟨rows, hrows, by rw [hrows.length_eq, length_branches], rfl⟩

theorem cacheFor_rebuildCache (hN : (cfg.fanOutList.take (cfg.speculateK + 1)).sum ≤ N)
    (h : rebuildCache cfg draft ctx key c.reset = some c') :
    CacheFor cfg draft c' (some (key 0, ctx)) := by
  obtain ⟨rows, hrows, hlen, rfl⟩ := rebuildCache_rows h
  intro k t
  rw [SpecCache.entry_reset_insertBatch (hlen.trans_le hN), hrows.exists_iff]
  constructor
  · rintro ⟨b, hb, hk, ht⟩
    obtain ⟨h0, h1, h2⟩ := eq_branchKey.mp hk
    exact ⟨_, _, rfl, h0, isBranch_iff.mpr ⟨b, hb, h1, h2⟩, by rw [h2]; exact ht⟩
  · rintro ⟨seqId, ctx', hsrc, h0, hbr, ht⟩
    obtain ⟨rfl, rfl⟩ := Prod.mk.inj (Option.some.inj hsrc)
    obtain ⟨b, hb, h1, h2⟩ := isBranch_iff.mp hbr
    exact ⟨b, hb, eq_branchKey.mpr ⟨h0, h1, h2⟩, by rw [← h2]; exact ht⟩

end RebuildSpec

/-! ## One request -/

/-- The worker has enough slots for every branch. -/
def Fits (cfg : SSDConfig) (w : DraftWorker cfg.speculateK V R) : Prop :=
  (cfg.fanOutList.take (cfg.speculateK + 1)).sum ≤ w.numBranches

/-- The state of the worker between requests: its cache was made for `src`. -/
structure Ready (cfg : SSDConfig) (draft : DraftModel R V) (w : DraftWorker cfg.speculateK V R)
    (src : Option (ℤ × List Token)) : Prop where
  fits : Fits cfg w
  cache : CacheFor cfg draft w.cache src

omit [LinearOrder R] in
theorem start_ready {cfg : SSDConfig} {draft : DraftModel R V}
    {w : DraftWorker cfg.speculateK V R} (h : start cfg = some w) : Ready cfg draft w none := by
  obtain ⟨mqLen, hmq, rfl⟩ := Option.map_eq_some_iff.mp h
  have hle := SSDConfig.sum_take_le_mqLen hmq
  refine ⟨?_, fun key tokens => iff_of_false (SpecCache.not_entry_create tokens) (by simp)⟩
  show _ ≤ mqLen * 4
  omega

/-- What a request that is answered can do: the response is the rows of the cache when some row hits
and drafts of the worker's own when none does, and the cache is rebuilt either way. -/
theorem handle_batch {cfg : SSDConfig} {draft : DraftModel R V} {B : ℕ} [NeZero B]
    {w w' : DraftWorker cfg.speculateK V R} {req : DraftRequest B}
    {resp : DraftResponse B cfg.speculateK V R} (h : handle cfg draft w req = some (resp, w')) :
    w.numBranches ≠ 0 ∧
      (∃ cache,
        rebuildCache cfg draft w.contextTokens (req.cacheKeys 0) w.cache.reset = some cache ∧
        w' = { w with
          cache := cache
          served := w.served ++ [{ key := req.cacheKeys 0, context := w.contextTokens
                                   hit := resp.cacheHit 0, spec := resp.specTokens 0 }] }) ∧
      ((∃ b, (w.cache.lookupRow (req.cacheKeys b)).hit = true) ∧
          resp = { cacheHit := fun b => (w.cache.lookupRow (req.cacheKeys b)).hit
                   specTokens := fun b => (w.cache.lookupRow (req.cacheKeys b)).tokens
                   draftLogits := fun b => (w.cache.lookupRow (req.cacheKeys b)).logits } ∨
        (∀ b, (w.cache.lookupRow (req.cacheKeys b)).hit ≠ true) ∧
          (∀ b, propose cfg draft w.contextTokens (req.cacheKeys b 2) =
            some (resp.specTokens b)) ∧
          resp.cacheHit = (fun _ => false) ∧ resp.draftLogits = fun _ _ _ => 0) := by
  unfold handle at h
  cases hl : w.cache.lookup req.cacheKeys with
  | none => rw [hl] at h; cases h
  | some rows =>
    rw [hl] at h
    obtain ⟨resp', hresp, h⟩ := Option.bind_eq_some_iff.mp h
    obtain ⟨cache, hcache, h⟩ := Option.map_eq_some_iff.mp h
    obtain ⟨rfl, rfl⟩ := Prod.mk.inj h
    unfold SpecCache.lookup at hl
    split_ifs at hl with hN
    obtain rfl := Option.some.inj hl
    refine ⟨hN, ⟨cache, hcache, rfl⟩, ?_⟩
    by_cases hhit : ∃ b, (w.cache.lookupRow (req.cacheKeys b)).hit = true
    · rw [if_pos hhit] at hresp
      exact .inl ⟨hhit, (Option.some.inj hresp).symm⟩
    · rw [if_neg hhit] at hresp
      obtain ⟨tokens, htok, rfl⟩ := Option.map_eq_some_iff.mp hresp
      exact .inr ⟨fun b hb => hhit ⟨b, hb⟩, sequenceRows_eq_some.mp htok, rfl, rfl⟩

theorem handle_cases {cfg : SSDConfig} {draft : DraftModel R V}
    {w w' : DraftWorker cfg.speculateK V R} {req : DraftRequest 1}
    {resp : DraftResponse 1 cfg.speculateK V R} (h : handle cfg draft w req = some (resp, w')) :
    w.numBranches ≠ 0 ∧
      (∃ cache,
        rebuildCache cfg draft w.contextTokens (req.cacheKeys 0) w.cache.reset = some cache ∧
        w' = { w with
          cache := cache
          served := w.served ++ [{ key := req.cacheKeys 0, context := w.contextTokens
                                   hit := resp.cacheHit 0, spec := resp.specTokens 0 }] }) ∧
      ((w.cache.lookupRow (req.cacheKeys 0)).hit = true ∧ resp.cacheHit 0 = true ∧
          resp.specTokens 0 = (w.cache.lookupRow (req.cacheKeys 0)).tokens ∨
        (w.cache.lookupRow (req.cacheKeys 0)).hit ≠ true ∧ resp.cacheHit 0 = false ∧
          propose cfg draft w.contextTokens (req.cacheKeys 0 2) = some (resp.specTokens 0)) := by
  obtain ⟨hN, hcache, ⟨⟨b, hb⟩, hresp⟩ | ⟨hmiss, hprop, hhit, _⟩⟩ := handle_batch h
  · rw [Subsingleton.elim b 0] at hb
    refine ⟨hN, hcache, .inl ⟨hb, ?_, ?_⟩⟩
    · rw [hresp]
      exact hb
    · rw [hresp]
  · exact ⟨hN, hcache, .inr ⟨hmiss 0, congrFun hhit 0, hprop 0⟩⟩

/-- **One request of one row.** Provided that a cache made for the same sequence was made with the
same context, the response is the draft for the recovery token whether the key hits or not; the key
hits exactly when the cache was made for its sequence and it is a branch; and afterwards the cache
is the one for this request. -/
theorem handle_spec {cfg : SSDConfig} {draft : DraftModel R V}
    {w w' : DraftWorker cfg.speculateK V R} {req : DraftRequest 1} {src : Option (ℤ × List Token)}
    {resp : DraftResponse 1 cfg.speculateK V R} (hw : Ready cfg draft w src)
    (hctx : ∀ ctx, src = some (req.cacheKeys 0 0, ctx) → ctx = w.contextTokens)
    (h : handle cfg draft w req = some (resp, w')) :
    propose cfg draft w.contextTokens (req.cacheKeys 0 2) = some (resp.specTokens 0) ∧
      (resp.cacheHit 0 = true ↔ src = some (req.cacheKeys 0 0, w.contextTokens) ∧
        IsBranch cfg (req.cacheKeys 0 1) (req.cacheKeys 0 2)) ∧
      Ready cfg draft w' (some (req.cacheKeys 0 0, w.contextTokens)) ∧
      w'.contextTokens = w.contextTokens ∧
      w'.served = w.served ++ [{ key := req.cacheKeys 0, context := w.contextTokens
                                 hit := resp.cacheHit 0, spec := resp.specTokens 0 }] := by
  obtain ⟨_, ⟨cache, hcache, rfl⟩, ⟨hrow, hhit, hspec⟩ | ⟨hrow, hhit, hspec⟩⟩ := handle_cases h
  · obtain ⟨seqId, ctx, hsrc, h0, hb, ht⟩ := (hw.cache _ _).mp (SpecCache.entry_of_hit hrow)
    subst h0
    obtain rfl := hctx ctx hsrc
    rw [← hspec] at ht
    exact ⟨ht, iff_of_true hhit ⟨hsrc, hb⟩, ⟨hw.fits, cacheFor_rebuildCache hw.fits hcache⟩, rfl,
      rfl⟩
  · have hmiss : ¬ (src = some (req.cacheKeys 0 0, w.contextTokens) ∧
        IsBranch cfg (req.cacheKeys 0 1) (req.cacheKeys 0 2)) := by
      rintro ⟨hsrc, hb⟩
      -- the draft exists, since the miss path has just made it, and so does the entry
      apply hrow
      apply SpecCache.hit_iff.mpr
      exact ⟨resp.specTokens 0, (hw.cache _ _).mpr ⟨_, _, hsrc, rfl, hb, hspec⟩⟩
    exact ⟨hspec, iff_of_false (by simp [hhit]) hmiss,
      ⟨hw.fits, cacheFor_rebuildCache hw.fits hcache⟩, rfl, rfl⟩

/-! ## Requests that are answered -/

section Answered

variable {cfg : SSDConfig} {draft : DraftModel R V} {ctx : List Token} {key : Key} {N : ℕ}

/-- The fan-outs fit the vocabulary and every candidate gets a draft. -/
def Rebuilds (cfg : SSDConfig) (draft : DraftModel R V) (ctx : List Token) (fans : List ℕ) : Prop :=
  ∀ fan ∈ fans, fan ≤ V ∧ ∀ f < fan, (propose cfg draft ctx f).isSome

omit [LinearOrder R] in
theorem rebuildBranch_isSome_iff {accIdx : ℕ} {rs : List Token}
    {s : SpecCache N cfg.speculateK V R × ℕ} :
    (rebuildBranch cfg draft ctx key accIdx rs s).isSome ↔
      ∀ r ∈ rs, (propose cfg draft ctx r).isSome := by
  induction rs generalizing s with
  | nil => simp [rebuildBranch]
  | cons r rs ih =>
    rw [List.forall_mem_cons]
    unfold rebuildBranch
    cases hp : propose cfg draft ctx r with
    | none => simp
    | some spec => simpa using ih

theorem rebuildLoop_isSome_iff {accIdx : ℕ} {fans : List ℕ}
    {s : SpecCache N cfg.speculateK V R × ℕ} :
    (rebuildLoop cfg draft ctx key accIdx fans s).isSome ↔ Rebuilds cfg draft ctx fans := by
  unfold Rebuilds
  induction fans generalizing accIdx s with
  | nil => simp [rebuildLoop]
  | cons fan fans ih =>
    rw [List.forall_mem_cons]
    unfold rebuildLoop
    by_cases hfan : fan ≤ V
    · rw [topFRecoveryTokens_of_const 0 hfan]
      have hbranch : (rebuildBranch cfg draft ctx key accIdx
          ((List.range fan).map fun f : ℕ => (f : Token)) s).isSome ↔
            ∀ f < fan, (propose cfg draft ctx f).isSome := by
        rw [rebuildBranch_isSome_iff]
        simp
      rw [← hbranch]
      cases hb : rebuildBranch cfg draft ctx key accIdx
          ((List.range fan).map fun f : ℕ => (f : Token)) s with
      | none => simp [hb]
      | some s' => simpa [hb, hfan] using ih
    · unfold topFRecoveryTokens
      rw [if_pos (not_le.mp hfan)]
      simp [hfan]

/-- Whether the cache can be rebuilt does not depend on the key. -/
theorem rebuildCache_isSome_iff {c : SpecCache N cfg.speculateK V R} :
    (rebuildCache cfg draft ctx key c).isSome ↔
      Rebuilds cfg draft ctx (cfg.fanOutList.take (cfg.speculateK + 1)) := by
  unfold rebuildCache
  rw [Option.isSome_map, rebuildLoop_isSome_iff]

theorem handle_of_hit {w : DraftWorker cfg.speculateK V R} (hN : w.numBranches ≠ 0)
    (hreb : Rebuilds cfg draft w.contextTokens (cfg.fanOutList.take (cfg.speculateK + 1)))
    (hhit : (w.cache.lookupRow key).hit = true) :
    ∃ resp w', handle cfg draft w { cacheKeys := fun _ : Fin 1 => key } = some (resp, w') ∧
      resp.cacheHit 0 = true ∧ resp.specTokens 0 = (w.cache.lookupRow key).tokens ∧
      resp.draftLogits 0 = (w.cache.lookupRow key).logits := by
  obtain ⟨cache, hcache⟩ := Option.isSome_iff_exists.mp (rebuildCache_isSome_iff.mpr hreb)
  unfold handle SpecCache.lookup
  rw [if_neg hN]
  simp only
  rw [if_pos ⟨0, hhit⟩, Option.bind_some, hcache]
  exact ⟨_, _, rfl, hhit, rfl, rfl⟩

theorem handle_of_miss {w : DraftWorker cfg.speculateK V R} (hN : w.numBranches ≠ 0)
    (hreb : Rebuilds cfg draft w.contextTokens (cfg.fanOutList.take (cfg.speculateK + 1)))
    (hmiss : ¬ (w.cache.lookupRow key).hit = true) {tokens : Draft cfg.speculateK}
    (hprop : propose cfg draft w.contextTokens (key 2) = some tokens) :
    ∃ resp w', handle cfg draft w { cacheKeys := fun _ : Fin 1 => key } = some (resp, w') ∧
      resp.cacheHit 0 = false ∧ resp.specTokens 0 = tokens ∧
      resp.draftLogits 0 = fun _ _ => 0 := by
  obtain ⟨cache, hcache⟩ := Option.isSome_iff_exists.mp (rebuildCache_isSome_iff.mpr hreb)
  have hseq : (sequenceRows fun _ : Fin 1 => propose cfg draft w.contextTokens (key 2)) =
      some fun _ => tokens := sequenceRows_eq_some.mpr fun _ => hprop
  unfold handle SpecCache.lookup
  rw [if_neg hN]
  simp only
  rw [if_neg (by rintro ⟨_, h⟩; exact hmiss h), hseq, Option.map_some, Option.bind_some, hcache]
  exact ⟨_, _, rfl, rfl, rfl, rfl⟩

/-- A request is answered exactly when the cache has a slot, the recovery token gets a draft and the
cache can be rebuilt. A hit does not help, since an entry is itself a draft of the miss path. -/
theorem handle_isSome_iff {w : DraftWorker cfg.speculateK V R} {req : DraftRequest 1}
    {src : Option (ℤ × List Token)} (hw : Ready cfg draft w src)
    (hctx : ∀ ctx, src = some (req.cacheKeys 0 0, ctx) → ctx = w.contextTokens) :
    (handle cfg draft w req).isSome ↔ w.numBranches ≠ 0 ∧
      (propose cfg draft w.contextTokens (req.cacheKeys 0 2)).isSome ∧
      Rebuilds cfg draft w.contextTokens (cfg.fanOutList.take (cfg.speculateK + 1)) := by
  constructor
  · intro h
    obtain ⟨⟨resp, w'⟩, h⟩ := Option.isSome_iff_exists.mp h
    obtain ⟨hspec, _⟩ := handle_spec hw hctx h
    obtain ⟨hN, ⟨cache, hcache, _⟩, _⟩ := handle_cases h
    refine ⟨hN, by rw [hspec]; rfl, ?_⟩
    rw [← rebuildCache_isSome_iff, hcache]
    rfl
  · rintro ⟨hN, hprop, hreb⟩
    obtain ⟨tokens, hprop⟩ := Option.isSome_iff_exists.mp hprop
    have hkeys : req.cacheKeys = fun _ => req.cacheKeys 0 :=
      funext fun b => congrArg _ (Subsingleton.elim b 0)
    rw [show req = { cacheKeys := fun _ => req.cacheKeys 0 } from congrArg DraftRequest.mk hkeys]
    by_cases hhit : (w.cache.lookupRow (req.cacheKeys 0)).hit = true
    · obtain ⟨resp, w', h, _⟩ := handle_of_hit hN hreb hhit
      rw [h]
      rfl
    · obtain ⟨resp, w', h, _⟩ := handle_of_miss hN hreb hhit hprop
      rw [h]
      rfl

end Answered

theorem numBranches_of_handle {cfg : SSDConfig} {draft : DraftModel R V} {B : ℕ} [NeZero B]
    {w : DraftWorker cfg.speculateK V R} {req : DraftRequest B}
    {a : DraftResponse B cfg.speculateK V R × DraftWorker cfg.speculateK V R}
    (h : handle cfg draft w req = some a) : a.2.numBranches = w.numBranches := by
  obtain ⟨resp, w'⟩ := a
  obtain ⟨_, ⟨cache, _, rfl⟩, _⟩ := handle_batch h
  rfl

/-! ## Runs -/

/-- The states of a worker: started, then given contexts and requests that it answers, in any
order. -/
inductive Run (cfg : SSDConfig) (draft : DraftModel R V) : DraftWorker cfg.speculateK V R → Prop
  | start {w : DraftWorker cfg.speculateK V R} (h : start cfg = some w) : Run cfg draft w
  | setContext {w : DraftWorker cfg.speculateK V R} (h : Run cfg draft w) (tokens : List Token) :
    Run cfg draft (w.setContext tokens)
  | handle {w w' : DraftWorker cfg.speculateK V R} {B : ℕ} [NeZero B] {req : DraftRequest B}
    {resp : DraftResponse B cfg.speculateK V R} (h : Run cfg draft w)
    (hr : handle cfg draft w req = some (resp, w')) : Run cfg draft w'

theorem Run.numBranches {cfg : SSDConfig} {draft : DraftModel R V}
    {w : DraftWorker cfg.speculateK V R} (h : Run cfg draft w) :
    ∃ mqLen, cfg.mqLen = some mqLen ∧ w.numBranches = mqLen * 4 := by
  induction h with
  | start h =>
    obtain ⟨mqLen, hmq, rfl⟩ := Option.map_eq_some_iff.mp h
    exact ⟨mqLen, hmq, rfl⟩
  | setContext _ _ ih => exact ih
  | handle _ hr ih =>
    obtain ⟨mqLen, hmq, hN⟩ := ih
    exact ⟨mqLen, hmq, (numBranches_of_handle hr).trans hN⟩

end DraftWorker

end SsdTpu
