import SsdTpu.DraftWorker
import SsdTpu.StableSort

/-!
# Retrieval of spans from the prompt

What `find_high_salience_spans` returns (`BestSpans`), and what the draft worker makes of it: the
earliest window of the prompt with the most tokens divisible by 7.

1. The windows are listed by start, so that the stable sort by score puts ties in order of start
   (`bestSpans`).
2. The score of a window grows with the number of its tokens divisible by 7
   (`mean_scoreTokenSalience`).
-/

namespace SsdTpu

variable {contextTokens : List Token} {salience : List ℚ} {spanLength maxSpans k start : ℕ}

/-- The best windows of a context, best first and ties in order of start. -/
structure BestSpans (contextTokens : List Token) (salience : List ℚ) (spanLength maxSpans : ℕ)
    (spans : List ContextSpan) : Prop where
  length : spans.length = min maxSpans (contextTokens.length - spanLength + 1)
  starts : (spans.map ContextSpan.start).Nodup
  window : ∀ s ∈ spans, s.start + spanLength ≤ contextTokens.length ∧
    s.tokens = (contextTokens.drop s.start).take spanLength ∧
    s.score = mean ((salience.drop s.start).take spanLength)
  sorted : spans.Pairwise fun s s' =>
    s'.score ≤ s.score ∧ (s'.score = s.score → s.start < s'.start)
  omitted : ∀ start, start + spanLength ≤ contextTokens.length →
    start ∉ spans.map ContextSpan.start → ∀ s ∈ spans,
      mean ((salience.drop start).take spanLength) ≤ s.score ∧
        (mean ((salience.drop start).take spanLength) = s.score → s.start < start)

/-- The windows in order of start. -/
def windows (contextTokens : List Token) (salience : List ℚ) (spanLength : ℕ) :
    List ContextSpan :=
  (List.range (contextTokens.length - spanLength + 1)).map
    (spanAt mean contextTokens salience spanLength)

theorem windows_starts (contextTokens : List Token) (salience : List ℚ) (spanLength : ℕ) :
    (windows contextTokens salience spanLength).map ContextSpan.start =
      List.range (contextTokens.length - spanLength + 1) := by
  unfold windows
  rw [List.map_map]
  exact List.map_id _

theorem pairwise_windows (contextTokens : List Token) (salience : List ℚ) (spanLength : ℕ) :
    (windows contextTokens salience spanLength).Pairwise fun s s' => s.start < s'.start := by
  have h : (List.range (contextTokens.length - spanLength + 1)).Pairwise (· < ·) :=
    List.pairwise_lt_range
  rw [← windows_starts contextTokens salience spanLength, List.pairwise_map] at h
  exact h

/-- The windows in order of score. -/
def ranked (contextTokens : List Token) (salience : List ℚ) (spanLength : ℕ) : List ContextSpan :=
  (windows contextTokens salience spanLength).insertionSort fun s s' => s'.score ≤ s.score

theorem pairwise_ranked (contextTokens : List Token) (salience : List ℚ) (spanLength : ℕ) :
    (ranked contextTokens salience spanLength).Pairwise fun s s' =>
      s'.score ≤ s.score ∧ (s'.score = s.score → s.start < s'.start) := by
  have h : (ranked contextTokens salience spanLength).Pairwise (StableSort.Before
      (fun s s' => s'.score ≤ s.score) fun s s' => s.start < s'.start) :=
    StableSort.pairwise_insertionSort (fun s s' => le_total s'.score s.score)
      (fun _ _ _ hab hbc => hbc.trans hab) (pairwise_windows contextTokens salience spanLength)
  exact h.imp fun hs => ⟨hs.1, fun heq => hs.2 heq.ge⟩

theorem mem_ranked {s : ContextSpan} :
    s ∈ ranked contextTokens salience spanLength ↔
      ∃ start < contextTokens.length - spanLength + 1,
        spanAt mean contextTokens salience spanLength start = s := by
  unfold ranked windows
  simp only [List.mem_insertionSort, List.mem_map, List.mem_range]

/-- **The spans of a context that is long enough.** -/
theorem bestSpans (hL : spanLength ≤ contextTokens.length) (salience : List ℚ) (maxSpans : ℕ) :
    BestSpans contextTokens salience spanLength maxSpans
      (findHighSalienceSpans mean contextTokens salience spanLength maxSpans) := by
  have hspans : findHighSalienceSpans mean contextTokens salience spanLength maxSpans =
      (ranked contextTokens salience spanLength).take maxSpans := by
    unfold findHighSalienceSpans
    simp only [if_neg (not_lt.mpr hL)]
    rfl
  have hperm : (ranked contextTokens salience spanLength).Perm
      (windows contextTokens salience spanLength) := List.perm_insertionSort _ _
  have hsplit := List.take_append_drop maxSpans (ranked contextTokens salience spanLength)
  have hsorted := pairwise_ranked contextTokens salience spanLength
  rw [hspans]
  constructor
  · rw [List.length_take, hperm.length_eq]
    unfold windows
    rw [List.length_map, List.length_range]
  · have hnodup := (hperm.map ContextSpan.start).nodup_iff.mpr
      (windows_starts contextTokens salience spanLength ▸ List.nodup_range)
    exact hnodup.sublist ((List.take_sublist _ _).map _)
  · intro s hs
    obtain ⟨start, hstart, rfl⟩ := mem_ranked.mp (List.mem_of_mem_take hs)
    refine ⟨?_, rfl, rfl⟩
    show start + spanLength ≤ contextTokens.length
    omega
  · exact hsorted.sublist (List.take_sublist _ _)
  · intro start hstart hnot s hs
    set w := spanAt mean contextTokens salience spanLength start with hw
    have hmem : w ∈ ranked contextTokens salience spanLength :=
      mem_ranked.mpr ⟨start, by omega, rfl⟩
    rw [← hsplit] at hmem hsorted
    -- an omitted window comes after every returned one
    have hdrop : w ∈ (ranked contextTokens salience spanLength).drop maxSpans :=
      (List.mem_append.mp hmem).resolve_left fun ht => hnot (List.mem_map_of_mem ht)
    exact (List.pairwise_append.mp hsorted).2.2 s hs w hdrop

/-! ## The spans of the prompt -/

/-- The number of tokens divisible by 7 in the window at `start`. -/
def sevens (contextTokens : List Token) (k start : ℕ) : ℕ :=
  ((contextTokens.drop start).take k).countP fun tok => tok % 7 = 0

theorem sum_scoreTokenSalience (tokens : List Token) :
    (scoreTokenSalience tokens).sum =
      (tokens.length + 9 * tokens.countP fun tok => tok % 7 = 0 : ℕ) / 10 := by
  induction tokens with
  | nil => simp [scoreTokenSalience]
  | cons tok tokens ih =>
    have hcons : (scoreTokenSalience (tok :: tokens)).sum =
        (if tok % 7 = 0 then 1 else 1 / 10) + (scoreTokenSalience tokens).sum := rfl
    rw [hcons, ih, List.length_cons, List.countP_cons]
    by_cases h7 : tok % 7 = 0
    · simp only [h7, if_true, decide_true]
      push_cast
      ring
    · simp only [h7, if_false, decide_false]
      push_cast
      ring

theorem mean_scoreTokenSalience (h : start + k ≤ contextTokens.length) :
    mean (((scoreTokenSalience contextTokens).drop start).take k) =
      (k + 9 * sevens contextTokens k start : ℕ) / (10 * k) := by
  have hwindow : ((scoreTokenSalience contextTokens).drop start).take k =
      scoreTokenSalience ((contextTokens.drop start).take k) := by
    unfold scoreTokenSalience
    rw [List.map_take, List.map_drop]
  have hlen : ((contextTokens.drop start).take k).length = k := by
    rw [List.length_take, List.length_drop]
    omega
  have hlen' : (scoreTokenSalience ((contextTokens.drop start).take k)).length = k := by
    unfold scoreTokenSalience
    rw [List.length_map, hlen]
  unfold mean
  rw [hwindow, hlen', sum_scoreTokenSalience, hlen, div_div]
  rfl

/-- A long prompt yields its earliest window with the most tokens divisible by 7. -/
theorem promptDraft_of_le (hk : 1 ≤ k) (hle : k ≤ contextTokens.length) :
    ∃ start, start + k ≤ contextTokens.length ∧
      promptDraft mean contextTokens k = some ((contextTokens.drop start).take k) ∧
      ∀ other, other + k ≤ contextTokens.length → other ≠ start →
        sevens contextTokens k other ≤ sevens contextTokens k start ∧
          (sevens contextTokens k other = sevens contextTokens k start → start < other) := by
  have hbest := bestSpans hle (scoreTokenSalience contextTokens) 8
  unfold promptDraft
  cases hspans : findHighSalienceSpans mean contextTokens (scoreTokenSalience contextTokens) k with
  | nil =>
    rw [hspans] at hbest
    have hlen := hbest.length
    rw [List.length_nil] at hlen
    omega
  | cons s spans =>
    rw [hspans] at hbest
    obtain ⟨hstart, htokens, hscore⟩ := hbest.window s List.mem_cons_self
    have hlen : s.tokens.length = k := by
      rw [htokens, List.length_take, List.length_drop]
      omega
    refine ⟨s.start, hstart, ?_, fun other hother hne => ?_⟩
    · unfold spansToSpeculationTokens
      simp only
      rw [if_pos hlen.ge, List.take_of_length_le hlen.le, htokens]
    · -- the other window is returned after the best one, or omitted
      have hafter : mean (((scoreTokenSalience contextTokens).drop other).take k) ≤ s.score ∧
          (mean (((scoreTokenSalience contextTokens).drop other).take k) = s.score →
            s.start < other) := by
        by_cases hmem : other ∈ (s :: spans).map ContextSpan.start
        · obtain ⟨s', hs', rfl⟩ := List.mem_map.mp hmem
          rw [← (hbest.window s' hs').2.2]
          have hs'' : s' ∈ spans :=
            (List.mem_cons.mp hs').resolve_left fun heq => hne (heq ▸ rfl)
          exact (List.pairwise_cons.mp hbest.sorted).1 s' hs''
        · exact hbest.omitted other hother hmem s List.mem_cons_self
      have hk0 : (0 : ℚ) < 10 * k := by
        have hk' : (0 : ℚ) < k := by exact_mod_cast hk
        linarith
      rw [hscore, mean_scoreTokenSalience hother, mean_scoreTokenSalience hstart,
        div_le_div_iff_of_pos_right hk0, div_left_inj' hk0.ne', Nat.cast_le, Nat.cast_inj] at hafter
      exact ⟨by omega, fun heq => hafter.2 (by omega)⟩

theorem promptDraft_of_lt (hne : contextTokens ≠ []) (hlt : contextTokens.length < k) :
    ∃ last, contextTokens.getLast? = some last ∧
      promptDraft mean contextTokens k =
        some (contextTokens ++ List.replicate (k - contextTokens.length) last) := by
  obtain ⟨last, hlast⟩ := Option.isSome_iff_exists.mp (List.getLast?_isSome.mpr hne)
  refine ⟨last, hlast, ?_⟩
  unfold promptDraft findHighSalienceSpans spansToSpeculationTokens
  simp only [if_pos hlt, if_neg (not_le.mpr hlt), hlast]
  rfl

/-- **Instance retrieval.** Of a context that is long enough, the best windows are returned, best
first; and the worker always drafts `k` tokens: the earliest window of the prompt with the most
tokens divisible by 7, or the whole prompt padded with its last token. -/
theorem instance_retrieval (contextTokens : List Token) (hne : contextTokens ≠ []) :
    (∀ (salience : List ℚ) (spanLength maxSpans : ℕ), 1 ≤ spanLength → 1 ≤ maxSpans →
      spanLength ≤ contextTokens.length →
        BestSpans contextTokens salience spanLength maxSpans
          (findHighSalienceSpans mean contextTokens salience spanLength maxSpans)) ∧
      ∀ k, 1 ≤ k → ∃ tokens, promptDraft mean contextTokens k = some tokens ∧ tokens.length = k ∧
        (k ≤ contextTokens.length → ∃ start, start + k ≤ contextTokens.length ∧
          tokens = (contextTokens.drop start).take k ∧
          ∀ other, other + k ≤ contextTokens.length → other ≠ start →
            sevens contextTokens k other ≤ sevens contextTokens k start ∧
              (sevens contextTokens k other = sevens contextTokens k start → start < other)) ∧
        (contextTokens.length < k → ∃ last, contextTokens.getLast? = some last ∧
          tokens = contextTokens ++ List.replicate (k - contextTokens.length) last) := by
  refine ⟨fun salience spanLength maxSpans _ _ hL => bestSpans hL salience maxSpans,
    fun k hk => ?_⟩
  by_cases hle : k ≤ contextTokens.length
  · obtain ⟨start, hstart, hdraft, hbest⟩ := promptDraft_of_le hk hle
    exact ⟨_, hdraft, length_spansToSpeculationTokens hdraft,
      fun _ => ⟨start, hstart, rfl, hbest⟩, fun hlt => absurd hle (not_le.mpr hlt)⟩
  · obtain ⟨last, hlast, hdraft⟩ := promptDraft_of_lt hne (not_le.mp hle)
    exact ⟨_, hdraft, length_spansToSpeculationTokens hdraft, fun h => absurd h hle,
      fun _ => ⟨last, hlast, rfl⟩⟩

/-- The windows of two tokens with one token divisible by 7 are tied: the first of them is
drafted. -/
theorem instance_retrieval_two :
    ∃ tokens, promptDraft mean [3, 7, 5, 14] 2 = some tokens ∧ tokens.length = 2 ∧
      tokens = [3, 7] := by
  obtain ⟨tokens, hdraft, hlen, -⟩ := (instance_retrieval [3, 7, 5, 14] (by decide)).2 2 (by decide)
  have hval : promptDraft mean [3, 7, 5, 14] 2 = some [3, 7] := by decide +kernel
  exact ⟨tokens, hdraft, hlen, Option.some.inj (hdraft.symm.trans hval)⟩

end SsdTpu
