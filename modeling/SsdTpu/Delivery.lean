import SsdTpu.Chunked
import SsdTpu.Rollback

/-!
# Delivering a token stream to a sequence

`postprocess` appends its tokens and then looks at the budget and at the last token. So a stream
that is delivered token by token is cut after its first end token, or at the budget
(`deliver_singletons`), and one that is delivered in chunks is cut at the end of a chunk only
(`deliver_chunks_iff`).
-/

namespace SsdTpu

/-- `is_finished` of a sequence with this completion. -/
def completionDone (eosId : Option Token) (maxTokens : ℤ) (completion : List Token) : Bool :=
  decide (maxTokens ≤ completion.length) ||
    match eosId with
    | none => false
    | some eos => decide (completion.getLast? = some eos)

theorem Sequence.isFinished_eq (seq : Sequence) (eosId : Option Token) (maxTokens : ℤ) :
    seq.isFinished eosId maxTokens = completionDone eosId maxTokens seq.completionTokenIds := rfl

/-- The stream up to its first end token, that token included. -/
def throughEos (eosId : Option Token) : List Token → List Token
  | [] => []
  | token :: stream => if eosId = some token then [token] else token :: throughEos eosId stream

/-- Token by token, the completion grows to the first end token or to the budget. By induction on
the stream, over a completion that has room and no end token. -/
theorem feedOne_completionDone {eosId : Option Token} {maxTokens : ℤ} {completion : List Token}
    (hroom : (completion.length : ℤ) < maxTokens) (hnot : ∀ eos ∈ eosId, eos ∉ completion)
    (stream : List Token) :
    Chunked.feedOne (completionDone eosId maxTokens) completion stream =
      completion ++ (throughEos eosId stream).take (maxTokens - completion.length).toNat := by
  induction stream generalizing completion with
  | nil => simp [Chunked.feedOne, throughEos]
  | cons token stream ih =>
    have hopen : completionDone eosId maxTokens completion = false := by
      unfold completionDone
      rw [decide_eq_false (by omega), Bool.false_or]
      cases eosId with
      | none => rfl
      | some eos =>
        apply decide_eq_false
        intro hlast
        exact hnot eos rfl (List.mem_of_getLast? hlast)
    have hlen : (completion ++ [token]).length = completion.length + 1 := by simp
    obtain ⟨room, hpos⟩ : ∃ room, (maxTokens - completion.length).toNat = room + 1 :=
      ⟨(maxTokens - completion.length).toNat - 1, by omega⟩
    unfold Chunked.feedOne throughEos
    rw [if_neg (by simp [hopen]), hpos]
    by_cases heos : eosId = some token
    · -- the end token: nothing is appended after it
      have hdone : completionDone eosId maxTokens (completion ++ [token]) = true := by
        simp [completionDone, heos]
      rw [if_pos heos, Chunked.feedOne_of_done hdone]
      simp
    · rw [if_neg heos, List.take_succ_cons]
      by_cases hlast : room = 0
      · -- the last token of the budget
        have hdone : completionDone eosId maxTokens (completion ++ [token]) = true := by
          unfold completionDone
          rw [decide_eq_true (by omega), Bool.true_or]
        rw [Chunked.feedOne_of_done hdone, hlast, List.take_zero]
      · have hnot' : ∀ eos ∈ eosId, eos ∉ completion ++ [token] := by
          intro eos he hmem
          rcases List.mem_append.mp hmem with hmem | hmem
          · exact hnot eos he hmem
          · rw [List.mem_singleton.mp hmem] at he
            exact heos he
        have hroom' : (maxTokens - (completion ++ [token]).length).toNat = room := by omega
        rw [ih (by omega) hnot', hroom', List.append_assoc, List.singleton_append]

namespace Scheduler

variable {s : Scheduler} {r : ℕ} {eosId : Option Token} {maxTokens : ℤ}

/-- Calls of `postprocess` with the chunks in order, until the sequence is finished. -/
def deliver (r : ℕ) (eosId : Option Token) (maxTokens : ℤ) :
    Scheduler → List (List Token) → Scheduler
  | s, [] => s
  | s, chunk :: chunks =>
    if (s.seqs r).status = .finished then s
    else deliver r eosId maxTokens (s.postprocess r chunk eosId maxTokens) chunks

theorem finish_completion (s : Scheduler) (r : ℕ) :
    ((s.finish r).seqs r).completionTokenIds = (s.seqs r).completionTokenIds := by
  unfold finish
  show (((s.setSeq r _).setSeq r _).seqs r).completionTokenIds = _
  rw [setSeq_self, setSeq_self]
  rfl

theorem postprocess_spec (eosId : Option Token) (maxTokens : ℤ)
    (hst : (s.seqs r).status ≠ .finished) (chunk : List Token) :
    ((s.postprocess r chunk eosId maxTokens).seqs r).completionTokenIds =
        (s.seqs r).completionTokenIds ++ chunk ∧
      (((s.postprocess r chunk eosId maxTokens).seqs r).status = .finished ↔
        completionDone eosId maxTokens ((s.seqs r).completionTokenIds ++ chunk) = true) := by
  have hself : (s.setSeq r ((s.seqs r).appendTokens chunk)).seqs r =
      (s.seqs r).appendTokens chunk := setSeq_self s r _
  unfold postprocess
  simp only
  rw [Sequence.isFinished_eq, hself, Sequence.appendTokens_completion]
  split_ifs with hdone
  · rw [finish_completion, finish_status, hself]
    exact ⟨rfl, by simp [hdone]⟩
  · rw [hself, Sequence.appendTokens_status]
    exact ⟨rfl, by simp [hst, hdone]⟩

theorem deliver_spec (chunks : List (List Token))
    (hst : (s.seqs r).status = .finished ↔
      completionDone eosId maxTokens (s.seqs r).completionTokenIds = true) :
    ((deliver r eosId maxTokens s chunks).seqs r).completionTokenIds =
        Chunked.feed (completionDone eosId maxTokens) (s.seqs r).completionTokenIds chunks ∧
      (((deliver r eosId maxTokens s chunks).seqs r).status = .finished ↔
        completionDone eosId maxTokens
          ((deliver r eosId maxTokens s chunks).seqs r).completionTokenIds = true) := by
  induction chunks generalizing s with
  | nil => exact ⟨rfl, hst⟩
  | cons chunk chunks ih =>
    unfold deliver Chunked.feed
    by_cases hfin : (s.seqs r).status = .finished
    · rw [if_pos hfin, if_pos (hst.mp hfin)]
      exact ⟨rfl, hst⟩
    · rw [if_neg hfin, if_neg fun hdone => hfin (hst.mpr hdone)]
      obtain ⟨happ, hst'⟩ := postprocess_spec eosId maxTokens hfin chunk
      rw [← happ] at hst' ⊢
      exact ih hst'

/-! ## A new sequence -/

/-- The stream up to its first end token or the budget, whichever comes first. -/
def upTo (eosId : Option Token) (maxTokens : ℤ) (stream : List Token) : List Token :=
  (throughEos eosId stream).take maxTokens.toNat

theorem not_completionDone_nil (hmax : 1 ≤ maxTokens) :
    completionDone eosId maxTokens [] = false := by
  unfold completionDone
  rw [decide_eq_false (by rw [List.length_nil]; omega), Bool.false_or]
  cases eosId with
  | none => rfl
  | some eos => simp

/-- **One token at a time.** The completion is the stream up to its first end token or the budget,
and the sequence is finished exactly when that completion is done. -/
theorem deliver_singletons (eosId : Option Token) (hmax : 1 ≤ maxTokens)
    (hst : (s.seqs r).status ≠ .finished) (hnew : (s.seqs r).completionTokenIds = [])
    (stream : List Token) :
    let seq := (deliver r eosId maxTokens s (stream.map fun token => [token])).seqs r
    seq.completionTokenIds = upTo eosId maxTokens stream ∧
      (seq.status = .finished ↔
        completionDone eosId maxTokens (upTo eosId maxTokens stream) = true) := by
  intro seq
  have hst' : (s.seqs r).status = .finished ↔
      completionDone eosId maxTokens (s.seqs r).completionTokenIds = true := by
    rw [hnew, not_completionDone_nil hmax]
    simp [hst]
  obtain ⟨hfeed, hfin⟩ := deliver_spec (stream.map fun token => [token]) hst'
  have hcompl : seq.completionTokenIds = upTo eosId maxTokens stream := by
    show ((deliver r eosId maxTokens s _).seqs r).completionTokenIds = _
    rw [hfeed, hnew, Chunked.feed_singletons,
      feedOne_completionDone (by rw [List.length_nil]; omega) (by simp)]
    simp [upTo]
  refine ⟨hcompl, ?_⟩
  rw [← hcompl]
  exact hfin

/-- **Chunks.** A new sequence that gets a stream in non-empty chunks ends as the one that gets it
token by token, cut after the first end token or at the budget, if and only if the cut is at the
end of a chunk. -/
theorem deliver_chunks_iff (eosId : Option Token) (hmax : 1 ≤ maxTokens)
    (hst : (s.seqs r).status ≠ .finished) (hnew : (s.seqs r).completionTokenIds = [])
    (stream : List Token) (chunks : List (List Token)) (hcut : chunks.flatten = stream)
    (hne : ∀ chunk ∈ chunks, chunk ≠ []) :
    let inChunks := (deliver r eosId maxTokens s chunks).seqs r
    let oneByOne := (deliver r eosId maxTokens s (stream.map fun token => [token])).seqs r
    (inChunks.completionTokenIds = oneByOne.completionTokenIds ∧
        (inChunks.status = .finished ↔ oneByOne.status = .finished) ∧
        inChunks.completionTokenIds = upTo eosId maxTokens stream) ↔
      ∃ delivered, delivered <+: chunks ∧ delivered.flatten = upTo eosId maxTokens stream := by
  intro inChunks oneByOne
  obtain ⟨hone, honeFin⟩ := deliver_singletons eosId hmax hst hnew stream
  have hst' : (s.seqs r).status = .finished ↔
      completionDone eosId maxTokens (s.seqs r).completionTokenIds = true := by
    rw [hnew, not_completionDone_nil hmax]
    simp [hst]
  obtain ⟨hfeed, hfin⟩ := deliver_spec chunks hst'
  have hstream : upTo eosId maxTokens stream =
      Chunked.feedOne (completionDone eosId maxTokens) [] chunks.flatten := by
    rw [hcut, feedOne_completionDone (by rw [List.length_nil]; omega) (by simp)]
    simp [upTo]
  rw [hnew] at hfeed
  have hiff : Chunked.feed (completionDone eosId maxTokens) [] chunks = _ ↔ _ :=
    Chunked.feed_eq_iff hne
  rw [← hstream, ← hfeed] at hiff
  simp only [List.nil_append] at hiff
  rw [← hiff]
  constructor
  · exact fun h => h.2.2
  · intro h
    refine ⟨h.trans hone.symm, ?_, h⟩
    rw [honeFin, hfin, h]

/-- The end token `2` inside a chunk: the completion runs on after it and the sequence is not
finished. -/
theorem deliver_chunk_past_eos :
    ∃ s, Reachable { numBlocks := 4 } s ∧ 0 ∈ s.running ∧ (s.seqs 0).completionTokenIds = [] ∧
      ((deliver 0 (some 2) 100 s [[1, 2, 3]]).seqs 0).completionTokenIds = [1, 2, 3] ∧
      ((deliver 0 (some 2) 100 s [[1, 2, 3]]).seqs 0).status = .running ∧
      ((deliver 0 (some 2) 100 s [[1], [2], [3]]).seqs 0).completionTokenIds = [1, 2] ∧
      ((deliver 0 (some 2) 100 s [[1], [2], [3]]).seqs 0).status = .finished := by
  have hadd : Reachable { numBlocks := 4 } ((init { numBlocks := 4 }).addRequest [7]).1 :=
    .single (.addRequest _ _)
  exact ⟨_, hadd.tail (.schedule rfl), by decide, by decide, by decide, by decide, by decide,
    by decide⟩

theorem deliver_chunk_to_eos :
    ∃ s, s = (init { numBlocks := 4 }).startRunning 0 ∧
      ((deliver 0 (some 2) 100 s [[1, 2], [3]]).seqs 0).completionTokenIds = [1, 2] :=
  ⟨_, rfl, ((deliver_chunks_iff (some 2) (by decide) (by decide) (by decide) [1, 2, 3]
    [[1, 2], [3]] rfl (by decide)).mpr ⟨[[1, 2]], by decide, by decide⟩).2.2⟩

end Scheduler

end SsdTpu
