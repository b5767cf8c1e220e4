import Mathlib.Tactic

/-!
# Delivering a stream in chunks

A buffer receives the chunks of a stream, each as a whole, until a test of its content says stop.

`feed_eq_iff`: chunks give what single items give exactly when a chunk ends where single items stop.
-/

namespace Chunked

variable {α : Type*} {done : List α → Bool} {buf xs ys : List α}

/-- Append the chunks one after the other, until the buffer is done. -/
def feed (done : List α → Bool) : List α → List (List α) → List α
  | buf, [] => buf
  | buf, chunk :: chunks => if done buf then buf else feed done (buf ++ chunk) chunks

/-- The same one item at a time. -/
def feedOne (done : List α → Bool) : List α → List α → List α
  | buf, [] => buf
  | buf, x :: xs => if done buf then buf else feedOne done (buf ++ [x]) xs

theorem feed_singletons (buf xs : List α) :
    feed done buf (xs.map fun x => [x]) = feedOne done buf xs := by
  induction xs generalizing buf with
  | nil => rfl
  | cons x xs ih =>
    show (if done buf then buf else feed done (buf ++ [x]) (xs.map fun x => [x])) = _
    rw [ih]
    rfl

theorem feed_prefix (done : List α → Bool) (buf : List α) (chunks : List (List α)) :
    ∃ delivered, delivered <+: chunks ∧ feed done buf chunks = buf ++ delivered.flatten := by
  induction chunks generalizing buf with
  | nil => exact ⟨[], List.prefix_rfl, by simp [feed]⟩
  | cons chunk chunks ih =>
    unfold feed
    split_ifs
    · exact ⟨[], List.nil_prefix, by simp⟩
    · obtain ⟨delivered, hpre, heq⟩ := ih (buf ++ chunk)
      exact ⟨chunk :: delivered, List.prefix_cons_inj chunk |>.mpr hpre, by simp [heq]⟩

theorem feedOne_of_done (h : done buf = true) : feedOne done buf xs = buf := by
  cases xs with
  | nil => rfl
  | cons x xs => simp [feedOne, h]

theorem length_le_feedOne (done : List α → Bool) (buf xs : List α) :
    buf.length ≤ (feedOne done buf xs).length := by
  induction xs generalizing buf with
  | nil => exact le_rfl
  | cons x xs ih =>
    unfold feedOne
    split_ifs
    · exact le_rfl
    · have hle := ih (buf ++ [x])
      rw [List.length_append] at hle
      omega

theorem length_lt_feedOne (h : done buf = false) (hxs : xs ≠ []) :
    buf.length < (feedOne done buf xs).length := by
  cases xs with
  | nil => exact absurd rfl hxs
  | cons x xs =>
    unfold feedOne
    rw [if_neg (by simp [h])]
    have hle := length_le_feedOne done (buf ++ [x]) xs
    rw [List.length_append, List.length_singleton] at hle
    omega

/-- Nothing stops inside `xs`, or single items stop before its end. -/
theorem feedOne_append_cases (done : List α → Bool) (buf xs ys : List α) :
    feedOne done buf (xs ++ ys) = feedOne done (buf ++ xs) ys ∨
      (feedOne done buf (xs ++ ys)).length < (buf ++ xs).length := by
  induction xs generalizing buf with
  | nil => simp
  | cons x xs ih =>
    by_cases h : done buf = true
    · right
      rw [feedOne_of_done h, List.length_append, List.length_cons]
      omega
    · have hstep : feedOne done buf (x :: xs ++ ys) = feedOne done (buf ++ [x]) (xs ++ ys) := by
        simp [feedOne, h]
      have hassoc : buf ++ x :: xs = buf ++ [x] ++ xs := by simp
      rw [hstep, hassoc]
      exact ih (buf ++ [x])

/-- **Chunks stop where single items stop, if and only if a chunk ends there.** By induction on the
chunks: single items either stop inside the first one or go on from its end. -/
theorem feed_eq_iff {chunks : List (List α)} (hne : ∀ chunk ∈ chunks, chunk ≠ []) :
    feed done buf chunks = feedOne done buf chunks.flatten ↔
      ∃ delivered, delivered <+: chunks ∧
        buf ++ delivered.flatten = feedOne done buf chunks.flatten := by
  constructor
  · intro h
    obtain ⟨delivered, hpre, heq⟩ := feed_prefix done buf chunks
    exact ⟨delivered, hpre, heq.symm.trans h⟩
  · rintro ⟨delivered, hpre, heq⟩
    induction chunks generalizing buf delivered with
    | nil => rfl
    | cons chunk chunks ih =>
      unfold feed
      split_ifs with hdone
      · rw [feedOne_of_done hdone]
      · have hchunk : chunk ≠ [] := hne chunk List.mem_cons_self
        have hlt : buf.length < (feedOne done buf (chunk :: chunks).flatten).length :=
          length_lt_feedOne (by simpa using hdone) (by simp [hchunk])
        cases delivered with
        | nil =>
          rw [← heq] at hlt
          simp at hlt
        | cons chunk' delivered =>
          obtain ⟨rfl, hrest⟩ := List.cons_prefix_cons.mp hpre
          have hlen := congrArg List.length heq
          rw [List.flatten_cons, List.flatten_cons, List.length_append, List.length_append] at hlen
          rw [List.flatten_cons] at heq ⊢
          rcases feedOne_append_cases done buf chunk' chunks.flatten with hcase | hcase
          · rw [hcase]
            rw [List.flatten_cons, hcase, ← List.append_assoc] at heq
            exact ih (fun c hc => hne c (List.mem_cons_of_mem _ hc)) delivered hrest heq
          · rw [List.length_append] at hcase
            omega

end Chunked
