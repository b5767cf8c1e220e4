import Mathlib.Data.List.Sort

/-!
# Stability of insertion sort

Insertion sort by a total preorder `r` keeps the order of the input between elements that `r` does
not separate. `s` is any relation that holds along the input, such as the order of the positions.
-/

namespace StableSort

variable {α : Type*} {r s : α → α → Prop} [DecidableRel r]

/-- Sorted, and in the order `s` where `r` goes both ways. -/
def Before (r s : α → α → Prop) (a b : α) : Prop := r a b ∧ (r b a → s a b)

theorem pairwise_orderedInsert (htotal : ∀ a b, r a b ∨ r b a)
    (htrans : ∀ a b c, r a b → r b c → r a c) {a : α} {l : List α} (hs : ∀ b ∈ l, s a b)
    (h : l.Pairwise (Before r s)) : (l.orderedInsert r a).Pairwise (Before r s) := by
  induction l with
  | nil => exact List.pairwise_singleton _ a
  | cons b l ih =>
    obtain ⟨hb, hl⟩ := List.pairwise_cons.mp h
    rw [List.orderedInsert_cons]
    split_ifs with hab
    · refine List.pairwise_cons.mpr ⟨fun c hc => ⟨?_, fun _ => hs c hc⟩, h⟩
      rcases List.mem_cons.mp hc with rfl | hc
      · exact hab
      · exact htrans a b c hab (hb c hc).1
    · refine List.pairwise_cons.mpr ⟨fun c hc => ?_, ih (fun c hc => ?_) hl⟩
      · rcases (List.mem_orderedInsert r).mp hc with rfl | hc
        · exact ⟨(htotal b c).resolve_right hab, fun hcb => absurd hcb hab⟩
        · exact hb c hc
      · exact hs c (List.mem_cons_of_mem b hc)

/-- **Insertion sort is stable.** -/
theorem pairwise_insertionSort (htotal : ∀ a b, r a b ∨ r b a)
    (htrans : ∀ a b c, r a b → r b c → r a c) {l : List α} (h : l.Pairwise s) :
    (l.insertionSort r).Pairwise (Before r s) := by
  induction l with
  | nil => exact List.Pairwise.nil
  | cons a l ih =>
    obtain ⟨ha, hl⟩ := List.pairwise_cons.mp h
    rw [List.insertionSort_cons]
    exact pairwise_orderedInsert htotal htrans
      (fun b hb => ha b ((List.mem_insertionSort r).mp hb)) (ih hl)

end StableSort
