import SsdTpu.Config
import Mathlib.Data.Fin.Tuple.Basic
import Mathlib.Data.List.MinMax

/-!
# The speculation cache

`SpecCache` with `N` slots for drafts of `K` tokens. The arrays of the source are functions
on `Fin` types, so that a shape error cannot be built. A key is `[seq_id, accepted, recovery]`.
-/

namespace SsdTpu

/-- `[seq_id, accepted_index, recovery_token]`. -/
abbrev Key := Fin 3 → ℤ

/-- The columns of a key. -/
instance instNeZeroThree : NeZero 3 := ⟨three_ne_zero⟩

/-- A row of `K` draft tokens. -/
abbrev Draft (K : ℕ) := Fin K → Token

structure SpecCache (N K V : ℕ) (R : Type*) where
  keys : Fin N → Key
  tokens : Fin N → Draft K
  logits : Fin N → Fin K → Fin V → R
  valid : Fin N → Bool

/-- One row of the answer to a lookup. -/
structure LookupRow (K V : ℕ) (R : Type*) where
  hit : Bool
  /-- The slot, -1 on a miss. -/
  idx : ℤ
  tokens : Draft K
  logits : Fin K → Fin V → R

/-- The rows of the arguments of `insert_batch`: a key, its tokens and its logits. -/
structure CacheRow (K V : ℕ) (R : Type*) where
  key : Key
  tokens : Draft K
  logits : Fin K → Fin V → R

namespace SpecCache

variable {N K V : ℕ} {R : Type*}

def create [Zero R] : SpecCache N K V R where
  keys := fun _ _ => 0
  tokens := fun _ _ => 0
  logits := fun _ _ _ => 0
  valid := fun _ => false

/-- Only the valid bits are cleared. -/
def reset (c : SpecCache N K V R) : SpecCache N K V R := { c with valid := fun _ => false }

/-- The entry `matches[b, i]` for the request key `key`. -/
def matchesAt (c : SpecCache N K V R) (key : Key) (i : Fin N) : Bool :=
  decide (key = c.keys i) && c.valid i

/-- `argmax` of a row of `matches`: the first slot that matches, when there is one. -/
def find (c : SpecCache N K V R) (key : Key) : Option (Fin N) :=
  (List.finRange N).find? (c.matchesAt key)

def lookupRow [Zero R] (c : SpecCache N K V R) (key : Key) : LookupRow K V R :=
  match c.find key with
  | none => { hit := false, idx := -1, tokens := fun _ => 0, logits := fun _ _ => 0 }
  | some i => { hit := true, idx := (i : ℕ), tokens := c.tokens i, logits := c.logits i }

/-- `lookup` of a batch of keys. `argmax` over the slots of an empty cache raises. -/
def lookup [Zero R] {B : ℕ} (c : SpecCache N K V R) (requestKeys : Fin B → Key) :
    Option (Fin B → LookupRow K V R) :=
  if N = 0 then none else some fun b => c.lookupRow (requestKeys b)

/-- `insert`. An update outside the array is dropped. -/
def insert (c : SpecCache N K V R) (slot : ℕ) (key : Key) (tokens : Draft K)
    (logits : Fin K → Fin V → R) : SpecCache N K V R :=
  if h : slot < N then
    { c with
      keys := Function.update c.keys ⟨slot, h⟩ key
      tokens := Function.update c.tokens ⟨slot, h⟩ tokens
      logits := Function.update c.logits ⟨slot, h⟩ logits
      valid := Function.update c.valid ⟨slot, h⟩ true }
  else c

/-- `insert_batch`: the rows go to the slots from `startSlot` on. -/
def insertBatch (c : SpecCache N K V R) (startSlot : ℕ) :
    List (CacheRow K V R) → SpecCache N K V R
  | [] => c
  | row :: rows =>
    insertBatch (c.insert startSlot row.key row.tokens row.logits) (startSlot + 1) rows

/-! ## The arrays of a lookup

`lookupRow` reads off the first slot that matches. The source gets there by an `argmax`, a gather
and a mask. -/

/-- `argmax` of a row of integers: the first index of a largest entry. -/
def argmaxIndex (row : Fin N → ℕ) : ℤ :=
  match (List.finRange N).argmax row with
  | none => 0
  | some i => (i : ℕ)

/-- `a[idx]`: a negative index counts from the end, and one outside the array is moved to its
end. -/
def gather {α : Type*} (hN : N ≠ 0) (a : Fin N → α) (idx : ℤ) : α :=
  a ⟨(min (if idx < 0 then idx + N else idx) (N - 1)).toNat, by omega⟩

/-- `lookup`, array by array. -/
def lookupArrays [Zero R] {B : ℕ} (c : SpecCache N K V R) (requestKeys : Fin B → Key) :
    Option (Fin B → LookupRow K V R) :=
  if hN : N = 0 then none
  else
    let hit := fun b => (List.finRange N).any (c.matchesAt (requestKeys b))
    let idx := fun b =>
      if hit b then argmaxIndex fun i => if c.matchesAt (requestKeys b) i then 1 else 0 else -1
    some fun b =>
      { hit := hit b
        idx := idx b
        tokens := if hit b then gather hN c.tokens (idx b) else fun _ => 0
        logits := if hit b then gather hN c.logits (idx b) else fun _ _ => 0 }

theorem argmax_indicator {α : Type*} {l : List α} {p : α → Bool} (h : l.any p = true) :
    l.argmax (fun a => if p a then (1 : ℕ) else 0) = l.find? p := by
  induction l with
  | nil => cases h
  | cons a l ih =>
    rw [List.argmax_cons, List.find?_cons]
    cases ha : p a with
    | true =>
      cases l.argmax fun a => if p a then (1 : ℕ) else 0 with
      | none => rfl
      | some i => cases hi : p i <;> simp [hi]
    | false =>
      have hl : l.any p = true := by simpa [ha] using h
      rw [ih hl]
      obtain ⟨i, hi, hp⟩ := List.any_eq_true.mp hl
      cases hf : l.find? p with
      | none => exact absurd hp (List.find?_eq_none.mp hf i hi)
      | some j => simp [List.find?_some hf]

theorem gather_natCast {α : Type*} (hN : N ≠ 0) (a : Fin N → α) (i : Fin N) :
    gather hN a (i : ℕ) = a i := by
  unfold gather
  congr 1
  ext
  have := i.isLt
  simp only [Int.natCast_nonneg, not_lt.mpr, if_false]
  omega

theorem lookupArrays_eq [Zero R] {B : ℕ} (c : SpecCache N K V R) (requestKeys : Fin B → Key) :
    c.lookupArrays requestKeys = c.lookup requestKeys := by
  unfold lookupArrays lookup
  split_ifs with hN
  · rfl
  · simp only
    congr 1
    funext b
    unfold lookupRow find
    cases hf : (List.finRange N).find? (c.matchesAt (requestKeys b)) with
    | none =>
      have hany : (List.finRange N).any (c.matchesAt (requestKeys b)) = false := by
        rw [← List.isSome_find?, hf]
        rfl
      simp [hany]
    | some i =>
      have hany : (List.finRange N).any (c.matchesAt (requestKeys b)) = true := by
        rw [← List.isSome_find?, hf]
        rfl
      have hidx : argmaxIndex (fun i => if c.matchesAt (requestKeys b) i then 1 else 0) =
          ((i : ℕ) : ℤ) := by
        unfold argmaxIndex
        rw [argmax_indicator hany, hf]
      simp only [hany, if_true, hidx, gather_natCast]

variable {c : SpecCache N K V R} {key : Key}

/-! ## Entries -/

/-- The cache holds `tokens` under `key`, in some slot. -/
def Entry (c : SpecCache N K V R) (key : Key) (tokens : Draft K) : Prop :=
  ∃ i, c.valid i = true ∧ c.keys i = key ∧ c.tokens i = tokens

theorem not_entry_create [Zero R] (tokens : Draft K) :
    ¬ (create : SpecCache N K V R).Entry key tokens := by
  rintro ⟨i, hv, _⟩
  cases hv

/-! ## Slots -/

/-- The row in a slot, if the slot is valid. -/
def rowAt (c : SpecCache N K V R) (i : Fin N) : Option (CacheRow K V R) :=
  if c.valid i then some { key := c.keys i, tokens := c.tokens i, logits := c.logits i } else none

@[simp] theorem rowAt_create [Zero R] (i : Fin N) :
    (create : SpecCache N K V R).rowAt i = none := rfl

@[simp] theorem rowAt_reset (i : Fin N) : c.reset.rowAt i = none := rfl

/-- An insert replaces the whole row of its slot and touches no other. -/
theorem rowAt_insert (c : SpecCache N K V R) {slot : ℕ} (hslot : slot < N) (row : CacheRow K V R)
    (i : Fin N) : (c.insert slot row.key row.tokens row.logits).rowAt i =
      if slot = i then some row else c.rowAt i := by
  unfold insert rowAt
  rw [dif_pos hslot]
  by_cases hi : i = ⟨slot, hslot⟩
  · subst hi
    simp
  · have hne : slot ≠ i := fun h => hi (Fin.ext h.symm)
    simp only [Function.update_of_ne hi, if_neg hne]

theorem rowAt_insertBatch {slot : ℕ} {rows : List (CacheRow K V R)}
    (hslot : slot + rows.length ≤ N) (i : Fin N) : (c.insertBatch slot rows).rowAt i =
      if slot ≤ i ∧ i < slot + rows.length then rows[i - slot]? else c.rowAt i := by
  induction rows generalizing c slot with
  | nil =>
    rw [List.length_nil, if_neg (by omega)]
    rfl
  | cons row rows ih =>
    rw [List.length_cons] at hslot ⊢
    rw [insertBatch, ih (by omega), rowAt_insert c (by omega)]
    by_cases hi : slot = i
    · rw [if_neg (by omega), if_pos hi, if_pos (by omega), hi, Nat.sub_self]
      rfl
    · by_cases hin : slot ≤ i ∧ i < slot + (rows.length + 1)
      · have hsub : (i : ℕ) - slot = i - (slot + 1) + 1 := by omega
        rw [if_pos (by omega), if_pos hin, hsub]
        rfl
      · rw [if_neg (by omega), if_neg hi, if_neg hin]

theorem insertBatch_append (c : SpecCache N K V R) (slot : ℕ) (rows rows' : List (CacheRow K V R)) :
    c.insertBatch slot (rows ++ rows') =
      (c.insertBatch slot rows).insertBatch (slot + rows.length) rows' := by
  induction rows generalizing c slot with
  | nil => rfl
  | cons row rows ih =>
    rw [List.cons_append, insertBatch, insertBatch, ih, List.length_cons,
      show slot + 1 + rows.length = slot + (rows.length + 1) by omega]

/-- After a reset, a batch of inserts is all that the cache holds. -/
theorem rowAt_reset_insertBatch {rows : List (CacheRow K V R)} (hrows : rows.length ≤ N)
    (i : Fin N) : (c.reset.insertBatch 0 rows).rowAt i = rows[(i : ℕ)]? := by
  rw [rowAt_insertBatch (by omega)]
  split_ifs with hi
  · rfl
  · rw [List.getElem?_eq_none (by omega)]
    rfl

theorem entry_iff_rowAt {tokens : Draft K} :
    c.Entry key tokens ↔ ∃ i row, c.rowAt i = some row ∧ row.key = key ∧ row.tokens = tokens := by
  unfold Entry rowAt
  constructor
  · rintro ⟨i, hv, hk, ht⟩
    exact ⟨i, _, if_pos hv, hk, ht⟩
  · rintro ⟨i, row, hrow, hk, ht⟩
    split_ifs at hrow with hv
    obtain rfl := Option.some.inj hrow
    exact ⟨i, hv, hk, ht⟩

theorem entry_reset_insertBatch {rows : List (CacheRow K V R)} (hrows : rows.length ≤ N)
    {tokens : Draft K} : (c.reset.insertBatch 0 rows).Entry key tokens ↔
      ∃ row ∈ rows, row.key = key ∧ row.tokens = tokens := by
  rw [entry_iff_rowAt]
  constructor
  · rintro ⟨i, row, hrow, hrest⟩
    rw [rowAt_reset_insertBatch hrows] at hrow
    exact ⟨row, List.mem_of_getElem? hrow, hrest⟩
  · rintro ⟨row, hmem, hrest⟩
    obtain ⟨i, hi, rfl⟩ := List.mem_iff_getElem.mp hmem
    refine ⟨⟨i, lt_of_lt_of_le hi hrows⟩, _, ?_, hrest⟩
    rw [rowAt_reset_insertBatch hrows]
    exact List.getElem?_eq_getElem hi

/-! ## Lookup -/

theorem entry_of_hit [Zero R] (h : (c.lookupRow key).hit = true) :
    c.Entry key (c.lookupRow key).tokens := by
  unfold lookupRow at h ⊢
  cases hf : c.find key with
  | none => rw [hf] at h; cases h
  | some i =>
    have hm := List.find?_some hf
    unfold matchesAt at hm
    rw [Bool.and_eq_true, decide_eq_true_eq] at hm
    exact ⟨i, hm.2, hm.1.symm, rfl⟩

theorem hit_iff [Zero R] : (c.lookupRow key).hit = true ↔ ∃ tokens, c.Entry key tokens := by
  refine ⟨fun h => ⟨_, entry_of_hit h⟩, ?_⟩
  rintro ⟨tokens, i, hv, hk, _⟩
  have hm : c.matchesAt key i = true := by
    unfold matchesAt
    rw [hv, hk]
    simp
  have hsome : (c.find key).isSome = true :=
    List.find?_isSome.mpr ⟨i, List.mem_finRange i, hm⟩
  unfold lookupRow
  obtain ⟨j, hj⟩ := Option.isSome_iff_exists.mp hsome
  rw [hj]

/-- A miss is masked: nothing of the cache shows. -/
theorem lookupRow_of_miss [Zero R] (h : ¬ (c.lookupRow key).hit = true) : c.lookupRow key =
    { hit := false, idx := -1, tokens := fun _ => 0, logits := fun _ _ => 0 } := by
  unfold lookupRow at h ⊢
  cases hf : c.find key with
  | none => rfl
  | some i =>
    rw [hf] at h
    exact absurd rfl h

end SpecCache

end SsdTpu
