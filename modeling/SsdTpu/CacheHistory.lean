import SsdTpu.SpecCache

/-!
# Lookups over a history

What a slot of the cache says is a row or nothing (`rowAt`), and each operation changes that
function of the slots in the plainest way: `create` and `reset` empty it, an insert updates it at
one slot. The keys, tokens and logits that stay behind in the arrays do not show in it.

1. `rowAt_run`: after any operations, a slot says what `lastInsert` reads off the history.
2. `exactRow_lookupRow`: a lookup answers by `rowAt` alone.
3. `lookup_exact` puts them together.
-/

namespace SsdTpu

namespace SpecCache

variable {N K V : ℕ} {R : Type*}

/-! ## Operations -/

inductive Op (K V : ℕ) (R : Type*) where
  | create
  | reset
  | insert (slot : ℕ) (row : CacheRow K V R)
  | insertBatch (startSlot : ℕ) (rows : List (CacheRow K V R))

/-- The slots of the operation are slots of the cache. -/
def Op.InRange (N : ℕ) : Op K V R → Prop
  | create => True
  | reset => True
  | insert slot _ => slot < N
  | insertBatch startSlot rows => startSlot + rows.length ≤ N

def apply [Zero R] (c : SpecCache N K V R) : Op K V R → SpecCache N K V R
  | .create => create
  | .reset => c.reset
  | .insert slot row => c.insert slot row.key row.tokens row.logits
  | .insertBatch startSlot rows => c.insertBatch startSlot rows

/-- The cache after the operations, in order. -/
def run [Zero R] (ops : List (Op K V R)) : SpecCache N K V R := ops.foldl apply create

/-! ## The history of a slot -/

/-- One event: all slots are cleared, or a row is inserted into a slot. -/
inductive Event (K V : ℕ) (R : Type*) where
  | cleared
  | inserted (slot : ℕ) (row : CacheRow K V R)

/-- The inserts of a batch, one slot after the other. -/
def batchEvents : ℕ → List (CacheRow K V R) → List (Event K V R)
  | _, [] => []
  | slot, row :: rows => .inserted slot row :: batchEvents (slot + 1) rows

def Op.events : Op K V R → List (Event K V R)
  | create => [.cleared]
  | reset => [.cleared]
  | insert slot row => [.inserted slot row]
  | insertBatch startSlot rows => batchEvents startSlot rows

/-- The most recent insert into the slot since all slots were last cleared, over the events from the
most recent one back. -/
def lastInsert (slot : ℕ) : List (Event K V R) → Option (CacheRow K V R)
  | [] => none
  | .cleared :: _ => none
  | .inserted slot' row :: events => if slot' = slot then some row else lastInsert slot events

/-- The most recent insert of a sequence of operations into the slot. -/
def mostRecent (ops : List (Op K V R)) (slot : ℕ) : Option (CacheRow K V R) :=
  lastInsert slot (ops.flatMap Op.events).reverse

/-! ## What a slot says -/

theorem rowAt_insertBatch_events (c : SpecCache N K V R) {slot : ℕ} {rows : List (CacheRow K V R)}
    (hslot : slot + rows.length ≤ N) (i : Fin N) {events : List (Event K V R)}
    (h : c.rowAt i = lastInsert i events) :
    (c.insertBatch slot rows).rowAt i =
      lastInsert i ((batchEvents slot rows).reverse ++ events) := by
  induction rows generalizing c slot events with
  | nil => exact h
  | cons row rows ih =>
    rw [List.length_cons] at hslot
    have hrow : (c.insert slot row.key row.tokens row.logits).rowAt i =
        lastInsert i (.inserted slot row :: events) := by
      rw [rowAt_insert c (by omega), h]
      rfl
    rw [insertBatch, ih _ (by omega) hrow, batchEvents, List.reverse_cons, List.append_assoc]
    rfl

variable [Zero R]

theorem rowAt_apply (c : SpecCache N K V R) {op : Op K V R} (hop : op.InRange N) (i : Fin N)
    {events : List (Event K V R)} (h : c.rowAt i = lastInsert i events) :
    (c.apply op).rowAt i = lastInsert i (op.events.reverse ++ events) := by
  cases op with
  | create => rfl
  | reset => rfl
  | insert slot row =>
    show (c.insert slot row.key row.tokens row.logits).rowAt i = _
    rw [rowAt_insert c hop, h]
    rfl
  | insertBatch startSlot rows => exact rowAt_insertBatch_events c hop i h

theorem rowAt_run {ops : List (Op K V R)} (hops : ∀ op ∈ ops, op.InRange N) (i : Fin N) :
    (run ops : SpecCache N K V R).rowAt i = mostRecent ops i := by
  unfold run mostRecent
  have hgen : ∀ (c : SpecCache N K V R) (events : List (Event K V R)),
      c.rowAt i = lastInsert i events → (ops.foldl apply c).rowAt i =
        lastInsert i ((ops.flatMap Op.events).reverse ++ events) := by
    induction ops with
    | nil => exact fun c events h => h
    | cons op ops ih =>
      intro c events h
      obtain ⟨hop, hops⟩ := List.forall_mem_cons.mp hops
      rw [List.foldl_cons, List.flatMap_cons, List.reverse_append, List.append_assoc]
      exact ih hops _ _ (rowAt_apply c hop i h)
  have := hgen create [] rfl
  rwa [List.append_nil] at this

/-! ## Lookups -/

/-- The answer to one key: the lowest slot whose most recent insert carries it, or a miss. -/
structure ExactRow (last : ℕ → Option (CacheRow K V R)) (N : ℕ) (key : Key)
    (row : LookupRow K V R) : Prop where
  hit : row.hit = true ↔ ∃ i < N, ∃ r, last i = some r ∧ r.key = key
  found : row.hit = true → ∃ i < N, ∃ r, row.idx = i ∧ last i = some r ∧ r.key = key ∧
    row.tokens = r.tokens ∧ row.logits = r.logits ∧
    ∀ j < i, ∀ r', last j = some r' → r'.key ≠ key
  miss : row.hit = false → row.idx = -1 ∧ row.tokens = (fun _ => 0) ∧ row.logits = fun _ _ => 0

omit [Zero R] in
theorem matchesAt_iff {c : SpecCache N K V R} {key : Key} {i : Fin N} :
    c.matchesAt key i = true ↔ ∃ r, c.rowAt i = some r ∧ r.key = key := by
  unfold matchesAt rowAt
  cases hv : c.valid i with
  | false => simp
  | true => simp [eq_comm]

omit [Zero R] in
theorem find_eq_some_iff {c : SpecCache N K V R} {key : Key} {i : Fin N} :
    c.find key = some i ↔ c.matchesAt key i = true ∧ ∀ j < i, ¬ c.matchesAt key j = true :=
  List.find?_ofFn_eq_some_of_injective Function.injective_id

omit [Zero R] in
theorem find_eq_none_iff {c : SpecCache N K V R} {key : Key} :
    c.find key = none ↔ ∀ i, ¬ c.matchesAt key i = true := by
  unfold find
  rw [List.find?_eq_none]
  exact ⟨fun h i => h i (List.mem_finRange i), fun h i _ => h i⟩

/-- A lookup answers by the rows of the valid slots. -/
theorem exactRow_lookupRow (c : SpecCache N K V R) {last : ℕ → Option (CacheRow K V R)}
    (hlast : ∀ i : Fin N, c.rowAt i = last i) (key : Key) :
    ExactRow last N key (c.lookupRow key) := by
  have hmatch : ∀ i : Fin N, c.matchesAt key i = true ↔ ∃ r, last i = some r ∧ r.key = key := by
    intro i
    rw [matchesAt_iff, hlast]
  unfold lookupRow
  cases hf : c.find key with
  | none =>
    have hnone := find_eq_none_iff.mp hf
    refine ⟨iff_of_false (by simp) ?_, fun h => (by cases h), fun _ => ⟨rfl, rfl, rfl⟩⟩
    rintro ⟨i, hi, hr⟩
    exact hnone ⟨i, hi⟩ ((hmatch ⟨i, hi⟩).mpr hr)
  | some i =>
    obtain ⟨hi, hlow⟩ := find_eq_some_iff.mp hf
    obtain ⟨r, hr, hkey⟩ := (hmatch i).mp hi
    have hrow : c.rowAt i = some r := (hlast i).trans hr
    unfold rowAt at hrow
    split_ifs at hrow with hv
    obtain rfl := Option.some.inj hrow
    refine ⟨iff_of_true rfl ⟨i, i.isLt, _, hr, hkey⟩, fun _ =>
      ⟨i, i.isLt, _, rfl, hr, hkey, rfl, rfl, fun j hj r' hr' hkey' => ?_⟩, fun h => (by cases h)⟩
    have hjN : j < N := hj.trans i.isLt
    exact hlow ⟨j, hjN⟩ hj ((hmatch ⟨j, hjN⟩).mpr ⟨r', hr', hkey'⟩)

/-- **Lookups are exact over any history.** Each row of the answer is the one that the most recent
inserts give for its key, and equal keys get equal answers, in whatever batches they stand. -/
theorem lookup_exact (hN : 1 ≤ N) (ops : List (Op K V R)) (hops : ∀ op ∈ ops, op.InRange N) {B : ℕ}
    (requestKeys : Fin B → Key) :
    ∃ rows, (run ops : SpecCache N K V R).lookupArrays requestKeys = some rows ∧
      (∀ b, ExactRow (mostRecent ops) N (requestKeys b) (rows b)) ∧
      ∀ (B' : ℕ) (requestKeys' : Fin B' → Key),
        ∃ rows', (run ops : SpecCache N K V R).lookupArrays requestKeys' = some rows' ∧
          ∀ b b', requestKeys' b' = requestKeys b → rows' b' = rows b := by
  have hrows : ∀ {B : ℕ} (keys : Fin B → Key), (run ops : SpecCache N K V R).lookupArrays keys =
      some fun b => (run ops : SpecCache N K V R).lookupRow (keys b) := by
    intro B keys
    rw [lookupArrays_eq]
    unfold lookup
    rw [if_neg (by omega)]
  refine ⟨_, hrows requestKeys, fun b => exactRow_lookupRow _ (rowAt_run hops) _,
    fun B' requestKeys' => ⟨_, hrows requestKeys', fun b b' hkey => ?_⟩⟩
  rw [hkey]

/-- A row that was reset away, one row put in after it, and the key of the slots never used. -/
theorem lookup_exact_reset :
    ∃ rows, (run [.insert 0 ⟨![7, 1, 1], ![5], fun _ _ => 0⟩, .reset,
        .insertBatch 1 [⟨![7, 0, 2], ![9], fun _ _ => 0⟩]] : SpecCache 2 1 1 ℤ).lookupArrays
          ![![7, 0, 2], ![7, 1, 1], ![0, 0, 0]] = some rows ∧
      (rows 0).hit = true ∧ (rows 0).idx = 1 ∧ (rows 0).tokens 0 = 9 ∧
      (rows 1).hit = false ∧ (rows 1).idx = -1 ∧ (rows 1).tokens = (fun _ => 0) ∧
      (rows 2).hit = false := by
  obtain ⟨rows, hrows, hexact, _⟩ := lookup_exact (N := 2) (K := 1) (V := 1) (R := ℤ) (by decide)
    [.insert 0 ⟨![7, 1, 1], ![5], fun _ _ => 0⟩, .reset,
      .insertBatch 1 [⟨![7, 0, 2], ![9], fun _ _ => 0⟩]] (by simp [Op.InRange])
    ![![7, 0, 2], ![7, 1, 1], ![0, 0, 0]]
  have hmiss : (rows 1).hit = false := by
    rw [← Option.some.inj hrows]
    decide
  refine ⟨rows, hrows, (hexact 0).hit.mpr ⟨1, by decide, _, rfl, rfl⟩, ?_, ?_, hmiss,
    ((hexact 1).miss hmiss).1, ((hexact 1).miss hmiss).2.1, ?_⟩
  all_goals
    rw [← Option.some.inj hrows]
    decide

end SpecCache

end SsdTpu
