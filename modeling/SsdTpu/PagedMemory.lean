import Mathlib.Tactic

/-!
# Paged memories

Owners keep a memory of their own each, in blocks of a shared one: the table of an owner lists its
blocks, and position `p` is at offset `p % blockSize` of block `p / blockSize` of the table.

1. When no block is in two places of the tables, different positions have different places
   (`place_inj`).
2. The shared memory *backs* the private ones when it holds their values (`Backed`). A write through
   a table keeps that (`Backed.store`), and so does a change of the tables that lengthens or
   shortens each of them at its end, if what is no longer covered is forgotten (`Backed.forget`).
-/

namespace PagedMemory

variable {ι β : Type*} {blockSize : ℕ} {tables tables' : ι → List ℕ}

/-- The block and the offset of a position. -/
def place (blockSize : ℕ) (table : List ℕ) (p : ℕ) : Option (ℕ × ℕ) :=
  table[p / blockSize]?.map fun b => (b, p % blockSize)

/-- No block is in two tables, nor twice in one. -/
def Distinct (tables : ι → List ℕ) : Prop :=
  ∀ (i j : ι) (m n b : ℕ), (tables i)[m]? = some b → (tables j)[n]? = some b → i = j ∧ m = n

theorem place_inj {i j : ι} {p q : ℕ} {x : ℕ × ℕ} (h : Distinct tables)
    (hp : place blockSize (tables i) p = some x) (hq : place blockSize (tables j) q = some x) :
    i = j ∧ p = q := by
  obtain ⟨b, hb, rfl⟩ := Option.map_eq_some_iff.mp hp
  obtain ⟨c, hc, heq⟩ := Option.map_eq_some_iff.mp hq
  obtain ⟨rfl, hoffset⟩ := Prod.mk.inj heq
  obtain ⟨rfl, hblock⟩ := h i j _ _ _ hb hc
  refine ⟨rfl, ?_⟩
  rw [← Nat.div_add_mod p blockSize, hblock, ← hoffset, Nat.div_add_mod]

/-- The shared memory, undefined outside its range, holds every value of the private memories at
its place. -/
def Backed (blockSize : ℕ) (tables : ι → List ℕ) (phys : ℕ × ℕ → Option β)
    (virt : ι → ℕ → Option β) : Prop :=
  ∀ i p v, virt i p = some v → ∃ x, place blockSize (tables i) p = some x ∧ phys x = some v

section Store

variable [DecidableEq ι]

/-- One owner writes one position. -/
def store (virt : ι → ℕ → Option β) (i : ι) (p : ℕ) (v : β) : ι → ℕ → Option β :=
  Function.update virt i (Function.update (virt i) p (some v))

theorem store_self (virt : ι → ℕ → Option β) (i : ι) (p : ℕ) (v : β) :
    store virt i p v i p = some v := by
  unfold store
  rw [Function.update_self, Function.update_self]

theorem store_of_ne {virt : ι → ℕ → Option β} {i j : ι} {p q : ℕ} {v : β}
    (h : ¬ (j = i ∧ q = p)) : store virt i p v j q = virt j q := by
  unfold store
  by_cases hj : j = i
  · subst hj
    rw [Function.update_self, Function.update_of_ne fun hq => h ⟨rfl, hq⟩]
  · rw [Function.update_of_ne hj]

/-- **A write through a table.** Only the position that is written loses its old value. -/
theorem Backed.store {phys phys' : ℕ × ℕ → Option β} {virt : ι → ℕ → Option β} {i : ι} {p : ℕ}
    {x : ℕ × ℕ} {v : β} (h : Backed blockSize tables phys virt) (hd : Distinct tables)
    (hx : place blockSize (tables i) p = some x) (hv : phys' x = some v)
    (hother : ∀ y, y ≠ x → phys' y = phys y) :
    Backed blockSize tables phys' (store virt i p v) := by
  intro j q w hw
  by_cases heq : j = i ∧ q = p
  · obtain ⟨rfl, rfl⟩ := heq
    rw [store_self] at hw
    obtain rfl := Option.some.inj hw
    exact ⟨x, hx, hv⟩
  · rw [store_of_ne heq] at hw
    obtain ⟨y, hy, hyw⟩ := h j q w hw
    refine ⟨y, hy, ?_⟩
    rw [hother y fun hyx => heq (place_inj hd (hyx ▸ hy) hx), hyw]

end Store

/-! ## Tables that change -/

/-- The values at positions that the tables cover. -/
def forget (blockSize : ℕ) (tables : ι → List ℕ) (virt : ι → ℕ → Option β) : ι → ℕ → Option β :=
  fun i p => if p < (tables i).length * blockSize then virt i p else none

theorem place_of_prefix {table table' : List ℕ} {p : ℕ} {x : ℕ × ℕ} (h : table <+: table')
    (hx : place blockSize table p = some x) : place blockSize table' p = some x := by
  obtain ⟨b, hb, rfl⟩ := Option.map_eq_some_iff.mp hx
  obtain ⟨rest, rfl⟩ := h
  unfold place
  rw [List.getElem?_append_left (List.getElem?_eq_some_iff.mp hb).1, hb]
  rfl

theorem place_of_lt {table : List ℕ} {p : ℕ} (h : p < table.length * blockSize) :
    ∃ x, place blockSize table p = some x := by
  have hlt : p / blockSize < table.length :=
    Nat.div_lt_of_lt_mul (Nat.mul_comm table.length _ ▸ h)
  unfold place
  rw [List.getElem?_eq_getElem hlt]
  exact ⟨_, rfl⟩

/-- **A change of the tables.** A value stays as long as its position is covered. -/
theorem Backed.forget {phys : ℕ × ℕ → Option β} {virt : ι → ℕ → Option β}
    (h : Backed blockSize tables phys virt)
    (hcmp : ∀ i, tables i <+: tables' i ∨ tables' i <+: tables i) :
    Backed blockSize tables' phys (forget blockSize tables' virt) := by
  intro i p v hv
  unfold PagedMemory.forget at hv
  split_ifs at hv with hp
  obtain ⟨x, hx, hxv⟩ := h i p v hv
  refine ⟨x, ?_, hxv⟩
  rcases hcmp i with hpre | hpre
  · exact place_of_prefix hpre hx
  · obtain ⟨y, hy⟩ := place_of_lt hp
    have hyx := place_of_prefix hpre hy
    rw [hx] at hyx
    rwa [Option.some.inj hyx]

end PagedMemory
