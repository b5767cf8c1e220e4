import Mathlib.Tactic

/-!
# Greedy continuations and drafts

`next` gives the token that follows a context. A list `Follows` a context `p` when each of its
tokens is the next one after `p` and the tokens before it; `extend` is the one such list of each
length. A draft is checked against `next` by `acceptLen`, the length of its longest prefix that
follows the context, and a `round` keeps that prefix and adds the next token after it.

`decode` is the abstract speculative decoder: it starts with one token and makes one round for each
draft. Whatever the drafts are, its output follows the prompt (`follows_decode`), so that two
decoders can only differ in how far they got (`extend_prefix`).
-/

namespace Greedy

variable {α : Type*} (next : List α → α)

/-- Every token of the list is the next one after the context and the tokens before it. -/
def Follows : List α → List α → Prop
  | _, [] => True
  | p, t :: l => t = next p ∧ Follows (p ++ [t]) l

/-- The greedy continuation of `p` by `n` tokens. -/
def extend : List α → ℕ → List α
  | _, 0 => []
  | p, n + 1 => next p :: extend (p ++ [next p]) n

variable {next}

@[simp] theorem follows_nil (p : List α) : Follows next p [] := trivial

@[simp] theorem follows_cons {p l : List α} {t : α} :
    Follows next p (t :: l) ↔ t = next p ∧ Follows next (p ++ [t]) l := Iff.rfl

theorem follows_append {p l m : List α} :
    Follows next p (l ++ m) ↔ Follows next p l ∧ Follows next (p ++ l) m := by
  induction l generalizing p with
  | nil => simp
  | cons t l ih =>
    rw [List.cons_append, follows_cons, follows_cons, ih, List.append_assoc, List.singleton_append,
      and_assoc]

theorem follows_singleton {p : List α} : Follows next p [next p] := ⟨rfl, trivial⟩

theorem follows_const_iff {c : α} {p l : List α} :
    Follows (fun _ => c) p l ↔ ∀ t ∈ l, t = c := by
  induction l generalizing p with
  | nil => simp
  | cons t l ih => rw [follows_cons, ih, List.forall_mem_cons]

theorem follows_iff_getElem {p l : List α} :
    Follows next p l ↔ ∀ i (h : i < l.length), l[i] = next (p ++ l.take i) := by
  induction l generalizing p with
  | nil => simp
  | cons t l ih =>
    rw [follows_cons, ih]
    constructor
    · rintro ⟨ht, hl⟩ i hi
      cases i with
      | zero => simpa using ht
      | succ i =>
        have := hl i (by simpa using hi)
        simpa using this
    · intro h
      refine ⟨(h 0 (Nat.succ_pos _)).trans (by simp), fun i hi => ?_⟩
      have := h (i + 1) (by simpa using hi)
      simpa using this

@[simp] theorem length_extend (p : List α) (n : ℕ) : (extend next p n).length = n := by
  induction n generalizing p with
  | zero => rfl
  | succ n ih => simp [extend, ih]

theorem Follows.eq_extend {p l : List α} (h : Follows next p l) :
    l = extend next p l.length := by
  induction l generalizing p with
  | nil => rfl
  | cons t l ih =>
    obtain ⟨rfl, hl⟩ := h
    rw [List.length_cons, extend, ← ih hl]

theorem extend_prefix (p : List α) {m n : ℕ} (h : m ≤ n) :
    extend next p m <+: extend next p n := by
  induction m generalizing p n with
  | zero => exact List.nil_prefix
  | succ m ih =>
    obtain ⟨n, rfl⟩ : ∃ k, n = k + 1 := ⟨n - 1, by omega⟩
    exact (List.prefix_cons_inj _).mpr (ih _ (by omega))

theorem follows_extend (p : List α) (n : ℕ) : Follows next p (extend next p n) := by
  induction n generalizing p with
  | zero => exact follows_nil p
  | succ n ih => exact ⟨rfl, ih _⟩

theorem take_extend (p : List α) {m n : ℕ} (h : m ≤ n) :
    (extend next p n).take m = extend next p m := by
  have hpre : extend next p m = (extend next p n).take (extend next p m).length :=
    List.prefix_iff_eq_take.mp <| extend_prefix p h
  rwa [length_extend, eq_comm] at hpre

theorem getElem_extend (p : List α) {n i : ℕ} (h : i < (extend next p n).length) :
    (extend next p n)[i] = next (p ++ extend next p i) := by
  rw [follows_iff_getElem.mp (follows_extend p n) i h, take_extend p (by simpa using h.le)]

/-! ## Checking a draft -/

section Draft

variable [DecidableEq α] (next)

/-- The length of the longest prefix of the draft that follows the context. -/
def acceptLen : List α → List α → ℕ
  | _, [] => 0
  | p, d :: ds => if d = next p then acceptLen (p ++ [d]) ds + 1 else 0

/-- What one round adds: the accepted prefix of the draft and the next token after it. -/
def round (p ds : List α) : List α :=
  ds.take (acceptLen next p ds) ++ [next (p ++ ds.take (acceptLen next p ds))]

/-- Speculative decoding of the prompt `p`: a first token, then one round for each draft. The draft
of a round may depend on the tokens so far. -/
def decode (p : List α) (draft : ℕ → List α → List α) : ℕ → List α
  | 0 => [next p]
  | i + 1 =>
    decode p draft i ++ round next (p ++ decode p draft i) (draft i (p ++ decode p draft i))

variable {next}

theorem acceptLen_le (p ds : List α) : acceptLen next p ds ≤ ds.length := by
  induction ds generalizing p with
  | nil => exact le_rfl
  | cons d ds ih =>
    unfold acceptLen
    split_ifs
    · exact Nat.succ_le_succ (ih _)
    · exact Nat.zero_le _

theorem follows_take_acceptLen (p ds : List α) :
    Follows next p (ds.take (acceptLen next p ds)) := by
  induction ds generalizing p with
  | nil => trivial
  | cons d ds ih =>
    unfold acceptLen
    split_ifs with h
    · exact ⟨h, ih _⟩
    · trivial

theorem follows_round (p ds : List α) : Follows next p (round next p ds) :=
  follows_append.mpr ⟨follows_take_acceptLen p ds, follows_singleton⟩

theorem length_round (p ds : List α) :
    (round next p ds).length = acceptLen next p ds + 1 := by
  have : acceptLen next p ds ≤ ds.length := acceptLen_le p ds
  simp [round, this]

theorem follows_decode (p : List α) (draft : ℕ → List α → List α) (i : ℕ) :
    Follows next p (decode next p draft i) := by
  induction i with
  | zero => exact follows_singleton
  | succ i ih => exact follows_append.mpr ⟨ih, follows_round _ _⟩

theorem length_decode_succ (p : List α) (draft : ℕ → List α → List α) (i : ℕ) :
    (decode next p draft (i + 1)).length = (decode next p draft i).length +
      acceptLen next (p ++ decode next p draft i) (draft i (p ++ decode next p draft i)) + 1 := by
  rw [decode, List.length_append, length_round, Nat.add_assoc]

theorem lt_length_decode (p : List α) (draft : ℕ → List α → List α) (i : ℕ) :
    i < (decode next p draft i).length := by
  induction i with
  | zero => simp [decode]
  | succ i ih =>
    rw [length_decode_succ]
    omega

theorem length_decode_strictMono (p : List α) (draft : ℕ → List α → List α) :
    StrictMono fun i => (decode next p draft i).length := by
  apply strictMono_nat_of_lt_succ
  intro i
  rw [length_decode_succ]
  omega

end Draft

/-! ## The longest initial segment on which a test holds -/

/-- `a` is the length of the longest initial segment of `0, …, k - 1` on which `m` holds. -/
structure IsInitial (m : ℕ → Prop) (k a : ℕ) : Prop where
  le : a ≤ k
  holds : ∀ j < a, m j
  stops : a < k → ¬ m a

theorem IsInitial.unique {m : ℕ → Prop} {k a b : ℕ} (ha : IsInitial m k a)
    (hb : IsInitial m k b) : a = b := by
  by_contra hne
  rcases Nat.lt_or_gt_of_ne hne with h | h
  · exact ha.stops (lt_of_lt_of_le h hb.le) (hb.holds a h)
  · exact hb.stops (lt_of_lt_of_le h ha.le) (ha.holds b h)

theorem IsInitial.congr {m m' : ℕ → Prop} {k a : ℕ} (h : ∀ j < k, m j ↔ m' j)
    (ha : IsInitial m k a) : IsInitial m' k a where
  le := ha.le
  holds j hj := (h j (lt_of_lt_of_le hj ha.le)).mp (ha.holds j hj)
  stops hk hm := ha.stops hk ((h a hk).mpr hm)

theorem IsInitial.le_iff {m : ℕ → Prop} {k a j : ℕ} (ha : IsInitial m k a) (hj : j ≤ k) :
    j ≤ a ↔ ∀ i < j, m i := by
  constructor
  · intro h i hi
    exact ha.holds i (by omega)
  · intro h
    by_contra hlt
    exact ha.stops (by omega) (h a (by omega))

theorem acceptLen_isInitial [DecidableEq α] (p ds : List α) :
    IsInitial (fun j => ds[j]? = some (next (p ++ ds.take j))) ds.length
      (acceptLen next p ds) := by
  induction ds generalizing p with
  | nil => exact ⟨le_rfl, by simp [acceptLen], by simp⟩
  | cons d ds ih =>
    unfold acceptLen
    split_ifs with h
    · obtain ⟨hle, hh, hs⟩ := ih (p ++ [d])
      refine ⟨Nat.succ_le_succ hle, fun j hj => ?_, fun hk => ?_⟩
      · cases j with
        | zero => simp [h]
        | succ j => simpa using hh j (by omega)
      · simpa using hs (by simpa using hk)
    · exact ⟨Nat.zero_le _, by simp, fun _ => by simpa using h⟩

/-- Two checks of a sequence `s`, against `t` and against `t` shifted by one place, stop at the same
position with the same token exactly if `t` does not change up to there. -/
theorem IsInitial.shift_iff {s t : ℕ → α} {k a b : ℕ}
    (ha : IsInitial (fun j => s j = t (j + 1)) k a) (hb : IsInitial (fun j => s j = t j) k b) :
    a = b ∧ t (min (a + 1) k) = t b ↔
      ∀ j < k, (∀ i < j, s i = t i) → t (j + 1) = t j := by
  constructor
  · rintro ⟨rfl, heq⟩ j hj hbefore
    have hle := (hb.le_iff hj.le).mpr hbefore
    rcases hle.lt_or_eq with h | rfl
    · exact (ha.holds j h).symm.trans (hb.holds j h)
    · rwa [min_eq_left (by omega)] at heq
  · intro h
    have hstep : ∀ j < k, j ≤ b → t (j + 1) = t j := fun j hj hle =>
      h j hj ((hb.le_iff hj.le).mp hle)
    have hab : a = b := by
      refine ha.unique ⟨hb.le, fun j hj => ?_, fun hk => ?_⟩
      · rw [hstep j (lt_of_lt_of_le hj hb.le) hj.le]
        exact hb.holds j hj
      · rw [hstep b hk le_rfl]
        exact hb.stops hk
    refine ⟨hab, ?_⟩
    subst hab
    rcases hb.le.lt_or_eq with hk | rfl
    · rw [min_eq_left (by omega)]
      exact hstep a hk le_rfl
    · rw [min_eq_right (by omega)]

end Greedy
