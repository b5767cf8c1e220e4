import SsdTpu.Adapter
import Mathlib.Data.List.Iterate

/-!
# The toy model

`ToyModelAdapter`: the logits of a position depend on the token at that position only, through a
hidden vector with at most two non-zero entries and a weight matrix `W`. The operations on `R` are
the rounded ones of the source; nothing is assumed about them.

Its next token is a function `T` of the last token (`next_concat`), which is all that the decoding
loops need to know.
-/

namespace SsdTpu

/-- `W` has shape `[hidden_dim, vocab_size]`. -/
structure ToyModelAdapter (R : Type*) (hiddenDim vocabSize : ℕ) where
  W : Fin hiddenDim → Fin vocabSize → R

namespace ToyModelAdapter

variable {R : Type*} {H V : ℕ} [NeZero H]

/-- `x % hidden_dim`, not negative for a negative `x`. -/
def hiddenIndex (x : ℤ) : Fin H :=
  ⟨(x % H).toNat, by
    have hpos : (0 : ℤ) < H := Int.natCast_pos.mpr (Nat.pos_of_neZero H)
    have hlt := Int.emod_lt_of_pos x hpos
    have hnn := Int.emod_nonneg x hpos.ne'
    omega⟩

section Logits

variable [Zero R] [One R] [Add R] [Mul R] [Div R]

/-- The hidden vector of a token. `t * 7` wraps in 32 bits; where the two indices meet, the second
assignment wins. -/
def hidden (t : Token) : Fin H → R :=
  Function.update (Function.update (fun _ => 0) (hiddenIndex t) 1)
    (hiddenIndex ((t * 7).bmod (2 ^ 32))) (1 / (1 + 1))

/-- One row of `h @ self.W`. -/
def logitsOfToken (m : ToyModelAdapter R H V) (t : Token) : Fin V → R := fun v =>
  (List.finRange H).foldl (fun acc i => acc + hidden t i * m.W i v) 0

/-- `_logits_from_tokens`. -/
def logitsFromTokens (m : ToyModelAdapter R H V) (tokenIds : List Token) : List (Fin V → R) :=
  tokenIds.map m.logitsOfToken

variable [LinearOrder R]

/-- The loop of `draft_speculate`. The prefix is empty in no call; if it were, `logits[0]` would
raise. -/
def draftLoop (m : ToyModelAdapter R H V) :
    ℕ → List Token → List (Fin V → R) → Option (List Token × List (Fin V → R))
  | 0, tokens, allLogits => some (tokens, allLogits)
  | n + 1, tokens, allLogits =>
    match tokens.getLast? with
    | none => none
    | some last =>
      let logits := m.logitsOfToken last
      draftLoop m n (tokens ++ [argmaxToken logits]) (allLogits ++ [logits])

/-- `draft_speculate`. With `k = 0`, `jnp.stack` of an empty list raises. -/
def draftSpeculate (m : ToyModelAdapter R H V) (prefixTokens : List Token) (k : ℕ) :
    Option (List Token × List (Fin V → R)) :=
  if k = 0 then none
  else (m.draftLoop k prefixTokens []).map fun r => (r.1.drop (r.1.length - k), r.2)

/-- The toy model keeps no state. -/
def adapter (m : ToyModelAdapter R H V) : DecodeModelAdapter Unit R V where
  allocateKv := id
  prefill t tokenIds _ := (m.logitsFromTokens tokenIds, t)
  decode t tokenId _ _ :=
    ({ logits := m.logitsFromTokens [tokenId], nextToken := argmaxToken (m.logitsOfToken tokenId) },
      t)
  verify t tokenIds _ _ := (fun _ i => m.logitsOfToken (tokenIds.get i), t)
  commitTokens := some fun t _ => t
  generateAr := none

/-- The next token after one token. -/
def T (m : ToyModelAdapter R H V) (t : Token) : Token := argmaxToken (m.logitsOfToken t)

/-- The next token after a context. -/
def next (m : ToyModelAdapter R H V) (ctx : List Token) : Token :=
  match ctx.getLast? with
  | none => 0
  | some t => m.T t

@[simp] theorem next_concat (m : ToyModelAdapter R H V) (ctx : List Token) (t : Token) :
    m.next (ctx ++ [t]) = m.T t := by
  simp [next]

theorem getLast?_logitsFromTokens (m : ToyModelAdapter R H V) {tokenIds : List Token}
    (h : tokenIds ≠ []) :
    ((m.logitsFromTokens tokenIds).getLast?).map argmaxToken = some (m.next tokenIds) := by
  obtain ⟨ctx, t, rfl⟩ := (List.eq_nil_or_concat' tokenIds).resolve_left h
  simp [logitsFromTokens, T]

/-! ## The toy draft -/

theorem draftLoop_eq (m : ToyModelAdapter R H V) (n : ℕ) (ctx : List Token) (t : Token)
    (allLogits : List (Fin V → R)) :
    (m.draftLoop n (ctx ++ [t]) allLogits).map Prod.fst =
      some (ctx ++ [t] ++ List.iterate m.T (m.T t) n) := by
  induction n generalizing ctx t allLogits with
  | zero => simp [draftLoop]
  | succ n ih =>
    unfold draftLoop
    rw [List.getLast?_concat]
    show (m.draftLoop n (ctx ++ [t] ++ [m.T t]) _).map Prod.fst = _
    rw [ih, List.iterate, List.append_assoc _ [m.T t], List.singleton_append]

theorem draftSpeculate_eq (m : ToyModelAdapter R H V) {k : ℕ} (hk : 1 ≤ k) (ctx : List Token)
    (t : Token) :
    (m.draftSpeculate (ctx ++ [t]) k).map Prod.fst = some (List.iterate m.T (m.T t) k) := by
  unfold draftSpeculate
  rw [if_neg (by omega), Option.map_map]
  have h := m.draftLoop_eq k ctx t []
  obtain ⟨r, hr, hfst⟩ := Option.map_eq_some_iff.mp h
  rw [hr, Option.map_some]
  show some (r.1.drop (r.1.length - k)) = _
  rw [hfst]
  congr 1
  apply List.drop_left'
  simp only [List.length_append, List.length_iterate, List.length_singleton]
  omega

end Logits

/-- A toy model that answers 1 after an even token and 2 after an odd one. -/
def alternating : ToyModelAdapter ℚ 2 3 where
  W i v := if (v : ℕ) = i + 1 then 1 else 0

end ToyModelAdapter

end SsdTpu
