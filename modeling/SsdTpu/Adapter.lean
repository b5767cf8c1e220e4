import SsdTpu.Config
import Mathlib.Data.List.MinMax

/-!
# The model interface

`DecodeModelAdapter` as a record of functions over the adapter's own state `τ`. A row of logits is a
function `Fin V → R` into a linear order, an array of shape `[n, V]` is a list of rows. The
`kv_cache` arguments are left out: every adapter passes them through unread.
-/

namespace SsdTpu

variable {τ R : Type*} {V : ℕ}

/-- `int(jnp.argmax(logits))`: the first position of a largest entry. The source raises on an empty
vocabulary, where this is 0. -/
def argmaxToken [LinearOrder R] (logits : Fin V → R) : Token :=
  match (List.finRange V).argmax logits with
  | none => 0
  | some i => (i : ℕ)

structure DecodeResult (R : Type*) (V : ℕ) where
  logits : List (Fin V → R)
  nextToken : Token

/-- A target model. The two optional methods are those that `getattr` may not find. -/
structure DecodeModelAdapter (τ R : Type*) (V : ℕ) where
  allocateKv : τ → τ
  /-- Arguments: the token ids and the page table. -/
  prefill : τ → List Token → List ℕ → List (Fin V → R) × τ
  /-- Arguments: the token, its position and the page table. -/
  decode : τ → Token → ℕ → List ℕ → DecodeResult R V × τ
  /-- Arguments: the `k + 1` tokens, their positions and the page table; the logits have shape
  `[1, k + 1, V]`. -/
  verify : τ → (tokenIds : List Token) → List ℕ → List ℕ →
    (Fin 1 → Fin tokenIds.length → Fin V → R) × τ
  commitTokens : Option (τ → List Token → τ)
  /-- Arguments: the prompt and `max_new_tokens`; a decode loop outside the engine, which may
  raise. -/
  generateAr : Option (τ → List Token → ℤ → Option (List Token × τ))

/-- `_commit`: adapters without `commit_tokens` do nothing. -/
def DecodeModelAdapter.commit (m : DecodeModelAdapter τ R V) (t : τ) (tokenIds : List Token) : τ :=
  match m.commitTokens with
  | none => t
  | some commit => commit t tokenIds

end SsdTpu
