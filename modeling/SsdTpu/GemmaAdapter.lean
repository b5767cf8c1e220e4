import SsdTpu.Adapter

/-!
# The Gemma adapter

`GemmaAdapter` over a causal language model `lm`: the logits after a context. The state is
`_past_key_values`, read as the list of tokens the cache was computed from, `none` before the first
forward pass. The model called with cache `c` on input `x` returns, for each position of `x`, the
logits after `c` and the input up to there, and the cache of `c ++ x`.
-/

namespace SsdTpu

structure GemmaAdapter (R : Type*) (V : ℕ) where
  lm : List Token → Fin V → R

namespace GemmaAdapter

variable {R : Type*} {V : ℕ}

/-- `_past_key_values`. -/
abbrev Past := Option (List Token)

/-- The tokens behind the cache. -/
def context (past : Past) : List Token := past.getD []

/-- The logits of each position of the input, with the given cache. -/
def forward (m : GemmaAdapter R V) (past : Past) (inputIds : List Token) :
    Fin inputIds.length → Fin V → R := fun i =>
  m.lm (context past ++ inputIds.take (i + 1))

/-- `_run_forward` on one row. The state is replaced only with `update_cache`. -/
def runForward (m : GemmaAdapter R V) (self : Past) (inputIds : List Token) (past : Past)
    (updateCache : Bool) : (Fin inputIds.length → Fin V → R) × Past :=
  (m.forward past inputIds, if updateCache then some (context past ++ inputIds) else self)

/-- `prefill` passes no cache: it computes the prompt from scratch. -/
def prefill (m : GemmaAdapter R V) (self : Past) (tokenIds : List Token) :
    List (Fin V → R) × Past :=
  let r := m.runForward self tokenIds none true
  (List.ofFn r.1, r.2)

/-- `commit_tokens`: one forward pass for each token. -/
def commitTokens (m : GemmaAdapter R V) (self : Past) (tokenIds : List Token) : Past :=
  tokenIds.foldl (fun self tok => (m.runForward self [tok] self true).2) self

theorem context_commitTokens (m : GemmaAdapter R V) (self : Past) (tokenIds : List Token) :
    context (m.commitTokens self tokenIds) = context self ++ tokenIds := by
  induction tokenIds generalizing self with
  | nil => simp [commitTokens]
  | cons t ts ih =>
    show context (m.commitTokens (some (context self ++ [t])) ts) = _
    rw [ih]
    simp [context]

variable [LinearOrder R]

def decode (m : GemmaAdapter R V) (self : Past) (tokenId : Token) : DecodeResult R V × Past :=
  let r := m.runForward self [tokenId] self true
  ({ logits := List.ofFn r.1, nextToken := argmaxToken (r.1 0) }, r.2)

def adapter (m : GemmaAdapter R V) : DecodeModelAdapter Past R V where
  -- `reset_cache`
  allocateKv _ := none
  prefill self tokenIds _ := m.prefill self tokenIds
  decode self tokenId _ _ := m.decode self tokenId
  verify self tokenIds _ _ :=
    let r := m.runForward self tokenIds self false
    (fun _ => r.1, r.2)
  commitTokens := some m.commitTokens
  generateAr := none

/-- The loop of `draft_speculate`: the token is fed back, and what comes out of the decode step is
collected. -/
def draftLoop (m : GemmaAdapter R V) :
    ℕ → Past → Token → List Token → List (Fin V → R) → Option (List Token × List (Fin V → R))
  | 0, _, _, spec, logitsList => some (spec, logitsList)
  | n + 1, self, token, spec, logitsList =>
    let dec := m.decode self token
    match dec.1.logits.getLast? with
    | none => none
    | some logits =>
      draftLoop m n dec.2 dec.1.nextToken (spec ++ [dec.1.nextToken]) (logitsList ++ [logits])

/-- `draft_speculate`, with the state it leaves: the cache is reset, and the saved one put back. An
empty prefix has no last logits, and `jnp.stack` of an empty list raises. -/
def draftSpeculate (m : GemmaAdapter R V) (self : Past) (prefixTokens : List Token) (k : ℕ) :
    Option ((List Token × List (Fin V → R)) × Past) :=
  let saved := self
  let pre := m.prefill none prefixTokens
  match pre.1.getLast? with
  | none => none
  | some logits =>
    (m.draftLoop k pre.2 (argmaxToken logits) [] []).bind fun r =>
      if r.2.isEmpty then none else some (r, saved)

/-- The greedy next token after a context. -/
def next (m : GemmaAdapter R V) (ctx : List Token) : Token := argmaxToken (m.lm ctx)

theorem getLast?_prefill (m : GemmaAdapter R V) (self : Past) {tokenIds : List Token}
    (h : tokenIds ≠ []) :
    ((m.prefill self tokenIds).1.getLast?).map argmaxToken = some (m.next tokenIds) := by
  have hpos : 0 < tokenIds.length := List.length_pos_of_ne_nil h
  unfold prefill runForward forward
  rw [List.getLast?_eq_getElem?, List.length_ofFn, List.getElem?_ofFn]
  simp only [hpos, Nat.sub_lt, Nat.one_pos, dif_pos, Option.map_some]
  rw [Nat.sub_add_cancel hpos, List.take_length]
  rfl

/-- A language model whose next token is the length of the context modulo 3. -/
def lengthModel : GemmaAdapter ℕ 3 where
  lm ctx v := if (v : ℕ) = ctx.length % 3 then 1 else 0

end GemmaAdapter

end SsdTpu
