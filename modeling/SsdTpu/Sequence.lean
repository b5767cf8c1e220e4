import SsdTpu.Config

/-!
# Per-request sequence state

The dataclass `Sequence` of the scheduler. Its blocks are indices into the page pool.
-/

namespace SsdTpu

inductive SequenceStatus where
  | waiting
  | running
  | finished
  | preempted
  deriving DecidableEq, Repr

structure Sequence where
  seqId : ℕ
  promptTokenIds : List Token
  status : SequenceStatus := .waiting
  completionTokenIds : List Token := []
  blockTable : List ℕ := []
  draftBlockTable : List ℕ := []
  recoveryToken : Token := 0
  numCachedTokens : ℕ := 0
  deriving DecidableEq, Repr

namespace Sequence

def tokenIds (seq : Sequence) : List Token := seq.promptTokenIds ++ seq.completionTokenIds

def numTokens (seq : Sequence) : ℕ := seq.tokenIds.length

def numCompletionTokens (seq : Sequence) : ℕ := seq.completionTokenIds.length

def appendTokens (seq : Sequence) (tokens : List Token) : Sequence :=
  { seq with completionTokenIds := seq.completionTokenIds ++ tokens }

def appendToken (seq : Sequence) (token : Token) : Sequence := seq.appendTokens [token]

/-- The budget is checked first; the last token is compared with `eos_id` when there is one. -/
def isFinished (seq : Sequence) (eosId : Option Token) (maxTokens : ℤ) : Bool :=
  decide (maxTokens ≤ seq.numCompletionTokens) ||
    match eosId with
    | none => false
    | some eos => decide (seq.completionTokenIds.getLast? = some eos)

/-- All blocks the sequence owns, target table first. -/
def blocks (seq : Sequence) : List ℕ := seq.blockTable ++ seq.draftBlockTable

section AppendTokens

variable (seq : Sequence) (tokens : List Token)

@[simp] theorem appendTokens_completion :
    (seq.appendTokens tokens).completionTokenIds = seq.completionTokenIds ++ tokens := rfl
@[simp] theorem appendTokens_prompt :
    (seq.appendTokens tokens).promptTokenIds = seq.promptTokenIds := rfl
@[simp] theorem appendTokens_seqId : (seq.appendTokens tokens).seqId = seq.seqId := rfl
@[simp] theorem appendTokens_status : (seq.appendTokens tokens).status = seq.status := rfl
@[simp] theorem appendTokens_blockTable :
    (seq.appendTokens tokens).blockTable = seq.blockTable := rfl
@[simp] theorem appendTokens_draftBlockTable :
    (seq.appendTokens tokens).draftBlockTable = seq.draftBlockTable := rfl
@[simp] theorem appendTokens_blocks : (seq.appendTokens tokens).blocks = seq.blocks := rfl

@[simp] theorem appendTokens_tokenIds :
    (seq.appendTokens tokens).tokenIds = seq.tokenIds ++ tokens := by
  simp [tokenIds]

end AppendTokens

/-- Only the completion and the recovery token differ. -/
structure SameRequest (seq seq' : Sequence) : Prop where
  seqId : seq'.seqId = seq.seqId
  prompt : seq'.promptTokenIds = seq.promptTokenIds
  status : seq'.status = seq.status
  blockTable : seq'.blockTable = seq.blockTable
  draftBlockTable : seq'.draftBlockTable = seq.draftBlockTable

theorem SameRequest.refl (seq : Sequence) : SameRequest seq seq := ⟨rfl, rfl, rfl, rfl, rfl⟩

theorem SameRequest.appendTokens {seq seq' : Sequence} (h : SameRequest seq seq')
    (tokens : List Token) : SameRequest seq (seq'.appendTokens tokens) :=
  ⟨h.seqId, h.prompt, h.status, h.blockTable, h.draftBlockTable⟩

theorem SameRequest.blocks_eq {seq seq' : Sequence} (h : SameRequest seq seq') :
    seq'.blocks = seq.blocks := by
  unfold blocks
  rw [h.blockTable, h.draftBlockTable]

theorem isFinished_none {seq : Sequence} {maxTokens : ℤ} :
    seq.isFinished none maxTokens = true ↔ maxTokens ≤ seq.completionTokenIds.length := by
  simp only [isFinished, Bool.or_false]
  exact decide_eq_true_iff

theorem not_isFinished_none {seq : Sequence} {maxTokens : ℤ} :
    (!seq.isFinished none maxTokens) = true ↔ (seq.completionTokenIds.length : ℤ) < maxTokens := by
  rw [Bool.not_eq_true', ← Bool.not_eq_true, isFinished_none, not_le]

end Sequence

end SsdTpu
