import Mathlib.Tactic

/-!
# Configuration

Tokens, decode modes and the fields of `SSDConfig` that the runtime reads. A Python exception is
`none`.
-/

namespace SsdTpu

/-- A token id. The source keeps ids in `int32` arrays; one that does not fit, at which it raises,
is not told apart. -/
abbrev Token := ℤ

inductive DecodeMode where
  | ar
  | sd
  | ssd
  | instanceSsd
  deriving DecidableEq, Repr

/-- `tpu_role`; any other value of `SSD_TPU_ROLE` loads neither model. -/
inductive TpuRole where
  | both
  | target
  | draft
  | other
  deriving DecidableEq, Repr

def mean (xs : List ℚ) : ℚ := xs.sum / xs.length

structure SSDConfig where
  mode : DecodeMode := .ar
  speculateK : ℕ := 4
  fanOutList : List ℕ := [2, 2, 2, 2, 2]
  blockSize : ℕ := 16
  numBlocks : ℕ := 256
  tpuRole : TpuRole := .both
  /-- Not a field of the source: what `np.mean` makes of the scores of a window. The source takes it
  in float32, whose rounding can rank two windows otherwise than the exact mean, the default. -/
  windowMean : List ℚ → ℚ := mean

/-- `mq_len`: the fan-outs of the accepted lengths `0, …, k`, a list that is too short being
continued by its last entry. An empty list raises `IndexError` at `fan[-1]`. -/
def SSDConfig.mqLen (cfg : SSDConfig) : Option ℕ :=
  let k := cfg.speculateK
  let fan := cfg.fanOutList
  if fan.length < k + 1 then
    fan.getLast?.map fun last =>
      ((fan ++ List.replicate (k + 1 - fan.length) last).take (k + 1)).sum
  else some (fan.take (k + 1)).sum

/-- `load_draft` of `LLMEngine.__init__`. -/
abbrev SSDConfig.LoadDraft (cfg : SSDConfig) : Prop :=
  (cfg.tpuRole = .both ∨ cfg.tpuRole = .draft) ∧ cfg.mode ≠ .ar

structure SamplingParams where
  maxNewTokens : ℤ := 128

/-- The padded fan-out list has every entry of the given one among its first `k + 1`. -/
theorem SSDConfig.sum_take_le_mqLen {cfg : SSDConfig} {n : ℕ} (h : cfg.mqLen = some n) :
    (cfg.fanOutList.take (cfg.speculateK + 1)).sum ≤ n := by
  unfold mqLen at h
  simp only at h
  split_ifs at h with hlt
  · obtain ⟨last, _, rfl⟩ := Option.map_eq_some_iff.mp h
    rw [List.take_append, List.sum_append]
    exact Nat.le_add_right _ _
  · exact (Option.some.inj h).le

theorem SSDConfig.mqLen_isSome {cfg : SSDConfig} (h : cfg.fanOutList ≠ []) :
    cfg.mqLen.isSome := by
  unfold mqLen
  simp only
  split_ifs
  · simp [List.getLast?_isSome, h]
  · rfl

end SsdTpu
