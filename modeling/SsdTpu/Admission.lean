import SsdTpu.Scheduler

/-!
# Admission

What `schedule` can do to the lists and to the sequence objects, whatever the pool holds: it moves
sequences from `waiting` to `running`, finishes and creates none, and leaves the tokens of every
sequence alone.
-/

namespace SsdTpu

/-- The identity and the tokens are the same. -/
structure Sequence.SameTokens (seq seq' : Sequence) : Prop where
  seqId : seq'.seqId = seq.seqId
  prompt : seq'.promptTokenIds = seq.promptTokenIds
  completion : seq'.completionTokenIds = seq.completionTokenIds

theorem Sequence.SameTokens.refl (seq : Sequence) : SameTokens seq seq := ⟨rfl, rfl, rfl⟩

theorem Sequence.SameTokens.trans {seq seq' seq'' : Sequence} (h : SameTokens seq seq')
    (h' : SameTokens seq' seq'') : SameTokens seq seq'' :=
  ⟨h'.seqId.trans h.seqId, h'.prompt.trans h.prompt, h'.completion.trans h.completion⟩

theorem toOption_eq_some {ε α : Type*} {x : Except ε α} {a : α} :
    x.toOption = some a ↔ x = .ok a := by
  cases x <;> simp [Except.toOption]

namespace Scheduler

variable {cfg : SSDConfig} {s s' : Scheduler} {r : ℕ}

/-- `allocate` on a block size of at least 1. -/
def grow (s : Scheduler) (r reserve : ℕ) : Bool × Scheduler :=
  let a := s.pageManager.growTable (s.seqs r).numTokens reserve (s.seqs r).blockTable
  (a.1, { s.setSeq r { s.seqs r with blockTable := a.2.2 } with pageManager := a.2.1 })

def growDraft (s : Scheduler) (r reserve : ℕ) : Bool × Scheduler :=
  let a := s.pageManager.growTable (s.seqs r).numTokens reserve (s.seqs r).draftBlockTable
  (a.1, { s.setSeq r { s.seqs r with draftBlockTable := a.2.2 } with pageManager := a.2.1 })

theorem allocate_eq (s : Scheduler) (r n : ℕ) : s.allocate r n =
    if s.pageManager.blockSize = 0 then .error s else .ok (s.grow r n) := by
  unfold allocate PageManager.allocate PageManager.allocateTable
  split_ifs <;> rfl

theorem allocateDraft_eq (s : Scheduler) (r n : ℕ) : s.allocateDraft r n =
    if s.pageManager.blockSize = 0 then .error s else .ok (s.growDraft r n) := by
  unfold allocateDraft PageManager.allocateDraft PageManager.allocateTable
  split_ifs <;> rfl

@[simp] theorem grow_blockSize (s : Scheduler) (r n : ℕ) :
    (s.grow r n).2.pageManager.blockSize = s.pageManager.blockSize :=
  (PageManager.sameSize_growTable _ _ _ _).1

/-- What an admission attempt does: it raises on a block size of 0, and otherwise makes one
allocation, or both. -/
theorem reserveBlocks_eq (cfg : SSDConfig) (s : Scheduler) (r : ℕ) : reserveBlocks cfg s r =
    let a := s.grow r (reserveTokens cfg)
    if s.pageManager.blockSize = 0 then .error s
    else if a.1 = false ∨ cfg.mode = .ar then .ok a
    else match cfg.mqLen with
      | none => .error a.2
      | some mqLen => .ok (a.2.growDraft r (reserveTokens cfg + cfg.speculateK * mqLen)) := by
  unfold reserveBlocks
  simp only [allocate_eq]
  by_cases hb : s.pageManager.blockSize = 0
  · simp only [if_pos hb]
  · simp only [if_neg hb]
    cases hg : s.grow r (reserveTokens cfg) with
    | mk ok s₁ =>
      have hb' : s₁.pageManager.blockSize ≠ 0 := by
        have hsize := grow_blockSize s r (reserveTokens cfg)
        rw [hg] at hsize
        rwa [hsize]
      cases ok with
      | false => rfl
      | true =>
        cases cfg.mode with
        | ar => rfl
        | sd | ssd | instanceSsd =>
          cases cfg.mqLen with
          | none => rfl
          | some mqLen =>
            simp only [allocateDraft_eq, if_neg hb']
            rfl

theorem reserveBlocks_cases {b : Bool} (h : reserveBlocks cfg s r = .ok (b, s')) :
    (b = (s.grow r (reserveTokens cfg)).1 ∧ s' = (s.grow r (reserveTokens cfg)).2 ∧
        (b = true → cfg.mode = .ar)) ∨
      ∃ mqLen, cfg.mqLen = some mqLen ∧ cfg.mode ≠ .ar ∧
        (s.grow r (reserveTokens cfg)).1 = true ∧
        (b, s') = (s.grow r (reserveTokens cfg)).2.growDraft r
          (reserveTokens cfg + cfg.speculateK * mqLen) := by
  rw [reserveBlocks_eq] at h
  simp only at h
  split_ifs at h with hb ha
  · have heq := Except.ok.inj h
    rw [heq] at ha ⊢
    exact .inl ⟨rfl, rfl, fun hok => ha.resolve_left (by simp [hok])⟩
  · rw [not_or, Bool.not_eq_false] at ha
    cases hq : cfg.mqLen with
    | none =>
      rw [hq] at h
      cases h
    | some mqLen =>
      rw [hq] at h
      exact .inr ⟨mqLen, rfl, ha.2, ha.1, (Except.ok.inj h).symm⟩

/-- An attempt that raises: on a block size of 0 nothing is taken, and on an empty fan-out list the
target blocks. -/
theorem reserveBlocks_error (h : reserveBlocks cfg s r = .error s') :
    (s.pageManager.blockSize = 0 ∧ s' = s) ∨
      (cfg.mode ≠ .ar ∧ cfg.mqLen = none ∧ (s.grow r (reserveTokens cfg)).1 = true ∧
        s' = (s.grow r (reserveTokens cfg)).2) := by
  rw [reserveBlocks_eq] at h
  simp only at h
  split_ifs at h with hb ha
  · exact .inl ⟨hb, (Except.error.inj h).symm⟩
  · rw [not_or, Bool.not_eq_false] at ha
    cases hq : cfg.mqLen with
    | none =>
      rw [hq] at h
      exact .inr ⟨ha.2, rfl, ha.1, (Except.error.inj h).symm⟩
    | some mqLen =>
      rw [hq] at h
      cases h

theorem reserveBlocks_pos {a : Bool × Scheduler} (h : reserveBlocks cfg s r = .ok a) :
    s.pageManager.blockSize ≠ 0 := by
  intro hb
  rw [reserveBlocks_eq, if_pos hb] at h
  cases h

theorem reserveBlocks_lists {b : Bool} (h : reserveBlocks cfg s r = .ok (b, s')) :
    s'.running = s.running ∧ s'.finished = s.finished ∧ s'.nextId = s.nextId := by
  rcases reserveBlocks_cases h with ⟨_, rfl, _⟩ | ⟨mqLen, _, _, _, heq⟩
  · exact ⟨rfl, rfl, rfl⟩
  · rw [(Prod.mk.inj heq).2]
    exact ⟨rfl, rfl, rfl⟩

theorem reserveBlocks_blockSize {b : Bool} (h : reserveBlocks cfg s r = .ok (b, s')) :
    s'.pageManager.blockSize = s.pageManager.blockSize := by
  rcases reserveBlocks_cases h with ⟨_, rfl, _⟩ | ⟨mqLen, _, _, _, heq⟩
  · exact grow_blockSize s r _
  · rw [(Prod.mk.inj heq).2]
    exact (PageManager.sameSize_growTable _ _ _ _).1.trans (grow_blockSize s r _)

/-- Every sequence object keeps its tokens. -/
def SameTokens (s s' : Scheduler) : Prop := ∀ q, Sequence.SameTokens (s.seqs q) (s'.seqs q)

theorem SameTokens.trans {s'' : Scheduler} (h : SameTokens s s') (h' : SameTokens s' s'') :
    SameTokens s s'' := fun q => (h q).trans (h' q)

theorem sameTokens_setSeq {seq : Sequence} (h : Sequence.SameTokens (s.seqs r) seq) :
    SameTokens s (s.setSeq r seq) := by
  intro q
  by_cases hq : q = r
  · subst hq
    rw [setSeq_self]
    exact h
  · rw [setSeq_of_ne _ _ hq]
    exact .refl _

theorem sameTokens_grow (s : Scheduler) (r n : ℕ) : SameTokens s (s.grow r n).2 :=
  sameTokens_setSeq ⟨rfl, rfl, rfl⟩

theorem sameTokens_growDraft (s : Scheduler) (r n : ℕ) :
    SameTokens s (s.growDraft r n).2 :=
  sameTokens_setSeq ⟨rfl, rfl, rfl⟩

theorem sameTokens_reserveBlocks {b : Bool} (h : reserveBlocks cfg s r = .ok (b, s')) :
    SameTokens s s' := by
  rcases reserveBlocks_cases h with ⟨_, rfl, _⟩ | ⟨mqLen, _, _, _, heq⟩
  · exact sameTokens_grow s r _
  · have hs' := congrArg Prod.snd heq
    rw [show s' = _ from hs']
    exact (sameTokens_grow s r _).trans (sameTokens_growDraft _ r _)

/-- The admission loop keeps what each attempt keeps. `P` is about the sequences still waiting, the
scheduler without them and the sequences admitted so far. -/
theorem scheduleLoop_invariant {P : List ℕ → Scheduler → List ℕ → Prop}
    (hdefer : ∀ r waiting s s₁ scheduled, P (r :: waiting) s scheduled →
      reserveBlocks cfg s r = .ok (false, s₁) → P (r :: waiting) s₁ scheduled)
    (hstart : ∀ r waiting s s₁ scheduled, P (r :: waiting) s scheduled → s.running.length < 16 →
      reserveBlocks cfg s r = .ok (true, s₁) → P waiting (s₁.startRunning r) (scheduled ++ [r]))
    {waiting scheduled scheduled' : List ℕ} (h₀ : P waiting s scheduled)
    (h : scheduleLoop cfg waiting s scheduled = .ok (s', scheduled')) :
    ∃ w s₁, P w s₁ scheduled' ∧ s' = { s₁ with waiting := w } := by
  induction waiting generalizing s scheduled with
  | nil =>
    obtain ⟨rfl, rfl⟩ := Prod.mk.inj (Except.ok.inj h)
    exact ⟨[], s, h₀, rfl⟩
  | cons r waiting ih =>
    unfold scheduleLoop at h
    split_ifs at h with hlt
    · cases hres : reserveBlocks cfg s r with
      | error s₁ => rw [hres] at h; cases h
      | ok res =>
        obtain ⟨b, s₁⟩ := res
        rw [hres] at h
        cases b with
        | false =>
          obtain ⟨rfl, rfl⟩ := Prod.mk.inj (Except.ok.inj h)
          exact ⟨r :: waiting, s₁, hdefer r waiting s s₁ scheduled h₀ hres, rfl⟩
        | true => exact ih (hstart r waiting s s₁ scheduled h₀ hlt hres) h
    · obtain ⟨rfl, rfl⟩ := Prod.mk.inj (Except.ok.inj h)
      exact ⟨r :: waiting, s, h₀, rfl⟩

/-- What the admission loop does to the lists and the tokens. -/
structure Admits (waiting : List ℕ) (s s' : Scheduler) : Prop where
  perm : (s'.waiting ++ s'.running).Perm (waiting ++ s.running)
  finished : s'.finished = s.finished
  nextId : s'.nextId = s.nextId
  tokens : SameTokens s s'
  blockSize : s'.pageManager.blockSize = s.pageManager.blockSize

theorem Admits.defer {s₁ s₂ : Scheduler} {waiting rest : List ℕ}
    (h : Admits waiting s { s₁ with waiting := r :: rest })
    (hres : reserveBlocks cfg s₁ r = .ok (false, s₂)) :
    Admits waiting s { s₂ with waiting := r :: rest } := by
  obtain ⟨hrun, hfin, hnext⟩ := reserveBlocks_lists hres
  have htok := sameTokens_reserveBlocks hres
  refine ⟨?_, hfin.trans h.finished, hnext.trans h.nextId, h.tokens.trans htok,
    (reserveBlocks_blockSize hres).trans h.blockSize⟩
  show (r :: rest ++ s₂.running).Perm _
  rw [hrun]
  exact h.perm

theorem Admits.promote {s₁ s₂ : Scheduler} {waiting rest : List ℕ}
    (h : Admits waiting s { s₁ with waiting := r :: rest })
    (hres : reserveBlocks cfg s₁ r = .ok (true, s₂)) :
    Admits waiting s { s₂.startRunning r with waiting := rest } := by
  obtain ⟨hrun, hfin, hnext⟩ := reserveBlocks_lists hres
  have htok := sameTokens_reserveBlocks hres
  have hstart : SameTokens s₂ (s₂.startRunning r) := sameTokens_setSeq (s := s₂) ⟨rfl, rfl, rfl⟩
  have hmove : (rest ++ (s₂.running ++ [r])).Perm (r :: rest ++ s₁.running) := by
    rw [hrun, ← List.append_assoc]
    exact List.perm_append_singleton _ _
  exact ⟨hmove.trans h.perm, hfin.trans h.finished, hnext.trans h.nextId,
    h.tokens.trans (htok.trans hstart), (reserveBlocks_blockSize hres).trans h.blockSize⟩

theorem admits_scheduleLoop {waiting scheduled scheduled' : List ℕ}
    (h : scheduleLoop cfg waiting s scheduled = .ok (s', scheduled')) :
    Admits waiting s s' := by
  have h₀ : Admits waiting s { s with waiting := waiting } :=
    ⟨.refl _, rfl, rfl, fun q => .refl _, rfl⟩
  obtain ⟨w, s₁, h₁, rfl⟩ :=
    scheduleLoop_invariant (P := fun w s₁ _ => Admits waiting s { s₁ with waiting := w })
      (fun _ _ _ _ _ h₁ hres => h₁.defer hres) (fun _ _ _ _ _ h₁ _ hres => h₁.promote hres) h₀ h
  exact h₁

/-! ## When a call returns -/

/-- On a block size of at least 1 the scheduler raises only where `mq_len` does. -/
theorem exists_reserveBlocks (hb : s.pageManager.blockSize ≠ 0)
    (h : cfg.mode ≠ .ar → cfg.mqLen.isSome) (r : ℕ) : ∃ a, reserveBlocks cfg s r = .ok a := by
  cases hres : reserveBlocks cfg s r with
  | ok a => exact ⟨a, rfl⟩
  | error s' =>
    rcases reserveBlocks_error hres with ⟨hb', -⟩ | ⟨hm, hq, -⟩
    · exact absurd hb' hb
    · have hsome := h hm
      rw [hq] at hsome
      cases hsome

theorem exists_scheduleLoop (h : cfg.mode ≠ .ar → cfg.mqLen.isSome) (waiting : List ℕ)
    (hb : s.pageManager.blockSize ≠ 0) (scheduled : List ℕ) :
    ∃ a, scheduleLoop cfg waiting s scheduled = .ok a := by
  induction waiting generalizing s scheduled with
  | nil => exact ⟨_, rfl⟩
  | cons r waiting ih =>
    unfold scheduleLoop
    split_ifs
    · obtain ⟨⟨b, s₁⟩, hres⟩ := exists_reserveBlocks hb h r
      rw [hres]
      cases b with
      | false => exact ⟨_, rfl⟩
      | true => exact ih (by rwa [← reserveBlocks_blockSize hres] at hb) _
    · exact ⟨_, rfl⟩

theorem schedule_pos {a : Scheduler × List ℕ} (hw : s.waiting ≠ []) (hr : s.running.length < 16)
    (h : schedule cfg s = .ok a) : s.pageManager.blockSize ≠ 0 := by
  obtain ⟨r, waiting, hcons⟩ := List.exists_cons_of_ne_nil hw
  unfold schedule at h
  rw [hcons] at h
  unfold scheduleLoop at h
  rw [if_pos hr] at h
  cases hres : reserveBlocks cfg s r with
  | error s₁ => rw [hres] at h; cases h
  | ok res => exact reserveBlocks_pos hres

theorem exists_schedule (h : cfg.mode ≠ .ar → cfg.mqLen.isSome)
    (hb : s.pageManager.blockSize ≠ 0) : ∃ a, schedule cfg s = .ok a :=
  exists_scheduleLoop h s.waiting hb []

end Scheduler

end SsdTpu
