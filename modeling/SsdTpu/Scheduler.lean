import SsdTpu.PageManager

/-!
# The request scheduler

A Python list of `Sequence` objects is a list of references. The reference of a sequence is the
number of sequences created before it, `seqs` is the object behind each reference, and an
assignment to a field of an object is an update of `seqs`, seen from every list.

A call of `schedule` that raises is an `error` with what it leaves: the scheduler, from which the
sequence in hand is gone, and the sequences admitted before it. It raises where `allocate` divides
by a block size of 0, and where `mq_len` has an empty fan-out list, in the modes that reserve draft
blocks.
-/

namespace SsdTpu

structure Scheduler where
  seqs : ℕ → Sequence
  waiting : List ℕ
  running : List ℕ
  finished : List ℕ
  nextId : ℕ
  pageManager : PageManager

namespace Scheduler

def init (cfg : SSDConfig) : Scheduler where
  seqs := fun _ => { seqId := 0, promptTokenIds := [] }
  waiting := []
  running := []
  finished := []
  nextId := 0
  pageManager := .init cfg.blockSize cfg.numBlocks

/-- Replace the object behind a reference. -/
def setSeq (s : Scheduler) (r : ℕ) (seq : Sequence) : Scheduler :=
  { s with seqs := Function.update s.seqs r seq }

/-- Returns the scheduler and the reference of the new sequence. -/
def addRequest (s : Scheduler) (promptTokenIds : List Token) : Scheduler × ℕ :=
  let seq : Sequence := { seqId := s.nextId, promptTokenIds := promptTokenIds }
  ({ s.setSeq s.nextId seq with nextId := s.nextId + 1, waiting := s.waiting ++ [s.nextId] },
    s.nextId)

def reserveTokens (cfg : SSDConfig) : ℕ :=
  match cfg.mode with
  | .ar => 1
  | .sd => cfg.speculateK + 1
  | _ => cfg.speculateK + 1

/-- `page_manager.allocate(seq, reserve)`. -/
def allocate (s : Scheduler) (r reserve : ℕ) : Except Scheduler (Bool × Scheduler) :=
  match s.pageManager.allocate (s.seqs r) reserve with
  | none => .error s
  | some a => .ok (a.1, { s.setSeq r a.2.2 with pageManager := a.2.1 })

/-- `page_manager.allocate_draft(seq, reserve)`. -/
def allocateDraft (s : Scheduler) (r reserve : ℕ) : Except Scheduler (Bool × Scheduler) :=
  match s.pageManager.allocateDraft (s.seqs r) reserve with
  | none => .error s
  | some a => .ok (a.1, { s.setSeq r a.2.2 with pageManager := a.2.1 })

/-- The two allocations of an admission. The flag says whether the sequence can run; blocks taken
before a failure or an exception stay with it. -/
def reserveBlocks (cfg : SSDConfig) (s : Scheduler) (r : ℕ) :
    Except Scheduler (Bool × Scheduler) :=
  let reserve := reserveTokens cfg
  match s.allocate r reserve with
  | .error s => .error s
  | .ok (false, s) => .ok (false, s)
  | .ok (true, s) =>
    match cfg.mode with
    | .ar => .ok (true, s)
    | _ =>
      match cfg.mqLen with
      | none => .error s
      | some mqLen => s.allocateDraft r (reserve + cfg.speculateK * mqLen)

/-- `seq.status = RUNNING; running.append(seq)`. -/
def startRunning (s : Scheduler) (r : ℕ) : Scheduler :=
  { s.setSeq r { s.seqs r with status := .running } with running := s.running ++ [r] }

/-- The admission loop. Its first argument is `waiting`: a sequence that cannot be admitted is put
back in front, which ends the loop. An exception ends it without that. -/
def scheduleLoop (cfg : SSDConfig) :
    List ℕ → Scheduler → List ℕ → Except (Scheduler × List ℕ) (Scheduler × List ℕ)
  | [], s, scheduled => .ok ({ s with waiting := [] }, scheduled)
  | r :: waiting, s, scheduled =>
    if s.running.length < 16 then
      match reserveBlocks cfg s r with
      | .error s => .error ({ s with waiting := waiting }, scheduled)
      | .ok (false, s) => .ok ({ s with waiting := r :: waiting }, scheduled)
      | .ok (true, s) => scheduleLoop cfg waiting (s.startRunning r) (scheduled ++ [r])
    else .ok ({ s with waiting := r :: waiting }, scheduled)

def schedule (cfg : SSDConfig) (s : Scheduler) : Except (Scheduler × List ℕ) (Scheduler × List ℕ) :=
  scheduleLoop cfg s.waiting s []

/-- `seq.status = FINISHED; running.remove(seq); free_sequence(seq); finished.append(seq)`. The
removal is by value: the first running sequence with equal fields goes. -/
def finish (s : Scheduler) (r : ℕ) : Scheduler :=
  let s := s.setSeq r { s.seqs r with status := .finished }
  let running := s.running.eraseP fun q => decide (s.seqs q = s.seqs r)
  let f := s.pageManager.freeSequence (s.seqs r)
  { s.setSeq r f.2 with
    running := running
    pageManager := f.1
    finished := s.finished ++ [r] }

def postprocess (s : Scheduler) (r : ℕ) (newTokens : List Token) (eosId : Option Token)
    (maxTokens : ℤ) : Scheduler :=
  let s := s.setSeq r ((s.seqs r).appendTokens newTokens)
  if (s.seqs r).isFinished eosId maxTokens then s.finish r else s

def postprocessSpeculative (s : Scheduler) (r : ℕ) (acceptedTokens : List Token)
    (recovery : Token) (reserved : ℤ) (eosId : Option Token) (maxTokens : ℤ) : Scheduler :=
  let seq := { (s.seqs r).appendTokens acceptedTokens with recoveryToken := recovery }
  let b := s.pageManager.rollbackSpeculative seq acceptedTokens.length reserved
  let s := { s.setSeq r b.2 with pageManager := b.1 }
  if (s.seqs r).isFinished eosId maxTokens then s.finish r else s

@[simp] theorem setSeq_self (s : Scheduler) (r : ℕ) (seq : Sequence) :
    (s.setSeq r seq).seqs r = seq := Function.update_self _ _ _

theorem setSeq_of_ne (s : Scheduler) {r q : ℕ} (seq : Sequence) (h : q ≠ r) :
    (s.setSeq r seq).seqs q = s.seqs q := Function.update_of_ne h _ _

/-! ## Runs -/

/-- One call of a scheduler method that returns; the last two on a running sequence. -/
inductive Step (cfg : SSDConfig) : Scheduler → Scheduler → Prop
  | addRequest (s : Scheduler) (prompt : List Token) : Step cfg s (s.addRequest prompt).1
  | schedule {s s' : Scheduler} {scheduled : List ℕ} (h : s.schedule cfg = .ok (s', scheduled)) :
    Step cfg s s'
  | postprocess {s : Scheduler} {r : ℕ} (hr : r ∈ s.running) (newTokens : List Token)
    (eosId : Option Token) (maxTokens : ℤ) :
    Step cfg s (s.postprocess r newTokens eosId maxTokens)
  | postprocessSpeculative {s : Scheduler} {r : ℕ} (hr : r ∈ s.running)
    (acceptedTokens : List Token) (recovery : Token) (reserved : ℤ) (eosId : Option Token)
    (maxTokens : ℤ) :
    Step cfg s (s.postprocessSpeculative r acceptedTokens recovery reserved eosId maxTokens)

/-- The states a new scheduler reaches by any sequence of calls that return. -/
def Reachable (cfg : SSDConfig) (s : Scheduler) : Prop :=
  Relation.ReflTransGen (Step cfg) (init cfg) s

/-- One call, whether it returns or raises. -/
inductive Call (cfg : SSDConfig) (s s' : Scheduler) : Prop
  | returned (h : Step cfg s s')
  | raised {scheduled : List ℕ} (h : s.schedule cfg = .error (s', scheduled))

end Scheduler

end SsdTpu
