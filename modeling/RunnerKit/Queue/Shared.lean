import RunnerKit.Lib.SortedMap
import RunnerKit.Queue.Write

/-!
# The shared state of a delivery queue

`queue/shared.rs`: what the mutex guards, and one function for each section of
code that runs under it. Callers, the queue task and the drained calls meet
only in these sections, so each of them is one atomic step.
-/

namespace RunnerKit.Queue

open RunnerKit.Jobs RunnerKit.Lib

/-! ## The guarded data -/

/-- The one-shot channel of a `WriteEnd`, named by a number of its own. -/
abbrev Chan := ℕ

structure Entry where
  seq : ℕ
  write : Write
  chan : Chan

inductive Gate where
  | stored | dropped
deriving DecidableEq

/-- A held marker; the future of its gate is the environment of the model. -/
structure Held where
  entry : Entry
  follow : Option Write

structure Pending where
  name : WriteName
  handedOver : ℕ

structure LastFailure where
  write : WriteName
  error : Error

structure State where
  fifo : List Entry
  newHeld : List Held
  pending : SortedMap ℕ Pending
  ended : Table
  nextSeq : ℕ
  stopped : Bool
  lastFailure : Option (ℕ × LastFailure)

structure QueueState where
  waiting : List WriteName
  oldestHandedOver : Option ℕ
  lastFailure : Option LastFailure

namespace State

def new : State :=
  { fifo := [], newHeld := [], pending := .empty, ended := fun _ => none
    nextSeq := 0, stopped := false, lastFailure := none }

/-! ## The sections under the lock -/

def nextEntry (st : State) (write : Write) (chan : Chan) : Entry :=
  ⟨st.nextSeq, write, chan⟩

def register (st : State) (write : Write) (now : ℕ) : State :=
  { st with
    nextSeq := st.nextSeq + 1
    pending := st.pending.insert st.nextSeq ⟨write.name, now⟩ }

/-- Why `enqueue` does not queue a write, if it does not. -/
def unqueuedBy (st : State) (write : Write) : Option Removal :=
  if st.stopped then some .leftUnsent else blocked write st.ended

def enqueue (st : State) (write : Write) (chan : Chan) (now : ℕ) : State :=
  { st.register write now with fifo := st.fifo ++ [st.nextEntry write chan] }

def hold (st : State) (write : Write) (follow : Option Write) (chan : Chan)
    (now : ℕ) : State :=
  { st.register write now with
    newHeld := st.newHeld ++ [⟨st.nextEntry write chan, follow⟩] }

/-- The table takes the end of a write that owns a key. -/
def recordEnd (st : State) (write : Write) (result : WriteResult) : State :=
  match ownKey write with
  | some key =>
      { st with ended := Function.update st.ended key (some (Ended.of result)) }
  | none => st

/-- The section of `complete`. -/
def finish (st : State) (entry : Entry) (result : WriteResult) : State :=
  let st := ({ st with pending := st.pending.erase entry.seq }).recordEnd
    entry.write result
  match st.lastFailure with
  | some (seq, _) =>
      if seq = entry.seq then { st with lastFailure := none } else st
  | none => st

/-- The first half of the section of `next_head`. -/
def popHead (st : State) : Option (Entry × State) :=
  if st.stopped then none
  else match st.fifo with
    | [] => none
    | head :: rest => some (head, { st with fifo := rest })

/-- A gate ended `Stored`: the follow-up gets a number and joins the queue,
and the marker joins right behind it. -/
def join (st : State) (marker : Entry) (follow : Option Write) (chan : Chan)
    (now : ℕ) : State :=
  match follow with
  | some write =>
      { st.register write now with
        fifo := st.fifo ++ [st.nextEntry write chan, marker] }
  | none => { st with fifo := st.fifo ++ [marker] }

def recordFailure (st : State) (seq : ℕ) (name : WriteName) (error : Error) :
    State :=
  { st with lastFailure := some (seq, ⟨name, error⟩) }

def snapshot (st : State) : QueueState :=
  { waiting := st.pending.values.map Pending.name
    oldestHandedOver := (st.pending.values.map Pending.handedOver).min?
    lastFailure := st.lastFailure.map Prod.snd }

/-- What a drained call looks at: some number below its target is pending. -/
def waitsBelow (st : State) (upto : ℕ) : Bool :=
  match st.pending.firstKey with
  | some first => decide (first < upto)
  | none => false

/-! ## What each section leaves alone -/

section Fields

variable {st : State} {write : Write} {result : WriteResult} {entry : Entry}

@[simp] theorem recordEnd_fifo : (st.recordEnd write result).fifo = st.fifo := by
  unfold recordEnd; split <;> rfl

@[simp] theorem recordEnd_newHeld :
    (st.recordEnd write result).newHeld = st.newHeld := by
  unfold recordEnd; split <;> rfl

@[simp] theorem recordEnd_pending :
    (st.recordEnd write result).pending = st.pending := by
  unfold recordEnd; split <;> rfl

@[simp] theorem recordEnd_nextSeq :
    (st.recordEnd write result).nextSeq = st.nextSeq := by
  unfold recordEnd; split <;> rfl

@[simp] theorem recordEnd_stopped :
    (st.recordEnd write result).stopped = st.stopped := by
  unfold recordEnd; split <;> rfl

@[simp] theorem recordEnd_lastFailure :
    (st.recordEnd write result).lastFailure = st.lastFailure := by
  unfold recordEnd; split <;> rfl

@[simp] theorem finish_fifo : (st.finish entry result).fifo = st.fifo := by
  simp only [finish]
  split
  · split <;> simp
  · simp

@[simp] theorem finish_newHeld :
    (st.finish entry result).newHeld = st.newHeld := by
  simp only [finish]
  split
  · split <;> simp
  · simp

@[simp] theorem finish_pending :
    (st.finish entry result).pending = st.pending.erase entry.seq := by
  simp only [finish]
  split
  · split <;> simp
  · simp

@[simp] theorem finish_nextSeq :
    (st.finish entry result).nextSeq = st.nextSeq := by
  simp only [finish]
  split
  · split <;> simp
  · simp

@[simp] theorem finish_stopped :
    (st.finish entry result).stopped = st.stopped := by
  simp only [finish]
  split
  · split <;> simp
  · simp

@[simp] theorem finish_ended :
    (st.finish entry result).ended = (st.recordEnd entry.write result).ended := by
  simp only [finish, recordEnd]
  cases ownKey entry.write <;> (simp only []; split <;> try split) <;> rfl

/-- The failure that is kept was there before and is of another write. -/
theorem finish_lastFailure {failure : ℕ × LastFailure}
    (h : (st.finish entry result).lastFailure = some failure) :
    st.lastFailure = some failure ∧ failure.1 ≠ entry.seq := by
  simp only [finish, recordEnd_lastFailure] at h
  split at h
  · rename_i seq f hf
    split at h
    · simp at h
    · rename_i hne
      simp only [recordEnd_lastFailure] at h hf
      rw [hf] at h
      cases h
      exact ⟨hf, hne⟩
  · rename_i hf
    simp only [recordEnd_lastFailure] at h hf
    rw [hf] at h
    cases h

end Fields

end State

/-! ## Attempts -/

/-- What one call of `session.send` within the outcome wait gives. -/
inductive Outcome where
  | ok
  | error (error : Error)
  | timedOut

inductive Judged where
  | resend (error : Error)
  | final (result : WriteResult)

def resendable (write : Write) : Error → Bool
  | .unavailable _ => true
  | .lost _ => true
  | .unreadable _ => true
  | .credential failure => failure.kind == .fetchFailed
  | .refused refusal =>
      write.isStarted && decide (refusal.reason = .instanceUnknown)
  | _ => false

def finalRemoval : Error → Removal
  | .refused refusal => .refused (.refused refusal)
  | other => .failed other

def judgeError (write : Write) (error : Error) : Judged :=
  if resendable write error then .resend error
  else .final (.err (finalRemoval error))

/-- One round of the loop of `attempts`. -/
def judge (write : Write) : Outcome → Judged
  | .ok => .final .ok
  | .error error => judgeError write error
  | .timedOut =>
      judgeError write (.waitFired "no outcome within the outcome wait")

/-- No attempt ends a write as removed for a dependency or left unsent. -/
theorem judge_final {write : Write} {outcome : Outcome} {result : WriteResult}
    (h : judge write outcome = .final result) :
    result = .ok ∨ ∃ error, result = .err (finalRemoval error) := by
  cases outcome with
  | ok =>
      cases h
      exact Or.inl rfl
  | error error =>
      simp only [judge, judgeError] at h
      split at h
      · cases h
      · cases h
        exact Or.inr ⟨error, rfl⟩
  | timedOut =>
      simp only [judge, judgeError] at h
      split at h
      · cases h
      · cases h
        exact Or.inr ⟨_, rfl⟩

end RunnerKit.Queue
