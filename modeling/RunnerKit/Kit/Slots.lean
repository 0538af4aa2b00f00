import RunnerKit.Jobs.Model

/-!
# The state machines of br-jobs-runner-core

`slots.rs` and `cancel.rs`: the pool of slots with the ids in flight, and the
set of the cancelled runs. A pool carries its capacity as a bound that every
operation keeps.
-/

namespace RunnerKit.Kit

open RunnerKit.Jobs

/-! ## Slots -/

inductive ClaimDecision where
  | claimed | atCapacity | draining | alreadyInFlight
deriving DecidableEq

structure SlotPool where
  capacity : ℕ
  inFlight : Finset Uuid
  draining : Bool
  positive : 0 < capacity
  bounded : inFlight.card ≤ capacity

namespace SlotPool

def new (capacity : ℕ) (h : 0 < capacity) : SlotPool :=
  ⟨capacity, ∅, false, h, Nat.zero_le _⟩

/-- A slot that is known to be free is taken. -/
def take (pool : SlotPool) (runId : Uuid) (h : pool.inFlight.card < pool.capacity) :
    SlotPool where
  capacity := pool.capacity
  inFlight := insert runId pool.inFlight
  draining := pool.draining
  positive := pool.positive
  bounded := (Finset.card_insert_le _ _).trans h

def tryClaim (pool : SlotPool) (runId : Uuid) : ClaimDecision × SlotPool :=
  if pool.draining then (.draining, pool)
  else if runId ∈ pool.inFlight then (.alreadyInFlight, pool)
  else if h : pool.capacity ≤ pool.inFlight.card then (.atCapacity, pool)
  else (.claimed, pool.take runId (not_le.mp h))

def release (pool : SlotPool) (runId : Uuid) : SlotPool where
  capacity := pool.capacity
  inFlight := pool.inFlight.erase runId
  draining := pool.draining
  positive := pool.positive
  bounded := (Finset.card_erase_le).trans pool.bounded

def beginDrain (pool : SlotPool) : SlotPool := { pool with draining := true }

def hasFreeSlot (pool : SlotPool) : Bool :=
  !pool.draining && decide (pool.inFlight.card < pool.capacity)

variable {pool : SlotPool} {runId : Uuid}

/-- A claim takes one slot for an id that had none, or changes nothing. -/
theorem tryClaim_cases (pool : SlotPool) (runId : Uuid) :
    ((pool.tryClaim runId).1 = .claimed ∧ runId ∉ pool.inFlight ∧
      (pool.tryClaim runId).2.inFlight = insert runId pool.inFlight) ∨
    ((pool.tryClaim runId).1 ≠ .claimed ∧ (pool.tryClaim runId).2 = pool) := by
  unfold tryClaim
  split
  · exact Or.inr ⟨by simp, rfl⟩
  · split
    · exact Or.inr ⟨by simp, rfl⟩
    · rename_i hnot
      split
      · exact Or.inr ⟨by simp, rfl⟩
      · exact Or.inl ⟨rfl, hnot, rfl⟩

@[simp] theorem tryClaim_capacity :
    (pool.tryClaim runId).2.capacity = pool.capacity := by
  unfold tryClaim
  split
  · rfl
  · split
    · rfl
    · split <;> rfl

@[simp] theorem release_inFlight :
    (pool.release runId).inFlight = pool.inFlight.erase runId := rfl

@[simp] theorem release_capacity :
    (pool.release runId).capacity = pool.capacity := rfl

@[simp] theorem beginDrain_inFlight : pool.beginDrain.inFlight = pool.inFlight := rfl

@[simp] theorem beginDrain_capacity : pool.beginDrain.capacity = pool.capacity := rfl

end SlotPool

/-! ## Cancelled runs -/

abbrev CancelSet := Finset Uuid

namespace CancelSet

def applyPut (cancels : CancelSet) (runId : Uuid) : CancelSet := insert runId cancels

def applyDelete (cancels : CancelSet) (runId : Uuid) : CancelSet := cancels.erase runId

def replaceWithReplay (runIds : List Uuid) : CancelSet := runIds.toFinset

def isCancelled (cancels : CancelSet) (runId : Uuid) : Bool := decide (runId ∈ cancels)

end CancelSet

end RunnerKit.Kit
