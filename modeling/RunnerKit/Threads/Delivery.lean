import RunnerKit.Lib.Machine
import RunnerKit.Threads.Handle
import RunnerKit.Threads.Item

/-!
# The thread queues of the adapter

`adapter/accept.rs`, `adapter/deliver.rs`, `adapter/ops/waits.rs`, the start of an adapter
on the items its store has kept, and its drop. Each section under a lock is a step, and so
is each operation on an atomic and each change that is told; an await is a place where a
call or a task stands until its answer comes.

An operation accepts an item while it holds the memory of the thread, so a call of
`accept` begins with taking that lock; an operation that has begun runs to its end. The
queue of a thread that has no slot yet is the empty one. A restart stops all there is and
starts an adapter on the store; `history` is what was done to the store, and `base` what
the adapter found in it.
-/

namespace RunnerKit.Threads.Delivery

open Lib
open Jobs (Uuid)

variable {β : Type}

/-! ## Queues -/

structure Queued (β : Type) where
  item : Item β
  no : ℕ

structure QueueInner (β : Type) where
  items : List (Queued β)
  lastFailure : Option (Uuid × Error)
  dropped : Uuid → Bool
  workerRunning : Bool
  lastNo : ℕ

def QueueInner.default : QueueInner β := ⟨[], none, fun _ => false, false, 0⟩

inductive Ended where
  | delivered | refused | unsent
deriving DecidableEq

def retryable (kind : ItemKind) (error : Error) : Bool :=
  match kind, error with
  | .chunk, .streamBroken => true
  | .chunk, _ => false
  | _, .unavailable _ => true
  | _, .lost _ => true
  | _, .unreadable _ => true
  | _, _ => false

inductive ReportKind where
  | attemptFailed | itemRefused | itemDroppedUnsent | closingFailed | removeFailed | unsent
deriving DecidableEq

/-! ## Calls, tasks and waits -/

/-- Where a call of `accept` is, or the `enqueue` of an item that was kept. -/
inductive CallPlace where
  | entered
  /-- Awaits the store. -/
  | appending (stored : StoredItem)
  | appended
  | numbered (no : ℕ)
  /-- The item is in the queue, and the change is not told yet. -/
  | queued (spawn : Bool)
  | told (spawn : Bool)
  | spawned (task : ℕ)
  | registered (task : ℕ)
  | ended (result : Except Error Unit)
  /-- The operation has let go of the memory of the thread. -/
  | left

structure Call (β : Type) where
  thread : ThreadRef
  item : Item β
  /-- The item comes from the store. -/
  kept : Bool
  place : CallPlace

inductive TaskPlace (β : Type) where
  | spawned
  | looking
  | took (head : Queued β)
  /-- Awaits the answer of Threads. -/
  | attempting (head : Queued β)
  | answered (head : Queued β) (answer : Except Error (Option MessageStatus))
  /-- Awaits the next attempt. -/
  | sleeping (head : Queued β)
  | ending (head : Queued β) (how : Ended)
  | popping (head : Queued β) (how : Ended)
  /-- The item is out of the queue, and the change is not told yet. -/
  | popped (head : Queued β)
  /-- Awaits the store. -/
  | removing (head : Queued β)
  | left
  /-- It was aborted at an await. -/
  | cut

structure Task (β : Type) where
  thread : ThreadRef
  place : TaskPlace β

inductive EntryOutcome where
  | stored | dropped
deriving DecidableEq

inductive Goal where
  | past (target : ℕ)
  | entry (id : Uuid)
deriving DecidableEq

inductive WaitPlace where
  /-- `drained`, or `entry_stored` of the entry. -/
  | entered (entry : Option Uuid)
  /-- Reads the last number of the queue. -/
  | targeting
  | looping (goal : Goal)
  /-- With the version its receiver has seen. -/
  | looking (goal : Goal) (seen : ℕ)
  | waiting (goal : Goal) (seen : ℕ)
  | ended
  | dropped
deriving DecidableEq

structure Wait where
  thread : ThreadRef
  place : WaitPlace
deriving DecidableEq

/-! ## The state -/

inductive Obs (β : Type) where
  | queued (thread : ThreadRef) (item : Item β) (no : ℕ) (kept : Bool)
  | sent (thread : ThreadRef) (item : Item β) (no : ℕ)
  | ended (thread : ThreadRef) (item : Item β) (no : ℕ) (how : Ended)
  | report (kind : ReportKind) (thread : ThreadRef) (item : Item β) (error : Option Error)
  | called (w : ℕ) (thread : ThreadRef)
  | target (w : ℕ) (thread : ThreadRef) (no : ℕ)
  | returned (w : ℕ) (thread : ThreadRef)
  | outcome (w : ℕ) (thread : ThreadRef) (entry : Uuid) (outcome : EntryOutcome)

/-- What was done to the store. -/
inductive Kept (β : Type) where
  | appended (thread : ThreadRef) (item : Item β)
  | removed (thread : ThreadRef) (id : Uuid)

structure Sys (β : Type) where
  queue : ThreadRef → QueueInner β
  changed : ThreadRef → ℕ
  /-- The slots there are. -/
  slots : ThreadRef → Bool
  /-- The call that holds the memory of the thread. -/
  mem : ThreadRef → Option ℕ
  numbers : ℕ
  refused : Uuid → Bool
  broken : Uuid → Bool
  stopped : Bool
  aborts : List ℕ
  aborted : ℕ → Bool
  /-- `Drop` has aborted the tasks. -/
  drained : Bool
  /-- The threads whose items `Drop` has reported. -/
  reported : ThreadRef → Bool
  calls : ℕ → Option (Call β)
  tasks : ℕ → Option (Task β)
  nextTask : ℕ
  waits : ℕ → Option Wait
  /-- The items that `new` has still to enqueue, and the call of the one it is at. -/
  leftovers : List (ThreadRef × Item β)
  rebuilding : Option ℕ
  log : List (Obs β)
  base : List (ThreadRef × Item β)
  store : List StoredItem
  history : List (Kept β)

inductive Event (β : Type) where
  | slot (t : ThreadRef)
  | accept (c : ℕ) (t : ThreadRef) (item : Item β)
  /-- The next turn of the loop of `new`. -/
  | keep (c : ℕ)
  | call (c : ℕ)
  | appended (c : ℕ) (result : Except Error Unit)
  | task (k : ℕ)
  | answer (k : ℕ) (answer : Except Error (Option MessageStatus))
  | removed (k : ℕ) (result : Except Error Unit)
  /-- An aborted task stops at its await; a removal there may have been done. -/
  | cut (k : ℕ) (removed : Bool)
  | drained (w : ℕ) (t : ThreadRef)
  | entryStored (w : ℕ) (t : ThreadRef) (entry : Uuid)
  | wait (w : ℕ)
  | dropWait (w : ℕ)
  | stop
  | drainAborts
  | reportUnsent (t : ThreadRef)
  | restart

namespace Sys

def fresh (store : List StoredItem) (history : List (Kept β))
    (base : List (ThreadRef × Item β)) : Sys β where
  queue := fun _ => QueueInner.default
  changed := fun _ => 0
  slots := fun _ => false
  mem := fun _ => none
  numbers := 0
  refused := fun _ => false
  broken := fun _ => false
  stopped := false
  aborts := []
  aborted := fun _ => false
  drained := false
  reported := fun _ => false
  calls := fun _ => none
  tasks := fun _ => none
  nextTask := 0
  waits := fun _ => none
  leftovers := base
  rebuilding := none
  log := []
  base := base
  store := store
  history := history

variable (s : Sys β)

def setCall (c : ℕ) (call : Call β) (place : CallPlace) : Sys β :=
  { s with calls := Function.update s.calls c (some { call with place := place }) }

def setTask (k : ℕ) (t : ThreadRef) (place : TaskPlace β) : Sys β :=
  { s with tasks := Function.update s.tasks k (some ⟨t, place⟩) }

def setWait (w : ℕ) (t : ThreadRef) (place : WaitPlace) : Sys β :=
  { s with waits := Function.update s.waits w (some ⟨t, place⟩) }

def setQueue (t : ThreadRef) (queue : QueueInner β) : Sys β :=
  { s with queue := Function.update s.queue t queue }

def observe (obs : Obs β) : Sys β := { s with log := s.log ++ [obs] }

def bump (t : ThreadRef) : Sys β :=
  { s with changed := Function.update s.changed t (s.changed t + 1) }

/-- The section of `enqueue`. -/
def push (t : ThreadRef) (item : Item β) (no : ℕ) : Sys β :=
  s.setQueue t
    { s.queue t with
      dropped := fun entry => (s.queue t).dropped entry && !item.entries.contains entry
      items := (s.queue t).items ++ [⟨item, no⟩]
      lastNo := no
      workerRunning := true }

/-- The section of `end_item`. -/
def pop (t : ThreadRef) (head : Queued β) (how : Ended) : Sys β :=
  s.setQueue t
    { s.queue t with
      items := (s.queue t).items.tail
      lastFailure := none
      dropped := fun entry =>
        (s.queue t).dropped entry || (how ≠ .delivered && head.item.entries.contains entry) }

/-- The call has returned: what it held for its thread is free. -/
def release (c : ℕ) (call : Call β) : Sys β :=
  { s.setCall c call .left with
    mem := if call.kept then s.mem else Function.update s.mem call.thread none
    rebuilding := if call.kept then none else s.rebuilding }

/-- `accept` and `enqueue` -/
def callStep (json : ItemJson β) (c : ℕ) (call : Call β) : Option (Sys β) :=
  match call.place with
  | .entered =>
      if s.stopped then
        some (s.setCall c call (.ended (.error (.store "the adapter is stopped"))))
      else
        match call.item.stored json call.thread with
        | .error error => some (s.setCall c call (.ended (.error error)))
        | .ok stored => some (s.setCall c call (.appending stored))
  | .appending _ => none
  | .appended =>
      some { s.setCall c call (.numbered (s.numbers + 1)) with numbers := s.numbers + 1 }
  | .numbered no =>
      if s.stopped then
        some ((s.setCall c call (.ended (.ok ()))).observe
          (.report .unsent call.thread call.item none))
      else
        some (((s.push call.thread call.item no).setCall c call
          (.queued !(s.queue call.thread).workerRunning)).observe
            (.queued call.thread call.item no call.kept))
  | .queued spawn => some ((s.setCall c call (.told spawn)).bump call.thread)
  | .told false => some (s.setCall c call (.ended (.ok ())))
  | .told true =>
      some { (s.setCall c call (.spawned s.nextTask)).setTask s.nextTask call.thread .spawned with
        nextTask := s.nextTask + 1 }
  | .spawned task => some { s.setCall c call (.registered task) with aborts := s.aborts ++ [task] }
  | .registered task =>
      if s.stopped then
        some { s.setCall c call (.ended (.ok ())) with
          aborted := Function.update s.aborted task true }
      else some (s.setCall c call (.ended (.ok ())))
  | .ended _ => some (s.release c call)
  | .left => none

/-- The store has answered an append. -/
def appendDone (c : ℕ) (call : Call β) (result : Except Error Unit) : Option (Sys β) :=
  match call.place, result with
  | .appending stored, .ok () =>
      some { s.setCall c call .appended with
        store := s.store ++ [stored]
        history := s.history ++ [.appended call.thread call.item] }
  | .appending _, .error error =>
      some (s.setCall c call (.ended (.error (Error.fromStore error))))
  | _, _ => none

/-- The report of an item that is refused for good. -/
def refusal (t : ThreadRef) (item : Item β) (error : Error) : Obs β :=
  .report (if item.kind = .closing then .closingFailed else .itemRefused) t item (some error)

/-- `run` and `end_item` -/
def taskStep (k : ℕ) (task : Task β) : Option (Sys β) :=
  let t := task.thread
  match task.place with
  | .spawned => some (s.setTask k t .looking)
  | .looking =>
      match (s.queue t).items with
      | [] => some ((s.setQueue t { s.queue t with workerRunning := false }).setTask k t .left)
      | head :: _ => some (s.setTask k t (.took head))
  | .took head =>
      if head.item.kind ≠ .opening ∧ s.refused head.item.message then
        some ((s.setTask k t (.ending head .unsent)).observe
          (.report .itemDroppedUnsent t head.item none))
      else some ((s.setTask k t (.attempting head)).observe (.sent t head.item head.no))
  | .attempting _ => none
  | .answered head (.ok status) =>
      if status = some .failed then
        some ((s.setTask k t (.ending head .delivered)).observe
          (.report .closingFailed t head.item none))
      else some (s.setTask k t (.ending head .delivered))
  | .answered head (.error error) =>
      if retryable head.item.kind error then
        some (((s.setQueue t { s.queue t with lastFailure := some (head.item.id, error) }).setTask
          k t (.sleeping head)).observe (.report .attemptFailed t head.item (some error)))
      else
        some ((({ s with
          refused :=
            if head.item.kind = .opening then Function.update s.refused head.item.message true
            else s.refused } : Sys β).setTask k t (.ending head .refused)).observe
              (refusal t head.item error))
  | .sleeping _ => some (s.setTask k t .looking)
  | .ending head how =>
      some (({ s with
        broken :=
          if head.item.kind = .chunk ∧ how ≠ .delivered then
            Function.update s.broken head.item.message true
          else s.broken } : Sys β).setTask k t (.popping head how))
  | .popping head how =>
      some (((s.pop t head how).setTask k t (.popped head)).observe
        (.ended t head.item head.no how))
  | .popped head => some ((s.setTask k t (.removing head)).bump t)
  | .removing _ | .left | .cut => none

/-- `remove` of the store. -/
def removeStored (t : ThreadRef) (id : Uuid) : Sys β :=
  { s with
    store := s.store.filter fun stored => !(stored.id = id && stored.thread = t)
    history := s.history ++ [.removed t id] }

def removeDone (k : ℕ) (task : Task β) (result : Except Error Unit) : Option (Sys β) :=
  match task.place, result with
  | .removing head, .ok () =>
      some ((s.removeStored task.thread head.item.id).setTask k task.thread .looking)
  | .removing head, .error error =>
      some ((s.setTask k task.thread .looking).observe
        (.report .removeFailed task.thread head.item (some (Error.fromStore error))))
  | _, _ => none

def cut (k : ℕ) (task : Task β) (removed : Bool) : Option (Sys β) :=
  match task.place with
  | .spawned | .attempting _ | .sleeping _ => some (s.setTask k task.thread .cut)
  | .removing head =>
      if removed then
        some ((s.removeStored task.thread head.item.id).setTask k task.thread .cut)
      else some (s.setTask k task.thread .cut)
  | _ => none

/-- `drained`, `entry_stored` and `wait_past` -/
def waitStep (w : ℕ) (wait : Wait) : Option (Sys β) :=
  let t := wait.thread
  match wait.place with
  | .entered none =>
      if s.slots t then some (s.setWait w t .targeting)
      else some ((s.setWait w t .ended).observe (.returned w t))
  | .entered (some entry) =>
      if s.slots t then some (s.setWait w t (.looping (.entry entry)))
      else some ((s.setWait w t .ended).observe (.outcome w t entry .stored))
  | .targeting =>
      some ((s.setWait w t (.looping (.past (s.queue t).lastNo))).observe
        (.target w t (s.queue t).lastNo))
  | .looping goal => some (s.setWait w t (.looking goal (s.changed t)))
  | .looking (.past target) seen =>
      if (s.queue t).items.head?.all fun head => decide (target < head.no) then
        some ((s.setWait w t .ended).observe (.returned w t))
      else some (s.setWait w t (.waiting (.past target) seen))
  | .looking (.entry entry) seen =>
      if (s.queue t).dropped entry then
        some ((s.setWait w t .ended).observe (.outcome w t entry .dropped))
      else if (s.queue t).items.any fun queued => queued.item.entries.contains entry then
        some (s.setWait w t (.waiting (.entry entry) seen))
      else some ((s.setWait w t .ended).observe (.outcome w t entry .stored))
  | .waiting goal seen =>
      if s.changed t = seen then none else some (s.setWait w t (.looping goal))
  | .ended | .dropped => none

/-- `new` has returned the adapter. -/
def built : Bool := s.leftovers.isEmpty && s.rebuilding.isNone

/-- What `new` reads from the store. -/
def leftoversOf (json : ItemJson β) (store : List StoredItem) :
    Except Error (List (ThreadRef × Item β)) :=
  store.mapM fun kept => (Item.read json kept).map fun item => (kept.thread, item)

/-- The reports of `Drop` for a thread. -/
def unsentOf (t : ThreadRef) : List (Obs β) :=
  (s.queue t).items.map fun queued => .report .unsent t queued.item none

def step (json : ItemJson β) (s : Sys β) : Event β → Option (Sys β)
  | .slot t => some { s with slots := Function.update s.slots t true }
  | .accept c t item =>
      if s.built ∧ s.slots t ∧ s.mem t = none ∧ (s.calls c).isNone ∧ item.thread = t.val then
        some { s.setCall c ⟨t, item, false, .entered⟩ .entered with
          mem := Function.update s.mem t (some c) }
      else none
  | .keep c =>
      match s.leftovers with
      | [] => none
      | (t, item) :: leftovers =>
          if s.rebuilding = none ∧ (s.calls c).isNone then
            some { s.setCall c ⟨t, item, true, .appended⟩ .appended with
              slots := Function.update s.slots t true
              leftovers := leftovers
              rebuilding := some c }
          else none
  | .call c => (s.calls c).bind fun call => s.callStep json c call
  | .appended c result => (s.calls c).bind fun call => s.appendDone c call result
  | .task k => (s.tasks k).bind fun task => s.taskStep k task
  | .answer k answer =>
      (s.tasks k).bind fun task =>
        match task.place with
        | .attempting head => some (s.setTask k task.thread (.answered head answer))
        | _ => none
  | .removed k result => (s.tasks k).bind fun task => s.removeDone k task result
  | .cut k removed =>
      if s.aborted k then (s.tasks k).bind fun task => s.cut k task removed else none
  | .drained w t =>
      if s.built ∧ (s.waits w).isNone then
        some ((s.setWait w t (.entered none)).observe (.called w t))
      else none
  | .entryStored w t entry =>
      if s.built ∧ (s.waits w).isNone then
        some ((s.setWait w t (.entered (some entry))).observe (.called w t))
      else none
  | .wait w => (s.waits w).bind fun wait => s.waitStep w wait
  | .dropWait w =>
      (s.waits w).bind fun wait =>
        match wait.place with
        | .waiting _ _ => some (s.setWait w wait.thread .dropped)
        | _ => none
  | .stop => if s.built ∧ s.stopped = false then some { s with stopped := true } else none
  | .drainAborts =>
      if s.stopped ∧ s.drained = false then
        some { s with
          aborted := fun k => s.aborted k || s.aborts.contains k
          aborts := []
          drained := true }
      else none
  | .reportUnsent t =>
      if s.drained ∧ s.reported t = false then
        some { s with
          log := s.log ++ s.unsentOf t
          reported := Function.update s.reported t true }
      else none
  | .restart =>
      match leftoversOf json s.store with
      | .ok leftovers => some (fresh s.store s.history leftovers)
      | .error _ => none

end Sys

open Sys

/-- From an empty store. -/
def machine (json : ItemJson β) : Machine (Sys β) (Event β) := ⟨fresh [] [] [], step json⟩

end RunnerKit.Threads.Delivery
