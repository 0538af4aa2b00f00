import RunnerKit.Threads.DroppedUnsent

/-!
# The order of the deliveries

A worker sends the head of its queue and ends the head of its queue, so the items of
a thread are sent in the order in which they were accepted, an item is sent again
until it ends, and the next is not sent before. What was put into a queue has ended
or is still there, and while the adapter lives a worker is at it.
-/

namespace RunnerKit.Threads.Delivery

open Lib
open Jobs (Value)

variable {β : Type} {json : ItemJson β}

/-- What is sent or ended is the first of its thread that has not ended. -/
def InLine (pre : List (Obs β)) : Obs β → Prop
  | .sent t item no | .ended t item no _ =>
      ∃ rest, Sys.queuedOn t pre = Sys.endedOn t pre ++ ⟨item, no⟩ :: rest
  | _ => True

theorem inLine_quiet {obs : Obs β} (h : obs.quiet = true) (pre : List (Obs β)) :
    InLine pre obs := by
  cases obs <;> trivial

theorem inLine_wait {obs : Obs β} (h : obs.ofWait = true) (pre : List (Obs β)) :
    InLine pre obs := by
  cases obs <;> trivial

namespace Sys

variable {s s' : Sys β}

/-- What a worker has in hand is the first in line. -/
theorem Inv.first (h : s.Inv) {k : ℕ} {t : ThreadRef} {place : TaskPlace β} {head : Queued β}
    (hk : s.tasks k = some ⟨t, place⟩) (hplace : place.head? = some head) :
    ∃ rest, queuedOn t s.log = endedOn t s.log ++ head :: rest := by
  have hhead := h.workers.head k t place head hk hplace
  obtain ⟨rest, hitems⟩ := List.head?_eq_some_iff.mp hhead
  exact ⟨rest, by rw [h.fifo t, hitems]⟩

theorem Moves.inLine (h : Moves json s s') (hinv : s.Inv) (hline : Always InLine s.log) :
    Always InLine s'.log := by
  cases h with
  | unsent => exact always_snoc.mpr ⟨hline, trivial⟩
  | pushed => exact always_snoc.mpr ⟨hline, trivial⟩
  | task _ _ _ _ _ _ _ hmore =>
      exact always_append hline fun obs hobs pre => inLine_quiet (hmore obs hobs) pre
  | droppedUnsent => exact always_snoc.mpr ⟨hline, trivial⟩
  | sent hk => exact always_snoc.mpr ⟨hline, hinv.first hk rfl⟩
  | retried => exact always_snoc.mpr ⟨hline, trivial⟩
  | refused => exact always_snoc.mpr ⟨hline, trivial⟩
  | popped hk => exact always_snoc.mpr ⟨hline, hinv.first hk rfl⟩
  | waited hwait =>
      exact always_append hline fun obs hobs pre => inLine_wait (hwait.ofWait obs hobs) pre
  | reportUnsent =>
      refine always_append hline fun obs hobs pre => ?_
      obtain ⟨queued, -, rfl⟩ := List.mem_map.mp hobs
      trivial
  | restart => exact always_nil
  | _ => exact hline

theorem reachable_inLine (h : (machine json).Reachable s) : Always InLine s.log := by
  have hboth : s.Inv ∧ Always InLine s.log := by
    refine h.invariant (P := fun s => s.Inv ∧ Always InLine s.log)
      ⟨reachable_inv (Machine.Reachable.init (M := machine json)), always_nil⟩ ?_
    rintro s s' e ⟨hinv, hline⟩ hs
    have hmoves := step_moves hs
    exact ⟨hmoves.inv hinv, hmoves.inLine hinv hline⟩
  exact hboth.2

/-- What the queues and the workers of an adapter keep. -/
structure Delivers (s : Sys β) : Prop where
  /-- A thread has one worker at most. -/
  one : ∀ k k' t, s.Works k t → s.Works k' t → k = k'
  /-- While the adapter lives a queue that is not empty has a worker, or is about to. -/
  worked : s.stopped = false → ∀ t, (s.queue t).items ≠ [] → s.Spawning t ∨ ∃ k, s.Works k t
  /-- What was put into a queue has ended, or is still there, in order. -/
  fifo : ∀ t, queuedOn t s.log = endedOn t s.log ++ (s.queue t).items
  order : Always InLine s.log

end Sys

/-- In every run of accepts, workers, waits, aborts and restarts the items of a thread are
delivered in the order in which they were accepted, by one worker, and none is left behind. -/
theorem delivers_in_order {s : Sys β} (h : (machine json).Reachable s) : s.Delivers := by
  have hinv := Sys.reachable_inv h
  refine ⟨hinv.workers.one, ?_, hinv.fifo, Sys.reachable_inLine h⟩
  intro hliving t hitems
  refine hinv.workers.worked hliving t ?_
  by_contra hidle
  exact hitems (hinv.workers.idle t (Bool.eq_false_iff.mpr hidle))

/-- The chunk waits behind the opening, whose first attempt fails, and is not sent before
the opening has ended. -/
def resentRun : List (Event Value) :=
  ([.slot threadOne] : List (Event Value)) ++ acceptRun 0 (openingItem 1) ++
    ([.task 0, .task 0, .task 0] : List (Event Value)) ++
    ([.accept 1 threadOne (chunkItem 2 0), .call 1, .appended 1 (.ok ()), .call 1, .call 1,
      .call 1, .call 1, .call 1] : List (Event Value)) ++
    ([.answer 0 (.error (.unavailable ⟨.transport, "reset"⟩)), .task 0, .task 0, .task 0, .task 0] :
      List (Event Value)) ++
    ([.answer 0 (.ok none), .task 0, .task 0, .task 0, .task 0, .removed 0 (.ok ()),
      .task 0, .task 0] : List (Event Value))

theorem delivers_in_order_resent :
    ∃ s, (machine plainJson).run resentRun = some s ∧ s.Delivers ∧
      Sys.queuedOn threadOne s.log = [⟨openingItem 1, 1⟩, ⟨chunkItem 2 0, 2⟩] ∧
      Sys.endedOn threadOne s.log = [⟨openingItem 1, 1⟩] := by
  obtain ⟨s, hrun, hqueued, hended⟩ : ∃ s, (machine plainJson).run resentRun = some s ∧
      Sys.queuedOn threadOne s.log = [⟨openingItem 1, 1⟩, ⟨chunkItem 2 0, 2⟩] ∧
      Sys.endedOn threadOne s.log = [⟨openingItem 1, 1⟩] := ⟨_, rfl, rfl, rfl⟩
  exact ⟨s, hrun, delivers_in_order (Machine.reachable_of_run resentRun hrun), hqueued, hended⟩

end RunnerKit.Threads.Delivery
