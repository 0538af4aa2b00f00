import RunnerKit.Threads.DeliverySteps

/-!
# What the thread queues keep

One call at a time is busy with a thread: a call of `accept` has its memory, and `new`
enqueues one kept item after the other. So at most one worker of a thread is about to be
started or alive, what it works on is the head of its queue, and while the adapter lives a
queue that is not empty has a worker.
-/

namespace RunnerKit.Threads.Delivery.Sys

open Lib
open Jobs (Uuid)

variable {β : Type} {json : ItemJson β} {s s' : Sys β}

/-! ## The locks of the calls -/

/-- The call has what keeps others away from its thread. -/
def Held (s : Sys β) (c : ℕ) (call : Call β) : Prop :=
  if call.kept then s.rebuilding = some c
  else s.built = true ∧ s.mem call.thread = some c

structure Locks (s : Sys β) : Prop where
  held : ∀ c call, s.calls c = some call → call.place.busy = true → s.Held c call
  stopped : s.stopped = true → s.built = true
  aborted : ∀ k, s.aborted k = true → s.stopped = true

/-- Two busy calls of a thread are one. -/
theorem Locks.alone (h : s.Locks) {c c' : ℕ} {call call' : Call β}
    (hc : s.calls c = some call) (hbusy : call.place.busy = true)
    (hc' : s.calls c' = some call') (hbusy' : call'.place.busy = true)
    (hthread : call.thread = call'.thread) : c = c' := by
  have hheld := h.held c call hc hbusy
  have hheld' := h.held c' call' hc' hbusy'
  unfold Held at hheld hheld'
  split_ifs at hheld hheld' with hkept hkept' hkept'
  · exact Option.some.inj (hheld.symm.trans hheld')
  · have hnone := hheld'.1
    simp [built, hheld] at hnone
  · have hnone := hheld.1
    simp [built, hheld'] at hnone
  · rw [hthread] at hheld
    exact Option.some.inj (hheld.2.symm.trans hheld'.2)

theorem Locks.fresh (store : List StoredItem) (history : List (Kept β))
    (base : List (ThreadRef × Item β)) : (Sys.fresh store history base).Locks := by
  refine ⟨?_, ?_, ?_⟩ <;> simp [Sys.fresh]

/-- A busy call that goes on keeps what it has. -/
theorem Locks.setCall (h : s.Locks) {c : ℕ} {call : Call β} (hc : s.calls c = some call)
    (hbusy : call.place.busy = true) (place : CallPlace) :
    ∀ c' call', (s.setCall c call place).calls c' = some call' → call'.place.busy = true →
      s.Held c' call' := by
  intro c' call' hc' hbusy'
  rcases update_some hc' with ⟨rfl, rfl⟩ | ⟨-, hc'⟩
  · exact h.held c' call hc hbusy
  · exact h.held c' call' hc' hbusy'

theorem Moves.locks (h : Moves json s s') (hlocks : s.Locks) : s'.Locks := by
  have hstop := hlocks.stopped
  have habort := hlocks.aborted
  cases h with
  | slot => exact ⟨hlocks.held, hstop, habort⟩
  | accept hbuilt hmem hnone hthread hslot =>
      rename_i c t item
      refine ⟨fun c' call' hc' hbusy' => ?_, hstop, habort⟩
      rcases update_some hc' with ⟨rfl, rfl⟩ | ⟨hne, hc'⟩
      · exact ⟨hbuilt, by simp⟩
      · have hheld := hlocks.held c' call' hc' hbusy'
        unfold Held at hheld ⊢
        split_ifs at hheld ⊢ with hkept
        · exact hheld
        · -- the thread of another call is not the free one
          have hother : call'.thread ≠ t := by
            intro heq
            rw [heq, hmem] at hheld
            cases hheld.2
          exact ⟨hheld.1, by simpa [hother] using hheld.2⟩
  | keep hleftovers hrebuilding hnone =>
      have hbuilt : s.built = false := by simp [built, hleftovers]
      refine ⟨fun c' call' hc' hbusy' => ?_, fun hs => ?_, habort⟩
      · rcases update_some hc' with ⟨rfl, rfl⟩ | ⟨hne, hc'⟩
        · rfl
        · have hheld := hlocks.held c' call' hc' hbusy'
          unfold Held at hheld
          split_ifs at hheld with hkept
          · rw [hrebuilding] at hheld
            cases hheld
          · rw [hbuilt] at hheld
            cases hheld.1
      · have hs' := hstop hs
        rw [hbuilt] at hs'
        cases hs'
  | plain hc hplace =>
      refine ⟨hlocks.setCall hc ?_ _, hstop, habort⟩
      cases hp : CallPlace.busy _ with
      | true => rfl
      | false =>
          revert hplace hp
          cases Call.place _ <;> simp [CallPlace.plain, CallPlace.busy]
  | appends hc hplace hstored =>
      exact ⟨hlocks.setCall hc (by rw [hplace]; rfl) _, hstop, habort⟩
  | unkept hc hplace => exact ⟨hlocks.setCall hc (by rw [hplace]; rfl) _, hstop, habort⟩
  | appended hc hplace => exact ⟨hlocks.setCall hc (by rw [hplace]; rfl) _, hstop, habort⟩
  | numbered hc hplace => exact ⟨hlocks.setCall hc (by rw [hplace]; rfl) _, hstop, habort⟩
  | unsent hc hplace _ => exact ⟨hlocks.setCall hc (by rw [hplace]; rfl) _, hstop, habort⟩
  | pushed hc hplace _ => exact ⟨hlocks.setCall hc (by rw [hplace]; rfl) _, hstop, habort⟩
  | told hc hplace => exact ⟨hlocks.setCall hc (by rw [hplace]; rfl) _, hstop, habort⟩
  | spawned hc hplace => exact ⟨hlocks.setCall hc (by rw [hplace]; rfl) _, hstop, habort⟩
  | registered hc hplace => exact ⟨hlocks.setCall hc (by rw [hplace]; rfl) _, hstop, habort⟩
  | aborts hc hplace hs =>
      exact ⟨hlocks.setCall hc (by rw [hplace]; rfl) _, hstop, fun _ _ => hs⟩
  | released hc hplace =>
      rename_i c call result
      have hbusy : call.place.busy = true := by rw [hplace]; rfl
      have hheld := hlocks.held c call hc hbusy
      cases hkept : call.kept with
      | true =>
          -- no other call goes on while a kept item is enqueued
          simp only [Held, hkept, if_true] at hheld
          have hbuilt : s.built = false := by simp [built, hheld]
          refine ⟨fun c' call' hc' hbusy' => ?_, fun hs => ?_, habort⟩
          · rcases update_some hc' with ⟨rfl, rfl⟩ | ⟨hne, hc'⟩
            · cases hbusy'
            · have hheld' := hlocks.held c' call' hc' hbusy'
              unfold Held at hheld'
              split_ifs at hheld' with hkept'
              · exact absurd (Option.some.inj (hheld'.symm.trans hheld)) hne
              · cases hbuilt.symm.trans hheld'.1
          · cases hbuilt.symm.trans (hstop hs)
      | false =>
          have hsame : s.release c call =
              { s.setCall c call .left with
                mem := Function.update s.mem call.thread none } := by
            simp [release, hkept, setCall]
          rw [hsame]
          refine ⟨fun c' call' hc' hbusy' => ?_, hstop, habort⟩
          rcases update_some hc' with ⟨rfl, rfl⟩ | ⟨hne, hc'⟩
          · cases hbusy'
          · have hheld' := hlocks.held c' call' hc' hbusy'
            have hthread : call'.thread ≠ call.thread := by
              intro heq
              exact hne (hlocks.alone hc' hbusy' hc hbusy heq)
            unfold Held at hheld' ⊢
            split_ifs at hheld' ⊢ with hkept'
            · exact hheld'
            · exact ⟨hheld'.1, by simpa [hthread] using hheld'.2⟩
  | task hk _ _ _ _ _ _ _ => exact ⟨hlocks.held, hstop, habort⟩
  | left hk hitems => exact ⟨hlocks.held, hstop, habort⟩
  | took hk hitems => exact ⟨hlocks.held, hstop, habort⟩
  | droppedUnsent hk _ _ => exact ⟨hlocks.held, hstop, habort⟩
  | sent hk _ => exact ⟨hlocks.held, hstop, habort⟩
  | retried hk => exact ⟨hlocks.held, hstop, habort⟩
  | refused hk => exact ⟨hlocks.held, hstop, habort⟩
  | broke hk => exact ⟨hlocks.held, hstop, habort⟩
  | popped hk => exact ⟨hlocks.held, hstop, habort⟩
  | toldEnd hk => exact ⟨hlocks.held, hstop, habort⟩
  | removed hk _ => exact ⟨hlocks.held, hstop, habort⟩
  | cut hk _ _ _ => exact ⟨hlocks.held, hstop, habort⟩
  | waited _ => exact ⟨hlocks.held, hstop, habort⟩
  | stop hbuilt => exact ⟨hlocks.held, fun _ => hbuilt, fun _ _ => rfl⟩
  | drainAborts hs => exact ⟨hlocks.held, hstop, fun _ _ => hs⟩
  | reportUnsent => exact ⟨hlocks.held, hstop, habort⟩
  | restart _ => exact .fresh _ _ _

/-! ## The workers -/

/-- A call is about to start the worker of the thread. -/
def Spawning (s : Sys β) (t : ThreadRef) : Prop :=
  ∃ c call, s.calls c = some call ∧ call.thread = t ∧ call.place.spawns = true

/-- The task is the worker of the thread. -/
def Works (s : Sys β) (k : ℕ) (t : ThreadRef) : Prop :=
  ∃ place, s.tasks k = some ⟨t, place⟩ ∧ place.alive = true

structure Workers (s : Sys β) : Prop where
  fresh : ∀ k task, s.tasks k = some task → k < s.nextTask
  spawning : ∀ t, s.Spawning t → (s.queue t).workerRunning = true
  running : ∀ k t, s.Works k t → (s.queue t).workerRunning = true
  one : ∀ k k' t, s.Works k t → s.Works k' t → k = k'
  apart : ∀ k t, s.Works k t → ¬ s.Spawning t
  head : ∀ k t place head, s.tasks k = some ⟨t, place⟩ → place.head? = some head →
    (s.queue t).items.head? = some head
  worked : s.stopped = false → ∀ t, (s.queue t).workerRunning = true →
    s.Spawning t ∨ ∃ k, s.Works k t
  idle : ∀ t, (s.queue t).workerRunning = false → (s.queue t).items = []

theorem Workers.fresh' (store : List StoredItem) (history : List (Kept β))
    (base : List (ThreadRef × Item β)) : (Sys.fresh store history base).Workers := by
  refine ⟨?_, ?_, ?_, ?_, ?_, ?_, ?_, ?_⟩ <;>
    simp [Sys.fresh, Spawning, Works, QueueInner.default]

/-- A queue changes in what the workers do not look at. -/
def SameQueues (s s' : Sys β) : Prop :=
  ∀ t, (s'.queue t).workerRunning = (s.queue t).workerRunning ∧
    (s'.queue t).items = (s.queue t).items

theorem SameQueues.refl (h : s'.queue = s.queue) : SameQueues s s' := fun t => by simp [h]

/-- The same workers over the same queues. -/
theorem Workers.frame (h : s.Workers) (hqueue : SameQueues s s')
    (hspawning : ∀ t, s'.Spawning t ↔ s.Spawning t) (hworks : ∀ k t, s'.Works k t ↔ s.Works k t)
    (hfresh : ∀ k task, s'.tasks k = some task → k < s'.nextTask)
    (hhead : ∀ k t place head, s'.tasks k = some ⟨t, place⟩ → place.head? = some head →
      (s.queue t).items.head? = some head)
    (hstopped : s'.stopped = false → s.stopped = false) : s'.Workers where
  fresh := hfresh
  spawning t ht := by
    rw [(hqueue t).1]
    exact h.spawning t ((hspawning t).mp ht)
  running k t hk := by
    rw [(hqueue t).1]
    exact h.running k t ((hworks k t).mp hk)
  one k k' t hk hk' := h.one k k' t ((hworks k t).mp hk) ((hworks k' t).mp hk')
  apart k t hk ht := h.apart k t ((hworks k t).mp hk) ((hspawning t).mp ht)
  head k t place head hk hplace := by
    rw [(hqueue t).2]
    exact hhead k t place head hk hplace
  worked hs t ht := by
    rw [(hqueue t).1] at ht
    rcases h.worked (hstopped hs) t ht with hspawn | ⟨k, hk⟩
    · exact Or.inl ((hspawning t).mpr hspawn)
    · exact Or.inr ⟨k, (hworks k t).mpr hk⟩
  idle t ht := by
    rw [(hqueue t).1] at ht
    rw [(hqueue t).2]
    exact h.idle t ht

/-- A call goes on and is about to start a worker if it was. -/
theorem spawning_setCall {c : ℕ} {call : Call β} (hc : s.calls c = some call)
    {place : CallPlace} (hplace : place.spawns = call.place.spawns) (t : ThreadRef) :
    (s.setCall c call place).Spawning t ↔ s.Spawning t := by
  constructor
  · rintro ⟨c', call', hc', hthread, hspawns⟩
    rcases update_some hc' with ⟨rfl, rfl⟩ | ⟨-, hc'⟩
    · exact ⟨c', call, hc, hthread, hplace ▸ hspawns⟩
    · exact ⟨c', call', hc', hthread, hspawns⟩
  · rintro ⟨c', call', hc', hthread, hspawns⟩
    by_cases heq : c' = c
    · subst heq
      obtain rfl : call = call' := Option.some.inj (hc.symm.trans hc')
      exact ⟨c', { call with place := place }, by simp [Sys.setCall], hthread,
        hplace.trans hspawns⟩
    · exact ⟨c', call', by simpa [Sys.setCall, heq] using hc', hthread, hspawns⟩

/-- A step that moves a call and no worker. -/
theorem Workers.call (h : s.Workers) {c : ℕ} {call : Call β} (hc : s.calls c = some call)
    {place : CallPlace} (hplace : place.spawns = call.place.spawns)
    (hcalls : s'.calls = (s.setCall c call place).calls) (hqueue : SameQueues s s')
    (htasks : s'.tasks = s.tasks) (hnext : s'.nextTask = s.nextTask)
    (hstopped : s'.stopped = s.stopped) : s'.Workers := by
  refine h.frame hqueue (fun t => ?_) (fun k t => by simp [Works, htasks]) ?_ ?_ ?_
  · have hspawning := spawning_setCall hc hplace t
    simpa [Spawning, hcalls] using hspawning
  · rw [htasks, hnext]
    exact h.fresh
  · rw [htasks]
    exact h.head
  · rw [hstopped]
    exact id

/-- A task goes on, alive as it was. -/
theorem works_setTask {k : ℕ} {t : ThreadRef} {place : TaskPlace β}
    (hk : s.tasks k = some ⟨t, place⟩) (place' : TaskPlace β) (halive : place'.alive = place.alive) (j : ℕ)
    (t' : ThreadRef) : (s.setTask k t place').Works j t' ↔ s.Works j t' := by
  constructor
  · rintro ⟨q, hj, hq⟩
    rcases update_some hj with ⟨rfl, heq⟩ | ⟨-, hj⟩
    · cases heq
      exact ⟨place, hk, halive ▸ hq⟩
    · exact ⟨q, hj, hq⟩
  · rintro ⟨q, hj, hq⟩
    by_cases heq : j = k
    · subst heq
      cases hk.symm.trans hj
      exact ⟨place', by simp [setTask], halive.trans hq⟩
    · exact ⟨q, by simpa [setTask, heq] using hj, hq⟩

/-- A step of a worker that stays one, over a queue that stays as it is. -/
theorem Workers.task (h : s.Workers) {k : ℕ} {t : ThreadRef} {place place' : TaskPlace β}
    (hk : s.tasks k = some ⟨t, place⟩) (htasks : s'.tasks = (s.setTask k t place').tasks)
    (halive : place'.alive = place.alive)
    (hhead : ∀ head, place'.head? = some head → (s.queue t).items.head? = some head)
    (hqueue : SameQueues s s')
    (hcalls : s'.calls = s.calls) (hnext : s'.nextTask = s.nextTask)
    (hstopped : s'.stopped = s.stopped) : s'.Workers := by
  refine h.frame hqueue (fun t => by simp [Spawning, hcalls]) (fun j t' => ?_) ?_ ?_ ?_
  · have hworks := works_setTask hk place' halive j t'
    simpa [Works, htasks] using hworks
  · intro j task hj
    rw [htasks] at hj
    rw [hnext]
    rcases update_some hj with ⟨rfl, -⟩ | ⟨-, hj⟩
    · exact h.fresh j _ hk
    · exact h.fresh j task hj
  · intro j t' q head hj hq
    rw [htasks] at hj
    rcases update_some hj with ⟨rfl, heq⟩ | ⟨-, hj⟩
    · cases heq
      exact hhead head hq
    · exact h.head j t' q head hj hq
  · rw [hstopped]
    exact id

/-- A new call does not start a worker yet. -/
theorem Workers.begin (h : s.Workers) {c : ℕ} (hnone : s.calls c = none) {call : Call β}
    {place : CallPlace} (hplace : place.spawns = false)
    (hcalls : s'.calls = (s.setCall c call place).calls) (hqueue : SameQueues s s')
    (htasks : s'.tasks = s.tasks) (hnext : s'.nextTask = s.nextTask)
    (hstopped : s'.stopped = s.stopped) : s'.Workers := by
  refine h.frame hqueue (fun t => ?_) (fun k t => by simp [Works, htasks]) ?_ ?_ ?_
  · constructor
    · rintro ⟨c', call', hc', hthread, hspawns⟩
      rw [hcalls] at hc'
      rcases update_some hc' with ⟨rfl, rfl⟩ | ⟨-, hc'⟩
      · cases hplace.symm.trans hspawns
      · exact ⟨c', call', hc', hthread, hspawns⟩
    · rintro ⟨c', call', hc', hthread, hspawns⟩
      have hne : c' ≠ c := by
        rintro rfl
        cases hnone.symm.trans hc'
      exact ⟨c', call', by simpa [hcalls, Sys.setCall, hne] using hc', hthread, hspawns⟩
  · rw [htasks, hnext]
    exact h.fresh
  · rw [htasks]
    exact h.head
  · rw [hstopped]
    exact id

/-- The worker of a thread ends: none is left there. -/
theorem Workers.alone (h : s.Workers) {k j : ℕ} {t t' : ThreadRef} {place' : TaskPlace β}
    (hk : s.Works k t) (hdead : place'.alive = false)
    (hj : (s.setTask k t place').Works j t') : t' ≠ t ∧ s.Works j t' := by
  obtain ⟨q, hset, hq⟩ := hj
  rcases update_some hset with ⟨rfl, heq⟩ | ⟨hne, hold⟩
  · cases heq
    cases hdead.symm.trans hq
  · refine ⟨?_, q, hold, hq⟩
    rintro rfl
    exact hne (h.one j k t' ⟨q, hold, hq⟩ hk)

/-- The item enters the queue; if no worker runs, the call is to start one. -/
theorem Workers.push (h : s.Workers) {c : ℕ} {call : Call β} {no : ℕ}
    (hc : s.calls c = some call) (hplace : call.place = .numbered no) :
    ((s.push call.thread call.item no).setCall c call
      (.queued !(s.queue call.thread).workerRunning)).Workers := by
  have hrunning : ∀ t, (((s.push call.thread call.item no).setCall c call
      (.queued !(s.queue call.thread).workerRunning)).queue t).workerRunning =
        if t = call.thread then true else (s.queue t).workerRunning := by
    intro t
    by_cases ht : t = call.thread
    · subst ht
      simp [Sys.push, Sys.setCall, setQueue]
    · simp [Sys.push, Sys.setCall, setQueue, ht]
  have hitems : ∀ t, (((s.push call.thread call.item no).setCall c call
      (.queued !(s.queue call.thread).workerRunning)).queue t).items =
        (s.queue t).items ++ if t = call.thread then [⟨call.item, no⟩] else [] := by
    intro t
    by_cases ht : t = call.thread
    · subst ht
      simp [Sys.push, Sys.setCall, setQueue]
    · simp [Sys.push, Sys.setCall, setQueue, ht]
  -- the call is the only one that may start the worker of its thread
  have hspawning : ∀ t, ((s.push call.thread call.item no).setCall c call
      (.queued !(s.queue call.thread).workerRunning)).Spawning t →
        s.Spawning t ∨ (t = call.thread ∧ (s.queue t).workerRunning = false) := by
    rintro t ⟨c', call', hc', rfl, hspawns⟩
    rcases update_some hc' with ⟨rfl, rfl⟩ | ⟨-, hc'⟩
    · exact Or.inr ⟨rfl, by simpa [CallPlace.spawns] using hspawns⟩
    · exact Or.inl ⟨c', call', hc', rfl, hspawns⟩
  have hstill : ∀ t, s.Spawning t → ((s.push call.thread call.item no).setCall c call
      (.queued !(s.queue call.thread).workerRunning)).Spawning t := by
    rintro t ⟨c', call', hc', rfl, hspawns⟩
    have hne : c' ≠ c := by
      rintro rfl
      cases hc.symm.trans hc'
      rw [hplace] at hspawns
      cases hspawns
    exact ⟨c', call', by simpa [Sys.setCall, Sys.push, setQueue, hne] using hc', rfl, hspawns⟩
  refine ⟨h.fresh, fun t ht => ?_, fun k t hk => ?_, h.one, fun k t hk ht => ?_,
    fun k t place head hk hhead => ?_, fun hs t ht => ?_, fun t ht => ?_⟩
  · rw [hrunning]
    split_ifs with heq
    · rfl
    · rcases hspawning t ht with ht | ⟨heq', -⟩
      · exact h.spawning t ht
      · exact absurd heq' heq
  · rw [hrunning]
    split_ifs
    · rfl
    · exact h.running k t hk
  · rcases hspawning t ht with ht | ⟨-, hidle⟩
    · exact h.apart k t hk ht
    · cases hidle.symm.trans (h.running k t hk)
  · rw [hitems, List.head?_append, h.head k t place head hk hhead]
    rfl
  · by_cases heq : t = call.thread
    · cases hold : (s.queue t).workerRunning with
      | true =>
          rcases h.worked hs t hold with hspawn | hworks
          · exact Or.inl (hstill t hspawn)
          · exact Or.inr hworks
      | false =>
          refine Or.inl ⟨c, { call with place := .queued !(s.queue call.thread).workerRunning },
            by simp [Sys.setCall], heq.symm, ?_⟩
          simp [CallPlace.spawns, ← heq, hold]
    · rw [hrunning, if_neg heq] at ht
      rcases h.worked hs t ht with hspawn | hworks
      · exact Or.inl (hstill t hspawn)
      · exact Or.inr hworks
  · rw [hrunning] at ht
    split_ifs at ht with heq
    rw [hitems, if_neg heq, h.idle t ht]
    rfl

/-- The call that was to start the worker of its thread starts it. -/
theorem Workers.spawn (h : s.Workers) (hlocks : s.Locks) {c : ℕ} {call : Call β}
    (hc : s.calls c = some call) (hplace : call.place = .told true) :
    ({ (s.setCall c call (.spawned s.nextTask)).setTask s.nextTask call.thread .spawned with
      nextTask := s.nextTask + 1 } : Sys β).Workers := by
  have hspawn : s.Spawning call.thread := ⟨c, call, hc, rfl, by rw [hplace]; rfl⟩
  -- it was the only one
  have hspawning : ∀ t, ({ (s.setCall c call (.spawned s.nextTask)).setTask s.nextTask
      call.thread .spawned with nextTask := s.nextTask + 1 } : Sys β).Spawning t ↔
        t ≠ call.thread ∧ s.Spawning t := by
    intro t
    constructor
    · rintro ⟨c', call', hc', hthread, hspawns⟩
      rcases update_some hc' with ⟨rfl, rfl⟩ | ⟨hne, hold⟩
      · cases hspawns
      · refine ⟨fun heq => hne ?_, c', call', hold, hthread, hspawns⟩
        have hbusy : call'.place.busy = true := by
          revert hspawns
          cases call'.place <;> simp [CallPlace.spawns, CallPlace.busy]
        exact hlocks.alone hold hbusy hc (by rw [hplace]; rfl) (hthread.trans heq)
    · rintro ⟨hne', c', call', hc', hthread, hspawns⟩
      have hne : c' ≠ c := by
        rintro rfl
        cases hc.symm.trans hc'
        exact hne' hthread.symm
      exact ⟨c', call', by simpa [setTask, Sys.setCall, hne] using hc', hthread, hspawns⟩
  have hworks : ∀ k t, ({ (s.setCall c call (.spawned s.nextTask)).setTask s.nextTask
      call.thread .spawned with nextTask := s.nextTask + 1 } : Sys β).Works k t ↔
        (k = s.nextTask ∧ t = call.thread) ∨ s.Works k t := by
    intro k t
    constructor
    · rintro ⟨q, hk, hq⟩
      rcases update_some hk with ⟨rfl, heq⟩ | ⟨-, hold⟩
      · cases heq
        exact Or.inl ⟨rfl, rfl⟩
      · exact Or.inr ⟨q, hold, hq⟩
    · rintro (⟨rfl, rfl⟩ | ⟨q, hk, hq⟩)
      · exact ⟨.spawned, by simp [setTask], rfl⟩
      · have hne : k ≠ s.nextTask := Nat.ne_of_lt (h.fresh k _ hk)
        exact ⟨q, by simpa [setTask, Sys.setCall, hne] using hk, hq⟩
  refine ⟨fun k task hk => ?_, fun t ht => ?_, fun k t hk => ?_, fun k k' t hk hk' => ?_,
    fun k t hk ht => ?_, fun k t place head hk hhead => ?_, fun hs t ht => ?_, h.idle⟩
  · rcases update_some hk with ⟨rfl, -⟩ | ⟨-, hold⟩
    · exact Nat.lt_succ_self _
    · exact Nat.lt_succ_of_lt (h.fresh k task hold)
  · exact h.spawning t ((hspawning t).mp ht).2
  · rcases (hworks k t).mp hk with ⟨-, heq⟩ | hold
    · exact heq ▸ h.spawning call.thread hspawn
    · exact h.running k t hold
  · rcases (hworks k t).mp hk with ⟨rfl, heq⟩ | hold <;>
      rcases (hworks k' t).mp hk' with ⟨rfl, heq'⟩ | hold'
    · rfl
    · exact absurd hspawn (h.apart k' _ (heq ▸ hold'))
    · exact absurd hspawn (h.apart k _ (heq' ▸ hold))
    · exact h.one k k' t hold hold'
  · obtain ⟨hthread, hold⟩ := (hspawning t).mp ht
    rcases (hworks k t).mp hk with ⟨-, heq⟩ | hk
    · exact hthread heq
    · exact h.apart k t hk hold
  · rcases update_some hk with ⟨rfl, heq⟩ | ⟨-, hold⟩
    · cases heq
      cases hhead
    · exact h.head k t place head hold hhead
  · by_cases heq : t = call.thread
    · exact Or.inr ⟨s.nextTask, (hworks _ t).mpr (Or.inl ⟨rfl, heq⟩)⟩
    · rcases h.worked hs t ht with hold | ⟨k, hk⟩
      · exact Or.inl ((hspawning t).mpr ⟨heq, hold⟩)
      · exact Or.inr ⟨k, (hworks k t).mpr (Or.inr hk)⟩

theorem Workers.rest (h : s.Workers) (hqueue : s'.queue = s.queue) (hcalls : s'.calls = s.calls)
    (htasks : s'.tasks = s.tasks) (hnext : s'.nextTask = s.nextTask)
    (hstopped : s'.stopped = false → s.stopped = false) : s'.Workers := by
  refine h.frame (.refl hqueue) (fun t => by simp [Spawning, hcalls])
    (fun k t => by simp [Works, htasks]) ?_ ?_ hstopped
  · rw [htasks, hnext]
    exact h.fresh
  · rw [htasks]
    exact h.head

/-- The worker keeps to the head that it has taken. -/
theorem Workers.same (h : s.Workers) {k : ℕ} {t : ThreadRef} {place place' : TaskPlace β}
    (hk : s.tasks k = some ⟨t, place⟩) (htasks : s'.tasks = (s.setTask k t place').tasks)
    (halive : place'.alive = place.alive)
    (hhead : place'.head? = none ∨ place'.head? = place.head?) (hqueue : SameQueues s s')
    (hcalls : s'.calls = s.calls) (hnext : s'.nextTask = s.nextTask)
    (hstopped : s'.stopped = s.stopped) : s'.Workers := by
  refine h.task hk htasks halive (fun head hq => ?_) hqueue hcalls hnext hstopped
  rcases hhead with hnone | hsame
  · cases hnone.symm.trans hq
  · exact h.head k t place head hk (hsame ▸ hq)

/-- A task that an abort stops. -/
theorem Workers.cut (h : s.Workers) {k : ℕ} {t : ThreadRef} {place : TaskPlace β}
    (hk : s.tasks k = some ⟨t, place⟩) (halive : place.alive = true)
    (hstopped : s.stopped = true) : (s.setTask k t .cut).Workers := by
  have hworks : s.Works k t := ⟨place, hk, halive⟩
  refine ⟨fun j task hj => ?_, h.spawning, fun j t' hj => ?_, fun j j' t' hj hj' => ?_,
    fun j t' hj => ?_, fun j t' q head hj hq => ?_, fun hs => ?_, h.idle⟩
  · rcases update_some hj with ⟨rfl, -⟩ | ⟨-, hold⟩
    · exact h.fresh j _ hk
    · exact h.fresh j task hold
  · exact h.running j t' (h.alone hworks rfl hj).2
  · exact h.one j j' t' (h.alone hworks rfl hj).2 (h.alone hworks rfl hj').2
  · exact h.apart j t' (h.alone hworks rfl hj).2
  · rcases update_some hj with ⟨rfl, heq⟩ | ⟨-, hold⟩
    · cases heq
      cases hq
    · exact h.head j t' q head hold hq
  · cases hstopped.symm.trans hs

/-- The worker leaves over an empty queue. -/
theorem Workers.leave (h : s.Workers) {k : ℕ} {t : ThreadRef}
    (hk : s.tasks k = some ⟨t, .looking⟩) (hitems : (s.queue t).items = []) :
    ((s.setQueue t { s.queue t with workerRunning := false }).setTask k t .left).Workers := by
  have hworks : s.Works k t := ⟨_, hk, rfl⟩
  have hother : ∀ t', t' ≠ t →
      ((s.setQueue t { s.queue t with workerRunning := false }).setTask k t .left).queue t' =
        s.queue t' := by
    intro t' hne
    simp [setQueue, setTask, hne]
  have hspawning : ∀ t', s.Spawning t' → t' ≠ t := by
    rintro t' ht rfl
    exact h.apart k t' hworks ht
  refine ⟨fun j task hj => ?_, fun t' ht => ?_, fun j t' hj => ?_, fun j j' t' hj hj' => ?_,
    fun j t' hj => ?_, fun j t' q head hj hq => ?_, fun hs t' ht => ?_, fun t' ht => ?_⟩
  · rcases update_some hj with ⟨rfl, -⟩ | ⟨-, hold⟩
    · exact h.fresh j _ hk
    · exact h.fresh j task hold
  · rw [hother t' (hspawning t' ht)]
    exact h.spawning t' ht
  · obtain ⟨hne, hj⟩ := h.alone hworks rfl hj
    rw [hother t' hne]
    exact h.running j t' hj
  · exact h.one j j' t' (h.alone hworks rfl hj).2 (h.alone hworks rfl hj').2
  · exact h.apart j t' (h.alone hworks rfl hj).2
  · rcases update_some hj with ⟨rfl, heq⟩ | ⟨hne, hold⟩
    · cases heq
      cases hq
    · have hwas := h.head j t' q head hold hq
      have hthread : t' ≠ t := by
        rintro rfl
        rw [hitems] at hwas
        cases hwas
      rw [hother t' hthread]
      exact hwas
  · have hne : t' ≠ t := by
      rintro rfl
      simp [setQueue, setTask] at ht
    rw [hother t' hne] at ht
    rcases h.worked hs t' ht with hspawn | ⟨j, q, hj, hq⟩
    · exact Or.inl hspawn
    · refine Or.inr ⟨j, q, ?_, hq⟩
      have hjk : j ≠ k := by
        rintro rfl
        cases hk.symm.trans hj
        exact hne rfl
      simpa [setQueue, setTask, hjk] using hj
  · by_cases heq : t' = t
    · subst heq
      simpa [setQueue, setTask] using hitems
    · rw [hother t' heq] at ht ⊢
      exact h.idle t' ht

/-- The head leaves the queue with the worker behind it. -/
theorem Workers.popped (h : s.Workers) {k : ℕ} {t : ThreadRef} {head : Queued β} {how : Ended}
    (hk : s.tasks k = some ⟨t, .popping head how⟩) :
    ((s.pop t head how).setTask k t (.popped head)).Workers := by
  have hworks : s.Works k t := ⟨_, hk, rfl⟩
  have hrunning : ∀ t', (((s.pop t head how).setTask k t (.popped head)).queue t').workerRunning =
      (s.queue t').workerRunning := by
    intro t'
    by_cases heq : t' = t
    · subst heq
      simp [Sys.pop, setQueue, setTask]
    · simp [Sys.pop, setQueue, setTask, heq]
  have hworksSet : ∀ j t', ((s.pop t head how).setTask k t (.popped head)).Works j t' ↔
      s.Works j t' := fun j t' => works_setTask hk (.popped head) rfl j t'
  refine ⟨fun j task hj => ?_, fun t' ht => ?_, fun j t' hj => ?_, fun j j' t' hj hj' => ?_,
    fun j t' hj => ?_, fun j t' q head' hj hq => ?_, fun hs t' ht => ?_, fun t' ht => ?_⟩
  · rcases update_some hj with ⟨rfl, -⟩ | ⟨-, hold⟩
    · exact h.fresh j _ hk
    · exact h.fresh j task hold
  · rw [hrunning]
    exact h.spawning t' ht
  · rw [hrunning]
    exact h.running j t' ((hworksSet j t').mp hj)
  · exact h.one j j' t' ((hworksSet j t').mp hj) ((hworksSet j' t').mp hj')
  · exact h.apart j t' ((hworksSet j t').mp hj)
  · rcases update_some hj with ⟨rfl, heq⟩ | ⟨hne, hold⟩
    · cases heq
      cases hq
    · have hthread : t' ≠ t := by
        rintro rfl
        refine hne (h.one j k t' ⟨q, hold, ?_⟩ hworks)
        revert hq
        cases q <;> simp [TaskPlace.head?, TaskPlace.alive]
      simpa [Sys.pop, setQueue, setTask, hthread] using h.head j t' q head' hold hq
  · rw [hrunning] at ht
    rcases h.worked hs t' ht with hspawn | ⟨j, hj⟩
    · exact Or.inl hspawn
    · exact Or.inr ⟨j, (hworksSet j t').mpr hj⟩
  · rw [hrunning] at ht
    have hitems := h.idle t' ht
    by_cases heq : t' = t
    · subst heq
      simp [Sys.pop, setQueue, setTask, hitems]
    · simpa [Sys.pop, setQueue, setTask, heq] using hitems

theorem Moves.workers (h : Moves json s s') (hlocks : s.Locks) (hworkers : s.Workers) :
    s'.Workers := by
  cases h with
  | slot => exact hworkers.rest rfl rfl rfl rfl id
  | accept hbuilt hmem hnone hthread hslot =>
      exact hworkers.begin hnone rfl rfl (.refl rfl) rfl rfl rfl
  | keep hleftovers hrebuilding hnone =>
      exact hworkers.begin hnone rfl rfl (.refl rfl) rfl rfl rfl
  | plain hc hplace =>
      refine hworkers.call hc ?_ rfl (.refl rfl) rfl rfl rfl
      revert hplace
      rename_i call result
      rcases call with ⟨thread, item, kept, _ | _ | _ | _ | _ | (_ | _) | _ | _ | _ | _⟩ <;>
        simp [CallPlace.plain, CallPlace.spawns]
  | appends hc hplace hstored =>
      exact hworkers.call hc (by rw [hplace]; rfl) rfl (.refl rfl) rfl rfl rfl
  | unkept hc hplace =>
      exact hworkers.call hc (by rw [hplace]; rfl) rfl (.refl rfl) rfl rfl rfl
  | appended hc hplace =>
      exact hworkers.call hc (by rw [hplace]; rfl) rfl (.refl rfl) rfl rfl rfl
  | numbered hc hplace =>
      exact hworkers.call hc (by rw [hplace]; rfl) rfl (.refl rfl) rfl rfl rfl
  | unsent hc hplace _ =>
      exact hworkers.call hc (by rw [hplace]; rfl) rfl (.refl rfl) rfl rfl rfl
  | pushed hc hplace _ => exact (hworkers.push hc hplace).rest rfl rfl rfl rfl id
  | told hc hplace =>
      exact hworkers.call hc (by rw [hplace]; rfl) rfl (.refl rfl) rfl rfl rfl
  | spawned hc hplace => exact hworkers.spawn hlocks hc hplace
  | registered hc hplace =>
      exact hworkers.call hc (by rw [hplace]; rfl) rfl (.refl rfl) rfl rfl rfl
  | aborts hc hplace _ =>
      exact hworkers.call hc (by rw [hplace]; rfl) rfl (.refl rfl) rfl rfl rfl
  | released hc hplace =>
      exact hworkers.call hc (by rw [hplace]; rfl) rfl (.refl rfl) rfl rfl rfl
  | task hk halive huntold halive' huntold' hhead htold hmore =>
      exact hworkers.same hk rfl (halive'.trans halive.symm) hhead (.refl rfl) rfl rfl rfl
  | left hk hitems => exact hworkers.leave hk hitems
  | took hk hitems =>
      refine hworkers.task hk rfl rfl (fun head hq => ?_) (.refl rfl) rfl rfl rfl
      rw [hitems]
      exact hq
  | droppedUnsent hk _ _ =>
      exact hworkers.same hk rfl rfl (Or.inr rfl) (.refl rfl) rfl rfl rfl
  | sent hk _ => exact hworkers.same hk rfl rfl (Or.inr rfl) (.refl rfl) rfl rfl rfl
  | retried hk =>
      refine hworkers.same hk rfl rfl (Or.inl rfl) (fun t' => ?_) rfl rfl rfl
      rename_i k t head error
      by_cases heq : t' = t
      · subst heq
        simp [setQueue, setTask, observe]
      · simp [setQueue, setTask, observe, heq]
  | refused hk => exact hworkers.same hk rfl rfl (Or.inr rfl) (.refl rfl) rfl rfl rfl
  | broke hk => exact hworkers.same hk rfl rfl (Or.inr rfl) (.refl rfl) rfl rfl rfl
  | popped hk => exact (hworkers.popped hk).rest rfl rfl rfl rfl id
  | toldEnd hk => exact hworkers.same hk rfl rfl (Or.inl rfl) (.refl rfl) rfl rfl rfl
  | removed hk hplace =>
      rcases hplace with rfl | ⟨rfl, haborted⟩
      · exact hworkers.same hk rfl rfl (Or.inl rfl) (.refl rfl) rfl rfl rfl
      · exact (hworkers.cut hk rfl (hlocks.aborted _ haborted)).rest rfl rfl rfl rfl id
  | cut hk haborted halive huntold => exact hworkers.cut hk halive (hlocks.aborted _ haborted)
  | waited _ => exact hworkers.rest rfl rfl rfl rfl id
  | stop _ => exact hworkers.rest rfl rfl rfl rfl fun h => by cases h
  | drainAborts _ => exact hworkers.rest rfl rfl rfl rfl id
  | reportUnsent => exact hworkers.rest rfl rfl rfl rfl id
  | restart _ => exact .fresh' _ _ _

/-! ## First in, first out -/

/-- What was put into the queue of the thread, in order. -/
def queuedOn (t : ThreadRef) (log : List (Obs β)) : List (Queued β) :=
  log.filterMap fun
    | .queued t' item no _ => if t' = t then some ⟨item, no⟩ else none
    | _ => none

/-- What has ended on the thread, in order. -/
def endedOn (t : ThreadRef) (log : List (Obs β)) : List (Queued β) :=
  log.filterMap fun
    | .ended t' item no _ => if t' = t then some ⟨item, no⟩ else none
    | _ => none

section Log

variable {t t' : ThreadRef} {log more : List (Obs β)} {item : Item β} {no : ℕ}

@[simp] theorem queuedOn_append :
    queuedOn t (log ++ more) = queuedOn t log ++ queuedOn t more :=
  List.filterMap_append

@[simp] theorem endedOn_append : endedOn t (log ++ more) = endedOn t log ++ endedOn t more :=
  List.filterMap_append

@[simp] theorem queuedOn_nil : queuedOn t ([] : List (Obs β)) = [] := rfl

@[simp] theorem endedOn_nil : endedOn t ([] : List (Obs β)) = [] := rfl

@[simp] theorem queuedOn_queued {kept : Bool} :
    queuedOn t [.queued t' item no kept] = if t' = t then [⟨item, no⟩] else [] := by
  by_cases h : t' = t <;> simp [queuedOn, h]

@[simp] theorem endedOn_ended {how : Ended} :
    endedOn t [.ended t' item no how] = if t' = t then [⟨item, no⟩] else [] := by
  by_cases h : t' = t <;> simp [endedOn, h]

@[simp] theorem endedOn_queued {kept : Bool} : endedOn t [.queued t' item no kept] = [] := rfl

@[simp] theorem queuedOn_ended {how : Ended} : queuedOn t [.ended t' item no how] = [] := rfl

theorem queuedOn_aside (h : ∀ obs ∈ more, obs.aside = true) : queuedOn t more = [] := by
  refine List.filterMap_eq_nil_iff.mpr fun obs hobs => ?_
  have haside := h obs hobs
  cases obs <;> first | rfl | cases haside

theorem endedOn_aside (h : ∀ obs ∈ more, obs.aside = true) : endedOn t more = [] := by
  refine List.filterMap_eq_nil_iff.mpr fun obs hobs => ?_
  have haside := h obs hobs
  cases obs <;> first | rfl | cases haside

end Log

/-- Each queue holds what was put into it and has not ended, in order. -/
def Fifo (s : Sys β) : Prop :=
  ∀ t, queuedOn t s.log = endedOn t s.log ++ (s.queue t).items

theorem Fifo.aside (h : s.Fifo) (more : List (Obs β)) (hmore : ∀ obs ∈ more, obs.aside = true)
    (hlog : s'.log = s.log ++ more) (hitems : ∀ t, (s'.queue t).items = (s.queue t).items) :
    s'.Fifo := by
  intro t
  rw [hlog, hitems, queuedOn_append, endedOn_append, queuedOn_aside hmore, endedOn_aside hmore,
    List.append_nil, List.append_nil]
  exact h t

theorem Fifo.same (h : s.Fifo) (hlog : s'.log = s.log) (hqueue : s'.queue = s.queue) :
    s'.Fifo := by
  intro t
  rw [hlog, hqueue]
  exact h t

theorem Moves.fifo (h : Moves json s s') (hworkers : s.Workers) (hfifo : s.Fifo) : s'.Fifo := by
  cases h with
  | unsent hc hplace _ => exact hfifo.aside [_] (by simp [Obs.aside]) rfl fun _ => rfl
  | pushed hc hplace _ =>
      rename_i c call no _
      intro t
      have hold := hfifo t
      by_cases ht : call.thread = t
      · subst ht
        simp [observe, Sys.setCall, Sys.push, setQueue, hold]
      · simp [observe, Sys.setCall, Sys.push, setQueue, hold, ht, Ne.symm ht]
  | task hk _ _ _ _ _ _ hmore =>
      exact hfifo.aside _ (fun obs hobs => Obs.aside_of_quiet (hmore obs hobs)) rfl fun _ => rfl
  | left hk hitems =>
      rename_i k t
      refine hfifo.aside [] (by simp) (by simp [setQueue, setTask]) fun t' => ?_
      by_cases ht : t' = t
      · subst ht
        simp [setQueue, setTask]
      · simp [setQueue, setTask, ht]
  | droppedUnsent hk _ _ => exact hfifo.aside [_] (by simp [Obs.aside]) rfl fun _ => rfl
  | sent hk _ => exact hfifo.aside [_] (by simp [Obs.aside]) rfl fun _ => rfl
  | retried hk =>
      rename_i k t head error
      refine hfifo.aside [_] (by simp [Obs.aside]) rfl fun t' => ?_
      by_cases ht : t' = t
      · subst ht
        simp [setQueue, setTask, observe]
      · simp [setQueue, setTask, observe, ht]
  | refused hk => exact hfifo.aside [_] (by simp [Obs.aside, refusal]) rfl fun _ => rfl
  | popped hk =>
      rename_i k t head how
      intro t'
      have hold := hfifo t'
      by_cases ht : t = t'
      · subst ht
        -- the item that the worker ends is the head of the queue
        have hhead := hworkers.head k t _ head hk rfl
        obtain ⟨rest, hitems⟩ : ∃ rest, (s.queue t).items = head :: rest := by
          cases hq : (s.queue t).items with
          | nil =>
              rw [hq] at hhead
              cases hhead
          | cons x rest =>
              rw [hq] at hhead
              cases hhead
              exact ⟨rest, rfl⟩
        simp [observe, setTask, Sys.pop, setQueue, hold, hitems]
      · simp [observe, setTask, Sys.pop, setQueue, hold, ht, Ne.symm ht]
  | waited hwait =>
      exact hfifo.aside _ (fun obs hobs => Obs.aside_of_wait (hwait.ofWait obs hobs)) rfl fun _ => rfl
  | reportUnsent =>
      refine hfifo.aside _ (fun obs hobs => ?_) rfl fun _ => rfl
      obtain ⟨queued, -, rfl⟩ := List.mem_map.mp hobs
      rfl
  | restart _ => exact fun t => rfl
  | _ => exact hfifo.same rfl rfl

/-! ## All of it -/

structure Inv (s : Sys β) : Prop where
  locks : s.Locks
  workers : s.Workers
  fifo : s.Fifo

theorem Moves.inv (h : Moves json s s') (hinv : s.Inv) : s'.Inv :=
  ⟨h.locks hinv.locks, h.workers hinv.locks hinv.workers, h.fifo hinv.workers hinv.fifo⟩

theorem reachable_inv (h : (machine json).Reachable s) : s.Inv := by
  refine h.invariant ⟨.fresh _ _ _, .fresh' _ _ _, fun _ => rfl⟩ ?_
  intro s s' e hinv hs
  exact (step_moves hs).inv hinv

end RunnerKit.Threads.Delivery.Sys
